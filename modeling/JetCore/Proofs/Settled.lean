import JetCore.Ref.CreateWatch

/-!
# When `wait_until_settled` returns

A size counts as settled once `stable_reads` polls in a row have repeated it,
so what the loop waits for is a window of one poll more. The counter says how
long the run of equal sizes is that ends with the last poll (`Counts`); the
size it starts from is none that a poll can find, so the first poll only
begins a run. With that the call returns the size of the first window there
is, unless a poll raises before that is complete, and it returns at all if a
window is ever complete or a poll raises (`waitUntilSettled_spec`).
-/

namespace JetCore

open Lib

/-- `FileNotFoundError` -/
def fileNotFoundError : Exn := .osError .enoent

namespace Settling

variable (polls : ℕ → Except Exn ℕ) (stableReads : ℕ)

/-- From this poll on, `stableReads + 1` in a row find this size. -/
def Window (first size : ℕ) : Prop :=
  ∀ i ≤ stableReads, polls (first + i) = .ok size

/-- Every poll before this one finds a size. -/
def Present (turn : ℕ) : Prop := ∀ i < turn, ∃ size, polls i = .ok size

/-- The first window, and no poll up to its end raises. -/
structure SettlesAt (first size : ℕ) : Prop where
  present : Present polls (first + stableReads + 1)
  window : Window polls stableReads first size
  earliest : ∀ first' < first, ∀ size',
    ¬ Window polls stableReads first' size'

/-- The first poll that raises, and no window is complete before it. -/
structure RaisesAt (turn : ℕ) (e : Exn) : Prop where
  present : Present polls turn
  raised : polls turn = .error e
  unsettled : ∀ first size, first + stableReads < turn →
    ¬ Window polls stableReads first size

/-- What the call should come to. -/
def Outcome : Except Exn (Option ℤ) → Prop
  | .ok (some v) => ∃ first size : ℕ, v = size ∧
      SettlesAt polls stableReads first size
  | .ok none => ∃ turn, RaisesAt polls stableReads turn fileNotFoundError
  | .error e => e ≠ fileNotFoundError ∧
      ∃ turn, RaisesAt polls stableReads turn e

/-- What the call comes to, after however many turns. -/
def Ends (result : Except Exn (Option ℤ)) : Prop :=
  ∃ fuel, waitUntilSettled polls stableReads fuel 0 {} = some result

variable {polls} {stableReads} {turn first size : ℕ} {s : Settling} {e : Exn}

/-! ## The counter -/

/-- The state has counted the run of equal sizes that ends before the turn. -/
structure Counts (polls : ℕ → Except Exn ℕ) (turn : ℕ) (s : Settling)
    (first size : ℕ) : Prop where
  length : first + s.consecutiveMatches + 1 = turn
  last : s.lastSize = size
  same : ∀ i, first ≤ i → i < turn → polls i = .ok size
  maximal : ∀ i, i + 1 = first → polls i ≠ .ok size

/-- What the state has of the polls before the turn. -/
def After (polls : ℕ → Except Exn ℕ) (turn : ℕ) (s : Settling) : Prop :=
  turn = 0 ∧ s = {} ∨ ∃ first size, Counts polls turn s first size

theorem counts_fresh (hpoll : polls turn = .ok size)
    (hne : ∀ i, i + 1 = turn → polls i ≠ .ok size) :
    Counts polls (turn + 1) ⟨size, 0⟩ turn size where
  length := rfl
  last := rfl
  same i hle hlt := by
    have heq : i = turn := by omega
    rw [heq]
    exact hpoll
  maximal := hne

theorem After.poll (h : After polls turn s) (hpoll : polls turn = .ok size) :
    After polls (turn + 1) (s.poll size) := by
  rw [Settling.poll]
  rcases h with ⟨rfl, rfl⟩ | ⟨first, last, h⟩
  · have hsentinel : ¬ (size : ℤ) = -1 := by omega
    rw [if_neg hsentinel]
    exact .inr ⟨0, size, counts_fresh hpoll fun i hi => by omega⟩
  · split
    · next heq =>
        rw [h.last, Nat.cast_inj] at heq
        subst heq
        refine .inr ⟨first, size, ?_, h.last, fun i hle hlt => ?_, h.maximal⟩
        · have hlength := h.length
          show first + (s.consecutiveMatches + 1) + 1 = turn + 1
          omega
        · rcases Nat.lt_succ_iff_lt_or_eq.mp hlt with hlt | rfl
          · exact h.same i hle hlt
          · exact hpoll
    · next hne =>
        refine .inr ⟨turn, size, counts_fresh hpoll fun i hi hsize => hne ?_⟩
        have hlength := h.length
        rw [h.same i (by omega) (by omega)] at hsize
        rw [h.last, Except.ok.inj hsize]

/-! ## The head of the loop -/

/-- What holds at the head of the loop: a window that was complete before the
last poll would have ended it. -/
structure AtHead (polls : ℕ → Except Exn ℕ) (stableReads turn : ℕ)
    (s : Settling) : Prop where
  present : Present polls turn
  after : After polls turn s
  unsettled : ∀ first size, first + stableReads + 1 < turn →
    ¬ Window polls stableReads first size

theorem atHead_init : AtHead polls stableReads 0 {} :=
  ⟨fun i hi => by omega, .inl ⟨rfl, rfl⟩, fun first size h => by omega⟩

/-- Enough matches are a window, the first one. -/
theorem AtHead.settles (h : AtHead polls stableReads turn s)
    (hreads : 0 < stableReads) (hdone : s.done stableReads = true) :
    ∃ first size : ℕ, s.lastSize = size ∧
      SettlesAt polls stableReads first size := by
  have hmatches : stableReads ≤ s.consecutiveMatches :=
    of_decide_eq_true hdone
  rcases h.after with ⟨-, rfl⟩ | ⟨first, size, hcounts⟩
  · have hzero : stableReads ≤ 0 := hmatches
    omega
  · have hlength := hcounts.length
    refine ⟨first, size, hcounts.last, fun i hi => h.present i (by omega),
      fun i hi => hcounts.same _ (by omega) (by omega), fun first' hlt => ?_⟩
    exact fun size' => h.unsettled first' size' (by omega)

/-- Too few matches, and no window is complete. -/
theorem AtHead.not_window (h : AtHead polls stableReads turn s)
    (hdone : ¬ s.done stableReads = true) (first size : ℕ)
    (hlt : first + stableReads < turn) :
    ¬ Window polls stableReads first size := by
  intro hwindow
  have hmatches : ¬ stableReads ≤ s.consecutiveMatches :=
    fun hle => hdone (decide_eq_true hle)
  rcases h.after with ⟨rfl, -⟩ | ⟨start, last, hcounts⟩
  · omega
  · have hlength := hcounts.length
    by_cases hearly : first + stableReads + 1 < turn
    · exact h.unsettled first size hearly hwindow
    · -- the window ends with the run, and starts before it
      have hend := hwindow stableReads le_rfl
      rw [hcounts.same _ (by omega) (by omega)] at hend
      have hbefore := hwindow (start - 1 - first) (by omega)
      rw [← Except.ok.inj hend,
        show first + (start - 1 - first) = start - 1 by omega] at hbefore
      exact hcounts.maximal (start - 1) (by omega) hbefore

theorem AtHead.next (h : AtHead polls stableReads turn s)
    (hdone : ¬ s.done stableReads = true) (hpoll : polls turn = .ok size) :
    AtHead polls stableReads (turn + 1) (s.poll size) where
  present i hi := by
    rcases Nat.lt_succ_iff_lt_or_eq.mp hi with hi | rfl
    · exact h.present i hi
    · exact ⟨size, hpoll⟩
  after := h.after.poll hpoll
  unsettled first size hlt := h.not_window hdone first size (by omega)

theorem AtHead.raises (h : AtHead polls stableReads turn s)
    (hdone : ¬ s.done stableReads = true) (hpoll : polls turn = .error e) :
    RaisesAt polls stableReads turn e :=
  ⟨h.present, hpoll, h.not_window hdone⟩

/-! ## The loop -/

/-- What the call comes to is what it should. -/
theorem AtHead.outcome (hreads : 0 < stableReads)
    {result : Except Exn (Option ℤ)} (fuel : ℕ) : ∀ {turn : ℕ} {s : Settling},
    AtHead polls stableReads turn s →
    waitUntilSettled polls stableReads fuel turn s = some result →
    Outcome polls stableReads result := by
  induction fuel with
  | zero =>
      intro turn s _ hrun
      cases hrun
  | succ fuel ih =>
      intro turn s h hrun
      rw [waitUntilSettled] at hrun
      split at hrun
      · next hdone =>
          cases hrun
          obtain ⟨first, size, hlast, hsettles⟩ := h.settles hreads hdone
          exact ⟨first, size, hlast, hsettles⟩
      · next hdone =>
          split at hrun
          · next size hpoll => exact ih (h.next hdone hpoll) hrun
          · next hpoll =>
              cases hrun
              exact ⟨turn, h.raises hdone hpoll⟩
          · next e hne hpoll =>
              cases hrun
              exact ⟨hne, turn, h.raises hdone hpoll⟩

/-- As long as it has not come to anything, it goes on polling. -/
theorem AtHead.goes_on (fuel : ℕ) : ∀ {turn : ℕ} {s : Settling},
    AtHead polls stableReads turn s →
    waitUntilSettled polls stableReads fuel turn s = none →
    ∃ s', AtHead polls stableReads (turn + fuel) s' := by
  induction fuel with
  | zero => exact fun h _ => ⟨_, h⟩
  | succ fuel ih =>
      intro turn s h hrun
      rw [waitUntilSettled] at hrun
      split at hrun
      · cases hrun
      · next hdone =>
          split at hrun
          · next size hpoll =>
              obtain ⟨s', hs'⟩ := ih (h.next hdone hpoll) hrun
              rw [Nat.add_right_comm] at hs'
              exact ⟨s', hs'⟩
          · cases hrun
          · cases hrun

/-- A call that cannot come to the head of the loop once more has ended. -/
theorem ends_of_not_atHead (hreads : 0 < stableReads) (turns : ℕ)
    (h : ∀ s, ¬ AtHead polls stableReads turns s) :
    ∃ result, Ends polls stableReads result ∧
      Outcome polls stableReads result := by
  cases hrun : waitUntilSettled polls stableReads turns 0 {} with
  | none =>
      obtain ⟨s, hs⟩ := atHead_init.goes_on turns hrun
      rw [Nat.zero_add] at hs
      exact absurd hs (h s)
  | some result =>
      exact ⟨result, ⟨turns, hrun⟩, atHead_init.outcome hreads turns hrun⟩

theorem ends_of_window (hreads : 0 < stableReads)
    (h : Window polls stableReads first size) :
    ∃ result, Ends polls stableReads result ∧
      Outcome polls stableReads result :=
  ends_of_not_atHead hreads (first + stableReads + 2)
    fun _ hs => hs.unsettled first size (by omega) h

theorem ends_of_raised (hreads : 0 < stableReads)
    (h : polls turn = .error e) :
    ∃ result, Ends polls stableReads result ∧
      Outcome polls stableReads result :=
  ends_of_not_atHead hreads (turn + 1) fun _ hs => by
    obtain ⟨size, hsize⟩ := hs.present turn (by omega)
    rw [h] at hsize
    cases hsize

/-! ## What it comes to is one thing -/

theorem SettlesAt.unique {first' size' : ℕ}
    (h : SettlesAt polls stableReads first size)
    (h' : SettlesAt polls stableReads first' size') : size = size' := by
  rcases Nat.lt_trichotomy first first' with hlt | rfl | hlt
  · exact absurd h.window (h'.earliest first hlt size)
  · have hsize := (h.window 0 (Nat.zero_le _)).symm.trans
      (h'.window 0 (Nat.zero_le _))
    exact Except.ok.inj hsize
  · exact absurd h'.window (h.earliest first' hlt size')

theorem RaisesAt.unique {turn' : ℕ} {e' : Exn}
    (h : RaisesAt polls stableReads turn e)
    (h' : RaisesAt polls stableReads turn' e') : e = e' := by
  rcases Nat.lt_trichotomy turn turn' with hlt | rfl | hlt
  · obtain ⟨size, hsize⟩ := h'.present turn hlt
    cases h.raised.symm.trans hsize
  · exact Except.error.inj (h.raised.symm.trans h'.raised)
  · obtain ⟨size, hsize⟩ := h.present turn' hlt
    cases h'.raised.symm.trans hsize

theorem SettlesAt.not_raisesAt (h : SettlesAt polls stableReads first size)
    (h' : RaisesAt polls stableReads turn e) : False := by
  by_cases hlt : first + stableReads < turn
  · exact h'.unsettled first size hlt h.window
  · obtain ⟨found, hfound⟩ := h.present turn (by omega)
    cases h'.raised.symm.trans hfound

/-- The call comes to what it should if it comes to anything. -/
theorem ends_settled (hreads : 0 < stableReads)
    (h : SettlesAt polls stableReads first size) :
    Ends polls stableReads (.ok (some size)) := by
  obtain ⟨result, hends, houtcome⟩ := ends_of_window hreads h.window
  match result, houtcome with
  | .ok (some v), ⟨first', size', hv, h'⟩ =>
      rw [hv, ← h.unique h'] at hends
      exact hends
  | .ok none, ⟨turn, h'⟩ => exact (h.not_raisesAt h').elim
  | .error e, ⟨_, turn, h'⟩ => exact (h.not_raisesAt h').elim

/-- What a poll that raises makes of the call. -/
def ofRaised (e : Exn) : Except Exn (Option ℤ) :=
  if e = fileNotFoundError then .ok none else .error e

theorem ends_raised (hreads : 0 < stableReads)
    (h : RaisesAt polls stableReads turn e) :
    Ends polls stableReads (ofRaised e) := by
  obtain ⟨result, hends, houtcome⟩ := ends_of_raised hreads h.raised
  match result, houtcome with
  | .ok (some v), ⟨first, size, _, h'⟩ => exact (h'.not_raisesAt h).elim
  | .ok none, ⟨turn', h'⟩ =>
      rw [ofRaised, if_pos (h.unique h')]
      exact hends
  | .error e', ⟨hne, turn', h'⟩ =>
      have heq := h.unique h'
      rw [ofRaised, if_neg (heq ▸ hne), heq]
      exact hends

end Settling

open Settling

/-- The call returns a size, which is none below zero, exactly if that is the
size of the first window and no poll up to its end raises. It returns `None`,
or raises, exactly if the first poll that raises does so before any window is
complete, and it is `FileNotFoundError`, or another. And it ends if the size
is the same from some poll on, or the file disappears. -/
theorem waitUntilSettled_spec {polls : ℕ → Except Exn ℕ} {stableReads : ℕ}
    (hreads : 0 < stableReads) :
    (∀ v, Ends polls stableReads (.ok (some v)) ↔
      ∃ first size : ℕ, v = size ∧ SettlesAt polls stableReads first size) ∧
    (Ends polls stableReads (.ok none) ↔
      ∃ turn, RaisesAt polls stableReads turn fileNotFoundError) ∧
    (∀ e, Ends polls stableReads (.error e) ↔
      e ≠ fileNotFoundError ∧ ∃ turn, RaisesAt polls stableReads turn e) ∧
    ((∃ start size, ∀ i ≥ start, polls i = .ok size) ∨
        (∃ turn, polls turn = .error fileNotFoundError) →
      ∃ result, Ends polls stableReads result) := by
  have hsound : ∀ {result}, Ends polls stableReads result →
      Outcome polls stableReads result := by
    intro result hends
    obtain ⟨fuel, hrun⟩ := hends
    exact atHead_init.outcome hreads fuel hrun
  refine ⟨fun v => ⟨hsound, fun h => ?_⟩, ⟨hsound, fun h => ?_⟩,
    fun e => ⟨hsound, fun h => ?_⟩, fun h => ?_⟩
  · obtain ⟨first, size, rfl, hsettles⟩ := h
    exact ends_settled hreads hsettles
  · obtain ⟨turn, hraises⟩ := h
    exact ends_raised hreads hraises
  · obtain ⟨hne, turn, hraises⟩ := h
    have hends := ends_raised hreads hraises
    rw [ofRaised, if_neg hne] at hends
    exact hends
  · rcases h with ⟨start, size, hconstant⟩ | ⟨turn, hgone⟩
    · have hwindow : Window polls stableReads start size :=
        fun i _ => hconstant _ (Nat.le_add_right start i)
      obtain ⟨result, hends, -⟩ := ends_of_window hreads hwindow
      exact ⟨result, hends⟩
    · obtain ⟨result, hends, -⟩ := ends_of_raised hreads hgone
      exact ⟨result, hends⟩

/-- A write of two chunks: ten bytes, and then thirty for good. -/
def slowWrite : ℕ → Except Exn ℕ
  | 0 => .ok 10
  | _ + 1 => .ok 30

theorem slowWrite_settled :
    Ends slowWrite settleStableReads (.ok (some 30)) := by
  refine ((waitUntilSettled_spec (by decide)).1 30).mpr
    ⟨1, 30, rfl, fun i _ => ?_, fun i _ => ?_, fun first hlt size h => ?_⟩
  · cases i with
    | zero => exact ⟨10, rfl⟩
    | succ i => exact ⟨30, rfl⟩
  · rw [Nat.add_comm]
    rfl
  · obtain rfl : first = 0 := by omega
    cases h 0 (by decide)
    cases h 1 (by decide)

/-- The turn that the creation watch takes of the loop, from a poll of the
file to the next. -/
theorem waitUntilSettled_pollFile {polls : ℕ → Except Exn ℕ} {turn : ℕ}
    {s : Settling} {fs : Fs FileName} {path : PosixPath}
    (hgoing : ¬ s.done settleStableReads = true)
    (hpoll : polls turn = (path.stat fs).map Node.size) (fuel : ℕ) :
    match pollFile fs path s with
    | .again s' =>
        waitUntilSettled polls settleStableReads (fuel + 2) turn s =
          waitUntilSettled polls settleStableReads (fuel + 1) (turn + 1) s'
    | .disappeared =>
        waitUntilSettled polls settleStableReads (fuel + 2) turn s =
          some (.ok none)
    | .settled size =>
        waitUntilSettled polls settleStableReads (fuel + 2) turn s =
          some (.ok (some size))
    | .raised => ∃ e, e ≠ fileNotFoundError ∧
        waitUntilSettled polls settleStableReads (fuel + 2) turn s =
          some (.error e) := by
  rw [waitUntilSettled, if_neg hgoing, hpoll, pollFile.eq_def]
  cases hstat : path.stat fs with
  | ok node =>
      simp only [Except.map]
      by_cases hdone : (s.poll (Node.size node)).done settleStableReads = true
      · simp only [hdone, if_true]
        rw [waitUntilSettled, if_pos hdone]
      · simp only [hdone]
        rfl
  | error e =>
      cases e with
      | osError errno =>
          cases errno with
          | enoent => rfl
          | _ => exact ⟨_, by simp [fileNotFoundError], rfl⟩
      | _ => exact ⟨_, by simp [fileNotFoundError], rfl⟩

end JetCore
