import JetCore.Ref.Heartbeat
import Mathlib.Algebra.Order.Archimedean.Basic
import Mathlib.Data.Rat.Floor

/-!
# How many missed beats the time to live absorbs

Between two attempts lies the interval and what the first of them takes, so the
third attempt after a stored one comes sixty seconds later and whatever the
attempts in between took. The time to live is sixty seconds. So one missed beat
is absorbed with seconds to spare, and two in a row only when nothing around
them takes any time at all (`neverExpired_iff`).
-/

namespace JetCore.Heartbeat

/-- From when `heartbeat` returned. -/
def NeverExpired (h : Heartbeat) : Prop := ∀ t, h.returned ≤ t → h.Live t

/-- An attempt takes no more than five seconds. -/
def Prompt (h : Heartbeat) : Prop := ∀ n, (h.beat n).latency ≤ 5

/-- No three attempts in a row fail. -/
def AtMostTwoMissed (h : Heartbeat) : Prop :=
  ∀ n, ¬ (h.Failed n ∧ h.Failed (n + 1) ∧ h.Failed (n + 2))

/-- Nothing takes any time from the store of the `n`-th attempt to that of the
third after it, but for the sleeps. -/
structure NoTime (h : Heartbeat) (n : ℕ) : Prop where
  before : (h.beat n).storedAfter = some (h.beat n).latency
  missed : (h.beat (n + 1)).latency = 0
  missed' : (h.beat (n + 2)).latency = 0
  after : (h.beat (n + 3)).storedAfter = some 0

variable {h : Heartbeat}

/-! ## The timeline -/

theorem start_succ (n : ℕ) :
    h.start (n + 1) = h.start n + (h.beat n).latency + 20 := rfl

/-- An attempt is over an interval before any later one. -/
theorem start_le {m n : ℕ} (hmn : m < n) :
    h.start m + (h.beat m).latency + 20 ≤ h.start n := by
  induction n with
  | zero => omega
  | succ n ih =>
      rw [start_succ]
      rcases Nat.lt_succ_iff_lt_or_eq.mp hmn with hlt | rfl
      · have hlat := (h.beat n).latency_nonneg
        have hbefore := ih hlt
        linarith
      · exact le_refl _

theorem start_ge (n : ℕ) : 20 * (n : ℚ) ≤ h.start n := by
  induction n with
  | zero => simp [start]
  | succ n ih =>
      have hlat := (h.beat n).latency_nonneg
      rw [start_succ]
      push_cast
      linarith

theorem storedAt_eq {n : ℕ} {s : ℚ} (hs : h.storedAt n = some s) :
    ∃ d, (h.beat n).storedAfter = some d ∧ s = h.start n + d ∧ 0 ≤ d ∧
      d ≤ (h.beat n).latency := by
  obtain ⟨d, hd, rfl⟩ := Option.map_eq_some_iff.mp hs
  exact ⟨d, hd, rfl, (h.beat n).stored d hd⟩

theorem storedAt_of_not_failed {n : ℕ} (hn : ¬ h.Failed n) :
    ∃ s, h.storedAt n = some s := by
  obtain ⟨d, hd⟩ := Option.ne_none_iff_exists'.mp hn
  exact ⟨h.start n + d, by rw [storedAt, hd]; rfl⟩

theorem Failed.storedAt {n : ℕ} (hn : h.Failed n) : h.storedAt n = none := by
  rw [Heartbeat.storedAt, hn]
  rfl

theorem storedAt_lt {m n : ℕ} {s s' : ℚ} (hmn : m < n)
    (hs : h.storedAt m = some s) (hs' : h.storedAt n = some s') :
    s + 20 ≤ s' := by
  obtain ⟨d, -, rfl, -, hd⟩ := storedAt_eq hs
  obtain ⟨d', -, rfl, hd', -⟩ := storedAt_eq hs'
  have hstart := start_le (h := h) hmn
  linarith

/-! ## From one store to the next -/

/-- Before the time to live is over, the entry is stored again. -/
theorem next_store (hprompt : h.Prompt)
    (htime : ∀ n, h.Failed (n + 1) → h.Failed (n + 2) → h.NoTime n)
    {n : ℕ} {s : ℚ} (hs : h.storedAt n = some s) :
    ∃ m s', n < m ∧ h.storedAt m = some s' ∧ s' ≤ s + 60 := by
  obtain ⟨d, hd, rfl, hd_nonneg, -⟩ := storedAt_eq hs
  by_cases hfirst : h.Failed (n + 1)
  · by_cases hsecond : h.Failed (n + 2)
    · -- two missed beats, in no time
      obtain ⟨hbefore, hlat, hlat', hafter⟩ := htime n hfirst hsecond
      refine ⟨n + 3, h.start (n + 3) + 0, by omega, by
        rw [storedAt, hafter]; rfl, ?_⟩
      obtain rfl := Option.some.inj (hd.symm.trans hbefore)
      rw [start_succ, start_succ, start_succ, hlat, hlat']
      linarith
    · -- one missed beat
      obtain ⟨s', hs'⟩ := storedAt_of_not_failed hsecond
      obtain ⟨d', -, rfl, -, hd'⟩ := storedAt_eq hs'
      refine ⟨n + 2, _, by omega, hs', ?_⟩
      have h₀ := hprompt n
      have h₁ := hprompt (n + 1)
      have h₂ := hprompt (n + 2)
      rw [start_succ, start_succ]
      linarith
  · obtain ⟨s', hs'⟩ := storedAt_of_not_failed hfirst
    obtain ⟨d', -, rfl, -, hd'⟩ := storedAt_eq hs'
    refine ⟨n + 1, _, by omega, hs', ?_⟩
    have h₀ := hprompt n
    have h₁ := hprompt (n + 1)
    rw [start_succ]
    linarith

/-- The last store there was by the time `t`. -/
theorem exists_last_store {t : ℚ} (ht : h.returned ≤ t) :
    ∃ n s, h.storedAt n = some s ∧ s ≤ t ∧
      ∀ m s', n < m → h.storedAt m = some s' → t < s' := by
  classical
  let stored (n : ℕ) : Prop := ∃ s, h.storedAt n = some s ∧ s ≤ t
  have hzero : stored 0 := by
    obtain ⟨s, hs⟩ := storedAt_of_not_failed (h := h)
      (n := 0) (Option.isSome_iff_ne_none.mp h.first)
    obtain ⟨d, -, hsd, -, hd⟩ := storedAt_eq hs
    refine ⟨s, hs, ?_⟩
    rw [returned] at ht
    linarith
  obtain ⟨bound, hbound⟩ := exists_nat_gt t
  have hfew : ∀ m, stored m → m ≤ bound := by
    rintro m ⟨s, hs, hle⟩
    obtain ⟨d, -, rfl, hd, -⟩ := storedAt_eq hs
    by_contra hgt
    have hstart := start_ge (h := h) m
    have hm : (bound : ℚ) < m := by exact_mod_cast not_le.mp hgt
    have hm_nonneg : (0 : ℚ) ≤ bound := by exact_mod_cast Nat.zero_le _
    linarith
  obtain ⟨s, hs, hle⟩ := Nat.findGreatest_spec (P := stored) (Nat.zero_le bound)
    hzero
  refine ⟨Nat.findGreatest stored bound, s, hs, hle, fun m s' hm hs' => ?_⟩
  by_contra hnot
  have hstored : stored m := ⟨s', hs', not_lt.mp hnot⟩
  exact Nat.findGreatest_is_greatest hm (hfew m hstored) hstored

/-! ## The margin -/

/-- Two missed beats and a store more than sixty seconds after the last one: a
minute after that, the entry is not there. -/
theorem noTime_of_neverExpired (hnever : h.NeverExpired)
    (hprompt : h.Prompt) (hmissed : h.AtMostTwoMissed) {n : ℕ}
    (hfirst : h.Failed (n + 1)) (hsecond : h.Failed (n + 2)) : h.NoTime n := by
  obtain ⟨s, hs⟩ := storedAt_of_not_failed (h := h) (n := n)
    fun hn => hmissed n ⟨hn, hfirst, hsecond⟩
  obtain ⟨s', hs'⟩ := storedAt_of_not_failed (h := h) (n := n + 3)
    fun hn => hmissed (n + 1) ⟨hfirst, hsecond, hn⟩
  obtain ⟨d, hd, hsd, hd_nonneg, hd_le⟩ := storedAt_eq hs
  obtain ⟨d', hd', hsd', hd'_nonneg, -⟩ := storedAt_eq hs'
  have hreturned : h.returned ≤ s + 60 := by
    have h₀ := hprompt 0
    have hstart : 0 ≤ h.start n :=
      le_trans (by positivity) (start_ge (h := h) n)
    rw [returned, start]
    linarith
  have hgap : s' ≤ s + 60 := by
    obtain ⟨m, u, hu, hule, hult⟩ := hnever (s + 60) hreturned
    rw [kvTtlSeconds] at hult
    by_contra hnot
    rcases Nat.lt_or_ge n m with hnm | hmn
    · rcases Nat.lt_or_ge m (n + 3) with hm | hm
      · have hcase : m = n + 1 ∨ m = n + 2 := by omega
        rcases hcase with rfl | rfl
        · rw [hfirst.storedAt] at hu
          cases hu
        · rw [hsecond.storedAt] at hu
          cases hu
      · rcases Nat.lt_or_eq_of_le hm with hlt | rfl
        · have := storedAt_lt hlt hs' hu
          linarith
        · obtain rfl := Option.some.inj (hs'.symm.trans hu)
          linarith
    · rcases Nat.lt_or_eq_of_le hmn with hlt | rfl
      · have := storedAt_lt hlt hu hs
        linarith
      · obtain rfl := Option.some.inj (hs.symm.trans hu)
        linarith
  have h₁ := (h.beat (n + 1)).latency_nonneg
  have h₂ := (h.beat (n + 2)).latency_nonneg
  rw [hsd, hsd', start_succ, start_succ, start_succ] at hgap
  have hzero : d = (h.beat n).latency := by linarith
  have hzero' : d' = 0 := by linarith
  exact ⟨hzero ▸ hd, by linarith, by linarith, hzero' ▸ hd'⟩

/-- With prompt attempts of which no three in a row fail, the entry never
expires exactly when no two in a row fail, unless nothing around them takes any
time. -/
theorem neverExpired_iff (hprompt : h.Prompt) (hmissed : h.AtMostTwoMissed) :
    h.NeverExpired ↔
      ∀ n, h.Failed (n + 1) → h.Failed (n + 2) → h.NoTime n := by
  constructor
  · intro hnever n
    exact noTime_of_neverExpired hnever hprompt hmissed
  · intro htime t ht
    obtain ⟨n, s, hs, hle, hlast⟩ := exists_last_store ht
    obtain ⟨m, s', hm, hs', hgap⟩ := next_store hprompt htime hs
    have hlt := hlast m s' hm hs'
    exact ⟨n, s, hs, hle, by rw [kvTtlSeconds]; linarith⟩

/-- An attempt that takes a second. -/
def second (succeeds : Bool) : Beat where
  latency := 1
  storedAfter := if succeeds then some 1 else none
  latency_nonneg := by norm_num
  stored d hd := by
    cases succeeds with
    | false => cases hd
    | true =>
        cases hd
        norm_num

theorem second_stored {succeeds : Bool}
    (h : (second succeeds).storedAfter = none) : succeeds = false := by
  cases succeeds with
  | false => rfl
  | true => cases h

/-- Every other attempt fails. -/
def everyOther : Heartbeat where
  beat n := second (n % 2 = 0)
  first := rfl

theorem everyOther_neverExpired : everyOther.NeverExpired ↔
    ∀ n, everyOther.Failed (n + 1) → everyOther.Failed (n + 2) →
      everyOther.NoTime n := by
  have hodd : ∀ n, everyOther.Failed n → n % 2 ≠ 0 := by
    intro n hn
    exact of_decide_eq_false (second_stored hn)
  refine neverExpired_iff (fun n => ?_) fun n hall => ?_
  · show (1 : ℚ) ≤ 5
    norm_num
  · have h₀ := hodd n hall.1
    have h₁ := hodd (n + 1) hall.2.1
    omega

/-- The first two attempts after the registration fail. -/
def coupleMissed : Heartbeat where
  beat n := second (n = 0 ∨ 3 ≤ n)
  first := rfl

/-- Two missed beats of a second each, and the entry is gone before the third
comes. -/
theorem coupleMissed_expires : coupleMissed.Prompt ∧
    coupleMissed.AtMostTwoMissed ∧ ¬ coupleMissed.NeverExpired := by
  have hprompt : coupleMissed.Prompt := fun n => by
    show (1 : ℚ) ≤ 5
    norm_num
  have hfew : coupleMissed.AtMostTwoMissed := by
    intro n hall
    have hthree : coupleMissed.Failed (n + 2) := hall.2.2
    have hnot : ∀ m, coupleMissed.Failed m → ¬ (m = 0 ∨ 3 ≤ m) := by
      intro m hm
      exact of_decide_eq_false (second_stored hm)
    have h₀ := hnot n hall.1
    have h₂ := hnot (n + 2) hthree
    omega
  refine ⟨hprompt, hfew, fun hnever => ?_⟩
  have hzero := noTime_of_neverExpired hnever hprompt hfew (n := 0) rfl rfl
  have hone : (1 : ℚ) = 0 := hzero.missed
  norm_num at hone

end JetCore.Heartbeat
