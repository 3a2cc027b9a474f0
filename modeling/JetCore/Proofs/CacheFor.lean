import JetCore.Ref.CacheFor

/-!
# One watch for each subject

As long as no subject is looked up while the first cache for it is on its way,
there is one watch for each subject and the client holds it. `_cache_for` does
nothing to have it so: the subject is looked up before the await and the cache
is held after it. So two publishes that come together for a new subject start
a watch each, the second takes the place of the first, and `close` stops the
one it finds (`oneWatch_apart`).
-/

namespace JetCore

open Lib

theorem getElem?_concat_some {α : Type} {l : List α} {x y : α} {j : ℕ} :
    (l ++ [x])[j]? = some y ↔ l[j]? = some y ∨ j = l.length ∧ x = y := by
  rw [List.getElem?_append]
  split
  · next hj => exact ⟨.inl, fun h => h.resolve_right fun h' => by omega⟩
  · next hj =>
      rw [List.getElem?_singleton, List.getElem?_eq_none (by omega)]
      split
      · next hzero => simp; omega
      · next hzero => simp; omega

theorem getElem?_set_some {α : Type} {l : List α} {x y z : α} {i j : ℕ}
    (hi : l[i]? = some z) : (l.set i x)[j]? = some y ↔
      j = i ∧ x = y ∨ j ≠ i ∧ l[j]? = some y := by
  obtain ⟨hlt, -⟩ := List.getElem?_eq_some_iff.mp hi
  by_cases hji : j = i
  · subst hji
    rw [List.getElem?_set_self hlt, Option.some.injEq]
    simp
  · rw [List.getElem?_set_ne (Ne.symm hji)]
    simp [hji]

/-- The subject whose first cache the publish is on its way to. -/
def CacheUse.lookingUp : CacheUse → Option String
  | .watching subject => some subject
  | .starting subject _ => some subject
  | _ => none

namespace CacheHolder

/-- No two caches are of one subject, and those whose `start` has returned are
held. -/
structure OneWatch (s : CacheHolder) : Prop where
  once : ∀ (m n : ℕ) (c d : StartedCache), s.started[m]? = some c →
    s.started[n]? = some d → c.subject = d.subject → m = n
  held : ∀ (n : ℕ) (c : StartedCache), s.started[n]? = some c →
    c.ready = true → s.recipientCaches.get? c.subject = some n

/-- The publish does not look its subject up while another one is on its way
to a first cache of it. -/
def Apart (s : CacheHolder) : CacheAct → Prop
  | .publish subject => s.recipientCaches.get? subject = none →
      ∀ p ∈ s.publishes, p.lookingUp ≠ some subject
  | _ => True

variable {s s' : CacheHolder}

/-! ## Steps -/

theorem step_watchReturns {i : ℕ}
    (h : s.step (.watchReturns i) = some s') :
    ∃ subject, s.publishes[i]? = some (.watching subject) ∧
      s' = { s with
        started := s.started ++ [⟨subject, false⟩]
        publishes := s.publishes.set i
          (.starting subject s.started.length) } := by
  simp only [step] at h
  split at h
  · next subject hi => exact ⟨subject, hi, (Option.some.inj h).symm⟩
  · cases h

theorem step_watchRaises {i : ℕ} (h : s.step (.watchRaises i) = some s') :
    ∃ subject, s.publishes[i]? = some (.watching subject) ∧
      s' = { s with publishes := s.publishes.set i .raised } := by
  simp only [step] at h
  split at h
  · next subject hi => exact ⟨subject, hi, (Option.some.inj h).symm⟩
  · cases h

theorem step_caughtUp {i : ℕ} (h : s.step (.caughtUp i) = some s') :
    ∃ subject cache, s.publishes[i]? = some (.starting subject cache) ∧
      s' = {
        recipientCaches := s.recipientCaches.set subject cache
        started := s.started.set cache ⟨subject, true⟩
        publishes := s.publishes.set i (.cached cache) } := by
  simp only [step] at h
  split at h
  · next subject cache hi =>
      exact ⟨subject, cache, hi, (Option.some.inj h).symm⟩
  · cases h

/-- A publish is on its way to the first cache of its subject, and it is the
only one. -/
def Alone (s : CacheHolder) (i : ℕ) (subject : String) : Prop :=
  s.recipientCaches.get? subject = none ∧
    ∀ (j : ℕ) (q : CacheUse), s.publishes[j]? = some q →
      q.lookingUp = some subject → j = i

/-- What keeps apart publishes apart. -/
structure Sound (s : CacheHolder) : Prop where
  alone : ∀ (i : ℕ) (p : CacheUse) (subject : String),
    s.publishes[i]? = some p → p.lookingUp = some subject → s.Alone i subject
  starting : ∀ (i : ℕ) (subject : String) (n : ℕ),
    s.publishes[i]? = some (.starting subject n) →
    s.started[n]? = some ⟨subject, false⟩
  ready : ∀ (n : ℕ) (subject : String), s.started[n]? = some ⟨subject, true⟩ →
    s.recipientCaches.get? subject = some n
  unready : ∀ (n : ℕ) (subject : String),
    s.started[n]? = some ⟨subject, false⟩ →
    ∃ i : ℕ, s.publishes[i]? = some (.starting subject n)

theorem Sound.oneWatch (h : s.Sound) : s.OneWatch := by
  refine ⟨fun m n c d hm hn hsubject => ?_, fun n c hn hready => ?_⟩
  · obtain ⟨subject, cready⟩ := c
    obtain ⟨_, dready⟩ := d
    cases hsubject
    cases cready with
    | true =>
        have hheld := h.ready m subject hm
        cases dready with
        | true => exact Option.some.inj (hheld.symm.trans (h.ready n _ hn))
        | false =>
            obtain ⟨i, hi⟩ := h.unready n subject hn
            have hnone := (h.alone i _ subject hi rfl).1
            rw [hheld] at hnone
            cases hnone
    | false =>
        obtain ⟨i, hi⟩ := h.unready m subject hm
        have halone := h.alone i _ subject hi rfl
        cases dready with
        | true =>
            have hheld := h.ready n subject hn
            rw [halone.1] at hheld
            cases hheld
        | false =>
            obtain ⟨j, hj⟩ := h.unready n subject hn
            obtain rfl := halone.2 j _ hj rfl
            rw [hi] at hj
            cases hj
            rfl
  · obtain ⟨subject, cready⟩ := c
    cases hready
    exact h.ready n subject hn

theorem sound_init : ({} : CacheHolder).Sound := by
  refine ⟨?_, ?_, ?_, ?_⟩
  · intro i p subject hi
    cases hi
  · intro i subject n hi
    cases hi
  · intro n subject hn
    cases hn
  · intro n subject hn
    cases hn

theorem sound_publish {subject : String} (hs : s.Sound)
    (hapart : s.Apart (.publish subject)) :
    ({ s with publishes := s.publishes ++ [s.lookUp subject] } :
      CacheHolder).Sound := by
  have hlooks : ∀ t, (s.lookUp subject).lookingUp = some t →
      t = subject ∧ s.recipientCaches.get? subject = none := by
    intro t ht
    rw [lookUp] at ht
    split at ht
    · cases ht
    · next hnone =>
        cases ht
        exact ⟨rfl, hnone⟩
  refine ⟨fun i p t hi hp => ?_, fun i t n hi => ?_, hs.ready,
    fun n t hn => ?_⟩
  · rcases getElem?_concat_some.mp hi with hold | ⟨rfl, rfl⟩
    · have halone := hs.alone i p t hold hp
      refine ⟨halone.1, fun j q hj hq => ?_⟩
      rcases getElem?_concat_some.mp hj with hj | ⟨rfl, rfl⟩
      · exact halone.2 j q hj hq
      · obtain ⟨rfl, hnone⟩ := hlooks t hq
        exact absurd hp (hapart hnone p (List.mem_of_getElem? hold))
    · obtain ⟨rfl, hnone⟩ := hlooks t hp
      refine ⟨hnone, fun j q hj hq => ?_⟩
      rcases getElem?_concat_some.mp hj with hj | ⟨rfl, rfl⟩
      · exact absurd hq (hapart hnone q (List.mem_of_getElem? hj))
      · rfl
  · rcases getElem?_concat_some.mp hi with hi | ⟨rfl, hlook⟩
    · exact hs.starting i t n hi
    · rw [lookUp] at hlook
      split at hlook <;> cases hlook
  · obtain ⟨i, hi⟩ := hs.unready n t hn
    exact ⟨i, getElem?_concat_some.mpr (.inl hi)⟩

theorem sound_watchReturns {i : ℕ} {subject : String} (hs : s.Sound)
    (hi : s.publishes[i]? = some (.watching subject)) :
    ({ s with
      started := s.started ++ [⟨subject, false⟩]
      publishes := s.publishes.set i
        (.starting subject s.started.length) } : CacheHolder).Sound := by
  have hset := fun (j : ℕ) (q : CacheUse) => getElem?_set_some
    (x := .starting subject s.started.length) (j := j) (y := q) hi
  refine ⟨fun j p t hj hp => ?_, fun j t n hj => ?_, fun n t hn => ?_,
    fun n t hn => ?_⟩
  · have hwas : ∃ q, s.publishes[j]? = some q ∧ q.lookingUp = some t := by
      rcases (hset j p).mp hj with ⟨rfl, rfl⟩ | ⟨-, hj⟩
      · exact ⟨_, hi, hp⟩
      · exact ⟨p, hj, hp⟩
    obtain ⟨q, hq, hqt⟩ := hwas
    have halone := hs.alone j q t hq hqt
    refine ⟨halone.1, fun k r hk hr => ?_⟩
    rcases (hset k r).mp hk with ⟨rfl, rfl⟩ | ⟨-, hk⟩
    · exact halone.2 k _ hi hr
    · exact halone.2 k r hk hr
  · rcases (hset j _).mp hj with ⟨-, heq⟩ | ⟨-, hj⟩
    · cases heq
      exact getElem?_concat_some.mpr (.inr ⟨rfl, rfl⟩)
    · exact getElem?_concat_some.mpr (.inl (hs.starting j t n hj))
  · rcases getElem?_concat_some.mp hn with hn | ⟨-, heq⟩
    · exact hs.ready n t hn
    · cases heq
  · rcases getElem?_concat_some.mp hn with hn | ⟨rfl, heq⟩
    · obtain ⟨j, hj⟩ := hs.unready n t hn
      refine ⟨j, (hset j _).mpr (.inr ⟨?_, hj⟩)⟩
      rintro rfl
      rw [hi] at hj
      cases hj
    · cases heq
      exact ⟨i, (hset i _).mpr (.inl ⟨rfl, rfl⟩)⟩

theorem sound_watchRaises {i : ℕ} {subject : String} (hs : s.Sound)
    (hi : s.publishes[i]? = some (.watching subject)) :
    ({ s with publishes := s.publishes.set i .raised } :
      CacheHolder).Sound := by
  have hset := fun (j : ℕ) (q : CacheUse) => getElem?_set_some
    (x := .raised) (j := j) (y := q) hi
  refine ⟨fun j p t hj hp => ?_, fun j t n hj => ?_, hs.ready,
    fun n t hn => ?_⟩
  · rcases (hset j p).mp hj with ⟨-, rfl⟩ | ⟨-, hj⟩
    · cases hp
    · have halone := hs.alone j p t hj hp
      refine ⟨halone.1, fun k r hk hr => ?_⟩
      rcases (hset k r).mp hk with ⟨-, rfl⟩ | ⟨-, hk⟩
      · cases hr
      · exact halone.2 k r hk hr
  · rcases (hset j _).mp hj with ⟨-, heq⟩ | ⟨-, hj⟩
    · cases heq
    · exact hs.starting j t n hj
  · obtain ⟨j, hj⟩ := hs.unready n t hn
    refine ⟨j, (hset j _).mpr (.inr ⟨?_, hj⟩)⟩
    rintro rfl
    rw [hi] at hj
    cases hj

theorem sound_caughtUp {i n : ℕ} {subject : String} (hs : s.Sound)
    (hi : s.publishes[i]? = some (.starting subject n)) :
    ({
      recipientCaches := s.recipientCaches.set subject n
      started := s.started.set n ⟨subject, true⟩
      publishes := s.publishes.set i (.cached n) } : CacheHolder).Sound := by
  have hn := hs.starting i subject n hi
  have hself := hs.alone i _ subject hi rfl
  have hset := fun (j : ℕ) (q : CacheUse) => getElem?_set_some
    (x := .cached n) (j := j) (y := q) hi
  have hmark := fun (m : ℕ) (c : StartedCache) => getElem?_set_some
    (x := ⟨subject, true⟩) (j := m) (y := c) hn
  refine ⟨fun j p t hj hp => ?_, fun j t m hj => ?_, fun m t hm => ?_,
    fun m t hm => ?_⟩
  · rcases (hset j p).mp hj with ⟨-, rfl⟩ | ⟨hji, hold⟩
    · cases hp
    · have halone := hs.alone j p t hold hp
      have hne : t ≠ subject := by
        rintro rfl
        exact hji (hself.2 j p hold hp)
      refine ⟨(Dict.get?_set_of_ne _ _ hne).trans halone.1,
        fun k r hk hr => ?_⟩
      rcases (hset k r).mp hk with ⟨-, rfl⟩ | ⟨-, hk⟩
      · cases hr
      · exact halone.2 k r hk hr
  · rcases (hset j _).mp hj with ⟨-, heq⟩ | ⟨hji, hold⟩
    · cases heq
    · have hcache := hs.starting j t m hold
      refine (hmark m _).mpr (.inr ⟨?_, hcache⟩)
      rintro rfl
      rw [hn] at hcache
      cases hcache
      exact hji (hself.2 j _ hold rfl)
  · rcases (hmark m _).mp hm with ⟨rfl, heq⟩ | ⟨hmn, hold⟩
    · cases heq
      exact Dict.get?_set_self ..
    · have hheld := hs.ready m t hold
      have hne : t ≠ subject := by
        rintro rfl
        rw [hself.1] at hheld
        cases hheld
      exact (Dict.get?_set_of_ne _ _ hne).trans hheld
  · rcases (hmark m _).mp hm with ⟨-, heq⟩ | ⟨hmn, hm⟩
    · cases heq
    · obtain ⟨j, hj⟩ := hs.unready m t hm
      refine ⟨j, (hset j _).mpr (.inr ⟨?_, hj⟩)⟩
      rintro rfl
      rw [hi] at hj
      cases hj
      exact hmn rfl

theorem sound_step {a : CacheAct} (hs : s.Sound) (hapart : s.Apart a)
    (h : s.step a = some s') : s'.Sound := by
  cases a with
  | publish subject =>
      cases h
      exact sound_publish hs hapart
  | watchReturns i =>
      obtain ⟨subject, hi, rfl⟩ := step_watchReturns h
      exact sound_watchReturns hs hi
  | watchRaises i =>
      obtain ⟨subject, hi, rfl⟩ := step_watchRaises h
      exact sound_watchRaises hs hi
  | caughtUp i =>
      obtain ⟨subject, n, hi, rfl⟩ := step_caughtUp h
      exact sound_caughtUp hs hi

/-! ## Publishes that are not apart -/

/-- In every run, apart or not: what a publish waits for is a cache of its
subject. -/
def Known (s : CacheHolder) : Prop :=
  ∀ (i : ℕ) (subject : String) (n : ℕ),
    s.publishes[i]? = some (.starting subject n) →
    ∃ ready, s.started[n]? = some ⟨subject, ready⟩

theorem known_step {a : CacheAct} (hs : s.Known) (h : s.step a = some s') :
    s'.Known := by
  intro j t m hj
  cases a with
  | publish subject =>
      cases h
      rcases getElem?_concat_some.mp hj with hold | ⟨-, hlook⟩
      · exact hs j t m hold
      · rw [lookUp] at hlook
        split at hlook <;> cases hlook
  | watchReturns i =>
      obtain ⟨subject, hi, rfl⟩ := step_watchReturns h
      rcases (getElem?_set_some hi).mp hj with ⟨-, heq⟩ | ⟨-, hold⟩
      · cases heq
        exact ⟨false, getElem?_concat_some.mpr (.inr ⟨rfl, rfl⟩)⟩
      · obtain ⟨ready, hm⟩ := hs j t m hold
        exact ⟨ready, getElem?_concat_some.mpr (.inl hm)⟩
  | watchRaises i =>
      obtain ⟨subject, hi, rfl⟩ := step_watchRaises h
      rcases (getElem?_set_some hi).mp hj with ⟨-, heq⟩ | ⟨-, hold⟩
      · cases heq
      · exact hs j t m hold
  | caughtUp i =>
      obtain ⟨subject, n, hi, rfl⟩ := step_caughtUp h
      rcases (getElem?_set_some hi).mp hj with ⟨-, heq⟩ | ⟨-, hold⟩
      · cases heq
      · obtain ⟨ready, hm⟩ := hs j t m hold
        obtain ⟨was, hn⟩ := hs i subject n hi
        by_cases hmn : m = n
        · subst hmn
          rw [hm] at hn
          cases hn
          exact ⟨true, (getElem?_set_some hm).mpr (.inl ⟨rfl, rfl⟩)⟩
        · exact ⟨ready, (getElem?_set_some hn).mpr (.inr ⟨hmn, hm⟩)⟩

/-- A watch is opened for a subject that has a cache. -/
theorem second_watch {j n : ℕ} {subject : String} {ready : Bool}
    (hj : s.publishes[j]? = some (.watching subject))
    (hn : s.started[n]? = some ⟨subject, ready⟩) :
    ∃ s', s.step (.watchReturns j) = some s' ∧ ¬ s'.OneWatch := by
  refine ⟨{ s with
      started := s.started ++ [⟨subject, false⟩]
      publishes := s.publishes.set j
        (.starting subject s.started.length) }, ?_, fun h => ?_⟩
  · simp only [step, hj]
  · have heq := h.once n s.started.length _ _
      (getElem?_concat_some.mpr (.inl hn))
      (getElem?_concat_some.mpr (.inr ⟨rfl, rfl⟩)) rfl
    obtain ⟨hlt, -⟩ := List.getElem?_eq_some_iff.mp hn
    omega

/-- Two publishes that both wait for the first watch of a subject. -/
theorem two_watches {i j : ℕ} {subject : String} (hij : j ≠ i)
    (hi : s.publishes[i]? = some (.watching subject))
    (hj : s.publishes[j]? = some (.watching subject)) :
    ∃ s', Run step always s [.watchReturns i, .watchReturns j] s' ∧
      ¬ s'.OneWatch := by
  generalize hs₁ : ({ s with
    started := s.started ++ [⟨subject, false⟩]
    publishes := s.publishes.set i
      (.starting subject s.started.length) } : CacheHolder) = s₁
  have hstep : s.step (.watchReturns i) = some s₁ := by
    simp only [step, hi, hs₁]
  have hj₁ : s₁.publishes[j]? = some (.watching subject) := by
    rw [← hs₁]
    exact (getElem?_set_some hi).mpr (.inr ⟨hij, hj⟩)
  have hfirst : s₁.started[s.started.length]? = some ⟨subject, false⟩ := by
    rw [← hs₁]
    exact getElem?_concat_some.mpr (.inr ⟨rfl, rfl⟩)
  obtain ⟨s', hstep', hleak⟩ := second_watch hj₁ hfirst
  exact ⟨s', .cons trivial hstep (.cons trivial hstep' (.nil s')), hleak⟩

/-- Two publishes on the way to the first cache of one subject can go on to
start a watch each. -/
theorem overlap_leaks (hs : s.Known) {subject : String}
    (h : ¬ s.Apart (.publish subject)) :
    ∃ more s', Run step always s (.publish subject :: more) s' ∧
      ¬ s'.OneWatch := by
  rw [Apart, Classical.not_imp] at h
  obtain ⟨hnone, hmem⟩ := h
  simp only [not_forall, not_not] at hmem
  obtain ⟨p, hp, hlook⟩ := hmem
  obtain ⟨i, hi⟩ := List.mem_iff_getElem?.mp hp
  have hnew : s.lookUp subject = .watching subject := by
    rw [lookUp, hnone]
  generalize hs₁ : ({ s with publishes :=
    s.publishes ++ [s.lookUp subject] } : CacheHolder) = s₁
  have hstep : s.step (.publish subject) = some s₁ := by
    rw [← hs₁]
    rfl
  have hlast : s₁.publishes[s.publishes.length]? =
      some (.watching subject) := by
    rw [← hs₁]
    exact getElem?_concat_some.mpr (.inr ⟨rfl, hnew⟩)
  have hi₁ : s₁.publishes[i]? = some p := by
    rw [← hs₁]
    exact getElem?_concat_some.mpr (.inl hi)
  cases p with
  | watching t =>
      cases hlook
      have hne : s.publishes.length ≠ i := by
        obtain ⟨hlt, -⟩ := List.getElem?_eq_some_iff.mp hi
        omega
      obtain ⟨s', hrun, hleak⟩ := two_watches hne hi₁ hlast
      exact ⟨_, s', .cons trivial hstep hrun, hleak⟩
  | starting t n =>
      cases hlook
      obtain ⟨ready, hn⟩ := known_step hs hstep i subject n hi₁
      obtain ⟨s', hstep', hleak⟩ := second_watch hlast hn
      exact ⟨_, s', .cons trivial hstep (.cons trivial hstep' (.nil s')),
        hleak⟩
  | cached n => cases hlook
  | raised => cases hlook

/-- Every run whose publishes are apart keeps one watch for each subject, and
one that is not apart from another can go on to a second. -/
theorem oneWatch_apart (acts : List CacheAct) (s : CacheHolder) :
    (Run step Apart {} acts s → s.OneWatch) ∧
    (Run step always {} acts s → ∀ subject, ¬ s.Apart (.publish subject) →
      ∃ more s', Run step always s (.publish subject :: more) s' ∧
        ¬ s'.OneWatch) := by
  constructor
  · intro h
    have hsound : s.Sound := h.invariant sound_step sound_init
    exact hsound.oneWatch
  · intro h subject hapart
    have hknown : s.Known := h.invariant
      (fun hs _ hstep => known_step hs hstep) (by
        intro i t n hi
        cases hi)
    exact overlap_leaks hknown hapart

/-- Two requests that come together: the client holds the second cache, and
nothing stops the first. -/
theorem twoPublishes_leak :
    ∃ s, Run step always {} [
        .publish "events.orders.OrderCreated",
        .publish "events.orders.OrderCreated",
        .watchReturns 0, .watchReturns 1, .caughtUp 0, .caughtUp 1] s ∧
      s.started = [⟨"events.orders.OrderCreated", true⟩,
        ⟨"events.orders.OrderCreated", true⟩] ∧
      s.recipientCaches.entries = [("events.orders.OrderCreated", 1)] ∧
      ¬ s.OneWatch := by
  refine ⟨_, exec_eq_some_iff.mp rfl, rfl, by decide +kernel, fun h => ?_⟩
  have heq := h.once 0 1 _ _ rfl rfl rfl
  cases heq

end CacheHolder

end JetCore
