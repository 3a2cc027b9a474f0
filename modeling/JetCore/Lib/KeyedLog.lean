import Mathlib.Data.List.Basic
import Mathlib.Data.List.Dedup
import Mathlib.Data.List.Perm.Basic

/-!
# Keyed logs: the last entry on a key decides

A log is a list of entries, each on one key. What any store that replays such
a log answers for a key is fixed by the last entry on that key, whatever the
store is made of: `look_replay` asks only that one step changes the answer on
the entry's own key, to what the entry says, and no other answer. The step may
depend on an invariant of the store, which the same hypothesis keeps.

Two stores that replay different logs agree on a key as soon as the logs agree
on its last entry. Dropping entries that a later one on the same key shadows
(`compact`), or whole keys (`lastOn_filter`), is covered by that.
-/

namespace Lib

universe u v w x

variable {κ : Type u} {α : Type v} {ν : Type w} {σ : Type x} [DecidableEq κ]
  (key : α → κ)

/-- The last entry on `k`. -/
def lastOn (k : κ) : List α → Option α
  | [] => none
  | a :: rest => (lastOn k rest).or (if key a = k then some a else none)

/-- The log without the entries a later one shadows. -/
def compact : List α → List α
  | [] => []
  | a :: rest =>
      if rest.any (fun b => key b = key a) then compact rest
      else a :: compact rest

variable {key}

theorem lastOn_append (k : κ) (log log' : List α) :
    lastOn key k (log ++ log') = (lastOn key k log').or (lastOn key k log) := by
  induction log with
  | nil => simp [lastOn]
  | cons a rest ih => rw [List.cons_append, lastOn, ih, lastOn, Option.or_assoc]

theorem lastOn_eq_none {k : κ} {log : List α} :
    lastOn key k log = none ↔ ∀ a ∈ log, key a ≠ k := by
  induction log with
  | nil => simp [lastOn]
  | cons a rest ih =>
      rw [lastOn, Option.or_eq_none_iff, ih, List.forall_mem_cons, and_comm]
      refine and_congr_left fun _ => ?_
      split <;> simp [*]

theorem lastOn_mem {k : κ} {log : List α} {a : α}
    (h : lastOn key k log = some a) : a ∈ log ∧ key a = k := by
  induction log with
  | nil => cases h
  | cons b rest ih =>
      rw [lastOn, Option.or_eq_some_iff] at h
      rcases h with h | ⟨-, h⟩
      · exact ⟨List.mem_cons_of_mem _ (ih h).1, (ih h).2⟩
      · split at h
        · next hb =>
            cases h
            exact ⟨List.mem_cons_self, hb⟩
        · cases h

/-- Compaction keeps the last entry on every key. -/
theorem lastOn_compact (k : κ) (log : List α) :
    lastOn key k (compact key log) = lastOn key k log := by
  induction log with
  | nil => rfl
  | cons a rest ih =>
      rw [compact]
      split
      · next hany =>
          rw [ih, lastOn]
          split
          · next hak =>
              obtain ⟨b, hb, hba⟩ := List.any_eq_true.mp hany
              have hsome : lastOn key k rest ≠ none := by
                rw [Ne, lastOn_eq_none]
                intro hnone
                exact hnone b hb (by rw [of_decide_eq_true hba, hak])
              obtain ⟨c, hc⟩ := Option.ne_none_iff_exists'.mp hsome
              rw [hc, Option.some_or]
          · rw [Option.or_none]
      · rw [lastOn, lastOn, ih]

/-- So does leaving out the repeats of an entry. -/
theorem lastOn_dedup [DecidableEq α] (k : κ) (log : List α) :
    lastOn key k log.dedup = lastOn key k log := by
  induction log with
  | nil => rfl
  | cons a rest ih =>
      by_cases hmem : a ∈ rest
      · rw [List.dedup_cons_of_mem hmem, ih, lastOn]
        cases hlast : lastOn key k rest with
        | some b => rw [Option.some_or]
        | none => rw [if_neg (lastOn_eq_none.mp hlast a hmem), Option.or_none]
      · rw [List.dedup_cons_of_notMem hmem, lastOn, lastOn, ih]

theorem lastOn_filter (key : α → κ) (p : κ → Bool) (k : κ) (log : List α) :
    lastOn key k (log.filter fun a => p (key a)) =
      if p k then lastOn key k log else none := by
  induction log with
  | nil => simp [lastOn]
  | cons a rest ih =>
      rw [List.filter_cons]
      split
      · next hpa =>
          rw [lastOn, lastOn, ih]
          by_cases hk : key a = k
          · rw [← hk, if_pos hpa, if_pos hpa]
          · rw [if_neg hk, Option.or_none, Option.or_none]
      · next hpa =>
          rw [ih, lastOn]
          by_cases hk : key a = k
          · rw [← hk, if_neg hpa, if_neg hpa]
          · rw [if_neg hk, Option.or_none]

/-- Translating a log entry by entry, its keys by an injection. -/
theorem lastOn_map {β : Type v} {κ' : Type u} [DecidableEq κ'] {f : α → β}
    {key' : β → κ'} {g : κ → κ'} (hg : Function.Injective g)
    (hkey : ∀ a, key' (f a) = g (key a)) {log : List α} {k' : κ'} {b : β} :
    lastOn key' k' (log.map f) = some b ↔
      ∃ a, lastOn key (key a) log = some a ∧ f a = b ∧ g (key a) = k' := by
  have hcomp : ∀ k, lastOn key' (g k) (log.map f) = (lastOn key k log).map f := by
    intro k
    induction log with
    | nil => rfl
    | cons a rest ih =>
        rw [List.map_cons, lastOn, lastOn, ih, hkey]
        by_cases hk : key a = k
        · rw [if_pos (congrArg g hk), if_pos hk]
          cases lastOn key k rest <;> rfl
        · rw [if_neg (fun h => hk (hg h)), if_neg hk, Option.or_none,
            Option.or_none]
  constructor
  · intro h
    obtain ⟨hmem, hk'⟩ := lastOn_mem h
    obtain ⟨c, -, rfl⟩ := List.mem_map.mp hmem
    rw [hkey] at hk'
    rw [← hk', hcomp, Option.map_eq_some_iff] at h
    obtain ⟨a, ha, hfa⟩ := h
    have hak := (lastOn_mem ha).2
    exact ⟨a, by rw [hak, ha], hfa, by rw [hak, hk']⟩
  · rintro ⟨a, ha, rfl, rfl⟩
    rw [hcomp, ha]
    rfl

/-- The same where some entries are dropped, which are on no key. -/
theorem lastOn_filterMap {β : Type v} {f : α → Option β} {key : α → Option κ}
    {key' : β → κ} (hkey : ∀ a, (f a).map key' = key a) (k : κ)
    (log : List α) : lastOn key' k (log.filterMap f) =
      (lastOn key (some k) log).bind f := by
  induction log with
  | nil => rfl
  | cons a rest ih =>
      rw [List.filterMap_cons, lastOn]
      have ha := hkey a
      cases hf : f a with
      | none =>
          rw [hf] at ha
          have hne : key a ≠ some k := by
            rw [← ha]
            nofun
          rw [if_neg hne, Option.or_none]
          exact ih
      | some b =>
          rw [hf, Option.map_some] at ha
          simp only [lastOn]
          rw [ih, ← ha]
          simp only [Option.some.injEq]
          cases hlast : lastOn key (some k) rest with
          | some c =>
              obtain ⟨-, hc⟩ := lastOn_mem hlast
              have hsome : ∃ b', f c = some b' := by
                have hmap := (hkey c).trans hc
                obtain ⟨b', hb', -⟩ := Option.map_eq_some_iff.mp hmap
                exact ⟨b', hb'⟩
              obtain ⟨b', hb'⟩ := hsome
              rw [Option.bind_some, hb', Option.some_or, Option.some_or,
                Option.bind_some, hb']
          | none =>
              rw [Option.bind_none, Option.none_or, Option.none_or]
              split
              · exact hf.symm
              · rfl

/-- Two keys that pick out the same entries have the same last one. -/
theorem lastOn_congr {κ' : Type*} [DecidableEq κ'] {key : α → κ}
    {key' : α → κ'} {k : κ} {k' : κ'} {log : List α}
    (h : ∀ a ∈ log, key a = k ↔ key' a = k') :
    lastOn key k log = lastOn key' k' log := by
  induction log with
  | nil => rfl
  | cons a rest ih =>
      have hrest := ih fun b hb => h b (List.mem_cons_of_mem _ hb)
      have ha := h a List.mem_cons_self
      simp only [lastOn, hrest, ha]

theorem lastOn_isSome (key : α → κ) {log : List α} {a : α} (h : a ∈ log) :
    ∃ b, lastOn key (key a) log = some b := by
  cases hlast : lastOn key (key a) log with
  | some b => exact ⟨b, rfl⟩
  | none => exact absurd rfl (lastOn_eq_none.mp hlast a h)

/-- Replaying before a log what it holds already changes no last entry. -/
theorem lastOn_absorb {k : κ} {log log' : List α} (h : ∀ a ∈ log, a ∈ log') :
    lastOn key k (log ++ log') = lastOn key k log' := by
  rw [lastOn_append]
  cases hlast : lastOn key k log' with
  | some a => rfl
  | none =>
      rw [Option.none_or, lastOn_eq_none]
      exact fun a ha => lastOn_eq_none.mp hlast a (h a ha)

/-- What a store that replays a log answers afterwards. -/
theorem look_replay (look : σ → κ → Option ν) {value : α → Option ν}
    {step : σ → α → σ} (I : σ → Prop) {log : List α}
    (hstep : ∀ a ∈ log, ∀ s, I s → I (step s a) ∧
      ∀ k, look (step s a) k = if key a = k then value a else look s k) :
    ∀ {s : σ}, I s → I (log.foldl step s) ∧
      ∀ k, look (log.foldl step s) k =
        (lastOn key k log).elim (look s k) value := by
  induction log with
  | nil => exact fun hs => ⟨hs, fun _ => rfl⟩
  | cons a rest ih =>
      intro s hs
      obtain ⟨hI, hlook⟩ := hstep a (by simp) s hs
      obtain ⟨hI', hrest⟩ := ih (fun b hb => hstep b (by simp [hb])) hI
      refine ⟨hI', fun k => ?_⟩
      rw [List.foldl_cons, hrest, lastOn, hlook]
      cases hl : lastOn key k rest with
      | some b => rfl
      | none =>
          rw [Option.none_or, Option.elim_none]
          split <;> rfl

end Lib
