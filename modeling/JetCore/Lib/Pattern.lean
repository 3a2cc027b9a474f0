import Mathlib.Data.List.Basic
import Mathlib.Data.List.TakeWhile

/-!
# Regular expressions that are a row of repetitions

A pattern here is a row of items, each a class of symbols that is repeated, at
least and at most so often, and captured or not. It is matched as a
backtracking engine does it: an item takes as many symbols as it can and gives
them back one by one, as long as the rest finds no match. The search tries the
positions from the left.

Most patterns give nothing back. Where no symbol of an item can begin what
comes after it, the item ends where it must, and a pattern made of such items is
`Sharp`: at one position it captures one thing only (`captures_unique`). So what
is found is told by where the pattern matches, and nothing need be said of the
order in which the engine tries (`search_eq_some`, `search_eq_none`).
-/

namespace Lib

variable {α : Type*}

/-- A class of symbols, how often it is repeated, and whether what it takes is
captured. -/
structure Item (α : Type*) where
  has : α → Bool
  low : ℕ := 1
  high : Option ℕ := none
  captured : Bool := false

abbrev Pattern (α : Type*) := List (Item α)

namespace Item

/-- One symbol. -/
def one [DecidableEq α] (x : α) : Item α where
  has y := y = x
  high := some 1

/-- With what the rest captures. -/
def capture (a : Item α) (w : List α) (rest : List (List α)) :
    List (List α) :=
  if a.captured then w :: rest else rest

/-- How many symbols the item can take. -/
def most (a : Item α) (input : List α) : ℕ :=
  a.high.elim (input.takeWhile a.has).length
    (min (input.takeWhile a.has).length)

end Item

namespace Pattern

/-- What is captured by the match that is tried first, from the first symbol
on. -/
def matchHere : Pattern α → List α → Option (List (List α))
  | [], _ => some []
  | a :: rest, input =>
      (List.range' a.low (a.most input + 1 - a.low)).reverse.findSome? fun n =>
        (matchHere rest (input.drop n)).map (a.capture (input.take n))

def search (p : Pattern α) : List α → Option (List (List α))
  | [] => p.matchHere []
  | x :: input =>
      match p.matchHere (x :: input) with
      | some captured => some captured
      | none => search p input

/-- A row of symbols. -/
def word [DecidableEq α] (w : List α) : Pattern α := w.map Item.one

/-! ## What a pattern matches -/

/-- The pattern matches the whole of the word, and this is captured. -/
inductive Matches : Pattern α → List α → List (List α) → Prop
  | nil : Matches [] [] []
  | cons {a : Item α} {rest : Pattern α} {w v : List α}
      {captured : List (List α)} : (∀ x ∈ w, a.has x = true) →
      a.low ≤ w.length → (∀ n ∈ a.high, w.length ≤ n) →
      Matches rest v captured →
      Matches (a :: rest) (w ++ v) (a.capture w captured)

variable {p : Pattern α} {a : Item α} {input w v : List α}
  {captured captured' : List (List α)}

theorem matches_nil : Matches [] w captured ↔ w = [] ∧ captured = [] := by
  constructor
  · intro h
    cases h
    exact ⟨rfl, rfl⟩
  · rintro ⟨rfl, rfl⟩
    exact .nil

/-- What an item matches, and what comes after it. -/
theorem matches_cons : Matches (a :: p) w captured ↔ ∃ u v rest,
    w = u ++ v ∧ ((∀ x ∈ u, a.has x = true) ∧ a.low ≤ u.length ∧
      ∀ n ∈ a.high, u.length ≤ n) ∧ p.Matches v rest ∧
        captured = a.capture u rest := by
  constructor
  · intro h
    cases h with
    | cons hall hlow hhigh hmatches =>
        exact ⟨_, _, _, rfl, ⟨hall, hlow, hhigh⟩, hmatches, rfl⟩
  · rintro ⟨u, v, rest, rfl, ⟨hall, hlow, hhigh⟩, hmatches, rfl⟩
    exact .cons hall hlow hhigh hmatches

/-- An item takes no more than it can. -/
theorem length_le_most (hall : ∀ x ∈ w, a.has x = true)
    (hhigh : ∀ n ∈ a.high, w.length ≤ n) : w.length ≤ a.most (w ++ v) := by
  have hrun : w.length ≤ ((w ++ v).takeWhile a.has).length := by
    rw [List.takeWhile_append_of_pos hall, List.length_append]
    exact Nat.le_add_right _ _
  rw [Item.most]
  cases hlimit : a.high with
  | none => exact hrun
  | some n => exact le_min hrun (hhigh n hlimit)

theorem take_most {n : ℕ} (hn : n ≤ a.most input) :
    (input.take n).length = n ∧ (∀ x ∈ input.take n, a.has x = true) ∧
      ∀ k ∈ a.high, n ≤ k := by
  have hrun : n ≤ (input.takeWhile a.has).length := by
    rw [Item.most] at hn
    cases hlimit : a.high with
    | none => rwa [hlimit] at hn
    | some k =>
        rw [hlimit] at hn
        exact hn.trans (min_le_left _ _)
  have htake : input.take n = (input.takeWhile a.has).take n := by
    obtain ⟨rest, hrest⟩ := List.takeWhile_prefix a.has (l := input)
    have hleft : ((input.takeWhile a.has) ++ rest).take n =
        (input.takeWhile a.has).take n := List.take_append_of_le_length hrun
    rw [← hleft, hrest]
  refine ⟨?_, fun x hx => ?_, fun k hk => ?_⟩
  · rw [htake, List.length_take, min_eq_left hrun]
  · rw [htake] at hx
    exact List.mem_takeWhile_imp (List.mem_of_mem_take hx)
  · rw [Item.most, Option.mem_def.mp hk] at hn
    exact hn.trans (min_le_right _ _)

theorem matchHere_sound (h : p.matchHere input = some captured) :
    ∃ w rest, input = w ++ rest ∧ p.Matches w captured := by
  induction p generalizing input captured with
  | nil =>
      cases h
      exact ⟨[], input, rfl, .nil⟩
  | cons a p ih =>
      rw [matchHere] at h
      obtain ⟨n, hn, h⟩ := List.exists_of_findSome?_eq_some h
      obtain ⟨captured', hrest, rfl⟩ := Option.map_eq_some_iff.mp h
      obtain ⟨v, rest, hdrop, hmatches⟩ := ih hrest
      rw [List.mem_reverse, List.mem_range'_1] at hn
      obtain ⟨hlength, hall, hhigh⟩ := take_most (a := a) (n := n)
        (show n ≤ a.most input by omega)
      refine ⟨input.take n ++ v, rest, ?_, .cons hall (by omega)
        (fun k hk => hlength.le.trans (hhigh k hk)) hmatches⟩
      rw [List.append_assoc, ← hdrop, List.take_append_drop]

theorem matchHere_complete (h : p.Matches w captured) (rest : List α) :
    (p.matchHere (w ++ rest)).isSome = true := by
  induction h with
  | nil => rfl
  | @cons a p w v captured hall hlow hhigh hmatches ih =>
      rw [matchHere, List.findSome?_isSome_iff]
      rw [List.append_assoc]
      have hmost := length_le_most (v := v ++ rest) hall hhigh
      refine ⟨w.length, ?_, ?_⟩
      · rw [List.mem_reverse, List.mem_range'_1]
        omega
      · rw [List.drop_left, Option.isSome_map]
        exact ih

/-! ## Where the search finds it -/

/-- The pattern matches at no earlier position. -/
def First (p : Pattern α) (input before : List α) : Prop :=
  ∀ before' w rest captured, input = before' ++ w ++ rest →
    p.Matches w captured → before.length ≤ before'.length

theorem matchHere_eq_none : p.matchHere input = none ↔
    ∀ w rest captured, input = w ++ rest → ¬ p.Matches w captured := by
  constructor
  · rintro h w rest captured rfl hmatches
    have hsome := matchHere_complete hmatches rest
    rw [h] at hsome
    cases hsome
  · intro h
    cases hhere : p.matchHere input with
    | none => rfl
    | some captured =>
        obtain ⟨w, rest, hinput, hmatches⟩ := matchHere_sound hhere
        exact absurd hmatches (h w rest captured hinput)

theorem search_eq_none : p.search input = none ↔
    ∀ before w rest captured, input = before ++ w ++ rest →
      ¬ p.Matches w captured := by
  induction input with
  | nil =>
      rw [search, matchHere_eq_none]
      constructor
      · intro h before w rest captured hinput
        obtain ⟨hfront, rfl⟩ := List.append_eq_nil_iff.mp hinput.symm
        obtain ⟨rfl, rfl⟩ := List.append_eq_nil_iff.mp hfront
        exact h [] [] captured rfl
      · intro h w rest captured hinput
        exact h [] w rest captured hinput
  | cons x input ih =>
      rw [search]
      cases hhere : p.matchHere (x :: input) with
      | some captured =>
          obtain ⟨w, rest, hinput, hmatches⟩ := matchHere_sound hhere
          refine iff_of_false nofun fun h => ?_
          exact h [] w rest captured hinput hmatches
      | none =>
          rw [matchHere_eq_none] at hhere
          refine ih.trans ⟨fun h before w rest captured hinput => ?_,
            fun h before w rest captured hinput => ?_⟩
          · cases before with
            | nil => exact hhere w rest captured hinput
            | cons y before =>
                exact h before w rest captured (List.cons.inj hinput).2
          · exact h (x :: before) w rest captured (by rw [hinput]; rfl)

theorem first_of_search (h : p.search input = some captured) :
    ∃ before rest, input = before ++ rest ∧
      p.matchHere rest = some captured ∧ First p input before := by
  induction input with
  | nil => exact ⟨[], [], rfl, h, fun _ _ _ _ _ _ => Nat.zero_le _⟩
  | cons x input ih =>
      rw [search] at h
      cases hhere : p.matchHere (x :: input) with
      | some captured' =>
          rw [hhere] at h
          cases h
          exact ⟨[], x :: input, rfl, hhere, fun _ _ _ _ _ _ => Nat.zero_le _⟩
      | none =>
          rw [hhere] at h
          obtain ⟨before, rest, hinput, hrest, hfirst⟩ := ih h
          refine ⟨x :: before, rest, by rw [hinput]; rfl, hrest, ?_⟩
          intro before' w rest' captured' hinput' hmatches
          cases before' with
          | nil =>
              exact absurd hmatches
                (matchHere_eq_none.mp hhere w rest' captured' hinput')
          | cons y before' =>
              exact Nat.succ_le_succ (hfirst before' w rest' captured'
                (List.cons.inj hinput').2 hmatches)

/-! ## Sharp patterns -/

/-- The symbol can be the first of what the pattern matches, or of what comes
after it. -/
def begins : Pattern α → α → Bool
  | [], _ => true
  | a :: rest, x => a.has x || a.low = 0 && begins rest x

/-- Nothing is captured, or each item takes a fixed number of symbols or ends
where the rest begins. -/
def Sharp : Pattern α → Prop
  | [] => True
  | a :: rest => (∀ b ∈ a :: rest, b.captured = false) ∨
      (a.high = some a.low ∨ ∀ x, a.has x = true → begins rest x = false) ∧
        Sharp rest

theorem captured_eq_nil (hnone : ∀ a ∈ p, a.captured = false)
    (h : p.Matches w captured) : captured = [] := by
  induction h with
  | nil => rfl
  | @cons a p w v captured _ _ _ _ ih =>
      rw [ih fun b hb => hnone b (List.mem_cons_of_mem _ hb), Item.capture,
        hnone a List.mem_cons_self]
      rfl

theorem begins_of_matches (h : p.Matches w captured) {rest : List α} {x : α}
    {after : List α} (hx : w ++ rest = x :: after) : p.begins x = true := by
  induction h generalizing after with
  | nil => rfl
  | @cons a p w v captured hall hlow _ _ ih =>
      rw [begins, Bool.or_eq_true]
      cases w with
      | nil =>
          refine .inr (Bool.and_eq_true_iff.mpr ⟨?_, ih hx⟩)
          exact decide_eq_true (Nat.le_zero.mp hlow)
      | cons y w =>
          cases hx
          exact .inl (hall x List.mem_cons_self)

/-- Of two ways to match an item that ends where the rest begins, neither takes
more. -/
theorem length_le_of_apart
    (hapart : ∀ x, a.has x = true → p.begins x = false)
    {w' v' rest rest' : List α} (hall' : ∀ x ∈ w', a.has x = true)
    (h : p.Matches v captured)
    (heq : w ++ (v ++ rest) = w' ++ (v' ++ rest')) : w'.length ≤ w.length := by
  rcases List.append_eq_append_iff.mp heq with
    ⟨more, rfl, hmore⟩ | ⟨more, rfl, -⟩
  · cases more with
    | nil => rw [List.append_nil]
    | cons x more =>
        have hx := hall' x (List.mem_append_right _ List.mem_cons_self)
        have hbegins := begins_of_matches h hmore
        rw [hapart x hx] at hbegins
        cases hbegins
  · rw [List.length_append]
    exact Nat.le_add_right _ _

/-- At one position a sharp pattern captures one thing. -/
theorem captures_unique (hsharp : p.Sharp) {w' rest rest' : List α}
    (h : p.Matches w captured) (h' : p.Matches w' captured')
    (heq : w ++ rest = w' ++ rest') : captured = captured' := by
  induction p generalizing w w' captured captured' with
  | nil =>
      cases h
      cases h'
      rfl
  | cons a p ih =>
      rcases hsharp with hnone | ⟨hends, hsharp⟩
      · rw [captured_eq_nil hnone h, captured_eq_nil hnone h']
      · cases h with
        | @cons _ _ w v captured hall hlow hhigh hmatches =>
        cases h' with
        | @cons _ _ w' v' captured' hall' hlow' hhigh' hmatches' =>
        rw [List.append_assoc, List.append_assoc] at heq
        have hlength : w.length = w'.length := by
          rcases hends with hfixed | hapart
          · have hle := hhigh a.low hfixed
            have hle' := hhigh' a.low hfixed
            omega
          · exact le_antisymm
              (length_le_of_apart hapart hall hmatches' heq.symm)
              (length_le_of_apart hapart hall' hmatches heq)
        obtain ⟨rfl, hrest⟩ := List.append_inj heq hlength
        rw [ih hsharp hmatches hmatches' hrest]

theorem search_eq_some (hsharp : p.Sharp) :
    p.search input = some captured ↔ ∃ before w rest,
      input = before ++ w ++ rest ∧ p.Matches w captured ∧
        First p input before := by
  constructor
  · intro h
    obtain ⟨before, rest, rfl, hhere, hfirst⟩ := first_of_search h
    obtain ⟨w, rest, rfl, hmatches⟩ := matchHere_sound hhere
    exact ⟨before, w, rest, (List.append_assoc _ _ _).symm, hmatches, hfirst⟩
  · rintro ⟨before, w, rest, hinput, hmatches, hfirst⟩
    cases hsearch : p.search input with
    | none =>
        exact absurd hmatches
          (search_eq_none.mp hsearch before w rest captured hinput)
    | some captured' =>
        obtain ⟨before', rest', hinput', hhere, hfirst'⟩ :=
          first_of_search hsearch
        obtain ⟨w', rest', rfl, hmatches'⟩ := matchHere_sound hhere
        rw [← List.append_assoc] at hinput'
        have hlength := le_antisymm
          (hfirst before' w' rest' captured' hinput' hmatches')
          (hfirst' before w rest captured hinput hmatches)
        rw [hinput', List.append_assoc, List.append_assoc] at hinput
        obtain ⟨-, hhere⟩ := List.append_inj hinput hlength.symm
        rw [captures_unique hsharp hmatches' hmatches hhere]

/-! ## Rows of symbols -/

section Word

variable [DecidableEq α]

theorem matches_one {x : α} : Matches (Item.one x :: p) w captured ↔
    ∃ v, w = x :: v ∧ p.Matches v captured := by
  constructor
  · intro h
    cases h with
    | @cons _ _ u v _ hall hlow hhigh hmatches =>
        obtain ⟨y, rfl⟩ := List.length_eq_one_iff.mp
          (le_antisymm (hhigh 1 rfl) hlow)
        have hy : y = x := of_decide_eq_true (hall y List.mem_cons_self)
        exact ⟨v, by rw [hy]; rfl, hmatches⟩
  · rintro ⟨v, rfl, hmatches⟩
    refine Matches.cons (a := Item.one x) (w := [x]) ?_ le_rfl ?_ hmatches
    · intro y hy
      exact decide_eq_true (List.mem_singleton.mp hy)
    · intro n hn
      cases hn
      exact le_rfl

theorem matches_word {u : List α} : Matches (word u ++ p) w captured ↔
    ∃ v, w = u ++ v ∧ p.Matches v captured := by
  induction u generalizing w with
  | nil => simp [word]
  | cons x u ih =>
      refine matches_one.trans ⟨?_, ?_⟩
      · rintro ⟨v', rfl, hword⟩
        obtain ⟨v, rfl, hmatches⟩ := ih.mp hword
        exact ⟨v, rfl, hmatches⟩
      · rintro ⟨v, rfl, hmatches⟩
        exact ⟨u ++ v, rfl, ih.mpr ⟨v, rfl, hmatches⟩⟩

theorem sharp_word {u : List α} (h : p.Sharp) : Sharp (word u ++ p) := by
  induction u with
  | nil => exact h
  | cons x u ih => exact .inr ⟨.inl rfl, ih⟩

end Word

end Pattern

end Lib
