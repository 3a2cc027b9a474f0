import Mathlib.Algebra.BigOperators.Group.Finset.Basic
import Mathlib.Algebra.Order.BigOperators.Group.Finset
import Mathlib.Algebra.BigOperators.Ring.Finset
import Mathlib.Data.Finset.Prod
import Mathlib.Tactic.Ring

/-!
# How much comes of how little

Messages that come from outside or out of a reaction to an earlier message. If
a reaction puts out one message at most, if there are only so many reactions to
any one message, and if what comes out ranks below what went in, then the
messages are bounded by those from outside: those of a rank and above are those
that come from outside and what came of those of a higher rank
(`atLeast_le`), so the bound is a geometric sum (`length_le`).
-/

namespace Lib

/-- Positions are counted as elements are. -/
theorem card_positions {α : Type*} (p : α → Bool) (l : List α) :
    ((Finset.range l.length).filter fun i => (l[i]?).any p = true).card =
      l.countP p := by
  induction l using List.reverseRecOn with
  | nil => rfl
  | append_singleton l a ih =>
      rw [List.length_append, List.length_singleton, Finset.range_add_one,
        Finset.filter_insert, List.countP_append, List.countP_singleton, ← ih]
      have hsame : ((Finset.range l.length).filter fun i =>
          ((l ++ [a])[i]?).any p = true) = (Finset.range l.length).filter
            fun i => (l[i]?).any p = true := by
        refine Finset.filter_congr fun i hi => ?_
        rw [List.getElem?_append_left (Finset.mem_range.mp hi)]
      rw [hsame, List.getElem?_concat_length, Option.any_some]
      split
      · exact Finset.card_insert_of_notMem (by simp)
      · rfl

/-- Each message with the reaction it came out of, if it did, and each reaction
with whose it is and the message that it is to. -/
structure Causes (S C : Type*) where
  messages : List (S × Option ℕ) := []
  reactions : List (C × ℕ) := []

namespace Causes

variable {S C : Type*}

/-- How many messages come from outside. -/
def outside (s : Causes S C) : ℕ := s.messages.countP fun m => m.2.isNone

/-- How many rank so high. -/
def atLeast (s : Causes S C) (rank : S → ℕ) (k : ℕ) : ℕ :=
  s.messages.countP fun m => k ≤ rank m.1

/-- The reactions that put out messages of a rank or above. -/
def sources (s : Causes S C) (rank : S → ℕ) (k : ℕ) : List ℕ :=
  (s.messages.filter fun m => k ≤ rank m.1).filterMap Prod.snd

theorem atLeast_le_sources (s : Causes S C) (rank : S → ℕ) (k : ℕ) :
    s.atLeast rank k ≤ s.outside + (s.sources rank k).length := by
  rw [atLeast, outside, sources]
  induction s.messages with
  | nil => exact Nat.le_refl 0
  | cons m rest ih =>
      obtain ⟨m, origin⟩ := m
      rw [List.countP_cons, List.countP_cons, List.filter_cons]
      by_cases hk : k ≤ rank m
      · cases origin with
        | none => simp [hk] at ih ⊢; omega
        | some j => simp [hk] at ih ⊢; omega
      · cases origin with
        | none => simp [hk] at ih ⊢; omega
        | some j => simp [hk] at ih ⊢; omega

variable [DecidableEq C]

/-- No reaction puts out two messages, there are at most `limit` of a consumer
to a message, and they rank lower than it. -/
structure Sound (s : Causes S C) (consumers : Finset C) (limit : ℕ)
    (rank : S → ℕ) : Prop where
  once : (s.messages.filterMap Prod.snd).Nodup
  known : ∀ r ∈ s.reactions, r.1 ∈ consumers
  limited : ∀ r, s.reactions.count r ≤ limit
  lower : ∀ m j, (m, some j) ∈ s.messages → ∃ c i,
    s.reactions[j]? = some (c, i) ∧
      ∃ cause, s.messages[i]? = some cause ∧ rank m < rank cause.1

variable {s : Causes S C} {consumers : Finset C} {limit : ℕ} {rank : S → ℕ}

theorem Sound.sources_nodup (h : s.Sound consumers limit rank) (k : ℕ) :
    (s.sources rank k).Nodup :=
  h.once.sublist (List.filter_sublist.filterMap Prod.snd)

/-- They are to messages of a higher rank, so many to each at most. -/
theorem Sound.length_sources_le (h : s.Sound consumers limit rank) (k : ℕ) :
    (s.sources rank k).length ≤
      limit * (consumers.card * s.atLeast rank (k + 1)) := by
  let higher := (Finset.range s.messages.length).filter fun i =>
    (s.messages[i]?).any (fun m => decide (k + 1 ≤ rank m.1)) = true
  let targets := (consumers ×ˢ higher).image some
  have hmaps : ∀ j ∈ (s.sources rank k).toFinset,
      s.reactions[j]? ∈ targets := by
    intro j hj
    obtain ⟨⟨m, origin⟩, hm, rfl⟩ :=
      List.mem_filterMap.mp (List.mem_toFinset.mp hj)
    obtain ⟨hmem, hk⟩ := List.mem_filter.mp hm
    obtain ⟨c, i, hreaction, cause, hcause, hlower⟩ := h.lower m j hmem
    have hk : k ≤ rank m := of_decide_eq_true hk
    obtain ⟨hi, -⟩ := List.getElem?_eq_some_iff.mp hcause
    refine Finset.mem_image.mpr ⟨(c, i), Finset.mem_product.mpr
      ⟨h.known _ (List.mem_of_getElem? hreaction), ?_⟩, hreaction.symm⟩
    refine Finset.mem_filter.mpr ⟨Finset.mem_range.mpr hi, ?_⟩
    rw [hcause, Option.any_some]
    exact decide_eq_true (by omega)
  have hfibers : ∀ r ∈ targets, ((s.sources rank k).toFinset.filter
      fun j => s.reactions[j]? = r).card ≤ limit := by
    intro r hr
    obtain ⟨r, -, rfl⟩ := Finset.mem_image.mp hr
    refine le_trans ?_ (h.limited r)
    rw [List.count, ← card_positions]
    refine Finset.card_le_card fun j hj => ?_
    have hj := (Finset.mem_filter.mp hj).2
    obtain ⟨hlt, -⟩ := List.getElem?_eq_some_iff.mp hj
    refine Finset.mem_filter.mpr ⟨Finset.mem_range.mpr hlt, ?_⟩
    rw [hj, Option.any_some]
    exact beq_self_eq_true r
  have hcard := Finset.card_le_mul_card_image_of_maps_to hmaps limit hfibers
  have hhigher : higher.card = s.atLeast rank (k + 1) := card_positions _ _
  rw [List.toFinset_card_of_nodup (h.sources_nodup k)] at hcard
  refine hcard.trans (Nat.mul_le_mul_left limit ?_)
  refine Finset.card_image_le.trans ?_
  rw [Finset.card_product, hhigher]

theorem Sound.atLeast_le (h : s.Sound consumers limit rank) (k : ℕ) :
    s.atLeast rank k ≤ s.outside +
      limit * consumers.card * s.atLeast rank (k + 1) := by
  have hsources := h.length_sources_le k
  rw [← Nat.mul_assoc] at hsources
  exact (s.atLeast_le_sources rank k).trans (Nat.add_le_add_left hsources _)

/-- So many messages come of those from outside, if no rank is above `top`. -/
theorem Sound.length_le (h : s.Sound consumers limit rank) {top : ℕ}
    (htop : ∀ m ∈ s.messages, rank m.1 ≤ top) :
    s.messages.length ≤ s.outside *
      ∑ k ∈ Finset.range (top + 1), (limit * consumers.card) ^ k := by
  -- by how far a rank is from the top
  have hfrom : ∀ d k, k + d = top + 1 → s.atLeast rank k ≤ s.outside *
      ∑ k ∈ Finset.range d, (limit * consumers.card) ^ k := by
    intro d
    induction d with
    | zero =>
        intro k hk
        have hnone : s.atLeast rank k = 0 := by
          rw [atLeast, List.countP_eq_zero]
          intro m hm hle
          have hle : k ≤ rank m.1 := of_decide_eq_true hle
          have := htop m hm
          omega
        rw [hnone]
        exact Nat.zero_le _
    | succ d ih =>
        intro k hk
        have hnext := ih (k + 1) (by omega)
        calc s.atLeast rank k
            ≤ s.outside + limit * consumers.card * s.atLeast rank (k + 1) :=
              h.atLeast_le k
          _ ≤ s.outside + limit * consumers.card * (s.outside *
                ∑ k ∈ Finset.range d, (limit * consumers.card) ^ k) := by
              gcongr
          _ = s.outside * ∑ k ∈ Finset.range (d + 1),
                (limit * consumers.card) ^ k := by
              rw [Finset.sum_range_succ']
              simp only [pow_succ', pow_zero, ← Finset.mul_sum]
              ring
  have hall : s.atLeast rank 0 = s.messages.length := by
    rw [atLeast, List.countP_eq_length]
    exact fun m _ => decide_eq_true (Nat.zero_le _)
  rw [← hall]
  exact hfrom (top + 1) 0 (Nat.zero_add _)

end Causes

end Lib
