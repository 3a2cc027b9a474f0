import Mathlib.Data.List.Infix

/-!
# Dotted subjects and their wildcards

A subject is a string of tokens separated by dots. A pattern is a subject in
which the token `*` stands for any one token and a last token `>` for one or
more. `subjectMatches` is the matching of a subject-based message bus.

`tokens` splits, so two subjects with the same tokens are the same string
(`tokens_injective`), and gluing with a dot appends token lists
(`tokens_dot`). With these a pattern `s.*` over a literal `s` is settled: it
matches exactly the subjects that are `s` and one more token.

`contains` is the other notion, plain substring search, which knows nothing of
tokens. `contains_dot` is all that relates the two.

Two parts glued with a word between that begins and ends with a mark, and has
none inside, do not tell where the word stands that glued them.
`append_word_eq_iff` says what else they may be.
-/

namespace Lib

/-- `f in key` -/
def contains (f key : String) : Bool := decide (f.toList <:+: key.toList)

def tokens (s : String) : List (List Char) := s.toList.splitOn '.'

/-- `*` stands for one token, a last `>` for one or more. -/
def subjectMatches : (pattern subject : List (List Char)) → Bool
  | [], [] => true
  | [['>']], _ :: _ => true
  | p :: ps, t :: ts => (p = ['*'] || p = t) && subjectMatches ps ts
  | _, _ => false

/-- No token of the pattern is a wildcard. -/
def Literal (pattern : List (List Char)) : Prop :=
  ∀ t ∈ pattern, t ≠ ['*'] ∧ t ≠ ['>']

instance (pattern : List (List Char)) : Decidable (Literal pattern) :=
  inferInstanceAs (Decidable (∀ t ∈ pattern, t ≠ ['*'] ∧ t ≠ ['>']))

theorem tokens_injective {s t : String} (h : tokens s = tokens t) : s = t := by
  have hjoin := congrArg (List.intercalate ['.']) h
  rw [tokens, tokens, List.intercalate_splitOn, List.intercalate_splitOn]
    at hjoin
  exact String.toList_inj.mp hjoin

theorem tokens_dot (s t : String) :
    tokens (s ++ "." ++ t) = tokens s ++ tokens t := by
  have h : (s ++ "." ++ t).toList = s.toList ++ '.' :: t.toList := by
    simp only [String.toList_append, List.append_assoc]
    rfl
  rw [tokens, h, List.splitOn_append_cons_self]
  rfl

theorem tokens_of_single {t : String} (h : '.' ∉ t.toList) :
    tokens t = [t.toList] :=
  List.splitOn_eq_singleton h

/-- A literal pattern followed by `*` matches it followed by one token. -/
theorem subjectMatches_star {ps : List (List Char)} (hlit : Literal ps) :
    ∀ {ts : List (List Char)},
      subjectMatches (ps ++ [['*']]) ts = true ↔ ∃ t, ts = ps ++ [t] := by
  induction ps with
  | nil =>
      intro ts
      match ts with
      | [] => simp [subjectMatches]
      | [t] => simp [subjectMatches]
      | t :: t' :: ts => simp [subjectMatches]
  | cons p ps ih =>
      intro ts
      have hp := hlit p (by simp)
      have hps : Literal ps := fun t ht => hlit t (by simp [ht])
      cases ts with
      | nil => simp [subjectMatches]
      | cons t ts =>
          rw [List.cons_append, subjectMatches]
          · rw [Bool.and_eq_true, ih hps]
            simp only [hp.1, decide_false, Bool.false_or, decide_eq_true_eq,
              List.cons_append, List.cons.injEq]
            constructor
            · rintro ⟨rfl, u, rfl⟩
              exact ⟨u, rfl, rfl⟩
            · rintro ⟨u, rfl, rfl⟩
              exact ⟨rfl, u, rfl⟩
          · intro h
            exact absurd h hp.2

/-- A literal pattern matches itself and nothing else. -/
theorem subjectMatches_literal {ps : List (List Char)} (hlit : Literal ps) :
    ∀ {ts : List (List Char)}, subjectMatches ps ts = true ↔ ts = ps := by
  induction ps with
  | nil =>
      intro ts
      cases ts with
      | nil => simp [subjectMatches]
      | cons t ts => simp [subjectMatches]
  | cons p ps ih =>
      intro ts
      have hp := hlit p (by simp)
      have hps : Literal ps := fun t ht => hlit t (by simp [ht])
      cases ts with
      | nil => simp [subjectMatches]
      | cons t ts =>
          rw [subjectMatches]
          · rw [Bool.and_eq_true, ih hps]
            simp only [hp.1, decide_false, Bool.false_or, decide_eq_true_eq,
              List.cons.injEq]
            exact and_congr_left fun _ => eq_comm
          · intro h
            exact absurd h hp.2

/-- No piece of a split holds what was split at. -/
theorem not_mem_of_mem_splitOn {α : Type*} [DecidableEq α] {x : α} :
    ∀ {l w : List α}, w ∈ l.splitOn x → x ∉ w := by
  intro l
  induction l with
  | nil =>
      intro w hw
      rw [List.splitOn_nil, List.mem_singleton] at hw
      rw [hw]
      exact List.not_mem_nil
  | cons c l ih =>
      intro w hw
      rw [List.splitOn_cons_eq_if_modifyHead] at hw
      split at hw
      · rcases List.mem_cons.mp hw with rfl | hw
        · exact List.not_mem_nil
        · exact ih hw
      · next hc =>
          obtain ⟨v, vs, hsplit⟩ := List.exists_cons_of_ne_nil
            (List.splitOn_ne_nil x l)
          rw [hsplit, List.modifyHead_cons] at hw
          rcases List.mem_cons.mp hw with rfl | hw
          · have hv : x ∉ v := ih (by rw [hsplit]; exact List.mem_cons_self)
            rw [List.mem_cons, not_or]
            exact ⟨fun heq => hc (by rw [heq, beq_self_eq_true]), hv⟩
          · exact ih (by rw [hsplit]; exact List.mem_cons_of_mem _ hw)

theorem contains_dot (s t : String) : contains (s ++ ".") (s ++ "." ++ t) := by
  rw [contains, decide_eq_true_eq, String.toList_append (s := s ++ ".")]
  exact (List.prefix_append _ _).isInfix

/-! ## Two parts with a word between -/

section Word

variable {α : Type*} {d : α} {w l l' r r' : List α}

/-- The first part goes on in the other pair, with the whole word or with all
of it but the last mark. -/
def Overhangs (d : α) (w l r l' r' : List α) : Prop :=
  (∃ v, l' = l ++ d :: (w ++ d :: v) ∧ r = v ++ d :: (w ++ d :: r')) ∨
    l' = l ++ d :: w ∧ r = w ++ d :: r'

theorem Overhangs.append_eq (h : Overhangs d w l r l' r') :
    l ++ d :: (w ++ d :: r) = l' ++ d :: (w ++ d :: r') := by
  rcases h with ⟨v, rfl, rfl⟩ | ⟨rfl, rfl⟩
  · simp
  · simp

/-- The second pair's word starts no earlier than the first one's. -/
theorem overhangs_of_append {x : List α} (hd : d ∉ w)
    (h : d :: (w ++ d :: r) = x ++ d :: (w ++ d :: r')) :
    x = [] ∧ r = r' ∨ Overhangs d w l r (l ++ x) r' := by
  cases x with
  | nil => exact .inl ⟨rfl, by simpa using h⟩
  | cons c y =>
      rw [List.cons_append, List.cons.injEq] at h
      obtain ⟨rfl, h⟩ := h
      right
      rcases List.append_eq_append_iff.mp h with
        ⟨a, rfl, ha⟩ | ⟨a, rfl, ha⟩
      · cases a with
        | nil =>
            rw [List.nil_append, List.cons.injEq] at ha
            exact .inr ⟨by rw [List.append_nil], ha.2⟩
        | cons c v =>
            rw [List.cons_append, List.cons.injEq] at ha
            obtain ⟨rfl, rfl⟩ := ha
            exact .inl ⟨v, rfl, rfl⟩
      · cases a with
        | nil =>
            rw [List.nil_append, List.cons.injEq] at ha
            exact .inr ⟨by rw [List.append_nil], ha.2.symm⟩
        | cons c v =>
            -- the second word would start inside the first
            rw [List.cons_append, List.cons.injEq] at ha
            rw [← ha.1] at hd
            exact absurd (by simp) hd

theorem append_word_eq_iff (hd : d ∉ w) :
    l ++ d :: (w ++ d :: r) = l' ++ d :: (w ++ d :: r') ↔
      l = l' ∧ r = r' ∨ Overhangs d w l r l' r' ∨ Overhangs d w l' r' l r := by
  constructor
  · intro h
    rcases List.append_eq_append_iff.mp h with ⟨x, rfl, hx⟩ | ⟨x, rfl, hx⟩
    · rcases overhangs_of_append hd hx with ⟨rfl, hr⟩ | hover
      · exact .inl ⟨(List.append_nil l).symm, hr⟩
      · exact .inr (.inl hover)
    · rcases overhangs_of_append hd hx with ⟨rfl, hr⟩ | hover
      · exact .inl ⟨List.append_nil l', hr.symm⟩
      · exact .inr (.inr hover)
  · rintro (⟨rfl, rfl⟩ | h | h)
    · rfl
    · exact h.append_eq
    · exact h.append_eq.symm

end Word

end Lib
