import JetCore.Lib.Json
import Mathlib.Data.Nat.Digits.Lemmas
import Mathlib.Tactic.IntervalCases

/-!
# The JSON grammar, and the scanner on the texts of it

`Writes t v` is the grammar of JSON texts, with the value each text writes. It
says nothing of how a text is read. A number keeps the kind of literal it was
written as, and a `\u` escape of a high surrogate joins with the escape of a
low one that follows it.

`scanValue_writes` is the completeness of the scanner: on every text of the
grammar it arrives at the value written, or refuses an integer literal because
it is too long, and which of the two is a matter of the value
(`convertible`). The induction is over the derivation and its measure is the
length of the text, which the scanner's fuel has to cover.
-/

namespace Lib.Json

/-! ## The grammar -/

def Blanks (w : Text) : Prop := ∀ c ∈ w, isBlank c = true

def Digits (ds : Text) : Prop := ds ≠ [] ∧ ∀ c ∈ ds, isDigit c = true

/-- No leading zero, but for zero itself. -/
def IntPart (ds : Text) : Prop :=
  Digits ds ∧ (ds.head? = some (chr '0') → ds = [chr '0'])

def sign (negative : Bool) : Text := if negative then [chr '-'] else []

def signed (negative : Bool) (n : ℕ) : ℤ := if negative then -(n : ℤ) else n

inductive FracPart : Text → Text → Prop
  | none : FracPart [] []
  | some {ds : Text} : Digits ds → FracPart (chr '.' :: ds) ds

/-- The text of an exponent, when there is one. -/
inductive ExpPart : Text → Option ℤ → Prop
  | none : ExpPart [] none
  | plain {e : CodePoint} {ds : Text} : e = chr 'e' ∨ e = chr 'E' →
      Digits ds → ExpPart (e :: ds) (some (natOfDigits ds))
  | plus {e : CodePoint} {ds : Text} : e = chr 'e' ∨ e = chr 'E' →
      Digits ds → ExpPart (e :: chr '+' :: ds) (some (natOfDigits ds))
  | minus {e : CodePoint} {ds : Text} : e = chr 'e' ∨ e = chr 'E' →
      Digits ds → ExpPart (e :: chr '-' :: ds) (some (-(natOfDigits ds : ℤ)))

/-- The value of a number literal. -/
def literalValue (negative : Bool) (int frac : Text) (exp : Option ℤ) : Json :=
  if frac = [] ∧ exp = none then .int (signed negative (natOfDigits int))
  else .float (.dec (signed negative (natOfDigits (int ++ frac)))
    (exp.getD 0 - frac.length))

inductive NumberText : Text → Json → Prop
  | mk {negative : Bool} {int frac fracText expText : Text} {exp : Option ℤ} :
      IntPart int → FracPart fracText frac → ExpPart expText exp →
      NumberText (sign negative ++ (int ++ (fracText ++ expText)))
        (literalValue negative int frac exp)

def IsHigh (v : ℕ) : Prop := 0xD800 ≤ v ∧ v < 0xDC00

def IsLow (v : ℕ) : Prop := 0xDC00 ≤ v ∧ v < 0xE000

/-- The four digits write `v`. -/
def Hex (a b c d : CodePoint) (v : ℕ) : Prop :=
  hex4 [a, b, c, d] = some (v, [])

/-- The text goes on with the escape of a low surrogate. -/
def LowNext (t : Text) : Prop :=
  ∃ a b c d lo rest, t = chr '\\' :: chr 'u' :: a :: b :: c :: d :: rest ∧
    Hex a b c d lo ∧ IsLow lo

/-- What stands between the quotes of a string. -/
inductive StringBody : Text → Text → Prop
  | nil : StringBody [] []
  | char {c : CodePoint} {t s : Text} : c ≠ chr '"' → c ≠ chr '\\' →
      0x20 ≤ c.val → StringBody t s → StringBody (c :: t) (c :: s)
  | escape {e p : CodePoint} {t s : Text} : unescape e = some p →
      StringBody t s → StringBody (chr '\\' :: e :: t) (p :: s)
  | unit {a b c d : CodePoint} {v : ℕ} {t s : Text} :
      Hex a b c d v → ¬ (IsHigh v ∧ LowNext t) → StringBody t s →
      StringBody (chr '\\' :: chr 'u' :: a :: b :: c :: d :: t) (point v :: s)
  | pair {a b c d a' b' c' d' : CodePoint} {hi lo : ℕ} {t s : Text} :
      Hex a b c d hi → IsHigh hi → Hex a' b' c' d' lo → IsLow lo →
      StringBody t s →
      StringBody (chr '\\' :: chr 'u' :: a :: b :: c :: d ::
          chr '\\' :: chr 'u' :: a' :: b' :: c' :: d' :: t)
        (point (0x10000 + (hi - 0xD800) * 0x400 + (lo - 0xDC00)) :: s)

mutual

/-- The text writes the value. -/
inductive ValueText : Text → Json → Prop
  | null : ValueText (Text.ofString "null") .null
  | true : ValueText (Text.ofString "true") (.bool true)
  | false : ValueText (Text.ofString "false") (.bool false)
  | number {t : Text} {v : Json} : NumberText t v → ValueText t v
  | string {t s : Text} : StringBody t s →
      ValueText (chr '"' :: (t ++ [chr '"'])) (.str s)
  | emptyArray {w : Text} : Blanks w →
      ValueText (chr '[' :: (w ++ [chr ']'])) (.arr [])
  | array {t : Text} {xs : List Json} : ItemsText t xs →
      ValueText (chr '[' :: t) (.arr xs)
  | emptyObject {w : Text} : Blanks w →
      ValueText (chr '{' :: (w ++ [chr '}'])) (.obj [])
  | object {t : Text} {fs : List (Text × Json)} : FieldsText t fs →
      ValueText (chr '{' :: t) (.obj fs)

/-- From the blanks before an item to the closing bracket. -/
inductive ItemsText : Text → List Json → Prop
  | last {w t w' : Text} {x : Json} : Blanks w → ValueText t x → Blanks w' →
      ItemsText (w ++ (t ++ (w' ++ [chr ']']))) [x]
  | cons {w t w' u : Text} {x : Json} {xs : List Json} : Blanks w →
      ValueText t x → Blanks w' → ItemsText u xs →
      ItemsText (w ++ (t ++ (w' ++ chr ',' :: u))) (x :: xs)

/-- From the blanks before a name to the closing brace. -/
inductive FieldsText : Text → List (Text × Json) → Prop
  | last {w k w₁ w₂ t w₃ s : Text} {x : Json} : Blanks w → StringBody k s →
      Blanks w₁ → Blanks w₂ → ValueText t x → Blanks w₃ →
      FieldsText (w ++ (chr '"' :: (k ++ (chr '"' :: (w₁ ++ (chr ':' ::
        (w₂ ++ (t ++ (w₃ ++ [chr '}'])))))))))
        [(s, x)]
  | cons {w k w₁ w₂ t w₃ u s : Text} {x : Json} {fs : List (Text × Json)} :
      Blanks w → StringBody k s → Blanks w₁ → Blanks w₂ → ValueText t x →
      Blanks w₃ → FieldsText u fs →
      FieldsText (w ++ (chr '"' :: (k ++ (chr '"' :: (w₁ ++ (chr ':' ::
        (w₂ ++ (t ++ (w₃ ++ chr ',' :: u)))))))))
        ((s, x) :: fs)

end

/-- A JSON text: one value between blanks. -/
def Writes (t : Text) (v : Json) : Prop :=
  ∃ w u w', Blanks w ∧ ValueText u v ∧ Blanks w' ∧ t = w ++ (u ++ w')

/-! ## Integers that are too long -/

mutual

/-- The runtime converts every integer of the value. -/
def convertible : Json → Bool
  | .int n => (Nat.toDigits 10 n.natAbs).length ≤ maxIntDigits
  | .arr xs => convertibleItems xs
  | .obj fs => convertibleFields fs
  | _ => true

def convertibleItems : List Json → Bool
  | [] => true
  | x :: xs => convertible x && convertibleItems xs

def convertibleFields : List (Text × Json) → Bool
  | [] => true
  | (_, v) :: fs => convertible v && convertibleFields fs

end

/-- What a scan of a text of `a` comes to, when `fine` says whether all its
integers are converted. -/
def outcome {β : Type} (fine : Bool) (a : β) (rest : Text) : Scan β :=
  if fine then .ok (a, rest) else .error .tooManyDigits

/-! ## Strings -/

theorem hex4_cons {a b c d : CodePoint} {v : ℕ} (h : Hex a b c d v)
    (t : Text) : hex4 (a :: b :: c :: d :: t) = some (v, t) := by
  rw [Hex, hex4] at h
  rw [hex4]
  split at h
  · cases h
    rfl
  · cases h

theorem hex_of_hex4 {u rest : Text} {v : ℕ} (h : hex4 u = some (v, rest)) :
    ∃ a b c d, u = a :: b :: c :: d :: rest ∧ Hex a b c d v := by
  match u, h with
  | a :: b :: c :: d :: t, h =>
      rw [hex4] at h
      split at h
      · next ha hb hc hd =>
          cases h
          exact ⟨a, b, c, d, rfl, by rw [Hex, hex4, ha, hb, hc, hd]⟩
      · cases h

/-- A unit on its own: it is no high surrogate, or no low one follows. -/
theorem scanUnicode_unit {a b c d : CodePoint} {v : ℕ} {u : Text}
    (hhex : Hex a b c d v) (hlow : ¬ (IsHigh v ∧ LowNext u)) :
    scanUnicode (a :: b :: c :: d :: u) = some (point v, u) := by
  rw [scanUnicode, hex4_cons hhex, Option.map_some]
  simp only []
  split
  · next hhigh =>
      split
      · next x y rest =>
          split
          · next hxy =>
              split
              · next lo rest' hlo =>
                  obtain ⟨a', b', c', d', rfl, hhex'⟩ := hex_of_hex4 hlo
                  have hnot : ¬ (0xDC00 ≤ lo ∧ lo < 0xE000) := fun h =>
                    hlow ⟨hhigh, a', b', c', d', lo, rest', by
                      rw [hxy.1, hxy.2], hhex', h⟩
                  rw [if_neg hnot]
              · rfl
          · rfl
      · rfl
  · rfl

theorem scanUnicode_joins {a b c d a' b' c' d' : CodePoint} {hi lo : ℕ}
    (hhi : Hex a b c d hi) (hhigh : IsHigh hi) (hlo : Hex a' b' c' d' lo)
    (hlow : IsLow lo) (u : Text) :
    scanUnicode (a :: b :: c :: d ::
        chr '\\' :: chr 'u' :: a' :: b' :: c' :: d' :: u) =
      some (point (0x10000 + (hi - 0xD800) * 0x400 + (lo - 0xDC00)), u) := by
  rw [scanUnicode, hex4_cons hhi, Option.map_some]
  simp only []
  have hlow' : 0xDC00 ≤ lo ∧ lo < 0xE000 := hlow
  have hhigh' : 0xD800 ≤ hi ∧ hi < 0xDC00 := hhigh
  rw [if_pos hhigh', if_pos ⟨trivial, trivial⟩, hex4_cons hlo]
  simp only []
  rw [if_pos hlow']

/-- The quote that ends a body is no part of an escape. -/
theorem lowNext_quote {t rest : Text} (h : LowNext (t ++ chr '"' :: rest)) :
    LowNext t := by
  obtain ⟨a, b, c, d, lo, rest', heq, hhex, hlow⟩ := h
  have hdigit : ∀ x ∈ [a, b, c, d], x ≠ chr '"' := by
    rintro x hx rfl
    rw [Hex, hex4] at hhex
    split at hhex
    · next ha hb hc hd =>
        have hquote : hexVal (chr '"') = none := by decide
        simp only [List.mem_cons, List.not_mem_nil, or_false] at hx
        rcases hx with rfl | rfl | rfl | rfl
        · rw [hquote] at ha; cases ha
        · rw [hquote] at hb; cases hb
        · rw [hquote] at hc; cases hc
        · rw [hquote] at hd; cases hd
    · cases hhex
  match t, heq with
  | [], heq => exact absurd (List.cons.inj heq).1 (by decide)
  | [_], heq =>
      exact absurd (List.cons.inj (List.cons.inj heq).2).1 (by decide)
  | [_, _], heq =>
      cases heq
      exact absurd rfl (hdigit _ (by simp))
  | [_, _, _], heq =>
      cases heq
      exact absurd rfl (hdigit _ (by simp))
  | [_, _, _, _], heq =>
      cases heq
      exact absurd rfl (hdigit _ (by simp))
  | [_, _, _, _, _], heq =>
      cases heq
      exact absurd rfl (hdigit _ (by simp))
  | _ :: _ :: _ :: _ :: _ :: _ :: t', heq =>
      cases heq
      exact ⟨a, b, c, d, lo, t', rfl, hhex, hlow⟩

theorem scanChar_char {c : CodePoint} (hquote : c ≠ chr '"')
    (hslash : c ≠ chr '\\') (hcontrol : 0x20 ≤ c.val) (u : Text) :
    scanChar (c :: u) = .ok (some c, u) := by
  rw [scanChar.eq_def]
  simp only []
  rw [if_neg hquote, if_neg hslash, if_neg (by omega)]

theorem scanChar_escape {e p : CodePoint} (hp : unescape e = some p)
    (u : Text) : scanChar (chr '\\' :: e :: u) = .ok (some p, u) := by
  have he : e ≠ chr 'u' := by
    rintro rfl
    have hnone : unescape (chr 'u') = none := by decide
    rw [hnone] at hp
    cases hp
  rw [scanChar.eq_def]
  simp only []
  rw [if_neg (by decide), if_pos trivial, if_neg he, hp]

theorem scanChar_unicode {t u : Text} {p : CodePoint}
    (h : scanUnicode t = some (p, u)) :
    scanChar (chr '\\' :: chr 'u' :: t) = .ok (some p, u) := by
  rw [scanChar.eq_def]
  simp only []
  rw [if_neg (by decide), if_pos trivial, if_pos trivial, h]

theorem scanString_cons {t u s rest : Text} {c : CodePoint} {fuel : ℕ}
    (hchar : scanChar t = .ok (some c, u))
    (hrest : scanString fuel u = .ok (s, rest)) :
    scanString (fuel + 1) t = .ok (c :: s, rest) := by
  rw [scanString, hchar]
  simp only []
  rw [hrest]

/-- The loop over the characters, up to the closing quote. -/
theorem scanString_body {t s : Text} (h : StringBody t s) (rest : Text) :
    ∀ fuel, t.length ≤ fuel →
      scanString (fuel + 1) (t ++ chr '"' :: rest) = .ok (s, rest) := by
  induction h with
  | nil => exact fun fuel _ => rfl
  | @char c t s hquote hslash hcontrol _ ih =>
      intro fuel hfuel
      rw [List.length_cons] at hfuel
      obtain ⟨n, rfl⟩ : ∃ n, fuel = n + 1 := ⟨fuel - 1, by omega⟩
      exact scanString_cons (scanChar_char hquote hslash hcontrol _)
        (ih n (by omega))
  | @escape e p t s hp _ ih =>
      intro fuel hfuel
      rw [List.length_cons, List.length_cons] at hfuel
      obtain ⟨n, rfl⟩ : ∃ n, fuel = n + 1 := ⟨fuel - 1, by omega⟩
      exact scanString_cons (scanChar_escape hp _) (ih n (by omega))
  | @unit a b c d v t s hhex hlow _ ih =>
      intro fuel hfuel
      simp only [List.length_cons] at hfuel
      obtain ⟨n, rfl⟩ : ∃ n, fuel = n + 1 := ⟨fuel - 1, by omega⟩
      exact scanString_cons (scanChar_unicode (scanUnicode_unit hhex
        fun h => hlow ⟨h.1, lowNext_quote h.2⟩)) (ih n (by omega))
  | @pair a b c d a' b' c' d' hi lo t s hhi hhigh hlo hlow _ ih =>
      intro fuel hfuel
      simp only [List.length_cons] at hfuel
      obtain ⟨n, rfl⟩ : ∃ n, fuel = n + 1 := ⟨fuel - 1, by omega⟩
      exact scanString_cons (scanChar_unicode
        (scanUnicode_joins hhi hhigh hlo hlow _)) (ih n (by omega))

/-! ## Numbers -/

/-- The text does not go on with a digit. -/
def NoDigit (t : Text) : Prop := ∀ c ∈ t.head?, isDigit c = false

/-- The text does not continue a number. -/
def Stops (rest : Text) : Prop :=
  ∀ c ∈ rest.head?, isDigit c = false ∧ c ≠ chr '.' ∧ c ≠ chr 'e' ∧ c ≠ chr 'E'

theorem stops_nil : Stops [] := fun _ h => by cases h

theorem stops_cons {c : CodePoint} {rest : Text}
    (h : isDigit c = false ∧ c ≠ chr '.' ∧ c ≠ chr 'e' ∧ c ≠ chr 'E') :
    Stops (c :: rest) := by
  intro d hd
  cases hd
  exact h

theorem noDigit_cons {c : CodePoint} {rest : Text} (h : isDigit c = false) :
    NoDigit (c :: rest) := by
  intro d hd
  cases hd
  exact h

theorem Stops.noDigit {rest : Text} (h : Stops rest) : NoDigit rest :=
  fun c hc => (h c hc).1

/-- A digit is none of the characters that mean something in a number. -/
theorem digit_ne {c : CodePoint} (h : isDigit c = true) {x : Char}
    (hx : isDigit (chr x) = false) : c ≠ chr x := by
  rintro rfl
  rw [h] at hx
  cases hx

theorem span_digits {ds rest : Text} (hds : ∀ c ∈ ds, isDigit c = true)
    (hrest : NoDigit rest) : (ds ++ rest).span isDigit = (ds, rest) := by
  have hstop : rest.takeWhile isDigit = [] ∧ rest.dropWhile isDigit = rest := by
    cases rest with
    | nil => exact ⟨rfl, rfl⟩
    | cons c rest =>
        have hc := hrest c rfl
        exact ⟨List.takeWhile_cons_of_neg (by simp [hc]),
          List.dropWhile_cons_of_neg (by simp [hc])⟩
  rw [List.span_eq_takeWhile_dropWhile, List.takeWhile_append_of_pos hds,
    List.dropWhile_append_of_pos hds, hstop.1, hstop.2, List.append_nil]

theorem Digits.head {ds : Text} (h : Digits ds) :
    ∃ c ds', ds = c :: ds' ∧ isDigit c = true := by
  obtain ⟨c, ds', rfl⟩ := List.exists_cons_of_ne_nil h.1
  exact ⟨c, ds', rfl, h.2 c List.mem_cons_self⟩

/-- The integer part is read off whatever follows it. -/
theorem scan_intPart {int rest : Text} (hint : IntPart int)
    (hrest : NoDigit rest) :
    (if (int ++ rest).head? = some (chr '0')
      then ([chr '0'], (int ++ rest).tail)
      else (int ++ rest).span isDigit) = (int, rest) := by
  split
  · next h =>
      rw [List.head?_append_of_ne_nil _ hint.1.1] at h
      rw [hint.2 h]
      rfl
  · exact span_digits hint.1.2 hrest

theorem scanFraction_none {rest : Text} (h : rest.head? ≠ some (chr '.')) :
    scanFraction rest = none := by
  cases rest with
  | nil => rfl
  | cons c rest => rw [scanFraction, if_neg fun hc => h (congrArg some hc)]

theorem scanFraction_some {ds rest : Text} (hds : Digits ds)
    (hrest : NoDigit rest) :
    scanFraction (chr '.' :: (ds ++ rest)) = some (ds, rest) := by
  rw [scanFraction, if_pos rfl, span_digits hds.2 hrest]
  simp only []
  rw [if_neg hds.1]

theorem ExpPart.head {t : Text} {e : Option ℤ} (h : ExpPart t e) {rest : Text}
    (hrest : Stops rest) :
    NoDigit (t ++ rest) ∧ (t ++ rest).head? ≠ some (chr '.') := by
  have hletter : ∀ {c : CodePoint}, c = chr 'e' ∨ c = chr 'E' →
      isDigit c = false ∧ c ≠ chr '.' := by
    rintro c (rfl | rfl)
    · decide
    · decide
  cases h with
  | none =>
      exact ⟨hrest.noDigit, fun h => (hrest _ h).2.1 rfl⟩
  | plain he _ =>
      exact ⟨noDigit_cons (hletter he).1,
        fun h => (hletter he).2 (Option.some.inj h)⟩
  | plus he _ =>
      exact ⟨noDigit_cons (hletter he).1,
        fun h => (hletter he).2 (Option.some.inj h)⟩
  | minus he _ =>
      exact ⟨noDigit_cons (hletter he).1,
        fun h => (hletter he).2 (Option.some.inj h)⟩

theorem scanExponent_exp {t : Text} {e : Option ℤ} (h : ExpPart t e)
    {rest : Text} (hrest : Stops rest) :
    scanExponent (t ++ rest) = e.map fun e => (e, rest) := by
  cases h with
  | none =>
      cases rest with
      | nil => rfl
      | cons c rest =>
          rw [List.nil_append, scanExponent.eq_def]
          refine if_neg ?_
          rintro (h | h)
          · exact (hrest c rfl).2.2.1 h
          · exact (hrest c rfl).2.2.2 h
  | @plain e ds he hds =>
      obtain ⟨c, ds', rfl, hc⟩ := hds.head
      have hspan := span_digits hds.2 hrest.noDigit
      have hminus := digit_ne hc (x := '-') (by decide)
      have hplus := digit_ne hc (x := '+') (by decide)
      rw [List.cons_append] at hspan
      rw [List.cons_append, List.cons_append, scanExponent.eq_def]
      simp only [hspan, hminus, hplus, or_self, if_false]
      rw [if_pos he, if_neg hds.1]
      rfl
  | @plus e ds he hds =>
      have hspan := span_digits hds.2 hrest.noDigit
      rw [List.cons_append, List.cons_append, scanExponent.eq_def]
      simp only [hspan, or_true, if_true]
      rw [if_pos he, if_neg hds.1, if_neg (by decide)]
      rfl
  | @minus e ds he hds =>
      have hspan := span_digits hds.2 hrest.noDigit
      rw [List.cons_append, List.cons_append, scanExponent.eq_def]
      simp only [hspan, true_or, if_true]
      rw [if_pos he, if_neg hds.1]
      rfl

/-! ## The digits of an integer -/

theorem digits_ne_nil (n : ℕ) : digits n ≠ [] := by
  simp [digits, Nat.toDigits_ne_nil]

theorem digitChar_val : ∀ n < 10, (chr (Nat.digitChar n)).val = 0x30 + n := by
  decide

theorem natOfDigits_concat (ds : Text) (c : CodePoint) :
    natOfDigits (ds ++ [c]) = natOfDigits ds * 10 + (c.val - 0x30) := by
  rw [natOfDigits, List.foldl_append]
  rfl

/-- An integer part is the digits of its number, so that how long it is can
be told from the number. -/
theorem digits_natOfDigits : ∀ {ds : Text}, IntPart ds →
    digits (natOfDigits ds) = ds := by
  intro ds
  induction ds using List.reverseRecOn with
  | nil => exact fun h => absurd rfl h.1.1
  | append_singleton ds c ih =>
      intro h
      have hc : isDigit c = true := h.1.2 c (by simp)
      rw [isDigit, Bool.and_eq_true, decide_eq_true_eq, decide_eq_true_eq] at hc
      have hchar : chr (Nat.digitChar (c.val - 0x30)) = c := by
        have := digitChar_val (c.val - 0x30) (by omega)
        exact Fin.ext (by omega)
      rw [natOfDigits_concat]
      by_cases hds : ds = []
      · subst hds
        show digits (natOfDigits [] * 10 + _) = [c]
        rw [digits, show natOfDigits [] = 0 from rfl, Nat.zero_mul,
          Nat.zero_add, Nat.toDigits_of_lt_base (by omega)]
        simp [hchar]
      · have hhead : ds.head? ≠ some (chr '0') := by
          intro hzero
          have := h.2 (by rw [List.head?_append_of_ne_nil _ hds, hzero])
          have hlen := congrArg List.length this
          have hpos := List.length_pos_iff.mpr hds
          simp only [List.length_append, List.length_singleton] at hlen
          omega
        have hint : IntPart ds :=
          ⟨⟨hds, fun d hd => h.1.2 d (by simp [hd])⟩,
            fun hzero => absurd hzero hhead⟩
        have hprev := ih hint
        have hpos : natOfDigits ds ≠ 0 := by
          intro hzero
          rw [hzero] at hprev
          rw [← hprev] at hhead
          exact hhead rfl
        rw [digits, Nat.toDigits_of_base_le (by omega) (by omega),
          List.map_append,
          show (natOfDigits ds * 10 + (c.val - 0x30)) / 10 = natOfDigits ds by
            omega,
          show (natOfDigits ds * 10 + (c.val - 0x30)) % 10 = c.val - 0x30 by
            omega]
        rw [digits] at hprev
        rw [hprev]
        simp [hchar]

theorem literalValue_int (negative : Bool) (int : Text) :
    literalValue negative int [] none =
      .int (signed negative (natOfDigits int)) :=
  if_pos ⟨rfl, rfl⟩

theorem literalValue_float {negative : Bool} {int frac : Text} {exp : Option ℤ}
    (h : ¬ (frac = [] ∧ exp = none)) :
    literalValue negative int frac exp =
      .float (.dec (signed negative (natOfDigits (int ++ frac)))
        (exp.getD 0 - frac.length)) :=
  if_neg h

theorem natAbs_signed (negative : Bool) (n : ℕ) :
    (signed negative n).natAbs = n := by
  cases negative with
  | false => rfl
  | true => exact Int.natAbs_neg _

theorem convertible_literal {negative : Bool} {int : Text}
    (hint : IntPart int) :
    convertible (literalValue negative int [] none) =
      decide (int.length ≤ maxIntDigits) := by
  have hlen := congrArg List.length (digits_natOfDigits hint)
  rw [digits, List.length_map] at hlen
  rw [literalValue_int, convertible, natAbs_signed, hlen]

/-! ## The scanner on numbers -/

theorem NumberText.head {t : Text} {v : Json} (h : NumberText t v) :
    ∃ c t', t = c :: t' ∧
      (isDigit c = true ∨ c = chr '-' ∧ ∃ d t'', t' = d :: t'' ∧
        isDigit d = true) := by
  cases h with
  | @mk negative int frac fracText expText exp hint hfrac hexp =>
      obtain ⟨c, ds, rfl, hc⟩ := hint.1.head
      cases negative with
      | false => exact ⟨c, _, rfl, .inl hc⟩
      | true => exact ⟨chr '-', _, rfl, .inr ⟨rfl, c, _, rfl, hc⟩⟩

theorem scanNumber_number {t : Text} {v : Json} (h : NumberText t v)
    {rest : Text} (hrest : Stops rest) :
    scanNumber (t ++ rest) = outcome (convertible v) v rest := by
  cases h with
  | @mk negative int frac fracText expText exp hint hfrac hexp =>
      obtain ⟨hdigit, hpoint⟩ := hexp.head hrest
      have hhead : ((sign negative ++ (int ++ (fracText ++
          (expText ++ rest)))).head? = some (chr '-')) = (negative = true) := by
        obtain ⟨c, ds, rfl, hc⟩ := hint.1.head
        cases negative with
        | false =>
            have hne := digit_ne hc (x := '-') (by decide)
            simp [sign, hne]
        | true => simp [sign]
      have hbody : (if negative = true
          then (sign negative ++ (int ++ (fracText ++ (expText ++ rest)))).tail
          else sign negative ++ (int ++ (fracText ++ (expText ++ rest)))) =
          int ++ (fracText ++ (expText ++ rest)) := by
        cases negative with
        | false => rfl
        | true => rfl
      rw [show sign negative ++ (int ++ (fracText ++ expText)) ++ rest =
        sign negative ++ (int ++ (fracText ++ (expText ++ rest))) by simp]
      simp only [scanNumber, hhead, hbody]
      cases hfrac with
      | none =>
          simp only [List.nil_append, scan_intPart hint hdigit,
            if_neg hint.1.1, scanFraction_none hpoint,
            scanExponent_exp hexp hrest]
          cases exp with
          | none =>
              have hnil : expText = [] := by
                cases hexp
                rfl
              rw [convertible_literal hint, literalValue_int, outcome]
              simp only [Option.map_none, hnil, List.nil_append]
              by_cases hlong : maxIntDigits < int.length
              · have hfine : ¬ decide (int.length ≤ maxIntDigits) = true := by
                  simpa using hlong
                rw [if_pos hlong, if_neg hfine]
              · have hfine : decide (int.length ≤ maxIntDigits) = true := by
                  simpa using hlong
                rw [if_neg hlong, if_pos hfine]
                rfl
          | some e =>
              have hfloat : ¬ (([] : Text) = [] ∧ some e = none) := by simp
              rw [literalValue_float hfloat]
              simp only [Option.map_some, List.append_nil, List.length_nil,
                Nat.cast_zero, sub_zero]
              rfl
      | @some frac hds =>
          simp only [List.cons_append,
            scan_intPart hint (noDigit_cons (c := chr '.') (by decide)),
            if_neg hint.1.1, scanFraction_some hds hdigit,
            scanExponent_exp hexp hrest]
          rw [literalValue_float fun h => hds.1 h.1]
          cases exp with
          | none =>
              have hnil : expText = [] := by
                cases hexp
                rfl
              simp only [Option.map_none, hnil, List.nil_append,
                Option.getD_none, zero_sub]
              rfl
          | some e => rfl

/-! ## The scanner on values -/

theorem skipBlanks_blanks {w : Text} (hw : Blanks w) (t : Text) :
    skipBlanks (w ++ t) = skipBlanks t := by
  rw [skipBlanks, List.dropWhile_append_of_pos hw, ← skipBlanks]

theorem skipBlanks_of_head {c : CodePoint} {rest : Text}
    (h : isBlank c = false) : skipBlanks (c :: rest) = c :: rest :=
  List.dropWhile_cons_of_neg (by simp [h])

theorem stops_blanks {w t : Text} (hw : Blanks w) (ht : Stops t) :
    Stops (w ++ t) := by
  cases w with
  | nil => exact ht
  | cons c w =>
      have hc := hw c List.mem_cons_self
      simp only [isBlank, Bool.or_eq_true, decide_eq_true_eq] at hc
      refine stops_cons ⟨?_, ?_, ?_, ?_⟩
      · simp only [isDigit, Bool.and_eq_false_iff, decide_eq_false_iff_not]
        omega
      all_goals
        rintro rfl
        revert hc
        decide

/-- The text begins with what no separator of the grammar is. -/
def Opens (t : Text) : Prop :=
  ∃ c rest, t = c :: rest ∧ isBlank c = false ∧ c ≠ chr ']' ∧ c ≠ chr '}'

theorem isBlank_of_isDigit {c : CodePoint} (h : isDigit c = true) :
    isBlank c = false := by
  simp only [isDigit, Bool.and_eq_true, decide_eq_true_eq] at h
  simp only [isBlank, Bool.or_eq_false_iff, decide_eq_false_iff_not]
  omega

theorem ValueText.opens {t : Text} {v : Json} (h : ValueText t v) :
    Opens t := by
  cases h with
  | null => exact ⟨_, _, rfl, by decide⟩
  | true => exact ⟨_, _, rfl, by decide⟩
  | false => exact ⟨_, _, rfl, by decide⟩
  | number hn =>
      obtain ⟨c, t', rfl, hc | ⟨rfl, -⟩⟩ := hn.head
      · exact ⟨c, t', rfl, isBlank_of_isDigit hc,
          digit_ne hc (by decide), digit_ne hc (by decide)⟩
      · exact ⟨_, _, rfl, by decide⟩
  | string _ => exact ⟨_, _, rfl, by decide⟩
  | emptyArray _ => exact ⟨_, _, rfl, by decide⟩
  | array _ => exact ⟨_, _, rfl, by decide⟩
  | emptyObject _ => exact ⟨_, _, rfl, by decide⟩
  | object _ => exact ⟨_, _, rfl, by decide⟩

theorem Opens.skipBlanks {t : Text} (h : Opens t) (rest : Text) :
    Json.skipBlanks (t ++ rest) = t ++ rest := by
  obtain ⟨c, t', rfl, hc, -, -⟩ := h
  exact skipBlanks_of_head hc

theorem scanValue_number {t : Text} {v : Json} (h : NumberText t v)
    {rest : Text} (hrest : Stops rest) (fuel : ℕ) :
    scanValue none (fuel + 1) (t ++ rest) = outcome (convertible v) v rest := by
  rw [← scanNumber_number h hrest]
  obtain ⟨c, t', rfl, hc⟩ := h.head
  have hinfinity : ¬ (c = chr '-' ∧ (t' ++ rest).head? = some (chr 'I')) := by
    rintro ⟨rfl, hI⟩
    rcases hc with hc | ⟨-, d, t'', rfl, hd⟩
    · exact absurd hc (by decide)
    · exact digit_ne hd (x := 'I') (by decide) (Option.some.inj hI)
  have hne : ∀ x : Char, isDigit (chr x) = false → chr '-' ≠ chr x →
      c ≠ chr x := by
    intro x hx hminus
    rcases hc with hc | ⟨rfl, -⟩
    · exact digit_ne hc hx
    · exact hminus
  rw [List.cons_append, scanValue.eq_def]
  simp only []
  rw [if_neg (hne '"' (by decide) (by decide)),
    if_neg (hne '\x7b' (by decide) (by decide)),
    if_neg (hne '[' (by decide) (by decide)),
    if_neg (hne 'n' (by decide) (by decide)),
    if_neg (hne 't' (by decide) (by decide)),
    if_neg (hne 'f' (by decide) (by decide)),
    if_neg (hne 'N' (by decide) (by decide)),
    if_neg (hne 'I' (by decide) (by decide)), if_neg hinfinity]

theorem scanValue_string {t s : Text} (h : StringBody t s) (rest : Text)
    (fuel : ℕ) :
    scanValue none (fuel + 1) (chr '"' :: (t ++ chr '"' :: rest)) =
      .ok (.str s, rest) := by
  have hscan := scanString_body h rest (t ++ chr '"' :: rest).length
    (by rw [List.length_append]; omega)
  rw [scanValue.eq_def]
  simp only []
  rw [if_pos trivial, hscan]

theorem ItemsText.opens {t : Text} {xs : List Json} (h : ItemsText t xs)
    (rest : Text) : ∃ d u, skipBlanks (t ++ rest) = d :: u ∧ d ≠ chr ']' := by
  cases h with
  | last hw ht _ =>
      rw [List.append_assoc, skipBlanks_blanks hw, List.append_assoc,
        ht.opens.skipBlanks]
      obtain ⟨c, t', rfl, -, hne, -⟩ := ht.opens
      exact ⟨c, _, rfl, hne⟩
  | cons hw ht _ _ =>
      rw [List.append_assoc, skipBlanks_blanks hw, List.append_assoc,
        ht.opens.skipBlanks]
      obtain ⟨c, t', rfl, -, hne, -⟩ := ht.opens
      exact ⟨c, _, rfl, hne⟩

theorem FieldsText.opens {t : Text} {fs : List (Text × Json)}
    (h : FieldsText t fs) (rest : Text) :
    ∃ u, skipBlanks (t ++ rest) = chr '"' :: u := by
  cases h with
  | last hw _ _ _ _ _ =>
      rw [List.append_assoc, skipBlanks_blanks hw]
      exact ⟨_, skipBlanks_of_head (by decide)⟩
  | cons hw _ _ _ _ _ _ =>
      rw [List.append_assoc, skipBlanks_blanks hw]
      exact ⟨_, skipBlanks_of_head (by decide)⟩

/-- What one more turn of `scanValue` needs of the turns behind it. -/
structure Scans (fuel : ℕ) : Prop where
  value : ∀ t v rest, ValueText t v → t.length ≤ fuel → Stops rest →
    scanValue none fuel (t ++ rest) = outcome (convertible v) v rest
  items : ∀ t xs rest, ItemsText t xs → t.length ≤ fuel →
    scanItems none fuel (skipBlanks (t ++ rest)) =
      outcome (convertibleItems xs) xs rest
  fields : ∀ t fs rest, FieldsText t fs → t.length ≤ fuel →
    scanFields none fuel (skipBlanks (t ++ rest)) =
      outcome (convertibleFields fs) fs rest

theorem scanValue_text {fuel : ℕ} (ih : Scans fuel) {t : Text} {v : Json}
    (h : ValueText t v) (hfuel : t.length ≤ fuel + 1) {rest : Text}
    (hrest : Stops rest) :
    scanValue none (fuel + 1) (t ++ rest) = outcome (convertible v) v rest := by
  cases h with
  | null => rfl
  | true => rfl
  | false => rfl
  | number hn => exact scanValue_number hn hrest fuel
  | string hs =>
      rw [List.cons_append, List.append_assoc]
      exact scanValue_string hs rest fuel
  | emptyArray hw =>
      rw [List.cons_append, List.append_assoc, scanValue.eq_def]
      simp only [List.singleton_append]
      rw [if_neg (by decide), if_neg (by decide), if_pos trivial,
        skipBlanks_blanks hw, skipBlanks_of_head (by decide)]
      rfl
  | @array t xs hxs =>
      obtain ⟨d, u, heq, hne⟩ := hxs.opens rest
      have hscan := ih.items t xs rest hxs (by simpa using hfuel)
      rw [heq] at hscan
      rw [List.cons_append, scanValue.eq_def]
      simp only []
      rw [if_neg (by decide), if_neg (by decide), if_pos trivial, heq]
      simp only [enter]
      rw [if_neg hne, hscan, convertible]
      cases convertibleItems xs with
      | false => rfl
      | true => rfl
  | emptyObject hw =>
      rw [List.cons_append, List.append_assoc, scanValue.eq_def]
      simp only [List.singleton_append]
      rw [if_neg (by decide), if_pos trivial,
        skipBlanks_blanks hw, skipBlanks_of_head (by decide)]
      rfl
  | @object t fs hfs =>
      obtain ⟨u, heq⟩ := hfs.opens rest
      have hscan := ih.fields t fs rest hfs (by simpa using hfuel)
      rw [heq] at hscan
      rw [List.cons_append, scanValue.eq_def]
      simp only []
      rw [if_neg (by decide), if_pos trivial, heq]
      simp only [enter]
      rw [if_neg (by decide), hscan, convertible]
      cases convertibleFields fs with
      | false => rfl
      | true => rfl

theorem scanItems_text {fuel : ℕ} (ih : Scans fuel) {t : Text}
    {xs : List Json} (h : ItemsText t xs) (hfuel : t.length ≤ fuel + 1)
    (rest : Text) :
    scanItems none (fuel + 1) (skipBlanks (t ++ rest)) =
      outcome (convertibleItems xs) xs rest := by
  cases h with
  | @last w t w' x hw ht hw' =>
      simp only [List.length_append, List.length_singleton] at hfuel
      have hscan := ih.value t x (w' ++ chr ']' :: rest) ht (by omega)
        (stops_blanks hw' (stops_cons (by decide)))
      rw [show w ++ (t ++ (w' ++ [chr ']'])) ++ rest =
        w ++ (t ++ (w' ++ chr ']' :: rest)) by simp, skipBlanks_blanks hw,
        ht.opens.skipBlanks, scanItems, hscan, convertibleItems,
        convertibleItems, Bool.and_true]
      cases convertible x with
      | false => rfl
      | true =>
          simp only [outcome, if_true]
          rw [skipBlanks_blanks hw', skipBlanks_of_head (by decide)]
          rfl
  | @cons w t w' u x xs hw ht hw' hxs =>
      simp only [List.length_append, List.length_cons] at hfuel
      have hscan := ih.value t x (w' ++ chr ',' :: (u ++ rest)) ht (by omega)
        (stops_blanks hw' (stops_cons (by decide)))
      have hitems := ih.items u xs rest hxs (by omega)
      rw [show w ++ (t ++ (w' ++ chr ',' :: u)) ++ rest =
        w ++ (t ++ (w' ++ chr ',' :: (u ++ rest))) by simp,
        skipBlanks_blanks hw, ht.opens.skipBlanks, scanItems, hscan,
        convertibleItems]
      cases convertible x with
      | false => rfl
      | true =>
          simp only [outcome, if_true, Bool.true_and]
          rw [skipBlanks_blanks hw', skipBlanks_of_head (by decide)]
          simp only []
          rw [if_neg (by decide), if_pos trivial, hitems]
          cases convertibleItems xs with
          | false => rfl
          | true => rfl

theorem scanFields_text {fuel : ℕ} (ih : Scans fuel) {t : Text}
    {fs : List (Text × Json)} (h : FieldsText t fs)
    (hfuel : t.length ≤ fuel + 1) (rest : Text) :
    scanFields none (fuel + 1) (skipBlanks (t ++ rest)) =
      outcome (convertibleFields fs) fs rest := by
  cases h with
  | @last w k w₁ w₂ t w₃ s x hw hk hw₁ hw₂ ht hw₃ =>
      simp only [List.length_append, List.length_cons,
        List.length_nil] at hfuel
      have hname := scanString_body hk
        (w₁ ++ (chr ':' :: (w₂ ++ (t ++ (w₃ ++ chr '\x7d' :: rest)))))
      have hscan := ih.value t x (w₃ ++ chr '\x7d' :: rest) ht (by omega)
        (stops_blanks hw₃ (stops_cons (by decide)))
      rw [show w ++ (chr '"' :: (k ++ (chr '"' :: (w₁ ++ (chr ':' ::
        (w₂ ++ (t ++ (w₃ ++ [chr '\x7d'])))))))) ++ rest =
        w ++ (chr '"' :: (k ++ (chr '"' :: (w₁ ++ (chr ':' ::
        (w₂ ++ (t ++ (w₃ ++ chr '\x7d' :: rest)))))))) by simp,
        skipBlanks_blanks hw, skipBlanks_of_head (by decide),
        scanFields.eq_def]
      simp only []
      rw [if_pos trivial, hname _ (by rw [List.length_append]; omega)]
      simp only []
      rw [skipBlanks_blanks hw₁, skipBlanks_of_head (by decide)]
      simp only []
      rw [if_pos trivial, skipBlanks_blanks hw₂, ht.opens.skipBlanks, hscan,
        convertibleFields, convertibleFields, Bool.and_true]
      cases convertible x with
      | false => rfl
      | true =>
          simp only [outcome, if_true]
          rw [skipBlanks_blanks hw₃, skipBlanks_of_head (by decide)]
          rfl
  | @cons w k w₁ w₂ t w₃ u s x fs hw hk hw₁ hw₂ ht hw₃ hfs =>
      simp only [List.length_append, List.length_cons] at hfuel
      have hname := scanString_body hk
        (w₁ ++ (chr ':' :: (w₂ ++ (t ++ (w₃ ++ chr ',' :: (u ++ rest))))))
      have hscan := ih.value t x (w₃ ++ chr ',' :: (u ++ rest)) ht (by omega)
        (stops_blanks hw₃ (stops_cons (by decide)))
      have hfields := ih.fields u fs rest hfs (by omega)
      rw [show w ++ (chr '"' :: (k ++ (chr '"' :: (w₁ ++ (chr ':' ::
        (w₂ ++ (t ++ (w₃ ++ chr ',' :: u)))))))) ++ rest =
        w ++ (chr '"' :: (k ++ (chr '"' :: (w₁ ++ (chr ':' ::
        (w₂ ++ (t ++ (w₃ ++ chr ',' :: (u ++ rest))))))))) by simp,
        skipBlanks_blanks hw, skipBlanks_of_head (by decide),
        scanFields.eq_def]
      simp only []
      rw [if_pos trivial, hname _ (by rw [List.length_append]; omega)]
      simp only []
      rw [skipBlanks_blanks hw₁, skipBlanks_of_head (by decide)]
      simp only []
      rw [if_pos trivial, skipBlanks_blanks hw₂, ht.opens.skipBlanks, hscan,
        convertibleFields]
      cases convertible x with
      | false => rfl
      | true =>
          simp only [outcome, if_true, Bool.true_and]
          rw [skipBlanks_blanks hw₃, skipBlanks_of_head (by decide)]
          simp only []
          rw [if_neg (by decide), if_pos trivial, hfields]
          cases convertibleFields fs with
          | false => rfl
          | true => rfl

theorem ValueText.length_pos {t : Text} {v : Json} (h : ValueText t v) :
    0 < t.length := by
  obtain ⟨c, t', rfl, -⟩ := h.opens
  exact Nat.succ_pos _

theorem scans : ∀ fuel : ℕ, Scans fuel := by
  intro fuel
  induction fuel with
  | zero =>
      have hnone : ∀ {t : Text} {c : CodePoint}, c ∈ t → t.length ≤ 0 → False :=
        fun hc ht => by
          have := List.length_pos_of_mem hc
          omega
      exact {
        value := fun t v _ h hfuel => by
          have := h.length_pos
          omega
        items := fun t xs _ h hfuel => by
          cases h with
          | last _ _ _ => exact (hnone (c := chr ']') (by simp) hfuel).elim
          | cons _ _ _ _ => exact (hnone (c := chr ',') (by simp) hfuel).elim
        fields := fun t fs _ h hfuel => by
          cases h with
          | last _ _ _ _ _ _ =>
              exact (hnone (c := chr ':') (by simp) hfuel).elim
          | cons _ _ _ _ _ _ _ =>
              exact (hnone (c := chr ':') (by simp) hfuel).elim }
  | succ fuel ih =>
      exact {
        value := fun _ _ _ h hfuel hrest => scanValue_text ih h hfuel hrest
        items := fun _ _ rest h hfuel => scanItems_text ih h hfuel rest
        fields := fun _ _ rest h hfuel => scanFields_text ih h hfuel rest }

/-- A text of the grammar is read as the value it writes, unless an integer in
it is too long. -/
theorem parse_writes {t : Text} {v : Json} (h : Writes t v) :
    parse t = if convertible v then .ok v else .error .tooManyDigits := by
  obtain ⟨w, u, w', hw, hu, hw', rfl⟩ := h
  have hstops : Stops w' := by
    have := stops_blanks hw' stops_nil
    rwa [List.append_nil] at this
  have hend : skipBlanks w' = [] := by
    have := skipBlanks_blanks hw' []
    rwa [List.append_nil] at this
  have hscan := (scans (2 * (w ++ (u ++ w')).length + 1)).value u v w' hu
    (by simp only [List.length_append]; omega) hstops
  rw [parse, skipBlanks_blanks hw, hu.opens.skipBlanks, hscan]
  cases convertible v with
  | false => rfl
  | true => exact if_pos hend

/-! ## Bytes -/

/-- No zero character, so that no encoding but UTF-8 is suspected behind the
bytes. -/
def NoNul (t : Text) : Prop := ∀ c ∈ t, c.val ≠ 0

theorem noNul_nil : NoNul [] := fun _ h => by cases h

theorem noNul_cons {c : CodePoint} {t : Text} (hc : c.val ≠ 0)
    (ht : NoNul t) : NoNul (c :: t) := by
  intro d hd
  rcases List.mem_cons.mp hd with rfl | hd
  · exact hc
  · exact ht d hd

theorem noNul_append {t u : Text} (ht : NoNul t) (hu : NoNul u) :
    NoNul (t ++ u) := by
  intro c hc
  rcases List.mem_append.mp hc with hc | hc
  · exact ht c hc
  · exact hu c hc

theorem noNul_of_all {t : Text} (h : t.all (fun c => c.val ≠ 0) = true) :
    NoNul t := fun c hc => by
  simpa using List.all_eq_true.mp h c hc

theorem Blanks.noNul {w : Text} (h : Blanks w) : NoNul w := by
  intro c hc hzero
  have := h c hc
  simp [isBlank, hzero] at this

theorem isDigit_pos {c : CodePoint} (h : isDigit c = true) : c.val ≠ 0 := by
  simp only [isDigit, Bool.and_eq_true, decide_eq_true_eq] at h
  omega

theorem hexVal_pos {c : CodePoint} {n : ℕ} (h : hexVal c = some n) :
    c.val ≠ 0 := by
  intro hzero
  simp [hexVal, isDigit, hzero] at h

theorem Hex.noNul {a b c d : CodePoint} {v : ℕ} (h : Hex a b c d v) {t : Text}
    (ht : NoNul t) : NoNul (a :: b :: c :: d :: t) := by
  rw [Hex, hex4] at h
  split at h
  · next ha hb hc hd =>
      exact noNul_cons (hexVal_pos ha) (noNul_cons (hexVal_pos hb)
        (noNul_cons (hexVal_pos hc) (noNul_cons (hexVal_pos hd) ht)))
  · cases h

theorem StringBody.noNul {t s : Text} (h : StringBody t s) : NoNul t := by
  induction h with
  | nil => exact noNul_nil
  | char _ _ hcontrol _ ih => exact noNul_cons (by omega) ih
  | @escape e p t s hp _ ih =>
      refine noNul_cons (by decide) (noNul_cons (fun hzero => ?_) ih)
      have he : e = 0 := Fin.ext hzero
      rw [he] at hp
      exact absurd hp (by simp [unescape, chr, Text.ofChar])
  | unit hhex _ _ ih =>
      exact noNul_cons (by decide) (noNul_cons (by decide) (hhex.noNul ih))
  | pair hhi _ hlo _ _ ih =>
      exact noNul_cons (by decide) (noNul_cons (by decide) (hhi.noNul
        (noNul_cons (by decide) (noNul_cons (by decide) (hlo.noNul ih)))))

theorem Digits.noNul {ds : Text} (h : Digits ds) : NoNul ds :=
  fun c hc => isDigit_pos (h.2 c hc)

theorem NumberText.noNul {t : Text} {v : Json} (h : NumberText t v) :
    NoNul t := by
  cases h with
  | @mk negative int frac fracText expText exp hint hfrac hexp =>
      have hsign : NoNul (sign negative) := by
        cases negative with
        | false => exact noNul_nil
        | true => exact noNul_cons (by decide) noNul_nil
      have hletter : ∀ {c : CodePoint}, c = chr 'e' ∨ c = chr 'E' →
          c.val ≠ 0 := by
        rintro c (rfl | rfl)
        · decide
        · decide
      refine noNul_append hsign (noNul_append hint.1.noNul
        (noNul_append ?_ ?_))
      · cases hfrac with
        | none => exact noNul_nil
        | some hds => exact noNul_cons (by decide) hds.noNul
      · cases hexp with
        | none => exact noNul_nil
        | plain he hds => exact noNul_cons (hletter he) hds.noNul
        | plus he hds =>
            exact noNul_cons (hletter he) (noNul_cons (by decide) hds.noNul)
        | minus he hds =>
            exact noNul_cons (hletter he) (noNul_cons (by decide) hds.noNul)

mutual

theorem ValueText.noNul : ∀ {t : Text} {v : Json}, ValueText t v → NoNul t
  | _, _, .null => noNul_of_all (t := Text.ofString "null") (by decide)
  | _, _, .true => noNul_of_all (t := Text.ofString "true") (by decide)
  | _, _, .false => noNul_of_all (t := Text.ofString "false") (by decide)
  | _, _, .number h => h.noNul
  | _, _, .string h => noNul_cons (by decide)
      (noNul_append h.noNul (noNul_cons (by decide) noNul_nil))
  | _, _, .emptyArray hw => noNul_cons (by decide)
      (noNul_append hw.noNul (noNul_cons (by decide) noNul_nil))
  | _, _, .array h => noNul_cons (by decide) h.noNul
  | _, _, .emptyObject hw => noNul_cons (by decide)
      (noNul_append hw.noNul (noNul_cons (by decide) noNul_nil))
  | _, _, .object h => noNul_cons (by decide) h.noNul

theorem ItemsText.noNul : ∀ {t : Text} {xs : List Json}, ItemsText t xs →
    NoNul t
  | _, _, .last hw ht hw' => noNul_append hw.noNul (noNul_append ht.noNul
      (noNul_append hw'.noNul (noNul_cons (by decide) noNul_nil)))
  | _, _, .cons hw ht hw' hxs => noNul_append hw.noNul (noNul_append ht.noNul
      (noNul_append hw'.noNul (noNul_cons (by decide) hxs.noNul)))

theorem FieldsText.noNul : ∀ {t : Text} {fs : List (Text × Json)},
    FieldsText t fs → NoNul t
  | _, _, .last hw hk hw₁ hw₂ ht hw₃ => noNul_append hw.noNul
      (noNul_cons (by decide) (noNul_append hk.noNul (noNul_cons (by decide)
        (noNul_append hw₁.noNul (noNul_cons (by decide) (noNul_append hw₂.noNul
          (noNul_append ht.noNul (noNul_append hw₃.noNul
            (noNul_cons (by decide) noNul_nil)))))))))
  | _, _, .cons hw hk hw₁ hw₂ ht hw₃ hfs => noNul_append hw.noNul
      (noNul_cons (by decide) (noNul_append hk.noNul (noNul_cons (by decide)
        (noNul_append hw₁.noNul (noNul_cons (by decide) (noNul_append hw₂.noNul
          (noNul_append ht.noNul (noNul_append hw₃.noNul
            (noNul_cons (by decide) hfs.noNul)))))))))

end

/-- A text begins with an ASCII character, so with no byte-order mark. -/
theorem Writes.head {t : Text} {v : Json} (h : Writes t v) :
    ∃ c t', t = c :: t' ∧ c.val < 0x80 := by
  obtain ⟨w, u, w', hw, hu, -, rfl⟩ := h
  cases w with
  | cons c w =>
      have hc := hw c List.mem_cons_self
      simp only [isBlank, Bool.or_eq_true, decide_eq_true_eq] at hc
      exact ⟨c, _, rfl, by omega⟩
  | nil =>
      cases hu with
      | null => exact ⟨_, _, rfl, by decide⟩
      | true => exact ⟨_, _, rfl, by decide⟩
      | false => exact ⟨_, _, rfl, by decide⟩
      | number hn =>
          obtain ⟨c, t', rfl, hc | ⟨rfl, -⟩⟩ := hn.head
          · simp only [isDigit, Bool.and_eq_true, decide_eq_true_eq] at hc
            exact ⟨c, _, rfl, by omega⟩
          · exact ⟨_, _, rfl, by decide⟩
      | string _ => exact ⟨_, _, rfl, by decide⟩
      | emptyArray _ => exact ⟨_, _, rfl, by decide⟩
      | array _ => exact ⟨_, _, rfl, by decide⟩
      | emptyObject _ => exact ⟨_, _, rfl, by decide⟩
      | object _ => exact ⟨_, _, rfl, by decide⟩

theorem Writes.noNul {t : Text} {v : Json} (h : Writes t v) : NoNul t := by
  obtain ⟨w, u, w', hw, hu, hw', rfl⟩ := h
  exact noNul_append hw.noNul (noNul_append hu.noNul hw'.noNul)

theorem encodePoint_ne_zero {c : CodePoint} (hc : c.val ≠ 0) {b : UInt8}
    (hb : b ∈ Utf8.encodePoint c) : b ≠ 0 := by
  have hne : ∀ {n : ℕ}, 0 < n → n < 0x100 → UInt8.ofNat n ≠ 0 := by
    intro n hpos hn hzero
    have := Utf8.toNat_ofNat hn
    rw [hzero, UInt8.toNat_zero] at this
    omega
  have hlt := c.isLt
  rw [Utf8.encodePoint] at hb
  split at hb
  · rw [List.mem_singleton] at hb
    exact hb ▸ hne (by omega) (by omega)
  · split at hb
    · simp only [List.mem_cons, List.not_mem_nil, or_false] at hb
      rcases hb with rfl | rfl <;> exact hne (by omega) (by omega)
    · split at hb
      · simp only [List.mem_cons, List.not_mem_nil, or_false] at hb
        rcases hb with rfl | rfl | rfl <;> exact hne (by omega) (by omega)
      · simp only [List.mem_cons, List.not_mem_nil, or_false] at hb
        rcases hb with rfl | rfl | rfl | rfl <;>
          exact hne (by omega) (by omega)

theorem detectEncoding_utf8 {x : UInt8} {b : Bytes} (hx : x.toNat < 0x80)
    (hb : ∀ y ∈ x :: b, y ≠ 0) : detectEncoding (x :: b) = .utf8 := by
  have hmark : ∀ (y : UInt8) (ys : Bytes), y = 0 ∨ 0x80 ≤ y.toNat →
      (y :: ys).isPrefixOf (x :: b) = false := by
    intro y ys hy
    have hne : (y == x) = false := by
      rw [beq_eq_false_iff_ne]
      rintro rfl
      rcases hy with hy | hy
      · exact hb y List.mem_cons_self hy
      · omega
    rw [List.isPrefixOf_cons_cons, hne, Bool.false_and]
  rw [detectEncoding.eq_def, hmark _ _ (.inl rfl), hmark _ _ (.inr (by decide)),
    hmark _ _ (.inr (by decide)), hmark _ _ (.inr (by decide)),
    hmark _ _ (.inr (by decide))]
  simp only [Bool.or_self, Bool.false_eq_true, if_false]
  split
  · next b₀ b₁ b₂ b₃ r heq =>
      rw [if_neg (hb b₀ (by simp [heq])), if_neg (hb b₁ (by simp [heq]))]
  · next b₀ b₁ heq =>
      rw [if_neg (hb b₀ (by simp [heq])), if_neg (hb b₁ (by simp [heq]))]
  · rfl

/-- The UTF-8 bytes of a text are read as the value it writes, unless an
integer in it is too long. -/
theorem loads_writes {t : Text} {v : Json} (h : Writes t v) :
    loads (t.flatMap Utf8.encodePoint) =
      if convertible v then .ok v else .error .valueError := by
  have hdetect : detectEncoding (t.flatMap Utf8.encodePoint) = .utf8 := by
    obtain ⟨c, t', rfl, hc⟩ := h.head
    have hnul := h.noNul
    have hfirst : Utf8.encodePoint c = [UInt8.ofNat c.val] := by
      rw [Utf8.encodePoint, if_pos hc]
    rw [List.flatMap_cons, hfirst]
    refine detectEncoding_utf8 ?_ fun y hy => ?_
    · rw [Utf8.toNat_ofNat (by omega)]
      exact hc
    · obtain ⟨d, hd, hyd⟩ : ∃ d ∈ c :: t', y ∈ Utf8.encodePoint d := by
        rw [← List.mem_flatMap, List.flatMap_cons, hfirst]
        exact hy
      exact encodePoint_ne_zero (hnul d hd) hyd
  have hdecode : decodeBytes (t.flatMap Utf8.encodePoint) = some t := by
    rw [decodeBytes, hdetect]
    exact Utf8.decode_flatMap t
  rw [loads, hdecode]
  simp only []
  rw [parse_writes h]
  cases convertible v with
  | false => rfl
  | true => rfl

end Lib.Json
