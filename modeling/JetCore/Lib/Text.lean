import Mathlib.Data.List.Basic
import Mathlib.Tactic.Ring

/-!
# Text as code points, and its Unicode encodings

A text here is what a scripting language's string is: a list of code points,
lone surrogates included. `String` cannot hold a surrogate, so it embeds into
`Text` by `Text.ofString` and only the surrogate-free texts come back.

The decoders are one loop over a one-character step. A step reads the first
character off a byte list; `decodeWith` iterates it on fuel, which the length
of the input covers because a step that reads nothing would have to answer
from the empty list. `decodeWith_flatMap` is the one induction: an encoder
whose every character the step reads back is undone by the loop.

The decoders let surrogates pass. The encoder is strict: it refuses them.
-/

namespace Lib

abbrev Bytes := List UInt8

abbrev CodePoint := Fin 0x110000

instance neZero_points : NeZero 0x110000 := ⟨by decide⟩

abbrev Text := List CodePoint

/-- `str.isascii` -/
def isAscii (s : String) : Bool := s.toList.all fun c => c.toNat < 0x80

namespace Text

def ofChar (c : Char) : CodePoint :=
  ⟨c.toNat, by
    have h := c.valid
    simp only [Char.toNat]
    rcases h with h | h <;> omega⟩

def ofString (s : String) : Text := s.toList.map ofChar

def isSurrogate (c : CodePoint) : Bool := 0xD800 ≤ c.val && c.val < 0xE000

/-- The text as a string of scalar values, when it is one. -/
def toString? (t : Text) : Option String :=
  if t.all (fun c => !isSurrogate c) then
    some (String.ofList (t.map fun c => Char.ofNat c.val))
  else none

theorem isSurrogate_ofChar (c : Char) : isSurrogate (ofChar c) = false := by
  have h : c.toNat < 0xD800 ∨ 0xDFFF < c.toNat ∧ c.toNat < 0x110000 := c.valid
  rw [isSurrogate, Bool.and_eq_false_iff, decide_eq_false_iff_not,
    decide_eq_false_iff_not]
  show ¬ 0xD800 ≤ c.toNat ∨ ¬ c.toNat < 0xE000
  omega

@[simp] theorem toString?_ofString (s : String) :
    (ofString s).toString? = some s := by
  have hall : (ofString s).all (fun c => !isSurrogate c) = true := by
    simp only [ofString, List.all_map, List.all_eq_true]
    intro c _
    simp [isSurrogate_ofChar]
  have hmap : (ofString s).map (fun c => Char.ofNat c.val) = s.toList := by
    simp only [ofString, List.map_map]
    refine List.map_id'' (fun c => ?_) _
    simp [ofChar]
  rw [toString?, if_pos hall, hmap, String.ofList_toList]

theorem ofString_injective {s s' : String} (h : ofString s = ofString s') :
    s = s' := by
  have hs := congrArg toString? h
  rw [toString?_ofString, toString?_ofString] at hs
  exact Option.some.inj hs

theorem ofString_of_toString? {t : Text} {s : String}
    (h : t.toString? = some s) : ofString s = t := by
  rw [toString?] at h
  split at h
  · next hall =>
      cases h
      rw [ofString, String.toList_ofList, List.map_map]
      have hpoint : ∀ c ∈ t, (ofChar ∘ fun c => Char.ofNat c.val) c = c := by
        intro c hc
        have hnot := List.all_eq_true.mp hall c hc
        simp only [isSurrogate, Bool.not_eq_true', Bool.and_eq_false_iff,
          decide_eq_false_iff_not] at hnot
        have hvalid : c.val.isValidChar := by
          have hlt := c.isLt
          unfold Nat.isValidChar
          omega
        refine Fin.ext ?_
        show (Char.ofNat c.val).toNat = c.val
        rw [Char.ofNat, dif_pos hvalid]
        rfl
      exact (List.map_congr_left hpoint).trans (List.map_id t)
  · cases h

end Text

/-! ## Decoding, one character at a time -/

/-- Iterates a one-character step until the input is used up. -/
def decodeWith (step : Bytes → Option (CodePoint × Bytes)) :
    ℕ → Bytes → Option Text
  | _, [] => some []
  | 0, _ :: _ => none
  | fuel + 1, b :: bs =>
      (step (b :: bs)).bind fun r => (decodeWith step fuel r.2).map (r.1 :: ·)

theorem decodeWith_flatMap {step : Bytes → Option (CodePoint × Bytes)}
    {enc : CodePoint → Bytes} (hne : ∀ c, enc c ≠ []) : ∀ {t : Text} {fuel : ℕ},
    (∀ c ∈ t, ∀ rest, step (enc c ++ rest) = some (c, rest)) →
    t.length ≤ fuel → decodeWith step fuel (t.flatMap enc) = some t := by
  intro t
  induction t with
  | nil =>
      intro fuel _ _
      cases fuel <;> rfl
  | cons c t ih =>
      intro fuel hstep hfuel
      obtain ⟨k, rfl⟩ : ∃ k, fuel = k + 1 :=
        ⟨fuel - 1, by simp only [List.length_cons] at hfuel; omega⟩
      have hread := hstep c (by simp) (t.flatMap enc)
      have hrest := @ih k (fun c' h => hstep c' (by simp [h]))
        (by simpa using hfuel)
      rw [List.flatMap_cons]
      obtain ⟨b, bs, hb⟩ := List.exists_cons_of_ne_nil (hne c)
      rw [hb] at hread ⊢
      rw [List.cons_append] at hread ⊢
      simp only [decodeWith, hread, Option.bind_some, hrest, Option.map_some]

theorem length_le_flatMap {enc : CodePoint → Bytes} (hne : ∀ c, enc c ≠ [])
    (t : Text) : t.length ≤ (t.flatMap enc).length := by
  induction t with
  | nil => simp
  | cons c t ih =>
      have hc := List.length_pos_iff.mpr (hne c)
      rw [List.flatMap_cons, List.length_append, List.length_cons]
      omega

/-! ## UTF-8 -/

namespace Utf8

def encodePoint (c : CodePoint) : Bytes :=
  if c.val < 0x80 then [UInt8.ofNat c.val]
  else if c.val < 0x800 then
    [UInt8.ofNat (0xC0 + c.val / 0x40), UInt8.ofNat (0x80 + c.val % 0x40)]
  else if c.val < 0x10000 then
    [UInt8.ofNat (0xE0 + c.val / 0x1000),
      UInt8.ofNat (0x80 + c.val / 0x40 % 0x40),
      UInt8.ofNat (0x80 + c.val % 0x40)]
  else
    [UInt8.ofNat (0xF0 + c.val / 0x40000),
      UInt8.ofNat (0x80 + c.val / 0x1000 % 0x40),
      UInt8.ofNat (0x80 + c.val / 0x40 % 0x40),
      UInt8.ofNat (0x80 + c.val % 0x40)]

/-- The strict encoder: no bytes for a text with a surrogate in it. -/
def encode (t : Text) : Option Bytes :=
  if t.any Text.isSurrogate then none else some (t.flatMap encodePoint)

def point (v : ℕ) : Option CodePoint :=
  if h : v < 0x110000 then some ⟨v, h⟩ else none

def isCont (b : UInt8) : Bool := 0x80 ≤ b.toNat && b.toNat < 0xC0

/-- Reads one character. Overlong forms are refused by the lower bounds on the
assembled value, and surrogates pass. -/
def step : Bytes → Option (CodePoint × Bytes)
  | [] => none
  | a :: r₁ =>
      if a.toNat < 0x80 then (point a.toNat).map (·, r₁)
      else match r₁ with
        | [] => none
        | b :: r₂ =>
            if !isCont b then none
            else if 0xC0 ≤ a.toNat ∧ a.toNat < 0xE0 then
              let v := (a.toNat - 0xC0) * 0x40 + (b.toNat - 0x80)
              if 0x80 ≤ v then (point v).map (·, r₂) else none
            else match r₂ with
              | [] => none
              | c :: r₃ =>
                  if !isCont c then none
                  else if 0xE0 ≤ a.toNat ∧ a.toNat < 0xF0 then
                    let v := (a.toNat - 0xE0) * 0x1000 +
                      (b.toNat - 0x80) * 0x40 + (c.toNat - 0x80)
                    if 0x800 ≤ v then (point v).map (·, r₃) else none
                  else match r₃ with
                    | [] => none
                    | d :: r₄ =>
                        if !isCont d then none
                        else if 0xF0 ≤ a.toNat then
                          let v := (a.toNat - 0xF0) * 0x40000 +
                            (b.toNat - 0x80) * 0x1000 +
                            (c.toNat - 0x80) * 0x40 + (d.toNat - 0x80)
                          if 0x10000 ≤ v then (point v).map (·, r₄) else none
                        else none

def decode (b : Bytes) : Option Text := decodeWith step b.length b

theorem encodePoint_ne_nil (c : CodePoint) : encodePoint c ≠ [] := by
  unfold encodePoint
  split_ifs <;> simp

theorem toNat_ofNat {v : ℕ} (h : v < 0x100) : (UInt8.ofNat v).toNat = v := by
  rw [UInt8.toNat_ofNat']
  omega

theorem point_val {v : ℕ} {c : CodePoint} (h : v = c.val) :
    point v = some c := by
  subst h
  rw [point, dif_pos c.isLt]

theorem step_encodePoint (c : CodePoint) (rest : Bytes) :
    step (encodePoint c ++ rest) = some (c, rest) := by
  have hc := c.isLt
  unfold encodePoint
  split
  · next h =>
      simp only [List.cons_append, List.nil_append, step]
      rw [toNat_ofNat (by omega), if_pos h, point_val rfl]
      rfl
  · next h₁ =>
      split
      · next h₂ =>
          simp only [List.cons_append, List.nil_append, step, isCont]
          rw [toNat_ofNat (v := 0xC0 + c.val / 0x40) (by omega),
            toNat_ofNat (v := 0x80 + c.val % 0x40) (by omega),
            if_neg (by omega), if_neg (by simp; omega), if_pos (by omega),
            if_pos (by omega), point_val (c := c) (by omega)]
          rfl
      · next h₂ =>
          split
          · next h₃ =>
              simp only [List.cons_append, List.nil_append, step, isCont]
              rw [toNat_ofNat (v := 0xE0 + c.val / 0x1000) (by omega),
                toNat_ofNat (v := 0x80 + c.val / 0x40 % 0x40) (by omega),
                toNat_ofNat (v := 0x80 + c.val % 0x40) (by omega),
                if_neg (by omega), if_neg (by simp; omega), if_neg (by omega),
                if_neg (by simp; omega), if_pos (by omega), if_pos (by omega),
                point_val (c := c) (by omega)]
              rfl
          · next h₃ =>
              simp only [List.cons_append, List.nil_append, step, isCont]
              rw [toNat_ofNat (v := 0xF0 + c.val / 0x40000) (by omega),
                toNat_ofNat (v := 0x80 + c.val / 0x1000 % 0x40) (by omega),
                toNat_ofNat (v := 0x80 + c.val / 0x40 % 0x40) (by omega),
                toNat_ofNat (v := 0x80 + c.val % 0x40) (by omega),
                if_neg (by omega), if_neg (by simp; omega), if_neg (by omega),
                if_neg (by simp; omega), if_neg (by omega),
                if_neg (by simp; omega), if_pos (by omega), if_pos (by omega),
                point_val (c := c) (by omega)]
              rfl

/-- What the encoder wrote reads back, surrogates or not. -/
theorem decode_flatMap (t : Text) :
    decode (t.flatMap encodePoint) = some t :=
  decodeWith_flatMap encodePoint_ne_nil (fun c _ rest => step_encodePoint c rest)
    (length_le_flatMap encodePoint_ne_nil t)

theorem decode_encode {t : Text} {b : Bytes} (h : encode t = some b) :
    decode b = some t := by
  unfold encode at h
  split at h
  · cases h
  · cases h
    exact decode_flatMap t

/-- A string of ASCII characters, given by its bytes. -/
def asciiString (b : Bytes) : String :=
  String.ofList (b.map fun x => Char.ofNat x.toNat)

theorem ofChar_ofNat {n : ℕ} (h : n < 0x80) :
    (Text.ofChar (Char.ofNat n)).val = n := by
  have hvalid : n.isValidChar := .inl (by omega)
  show (Char.ofNat n).toNat = n
  rw [Char.ofNat, dif_pos hvalid]
  rfl

theorem encode_asciiString {b : Bytes} (hb : ∀ x ∈ b, x.toNat < 0x80) :
    encode (Text.ofString (asciiString b)) = some b := by
  have hsur : (Text.ofString (asciiString b)).any Text.isSurrogate = false := by
    simp [Text.ofString, Text.isSurrogate_ofChar]
  rw [encode, if_neg (by simp [hsur]), Text.ofString, asciiString,
    String.toList_ofList]
  clear hsur
  induction b with
  | nil => rfl
  | cons x b ih =>
      have hx := hb x (by simp)
      have hval := ofChar_ofNat hx
      have hrest := Option.some.inj (ih fun y hy => hb y (by simp [hy]))
      rw [List.map_cons, List.map_cons, List.flatMap_cons, hrest, encodePoint,
        hval, if_pos hx, UInt8.ofNat_toNat]
      rfl

end Utf8

end Lib
