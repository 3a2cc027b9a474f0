import JetCore.Lib.Text
import Mathlib.Data.List.DropRight

/-!
# Base64 and Base32, as a scripting runtime's standard library decodes them

The encoders are the textbook ones. The decoders are the runtime's own, leniencies
included: the Base64 decoder skips every character outside the alphabet,
counts padding only from the third place of a group on, and stops at the
padding that completes a group, whatever follows; the Base32 decoder counts
the padding it stripped and accepts five counts of it.

Leniency makes the decoders hard to describe and does not matter for what the
encoders wrote, which is all that the round trip of each section says. The
strict Base64 decoder is the one that can be described (`decodeValidated_ok`).
-/

namespace Lib

/-! ## Base64 -/

namespace Base64

/-- A text that is not ASCII is refused before decoding; what is left fails
only on an incomplete last group. -/
inductive Failure where
  | notAscii
  | malformed
  deriving DecidableEq

def digit (n : ℕ) : Char :=
  if n < 26 then Char.ofNat (0x41 + n)
  else if n < 52 then Char.ofNat (0x47 + n)
  else if n < 62 then Char.ofNat (n - 4)
  else if n = 62 then '+' else '/'

def value (c : Char) : Option ℕ :=
  if 'A' ≤ c ∧ c ≤ 'Z' then some (c.toNat - 0x41)
  else if 'a' ≤ c ∧ c ≤ 'z' then some (c.toNat - 0x47)
  else if '0' ≤ c ∧ c ≤ '9' then some (c.toNat + 4)
  else if c = '+' then some 62
  else if c = '/' then some 63
  else none

def encodeList : Bytes → List Char
  | [] => []
  | [a] => [digit (a.toNat / 4), digit (a.toNat % 4 * 16), '=', '=']
  | [a, b] =>
      [digit (a.toNat / 4), digit (a.toNat % 4 * 16 + b.toNat / 16),
        digit (b.toNat % 16 * 4), '=']
  | a :: b :: c :: rest =>
      digit (a.toNat / 4) :: digit (a.toNat % 4 * 16 + b.toNat / 16) ::
        digit (b.toNat % 16 * 4 + c.toNat / 64) :: digit (c.toNat % 64) ::
        encodeList rest

def encode (b : Bytes) : String := String.ofList (encodeList b)

/-- The decoder's loop: the place in the current group, the bits left over
from the character before, and the padding seen since then. -/
def decodeList : List Char → (quad left pads : ℕ) → Option Bytes
  | [], quad, _, _ => if quad = 0 then some [] else none
  | c :: cs, quad, left, pads =>
      if c = '=' then
        if 2 ≤ quad then
          if 4 ≤ quad + (pads + 1) then some []
          else decodeList cs quad left (pads + 1)
        else decodeList cs quad left pads
      else
        match value c with
        | none => decodeList cs quad left pads
        | some v =>
            match quad with
            | 0 => decodeList cs 1 v 0
            | 1 => (decodeList cs 2 (v % 16) 0).map
                (UInt8.ofNat (left * 4 + v / 16) :: ·)
            | 2 => (decodeList cs 3 (v % 4) 0).map
                (UInt8.ofNat (left * 16 + v / 4) :: ·)
            | _ => (decodeList cs 0 0 0).map (UInt8.ofNat (left * 64 + v) :: ·)

def decode (s : String) : Except Failure Bytes :=
  if s.toList.all (fun c => c.toNat < 0x80) then
    (decodeList s.toList 0 0 0).elim (.error .malformed) .ok
  else .error .notAscii

/-- The loop in strict mode. Nothing but the alphabet and padding may stand
there, and nothing after the padding. -/
def decodeListStrict :
    List Char → (quad left pads : ℕ) → (padded : Bool) → Option Bytes
  | [], quad, _, _, _ => if quad = 0 then some [] else none
  | c :: cs, quad, left, pads, padded =>
      if c = '=' then
        if 2 ≤ quad then
          if 4 ≤ quad + (pads + 1) then if cs = [] then some [] else none
          else decodeListStrict cs quad left (pads + 1) true
        else decodeListStrict cs quad left pads true
      else
        match value c with
        | none => none
        | some v =>
            if padded then none
            else
              match quad with
              | 0 => decodeListStrict cs 1 v 0 false
              | 1 => (decodeListStrict cs 2 (v % 16) 0 false).map
                  (UInt8.ofNat (left * 4 + v / 16) :: ·)
              | 2 => (decodeListStrict cs 3 (v % 4) 0 false).map
                  (UInt8.ofNat (left * 16 + v / 4) :: ·)
              | _ => (decodeListStrict cs 0 0 0 false).map
                  (UInt8.ofNat (left * 64 + v) :: ·)

/-- With `validate=True`. -/
def decodeValidated (s : String) : Except Failure Bytes :=
  if s.toList.all (fun c => c.toNat < 0x80) then
    if s.toList.head? = some '=' then .error .malformed
    else (decodeListStrict s.toList 0 0 0 false).elim (.error .malformed) .ok
  else .error .notAscii

theorem value_digit : ∀ n < 64, value (digit n) = some n := by decide

theorem digit_ne_pad : ∀ n < 64, digit n ≠ '=' := by decide

theorem digit_ascii : ∀ n < 64, (digit n).toNat < 0x80 := by decide

/-- One alphabet character, as the loop takes it. -/
theorem decodeList_digit {n : ℕ} (hn : n < 64) (cs : List Char)
    (quad left pads : ℕ) :
    decodeList (digit n :: cs) quad left pads =
      match quad with
      | 0 => decodeList cs 1 n 0
      | 1 => (decodeList cs 2 (n % 16) 0).map
          (UInt8.ofNat (left * 4 + n / 16) :: ·)
      | 2 => (decodeList cs 3 (n % 4) 0).map
          (UInt8.ofNat (left * 16 + n / 4) :: ·)
      | _ => (decodeList cs 0 0 0).map (UInt8.ofNat (left * 64 + n) :: ·) := by
  rw [decodeList, if_neg (digit_ne_pad n hn), value_digit n hn]

theorem ofNat_eq {v : ℕ} {b : UInt8} (h : v = b.toNat) : UInt8.ofNat v = b := by
  rw [h, UInt8.ofNat_toNat]

theorem decodeList_encodeList (b : Bytes) :
    decodeList (encodeList b) 0 0 0 = some b := by
  induction b using encodeList.induct with
  | case1 => rfl
  | case2 a =>
      have ha := a.toNat_lt
      rw [encodeList, decodeList_digit (by omega), decodeList_digit (by omega)]
      simp only [decodeList, if_true, le_refl, Nat.reduceAdd, Nat.reduceLeDiff,
        if_false, Option.map_some]
      rw [ofNat_eq (b := a) (by omega)]
  | case3 a b =>
      have ha := a.toNat_lt
      have hb := b.toNat_lt
      rw [encodeList, decodeList_digit (by omega), decodeList_digit (by omega)]
      simp only []
      rw [decodeList_digit (by omega)]
      simp only [decodeList, if_true]
      rw [if_pos (by omega), if_pos (by omega), Option.map_some,
        Option.map_some, ofNat_eq (b := a) (by omega),
        ofNat_eq (b := b) (by omega)]
  | case4 a b c rest ih =>
      have ha := a.toNat_lt
      have hb := b.toNat_lt
      have hc := c.toNat_lt
      rw [encodeList, decodeList_digit (by omega), decodeList_digit (by omega)]
      simp only []
      rw [decodeList_digit (by omega)]
      simp only []
      rw [decodeList_digit (by omega)]
      simp only [ih, Option.map_some]
      rw [ofNat_eq (b := a) (by omega), ofNat_eq (b := b) (by omega),
        ofNat_eq (b := c) (by omega)]

theorem encodeList_ascii (b : Bytes) :
    ∀ c ∈ encodeList b, c.toNat < 0x80 := by
  induction b using encodeList.induct with
  | case1 => simp [encodeList]
  | case2 a =>
      have ha := a.toNat_lt
      intro c hc
      simp only [encodeList, List.mem_cons, List.not_mem_nil, or_false] at hc
      rcases hc with rfl | rfl | rfl | rfl
      · exact digit_ascii _ (by omega)
      · exact digit_ascii _ (by omega)
      all_goals decide
  | case3 a b =>
      have ha := a.toNat_lt
      have hb := b.toNat_lt
      intro c hc
      simp only [encodeList, List.mem_cons, List.not_mem_nil, or_false] at hc
      rcases hc with rfl | rfl | rfl | rfl
      · exact digit_ascii _ (by omega)
      · exact digit_ascii _ (by omega)
      · exact digit_ascii _ (by omega)
      · decide
  | case4 a b c rest ih =>
      have ha := a.toNat_lt
      have hb := b.toNat_lt
      have hc := c.toNat_lt
      intro x hx
      simp only [encodeList, List.mem_cons] at hx
      rcases hx with rfl | rfl | rfl | rfl | hx
      · exact digit_ascii _ (by omega)
      · exact digit_ascii _ (by omega)
      · exact digit_ascii _ (by omega)
      · exact digit_ascii _ (by omega)
      · exact ih x hx

@[simp] theorem decode_encode (b : Bytes) : decode (encode b) = .ok b := by
  have hascii : (encode b).toList.all (fun c => c.toNat < 0x80) = true := by
    rw [encode, String.toList_ofList, List.all_eq_true]
    exact fun c hc => decide_eq_true (encodeList_ascii b c hc)
  rw [decode, if_pos hascii, encode, String.toList_ofList,
    decodeList_encodeList]
  rfl

theorem decodeListStrict_digit {n : ℕ} (hn : n < 64) (cs : List Char)
    (quad left pads : ℕ) :
    decodeListStrict (digit n :: cs) quad left pads false =
      match quad with
      | 0 => decodeListStrict cs 1 n 0 false
      | 1 => (decodeListStrict cs 2 (n % 16) 0 false).map
          (UInt8.ofNat (left * 4 + n / 16) :: ·)
      | 2 => (decodeListStrict cs 3 (n % 4) 0 false).map
          (UInt8.ofNat (left * 16 + n / 4) :: ·)
      | _ => (decodeListStrict cs 0 0 0 false).map
          (UInt8.ofNat (left * 64 + n) :: ·) := by
  rw [decodeListStrict, if_neg (digit_ne_pad n hn), value_digit n hn]
  rfl

theorem decodeListStrict_encodeList (b : Bytes) :
    decodeListStrict (encodeList b) 0 0 0 false = some b := by
  induction b using encodeList.induct with
  | case1 => rfl
  | case2 a =>
      have ha := a.toNat_lt
      rw [encodeList, decodeListStrict_digit (by omega),
        decodeListStrict_digit (by omega)]
      simp only [decodeListStrict, if_true, le_refl, Nat.reduceAdd,
        Nat.reduceLeDiff, if_false, Option.map_some]
      rw [ofNat_eq (b := a) (by omega)]
  | case3 a b =>
      have ha := a.toNat_lt
      have hb := b.toNat_lt
      rw [encodeList, decodeListStrict_digit (by omega),
        decodeListStrict_digit (by omega)]
      simp only []
      rw [decodeListStrict_digit (by omega)]
      simp only [decodeListStrict, if_true]
      rw [if_pos (by omega), if_pos (by omega), Option.map_some,
        Option.map_some, ofNat_eq (b := a) (by omega),
        ofNat_eq (b := b) (by omega)]
  | case4 a b c rest ih =>
      have ha := a.toNat_lt
      have hb := b.toNat_lt
      have hc := c.toNat_lt
      rw [encodeList, decodeListStrict_digit (by omega),
        decodeListStrict_digit (by omega)]
      simp only []
      rw [decodeListStrict_digit (by omega)]
      simp only []
      rw [decodeListStrict_digit (by omega)]
      simp only [ih, Option.map_some]
      rw [ofNat_eq (b := a) (by omega), ofNat_eq (b := b) (by omega),
        ofNat_eq (b := c) (by omega)]

theorem encodeList_head (b : Bytes) : (encodeList b).head? ≠ some '=' := by
  have hdigit : ∀ n < 64, ∀ cs, (digit n :: cs).head? ≠ some '=' := by
    intro n hn cs h
    exact digit_ne_pad n hn (Option.some.inj h)
  cases b using encodeList.fun_cases with
  | case1 => simp [encodeList]
  | case2 a => exact hdigit _ (by have := a.toNat_lt; omega) _
  | case3 a b => exact hdigit _ (by have := a.toNat_lt; omega) _
  | case4 a b c rest => exact hdigit _ (by have := a.toNat_lt; omega) _

theorem decodeValidated_encode (b : Bytes) :
    decodeValidated (encode b) = .ok b := by
  have hascii : (encode b).toList.all (fun c => c.toNat < 0x80) = true := by
    rw [encode, String.toList_ofList, List.all_eq_true]
    exact fun c hc => decide_eq_true (encodeList_ascii b c hc)
  rw [decodeValidated, if_pos hascii, encode, String.toList_ofList,
    if_neg (encodeList_head b), decodeListStrict_encodeList]
  rfl

/-- What may follow `quad` characters of a group: characters of the alphabet,
then padding, what the last group lacks or any number after a complete one. -/
def Completes (quad : ℕ) (cs : List Char) : Prop :=
  ∃ body pads, cs = body ++ List.replicate pads '=' ∧
    (∀ c ∈ body, (value c).isSome = true) ∧
    ((quad + body.length) % 4 = 0 ∨ (quad + body.length) % 4 = 2 ∧ pads = 2 ∨
      (quad + body.length) % 4 = 3 ∧ pads = 1)

theorem completes_nil {quad : ℕ} : Completes quad [] ↔ quad % 4 = 0 := by
  constructor
  · rintro ⟨body, pads, hsplit, -, hwhole⟩
    obtain ⟨rfl, hpads⟩ := List.append_eq_nil_iff.mp hsplit.symm
    have hnone := (List.replicate_eq_nil_iff _).mp hpads
    rw [List.length_nil] at hwhole
    omega
  · intro h
    exact ⟨[], 0, rfl, by simp, .inl h⟩

theorem completes_digit {quad v : ℕ} {c : Char} {cs : List Char}
    (hc : c ≠ '=') (hv : value c = some v) :
    Completes quad (c :: cs) ↔ Completes ((quad + 1) % 4) cs := by
  constructor
  · rintro ⟨body, pads, hsplit, halphabet, hwhole⟩
    cases body with
    | nil =>
        exact absurd (List.eq_of_mem_replicate
          (hsplit ▸ List.mem_cons_self)) hc
    | cons c' body =>
        rw [List.length_cons] at hwhole
        exact ⟨body, pads, (List.cons.inj hsplit).2,
          fun x hx => halphabet x (List.mem_cons_of_mem _ hx), by omega⟩
  · rintro ⟨body, pads, rfl, halphabet, hwhole⟩
    refine ⟨c :: body, pads, rfl, fun x hx => ?_, by
      rw [List.length_cons]
      omega⟩
    rcases List.mem_cons.mp hx with rfl | hx
    · rw [hv]
      rfl
    · exact halphabet x hx

theorem not_completes {quad : ℕ} {c : Char} {cs : List Char}
    (hc : c ≠ '=') (hv : value c = none) : ¬ Completes quad (c :: cs) := by
  rintro ⟨body, pads, hsplit, halphabet, -⟩
  cases body with
  | nil =>
      exact hc (List.eq_of_mem_replicate (hsplit ▸ List.mem_cons_self))
  | cons c' body =>
      have hsome := halphabet c' List.mem_cons_self
      rw [← (List.cons.inj hsplit).1, hv] at hsome
      cases hsome

/-- The first of the padding ends the body. -/
theorem completes_pad {quad : ℕ} {cs : List Char} (hquad : quad < 4) :
    Completes quad ('=' :: cs) ↔ ∃ n, cs = List.replicate n '=' ∧
      (quad = 0 ∨ quad = 2 ∧ n = 1 ∨ quad = 3 ∧ n = 0) := by
  constructor
  · rintro ⟨body, pads, hsplit, halphabet, hwhole⟩
    cases body with
    | nil =>
        cases pads with
        | zero => cases hsplit
        | succ n =>
            rw [List.length_nil] at hwhole
            exact ⟨n, (List.cons.inj hsplit).2, by omega⟩
    | cons c body =>
        have hsome := halphabet c List.mem_cons_self
        rw [← (List.cons.inj hsplit).1] at hsome
        exact absurd hsome (by decide)
  · rintro ⟨n, rfl, hwhole⟩
    exact ⟨[], n + 1, rfl, by simp, by
      rw [List.length_nil]
      omega⟩

theorem exists_pads_cons {P : ℕ → Prop} {cs : List Char} :
    (∃ n, '=' :: cs = List.replicate n '=' ∧ P n) ↔
      ∃ n, cs = List.replicate n '=' ∧ P (n + 1) := by
  constructor
  · rintro ⟨n, hn, h⟩
    cases n with
    | zero => cases hn
    | succ n => exact ⟨n, (List.cons.inj hn).2, h⟩
  · rintro ⟨n, rfl, h⟩
    exact ⟨n + 1, rfl, h⟩

/-- The last of the padding ends the text. -/
theorem isSome_ended {cs : List Char} {P : ℕ → Prop}
    (hP : ∀ n, P n ↔ n = 0) :
    (if cs = [] then some ([] : Bytes) else none).isSome = true ↔
      ∃ n, cs = List.replicate n '=' ∧ P n := by
  constructor
  · intro h
    split at h
    · next hempty => exact ⟨0, hempty, (hP 0).mpr rfl⟩
    · cases h
  · rintro ⟨n, rfl, h⟩
    rw [if_pos (by rw [(hP n).mp h]; rfl)]
    rfl

/-- Once there was padding, only padding. -/
theorem decodeListStrict_padded (cs : List Char) {quad left pads : ℕ}
    (hpads : 2 ≤ quad → quad + pads < 4) :
    (decodeListStrict cs quad left pads true).isSome = true ↔
      ∃ n, cs = List.replicate n '=' ∧
        (quad = 0 ∨ 2 ≤ quad ∧ quad + pads + n = 4) := by
  induction cs generalizing pads with
  | nil =>
      rw [decodeListStrict]
      constructor
      · intro h
        split at h
        · next hzero => exact ⟨0, rfl, .inl hzero⟩
        · cases h
      · rintro ⟨n, hn, hwhole⟩
        have hnone := (List.replicate_eq_nil_iff _).mp hn.symm
        rw [if_pos (by omega)]
        rfl
  | cons c cs ih =>
      by_cases hc : c = '='
      · subst hc
        rw [exists_pads_cons, decodeListStrict, if_pos rfl]
        split
        · next hlow =>
            have hroom := hpads hlow
            split
            · next hfull => exact isSome_ended fun n => by omega
            · next hfull =>
                rw [ih (by omega)]
                exact exists_congr fun n => and_congr_right fun _ => by omega
        · next hlow =>
            rw [ih hpads]
            exact exists_congr fun n => and_congr_right fun _ => by omega
      · rw [decodeListStrict, if_neg hc]
        refine iff_of_false ?_ ?_
        · split <;> simp
        · rintro ⟨n, hn, -⟩
          exact hc (List.eq_of_mem_replicate (hn ▸ List.mem_cons_self))

theorem decodeListStrict_isSome (cs : List Char) {quad left : ℕ}
    (hquad : quad < 4) :
    (decodeListStrict cs quad left 0 false).isSome = true ↔
      Completes quad cs := by
  induction cs generalizing quad left with
  | nil =>
      rw [decodeListStrict, completes_nil, Nat.mod_eq_of_lt hquad]
      split <;> simp_all
  | cons c cs ih =>
      by_cases hc : c = '='
      · subst hc
        rw [completes_pad hquad, decodeListStrict, if_pos rfl]
        split
        · next hlow =>
            split
            · next hfull => exact isSome_ended fun n => by omega
            · next hfull =>
                rw [decodeListStrict_padded cs (by omega)]
                exact exists_congr fun n => and_congr_right fun _ => by omega
        · next hlow =>
            rw [decodeListStrict_padded cs (by omega)]
            exact exists_congr fun n => and_congr_right fun _ => by omega
      · rw [decodeListStrict, if_neg hc]
        cases hv : value c with
        | none => exact iff_of_false (by simp) (not_completes hc hv)
        | some v =>
            rw [completes_digit hc hv]
            have hmap : ∀ {b : UInt8} {x : Option Bytes},
                (x.map (b :: ·)).isSome = true ↔ x.isSome = true := by simp
            obtain rfl | rfl | rfl | rfl :
                quad = 0 ∨ quad = 1 ∨ quad = 2 ∨ quad = 3 := by omega
            · exact ih (by omega)
            · exact hmap.trans (ih (by omega))
            · exact hmap.trans (ih (by omega))
            · exact hmap.trans (ih (by omega))

theorem value_ascii {c : Char} (h : (value c).isSome = true) :
    c.toNat < 0x80 := by
  have hle : ∀ d : Char, d.toNat < 0x80 → c ≤ d → c.toNat < 0x80 :=
    fun d hd hcd => lt_of_le_of_lt hcd hd
  rw [value] at h
  split at h
  · next hc => exact hle 'Z' (by decide) hc.2
  · split at h
    · next hc => exact hle 'z' (by decide) hc.2
    · split at h
      · next hc => exact hle '9' (by decide) hc.2
      · split at h
        · next hc => rw [hc]; decide
        · split at h
          · next hc => rw [hc]; decide
          · cases h

/-- Exactly these are decoded in strict mode. -/
theorem decodeValidated_ok {s : String} :
    (∃ b, decodeValidated s = .ok b) ↔
      Completes 0 s.toList ∧ s.toList.head? ≠ some '=' := by
  have hascii : Completes 0 s.toList →
      s.toList.all (fun c => c.toNat < 0x80) = true := by
    rintro ⟨body, pads, hsplit, halphabet, -⟩
    rw [hsplit, List.all_eq_true]
    intro c hc
    rcases List.mem_append.mp hc with hc | hc
    · exact decide_eq_true (value_ascii (halphabet c hc))
    · rw [List.eq_of_mem_replicate hc]
      rfl
  rw [decodeValidated, ← decodeListStrict_isSome _ (by omega)] at *
  constructor
  · rintro ⟨b, hb⟩
    split at hb
    · split at hb
      · cases hb
      · next hhead =>
          cases hdecode : decodeListStrict s.toList 0 0 0 false with
          | none => rw [hdecode] at hb; cases hb
          | some b => exact ⟨rfl, hhead⟩
    · cases hb
  · rintro ⟨hsome, hhead⟩
    obtain ⟨b, hb⟩ := Option.isSome_iff_exists.mp hsome
    rw [if_pos (hascii hsome), if_neg hhead, hb]
    exact ⟨b, rfl⟩

end Base64

/-! ## Base32 -/

namespace Base32

def digit (n : ℕ) : UInt8 := UInt8.ofNat (if n < 26 then 0x41 + n else 24 + n)

def value (c : UInt8) : Option ℕ :=
  if 0x41 ≤ c.toNat ∧ c.toNat ≤ 0x5A then some (c.toNat - 0x41)
  else if 0x32 ≤ c.toNat ∧ c.toNat ≤ 0x37 then some (c.toNat - 24)
  else none

def pad : UInt8 := 0x3D

/-- A block's five bytes as one number. -/
def number (a b c d e : UInt8) : ℕ :=
  (((a.toNat * 0x100 + b.toNat) * 0x100 + c.toNat) * 0x100 + d.toNat) * 0x100 +
    e.toNat

/-- The low five bytes of a number, most significant first. -/
def bytes (v : ℕ) : Bytes :=
  [UInt8.ofNat (v / 0x100000000), UInt8.ofNat (v / 0x1000000),
    UInt8.ofNat (v / 0x10000), UInt8.ofNat (v / 0x100), UInt8.ofNat v]

/-- The encoding of an input made of whole blocks of five bytes. -/
def encode : Bytes → Bytes
  | a :: b :: c :: d :: e :: rest =>
      let v := number a b c d e
      digit (v / 0x800000000) :: digit (v / 0x40000000 % 32) ::
        digit (v / 0x2000000 % 32) :: digit (v / 0x100000 % 32) ::
        digit (v / 0x8000 % 32) :: digit (v / 0x400 % 32) ::
        digit (v / 0x20 % 32) :: digit (v % 32) :: encode rest
  | _ => []

/-- The value of one group of digits. -/
def accumulate : Bytes → ℕ → Option ℕ
  | [], acc => some acc
  | c :: cs, acc => (value c).bind fun v => accumulate cs (acc * 32 + v)

/-- Decodes group by group. The second component is the value of the last
group, a short one included. -/
def groups : Bytes → Option (Bytes × ℕ)
  | [] => some ([], 0)
  | c₁ :: c₂ :: c₃ :: c₄ :: c₅ :: c₆ :: c₇ :: c₈ :: rest =>
      (accumulate [c₁, c₂, c₃, c₄, c₅, c₆, c₇, c₈] 0).bind fun acc =>
        (groups rest).map fun r =>
          (bytes acc ++ r.1, if rest.isEmpty then acc else r.2)
  | short => (accumulate short 0).map fun acc => (bytes acc, acc)

def decode (s : Bytes) : Option Bytes :=
  if s.length % 8 ≠ 0 then none
  else
    let body := s.rdropWhile (· = pad)
    let padchars := s.length - body.length
    (groups body).bind fun r =>
      if padchars ∉ [0, 1, 3, 4, 6] then none
      else if padchars ≠ 0 ∧ r.1 ≠ [] then
        some (r.1.take (r.1.length - 5) ++
          (bytes (r.2 * 32 ^ padchars)).take ((43 - 5 * padchars) / 8))
      else some r.1

theorem value_digit : ∀ n < 32, value (digit n) = some n := by decide

theorem digit_ne_pad : ∀ n < 32, digit n ≠ pad := by decide

theorem digit_ascii : ∀ n < 32, (digit n).toNat < 0x80 := by decide

theorem accumulate_digit {n : ℕ} (hn : n < 32) (cs : Bytes) (acc : ℕ) :
    accumulate (digit n :: cs) acc = accumulate cs (acc * 32 + n) := by
  rw [accumulate, value_digit n hn, Option.bind_some]

theorem bytes_number (a b c d e : UInt8) :
    bytes (number a b c d e) = [a, b, c, d, e] := by
  have ha := a.toNat_lt
  have hb := b.toNat_lt
  have hc := c.toNat_lt
  have hd := d.toNat_lt
  have he := e.toNat_lt
  have key : ∀ {v : ℕ} {x : UInt8}, v % 0x100 = x.toNat → UInt8.ofNat v = x := by
    intro v x h
    rw [← UInt8.toNat_inj, UInt8.toNat_ofNat', ← h]
  rw [bytes, key (x := a), key (x := b), key (x := c), key (x := d),
    key (x := e)]
  all_goals
    simp only [number]
    omega

theorem number_lt (a b c d e : UInt8) : number a b c d e < 0x10000000000 := by
  have ha := a.toNat_lt
  have hb := b.toNat_lt
  have hc := c.toNat_lt
  have hd := d.toNat_lt
  have he := e.toNat_lt
  simp only [number]
  omega

/-- Every byte of an encoding is a digit. -/
theorem mem_encode {s : Bytes} {x : UInt8} (hx : x ∈ encode s) :
    ∃ n < 32, x = digit n := by
  induction s using encode.induct with
  | case1 a b c d e rest ih =>
      have hv := number_lt a b c d e
      simp only [encode, List.mem_cons] at hx
      rcases hx with h | h | h | h | h | h | h | h | h
      · exact ⟨_, by omega, h⟩
      · exact ⟨_, by omega, h⟩
      · exact ⟨_, by omega, h⟩
      · exact ⟨_, by omega, h⟩
      · exact ⟨_, by omega, h⟩
      · exact ⟨_, by omega, h⟩
      · exact ⟨_, by omega, h⟩
      · exact ⟨_, by omega, h⟩
      · exact ih h
  | case2 s hs => rw [encode.eq_2 s hs] at hx; cases hx

theorem length_encode (s : Bytes) (k : ℕ) (hs : s.length = 5 * k) :
    (encode s).length = 8 * k := by
  induction k generalizing s with
  | zero =>
      rw [List.length_eq_zero_iff.mp hs]
      rfl
  | succ k ih =>
      match s, hs with
      | a :: b :: c :: d :: e :: rest, hs =>
          have := ih rest (by simp only [List.length_cons] at hs; omega)
          simp only [encode, List.length_cons]
          omega

theorem groups_encode (s : Bytes) (k : ℕ) (hs : s.length = 5 * k) :
    ∃ last, groups (encode s) = some (s, last) := by
  induction k generalizing s with
  | zero =>
      rw [List.length_eq_zero_iff.mp hs]
      exact ⟨0, rfl⟩
  | succ k ih =>
      match s, hs with
      | a :: b :: c :: d :: e :: rest, hs =>
          obtain ⟨last, hrest⟩ := ih rest (by simp only [List.length_cons] at hs; omega)
          have hv := number_lt a b c d e
          have hacc : number a b c d e =
              (((((((0 * 32 + number a b c d e / 0x800000000) * 32 +
                number a b c d e / 0x40000000 % 32) * 32 +
                number a b c d e / 0x2000000 % 32) * 32 +
                number a b c d e / 0x100000 % 32) * 32 +
                number a b c d e / 0x8000 % 32) * 32 +
                number a b c d e / 0x400 % 32) * 32 +
                number a b c d e / 0x20 % 32) * 32 +
                number a b c d e % 32 := by omega
          simp only [encode, groups, hrest]
          rw [accumulate_digit (by omega), accumulate_digit (by omega),
            accumulate_digit (by omega), accumulate_digit (by omega),
            accumulate_digit (by omega), accumulate_digit (by omega),
            accumulate_digit (by omega), accumulate_digit (by omega),
            accumulate, ← hacc, Option.bind_some, Option.map_some,
            bytes_number]
          exact ⟨_, rfl⟩

theorem rdropWhile_encode (s : Bytes) :
    (encode s).rdropWhile (· = pad) = encode s := by
  rw [List.rdropWhile_eq_self_iff]
  intro hne hpad
  obtain ⟨n, hn, h⟩ := mem_encode (List.getLast_mem hne)
  rw [h] at hpad
  exact digit_ne_pad n hn (by simpa using hpad)

/-- Decoding undoes encoding, on whole blocks. -/
theorem decode_encode {s : Bytes} (k : ℕ) (hs : s.length = 5 * k) :
    decode (encode s) = some s := by
  have hlen := length_encode s k hs
  obtain ⟨last, hgroups⟩ := groups_encode s k hs
  rw [decode, if_neg (by omega)]
  simp only [rdropWhile_encode, hgroups, Option.bind_some, Nat.sub_self]
  rw [if_neg (by decide), if_neg (by simp)]

/-! The other direction holds for whole blocks only: padding and a short last
group lose it. -/

theorem digit_value {c : UInt8} {v : ℕ} (h : value c = some v) :
    v < 32 ∧ digit v = c := by
  unfold value at h
  split at h
  · next hc =>
      cases h
      refine ⟨by omega, ?_⟩
      rw [digit, if_pos (by omega), show 0x41 + (c.toNat - 0x41) = c.toNat by
        omega, UInt8.ofNat_toNat]
  · split at h
    · next hc =>
        cases h
        refine ⟨by omega, ?_⟩
        rw [digit, if_neg (by omega), show 24 + (c.toNat - 24) = c.toNat by
          omega, UInt8.ofNat_toNat]
    · cases h

theorem accumulate_cons {c : UInt8} {cs : Bytes} {acc r : ℕ}
    (h : accumulate (c :: cs) acc = some r) :
    ∃ v < 32, digit v = c ∧ accumulate cs (acc * 32 + v) = some r := by
  obtain ⟨v, hv, hrest⟩ := Option.bind_eq_some_iff.mp h
  exact ⟨v, (digit_value hv).1, (digit_value hv).2, hrest⟩

theorem number_bytes {v : ℕ} (hv : v < 0x10000000000) (rest : Bytes) :
    ∃ a b c d e, bytes v ++ rest = a :: b :: c :: d :: e :: rest ∧
      number a b c d e = v := by
  refine ⟨_, _, _, _, _, rfl, ?_⟩
  simp only [number, UInt8.toNat_ofNat']
  omega

theorem encode_bytes {v : ℕ} (hv : v < 0x10000000000) (rest : Bytes) :
    encode (bytes v ++ rest) =
      digit (v / 0x800000000) :: digit (v / 0x40000000 % 32) ::
        digit (v / 0x2000000 % 32) :: digit (v / 0x100000 % 32) ::
        digit (v / 0x8000 % 32) :: digit (v / 0x400 % 32) ::
        digit (v / 0x20 % 32) :: digit (v % 32) :: encode rest := by
  obtain ⟨a, b, c, d, e, hbytes, hnum⟩ := number_bytes hv rest
  rw [hbytes, encode, hnum]

theorem encode_groups (k : ℕ) : ∀ {body raw : Bytes} {last : ℕ},
    body.length = 8 * k → groups body = some (raw, last) →
    encode raw = body ∧ raw.length = 5 * k := by
  induction k with
  | zero =>
      intro body raw last hlen h
      obtain rfl := List.length_eq_zero_iff.mp hlen
      cases h
      exact ⟨rfl, rfl⟩
  | succ k ih =>
      intro body raw last hlen h
      match body, hlen with
      | c₁ :: c₂ :: c₃ :: c₄ :: c₅ :: c₆ :: c₇ :: c₈ :: rest, hlen =>
          rw [groups] at h
          obtain ⟨acc, hacc, h⟩ := Option.bind_eq_some_iff.mp h
          obtain ⟨⟨raw', last'⟩, hrest, h⟩ := Option.map_eq_some_iff.mp h
          cases h
          obtain ⟨henc, hraw⟩ := ih
            (by simp only [List.length_cons] at hlen; omega) hrest
          obtain ⟨v₁, h₁, rfl, a₁⟩ := accumulate_cons hacc
          obtain ⟨v₂, h₂, rfl, a₂⟩ := accumulate_cons a₁
          obtain ⟨v₃, h₃, rfl, a₃⟩ := accumulate_cons a₂
          obtain ⟨v₄, h₄, rfl, a₄⟩ := accumulate_cons a₃
          obtain ⟨v₅, h₅, rfl, a₅⟩ := accumulate_cons a₄
          obtain ⟨v₆, h₆, rfl, a₆⟩ := accumulate_cons a₅
          obtain ⟨v₇, h₇, rfl, a₇⟩ := accumulate_cons a₆
          obtain ⟨v₈, h₈, rfl, a₈⟩ := accumulate_cons a₇
          have hval := Option.some.inj a₈
          constructor
          · rw [encode_bytes (by omega), henc]
            congr 2
            · omega
            congr 2
            · omega
            congr 2
            · omega
            congr 2
            · omega
            congr 2
            · omega
            congr 2
            · omega
            congr 2
            · omega
            congr 2
            omega
          · rw [List.length_append, hraw]
            simp only [bytes, List.length_cons, List.length_nil]
            omega

theorem groups_length (body : Bytes) : ∀ {raw : Bytes} {last : ℕ},
    groups body = some (raw, last) →
    ∃ q, raw.length = 5 * q ∧ body.length ≤ 8 * q ∧ 8 * q < body.length + 8 := by
  induction body using groups.induct with
  | case1 =>
      intro raw last h
      cases h
      exact ⟨0, rfl, by simp, by simp⟩
  | case2 c₁ c₂ c₃ c₄ c₅ c₆ c₇ c₈ rest ih =>
      intro raw last h
      rw [groups] at h
      obtain ⟨acc, -, h⟩ := Option.bind_eq_some_iff.mp h
      obtain ⟨⟨raw', last'⟩, hrest, h⟩ := Option.map_eq_some_iff.mp h
      cases h
      obtain ⟨q, hraw, hlo, hhi⟩ := ih hrest
      refine ⟨q + 1, ?_, ?_, ?_⟩
      · rw [List.length_append, hraw]
        simp only [bytes, List.length_cons, List.length_nil]
        omega
      · simp only [List.length_cons]
        omega
      · simp only [List.length_cons]
        omega
  | case3 short hne hshort =>
      intro raw last h
      have hlt : 0 < short.length ∧ short.length < 8 := by
        constructor
        · exact List.length_pos_iff.mpr hne
        · by_contra hge
          rcases short with _ | ⟨c₁, _ | ⟨c₂, _ | ⟨c₃, _ | ⟨c₄, _ | ⟨c₅,
            _ | ⟨c₆, _ | ⟨c₇, _ | ⟨c₈, rest⟩⟩⟩⟩⟩⟩⟩⟩
          case cons.cons.cons.cons.cons.cons.cons.cons =>
            exact hshort _ _ _ _ _ _ _ _ _ rfl
          all_goals exact hge (by simp)
      rw [groups.eq_3 short hne hshort] at h
      obtain ⟨acc, -, h⟩ := Option.map_eq_some_iff.mp h
      cases h
      exact ⟨1, rfl, by omega, by omega⟩

/-- Whole blocks are decoded from their own encoding and nothing else. -/
theorem encode_decode {s raw : Bytes} {k : ℕ} (h : decode s = some raw)
    (hraw : raw.length = 5 * k) (hk : 0 < k) : encode raw = s := by
  unfold decode at h
  split at h
  · cases h
  · next hmod =>
      obtain ⟨⟨out, last⟩, hgroups, h⟩ := Option.bind_eq_some_iff.mp h
      obtain ⟨q, hout, hlo, hhi⟩ := groups_length _ hgroups
      split at h
      · cases h
      · next hpad =>
          split at h
          · next hshort =>
              -- a padded group leaves a length that is no multiple of five
              cases h
              rw [List.length_append, List.length_take, List.length_take,
                hout] at hraw
              have hne : out.length ≠ 0 :=
                fun h0 => hshort.2 (List.length_eq_zero_iff.mp h0)
              simp only [bytes, List.length_cons, List.length_nil] at hraw
              generalize s.length - (s.rdropWhile (· = pad)).length = p
                at hpad hshort hraw
              simp only [List.mem_cons, List.not_mem_nil, or_false,
                not_not] at hpad
              omega
          · next hwhole =>
              cases h
              have hout0 : out ≠ [] := by
                rintro rfl
                simp only [List.length_nil] at hraw
                omega
              have hzero : s.length - (s.rdropWhile (· = pad)).length = 0 := by
                by_contra hne
                exact hwhole ⟨hne, hout0⟩
              have hbody : s.rdropWhile (· = pad) = s :=
                (List.rdropWhile_prefix _ s).eq_of_length_le (by omega)
              rw [hbody] at hgroups hlo hhi
              exact (encode_groups q (by omega) hgroups).1

end Base32

end Lib
