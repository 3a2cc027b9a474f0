import JetCore.Lib.JsonRound
import JetCore.Ref.OccurredAt

/-!
# The time in a payload is a `date-time`

The fields of a `datetime` are written with a fixed width, so that each is read
off again with the value it has, and the value is within the bounds of RFC 3339
because a `datetime` is.
-/

namespace JetCore

open Lib

/-! ## Padded numbers -/

theorem ofString_append (s s' : String) :
    Text.ofString (s ++ s') = Text.ofString s ++ Text.ofString s' := by
  rw [Text.ofString, String.toList_append, List.map_append]
  rfl

/-- The characters between the fields. -/
theorem ofString_marks : Text.ofString "" = [] ∧
    Text.ofString "-" = [Json.chr '-'] ∧ Text.ofString "T" = [Json.chr 'T'] ∧
    Text.ofString ":" = [Json.chr ':'] ∧ Text.ofString "." = [Json.chr '.'] ∧
    Text.ofString "Z" = [Json.chr 'Z'] := by
  decide

theorem toList_pushn (s : String) (c : Char) (n : ℕ) :
    (s.pushn c n).toList = s.toList ++ List.replicate n c := by
  rw [String.pushn_eq_repeat_push]
  induction n with
  | zero => simp [Nat.repeat]
  | succ n ih =>
      rw [Nat.repeat, String.toList_push, ih, List.append_assoc,
        List.replicate_succ']

theorem ofString_padded (width n : ℕ) : Text.ofString (padded width n) =
    List.replicate (width - (Json.digits n).length) (Json.chr '0') ++
      Json.digits n := by
  have hdigits : (toString n).toList = Nat.toDigits 10 n := Nat.toList_repr
  rw [padded, ofString_append, Text.ofString, toList_pushn, Text.ofString,
    hdigits, ← String.length_toList, hdigits, List.map_append,
    List.map_replicate, Json.digits, List.length_map]
  rfl

/-- A number in so many digits. -/
structure Numeral (width n : ℕ) (t : Text) : Prop where
  length : t.length = width
  digits : ∀ c ∈ t, Json.isDigit c = true
  value : Json.natOfDigits t = n

theorem natOfDigits_zeros (k : ℕ) (ds : Text) :
    Json.natOfDigits (List.replicate k (Json.chr '0') ++ ds) =
      Json.natOfDigits ds := by
  induction k with
  | zero => rfl
  | succ k ih => exact ih

theorem numeral_padded (width : ℕ) {n : ℕ} (hwidth : 0 < width)
    (h : n < 10 ^ width) : Numeral width n (Text.ofString (padded width n)) := by
  have hlen : (Json.digits n).length ≤ width := by
    rw [Json.digits, List.length_map]
    exact (Nat.length_toDigits_le_iff (by decide) hwidth).mpr h
  rw [ofString_padded]
  refine ⟨?_, fun c hc => ?_, ?_⟩
  · rw [List.length_append, List.length_replicate]
    omega
  · rcases List.mem_append.mp hc with hc | hc
    · rw [(List.mem_replicate.mp hc).2]
      decide
    · exact Json.digits_isDigit hc
  · rw [natOfDigits_zeros, Json.natOfDigits_digits]

/-! ## Field by field -/

theorem literal_head {allowed : List Char} {c : Char} (h : c ∈ allowed)
    (rest : Text) :
    Rfc3339.literal allowed (Json.chr c :: rest) = some rest := by
  rw [Rfc3339.literal, if_pos]
  exact List.contains_iff_mem.mpr (List.mem_map_of_mem h)

theorem field2_numeral {n low high : ℕ} {t : Text} (ht : Numeral 2 n t)
    (hlow : low ≤ n) (hhigh : n ≤ high) (rest : Text) :
    Rfc3339.field2 low high (t ++ rest) = some rest := by
  obtain ⟨a, b, rfl⟩ := List.length_eq_two.mp ht.length
  have ha := ht.digits a (by simp)
  have hb := ht.digits b (by simp)
  show (if _ then some rest else none) = _
  rw [if_pos]
  simp only [ha, hb, ht.value, Bool.true_and, Bool.and_eq_true,
    decide_eq_true_eq]
  exact ⟨hlow, hhigh⟩

theorem fullDate_numerals {year month day : ℕ} {y m d : Text}
    (hy : Numeral 4 year y) (hm : Numeral 2 month m) (hd : Numeral 2 day d)
    (hmonth : 1 ≤ month ∧ month ≤ 12)
    (hday : 1 ≤ day ∧ day ≤ Rfc3339.daysIn year month) (rest : Text) :
    Rfc3339.fullDate (y ++ (Json.chr '-' ::
      (m ++ (Json.chr '-' :: (d ++ rest))))) = some rest := by
  obtain ⟨a, b, c, e, rfl⟩ : ∃ a b c e, y = [a, b, c, e] := by
    obtain ⟨a, rest, rfl⟩ := List.exists_of_length_succ y hy.length
    obtain ⟨b, c, e, rfl⟩ :=
      List.length_eq_three.mp (Nat.succ.inj hy.length)
    exact ⟨a, b, c, e, rfl⟩
  have hdigits : [a, b, c, e].all Json.isDigit = true :=
    List.all_eq_true.mpr hy.digits
  have htake : (m ++ (Json.chr '-' :: (d ++ rest))).take 2 = m := by
    rw [← hm.length, List.take_left]
  simp only [List.cons_append, List.nil_append, Rfc3339.fullDate]
  rw [if_pos hdigits, literal_head (by simp)]
  simp only [bind, Option.bind]
  rw [field2_numeral hm hmonth.1 hmonth.2]
  simp only []
  rw [literal_head (by simp), hy.value, htake, hm.value]
  exact field2_numeral hd hday.1 hday.2 rest

theorem secFrac_numeral {width n : ℕ} {t : Text} (hwidth : 0 < width)
    (ht : Numeral width n t) :
    Rfc3339.secFrac (Json.chr '.' :: (t ++ [Json.chr 'Z'])) =
      some [Json.chr 'Z'] := by
  have hspan := Json.span_digits ht.digits
    (show Json.NoDigit [Json.chr 'Z'] from Json.noDigit_cons (by decide))
  rw [Rfc3339.secFrac, if_pos rfl, hspan, if_neg]
  intro hnil
  have hlen := ht.length
  rw [show t = [] from hnil] at hlen
  exact absurd hlen (by simp; omega)

/-! ## The whole text -/

theorem daysIn_le (year month : ℕ) : Rfc3339.daysIn year month ≤ 31 := by
  rw [Rfc3339.daysIn]
  split
  · split
    · decide
    · decide
  · split
    · decide
    · decide

theorem isDateTime_iso (t : UtcTime) :
    Rfc3339.isDateTime (Text.ofString t.iso) = true := by
  obtain ⟨time, hvalid⟩ := t
  have hyear := numeral_padded 4 (n := time.year) (by decide)
    (by have := hvalid.year; omega)
  have hmonth := numeral_padded 2 (n := time.month) (by decide)
    (by have := hvalid.month; omega)
  have hday := numeral_padded 2 (n := time.day) (by decide)
    (by have := hvalid.day; have := daysIn_le time.year time.month; omega)
  have hhour := numeral_padded 2 (n := time.hour) (by decide)
    (by have := hvalid.hour; omega)
  have hminute := numeral_padded 2 (n := time.minute) (by decide)
    (by have := hvalid.minute; omega)
  have hsecond := numeral_padded 2 (n := time.second) (by decide)
    (by have := hvalid.second; omega)
  have hmicro := numeral_padded 6 (n := time.microsecond)
    (by decide) hvalid.microsecond
  have htext : Text.ofString (UtcTime.iso ⟨time, hvalid⟩) =
      Text.ofString (padded 4 time.year) ++ (Json.chr '-' ::
        (Text.ofString (padded 2 time.month) ++ (Json.chr '-' ::
          (Text.ofString (padded 2 time.day) ++ (Json.chr 'T' ::
            (Text.ofString (padded 2 time.hour) ++ (Json.chr ':' ::
              (Text.ofString (padded 2 time.minute) ++ (Json.chr ':' ::
                (Text.ofString (padded 2 time.second) ++
                  ((if time.microsecond = 0 then [] else Json.chr '.' ::
                    Text.ofString (padded 6 time.microsecond)) ++
                    [Json.chr 'Z']))))))))))) := by
    obtain ⟨hnone, hdash, hT, hcolon, hpoint, hzulu⟩ := ofString_marks
    simp only [UtcTime.iso, Timestamp.isoformat, ofString_append, hdash, hT,
      hcolon, hzulu, List.append_assoc, List.cons_append, List.nil_append]
    by_cases hzero : time.microsecond = 0
    · simp only [if_pos hzero, hnone]
    · simp only [if_neg hzero, ofString_append, hpoint, List.cons_append,
        List.nil_append]
  rw [htext, Rfc3339.isDateTime, fullDate_numerals hyear hmonth hday
    hvalid.month hvalid.day]
  simp only [bind, Option.bind]
  rw [literal_head (by simp)]
  simp only []
  rw [field2_numeral hhour (Nat.zero_le _) hvalid.hour]
  simp only []
  rw [literal_head (by simp)]
  simp only []
  rw [field2_numeral hminute (Nat.zero_le _) hvalid.minute]
  simp only []
  rw [literal_head (by simp)]
  simp only []
  rw [field2_numeral hsecond (Nat.zero_le _) (hvalid.second.trans (by decide))]
  simp only []
  split
  · decide
  · rw [List.cons_append, secFrac_numeral (by decide) hmicro]
    decide

end JetCore
