import JetCore.Lib.JsonGrammar

/-!
# What `render` writes, the scanner reads back

A rendered value is a text of the grammar (`render_valueText`), so what
becomes of it is the scanner's completeness. The value that is read is the one
that was rendered but for surrogates: where everything outside ASCII is
escaped, a high surrogate and a low one that happen to stand next to each other
come back as the character they spell (`readBack`). The two literals that are
no numbers are left out, as no text of the grammar writes them.

The plain values come back as they are: no surrogate in a string or a member
name, and no integer longer than the runtime converts.
-/

namespace Lib.Json

mutual

/-- The values that survive being written and read. -/
def Plain : Json → Prop
  | .int n => (Nat.toDigits 10 n.natAbs).length ≤ maxIntDigits
  | .float _ => False
  | .str s => s.all (fun c => !Text.isSurrogate c) = true
  | .arr xs => PlainItems xs
  | .obj fs => PlainFields fs
  | _ => True

def PlainItems : List Json → Prop
  | [] => True
  | x :: xs => Plain x ∧ PlainItems xs

def PlainFields : List (Text × Json) → Prop
  | [] => True
  | (k, v) :: fs =>
      k.all (fun c => !Text.isSurrogate c) = true ∧ Plain v ∧ PlainFields fs

end

theorem plain_string (s : String) : Plain (string s) := by
  simp only [string, Plain, Text.ofString, List.all_map, List.all_eq_true]
  intro c _
  simp [Text.isSurrogate_ofChar]

theorem plainFields_object {fields : List (String × Json)}
    (h : ∀ f ∈ fields, Plain f.2) :
    PlainFields (fields.map fun f => (Text.ofString f.1, f.2)) := by
  induction fields with
  | nil => trivial
  | cons f fs ih =>
      refine ⟨plain_string f.1, h f (by simp), ih fun g hg => h g (by simp [hg])⟩

theorem plain_object {fields : List (String × Json)}
    (h : ∀ f ∈ fields, Plain f.2) : Plain (object fields) :=
  plainFields_object h

theorem plain_arr {items : List Json} (h : ∀ j ∈ items, Plain j) :
    Plain (.arr items) := by
  show PlainItems items
  induction items with
  | nil => trivial
  | cons x xs ih => exact ⟨h x (by simp), ih fun y hy => h y (by simp [hy])⟩

/-! ## What is read back -/

/-- A text whose surrogates were escaped one by one. -/
def joinPairs : Text → Text
  | [] => []
  | [c] => [c]
  | c :: d :: rest =>
      if (0xD800 ≤ c.val ∧ c.val < 0xDC00) ∧ (0xDC00 ≤ d.val ∧ d.val < 0xE000)
      then point (0x10000 + (c.val - 0xD800) * 0x400 + (d.val - 0xDC00)) ::
        joinPairs rest
      else c :: joinPairs (d :: rest)

def readText (ascii : Bool) (s : Text) : Text :=
  if ascii then joinPairs s else s

mutual

/-- What a rendered value is read as. -/
def readBack (ascii : Bool) : Json → Json
  | .str s => .str (readText ascii s)
  | .arr xs => .arr (readBackItems ascii xs)
  | .obj fs => .obj (readBackFields ascii fs)
  | v => v

def readBackItems (ascii : Bool) : List Json → List Json
  | [] => []
  | x :: xs => readBack ascii x :: readBackItems ascii xs

def readBackFields (ascii : Bool) :
    List (Text × Json) → List (Text × Json)
  | [] => []
  | (k, v) :: fs =>
      (readText ascii k, readBack ascii v) :: readBackFields ascii fs

end

mutual

/-- Every number in the value is one. -/
def Finite : Json → Prop
  | .float .nan => False
  | .float (.infinity _) => False
  | .arr xs => FiniteItems xs
  | .obj fs => FiniteFields fs
  | _ => True

def FiniteItems : List Json → Prop
  | [] => True
  | x :: xs => Finite x ∧ FiniteItems xs

def FiniteFields : List (Text × Json) → Prop
  | [] => True
  | (_, v) :: fs => Finite v ∧ FiniteFields fs

end

/-! ## Strings -/

theorem hexVal_hexDigit : ∀ n < 16, hexVal (hexDigit n) = some n := by
  decide

theorem hex_unicodeEscape {v : ℕ} (hv : v < 0x10000) :
    Hex (hexDigit (v / 0x1000)) (hexDigit (v / 0x100 % 0x10))
      (hexDigit (v / 0x10 % 0x10)) (hexDigit (v % 0x10)) v := by
  rw [Hex, hex4]
  rw [hexVal_hexDigit _ (by omega), hexVal_hexDigit _ (by omega),
    hexVal_hexDigit _ (by omega), hexVal_hexDigit _ (by omega)]
  simp only [Option.some.injEq, Prod.mk.injEq, and_true]
  omega

theorem point_eq {v : ℕ} {c : CodePoint} (h : v = c.val) : point v = c := by
  subst h
  rw [point, dif_pos c.isLt]

/-- The escape of a unit is the escape of a low surrogate only if it is one. -/
theorem lowNext_unicodeEscape {v : ℕ} (hv : v < 0x10000) {rest : Text}
    (h : LowNext (unicodeEscape v ++ rest)) : IsLow v := by
  obtain ⟨a, b, c, d, lo, rest', heq, hhex, hlow⟩ := h
  have hown := hex_unicodeEscape hv
  cases heq
  rw [Hex] at hhex hown
  rw [hown] at hhex
  cases hhex
  exact hlow

/-- A short escape. -/
theorem escape_body {c e p : CodePoint} {t s : Text} (hp : unescape e = some p)
    (hc : c.val = p.val) (ht : StringBody t s) :
    StringBody ([chr '\\', e] ++ t) (c :: s) := by
  rw [Fin.ext hc]
  exact .escape hp ht

/-- One character, in front of the body of the rest. -/
theorem escapePoint_body (ascii : Bool) (c : CodePoint) {t s : Text}
    (hpair : ascii = true → ¬ (IsHigh c.val ∧ LowNext t))
    (ht : StringBody t s) : StringBody (escapePoint ascii c ++ t) (c :: s) := by
  have hlt := c.isLt
  rw [escapePoint]
  split
  · next h => exact escape_body (p := chr '"') (by decide) (by rw [h]) ht
  · next hquote =>
      split
      · next h => exact escape_body (p := chr '\\') (by decide) (by rw [h]) ht
      · next hslash =>
          split
          · next h => exact escape_body (p := 0x0A) (by decide) h ht
          · split
            · next h => exact escape_body (p := 0x0D) (by decide) h ht
            · split
              · next h => exact escape_body (p := 0x09) (by decide) h ht
              · split
                · next h => exact escape_body (p := 0x08) (by decide) h ht
                · split
                  · next h => exact escape_body (p := 0x0C) (by decide) h ht
                  · split
                    · next hescape =>
                        split
                        · next hbmp =>
                            have hunit : ¬ (IsHigh c.val ∧ LowNext t) := by
                              rcases hescape with hlow | ⟨hascii, -⟩
                              · rintro ⟨⟨hhigh, -⟩, -⟩
                                omega
                              · exact hpair hascii
                            have hbody := StringBody.unit
                              (hex_unicodeEscape hbmp) hunit ht
                            rw [point_eq rfl] at hbody
                            exact hbody
                        · next hastral =>
                            have hbody := StringBody.pair
                              (hex_unicodeEscape
                                (v := 0xD800 + (c.val - 0x10000) / 0x400)
                                (by omega))
                              ⟨by omega, by omega⟩
                              (hex_unicodeEscape
                                (v := 0xDC00 + (c.val - 0x10000) % 0x400)
                                (by omega))
                              ⟨by omega, by omega⟩ ht
                            rw [point_eq (c := c) (by omega)] at hbody
                            exact hbody
                    · next hplain =>
                        exact .char hquote hslash
                          (by by_contra h; exact hplain (.inl (by omega))) ht

theorem escapePoint_lowNext {c : CodePoint} {t : Text}
    (h : LowNext (escapePoint true c ++ t)) : IsLow c.val := by
  have hlt := c.isLt
  have hletter : ∀ {e : CodePoint}, e ≠ chr 'u' →
      LowNext ([chr '\\', e] ++ t) → IsLow c.val := by
    rintro e he ⟨a, b, c', d, lo, rest, heq, -⟩
    exact absurd (List.cons.inj (List.cons.inj heq).2).1 he
  rw [escapePoint] at h
  split at h
  · exact hletter (by decide) h
  · split at h
    · exact hletter (by decide) h
    · next hslash =>
        split at h
        · exact hletter (by decide) h
        · split at h
          · exact hletter (by decide) h
          · split at h
            · exact hletter (by decide) h
            · split at h
              · exact hletter (by decide) h
              · split at h
                · exact hletter (by decide) h
                · split at h
                  · split at h
                    · next hbmp => exact lowNext_unicodeEscape hbmp h
                    · next hastral =>
                        rw [List.append_assoc] at h
                        have hlow := lowNext_unicodeEscape
                          (v := 0xD800 + (c.val - 0x10000) / 0x400) (by omega) h
                        have hlt' := hlow.1
                        omega
                  · obtain ⟨a, b, c', d, lo, rest, heq, -⟩ := h
                    exact absurd (List.cons.inj heq).1 hslash

theorem escapePoint_surrogate {c : CodePoint}
    (hc : 0xD800 ≤ c.val ∧ c.val < 0xE000) :
    escapePoint true c = unicodeEscape c.val := by
  have hne : ∀ x : Char, x.toNat < 0xD800 → c ≠ chr x := by
    rintro x hx rfl
    have : (chr x).val = x.toNat := rfl
    omega
  rw [escapePoint, if_neg (hne '"' (by decide)),
    if_neg (hne '\\' (by decide)), if_neg (by omega), if_neg (by omega),
    if_neg (by omega), if_neg (by omega), if_neg (by omega),
    if_pos (.inr ⟨rfl, by omega⟩), if_pos (by omega)]

theorem quote_body (s : Text) :
    StringBody (s.flatMap (escapePoint true)) (joinPairs s) := by
  induction s using joinPairs.induct with
  | case1 => exact .nil
  | case2 c =>
      refine escapePoint_body true c (fun _ h => ?_) .nil
      obtain ⟨-, a, b, c', d, lo, rest, heq, -⟩ := h
      cases heq
  | case3 c d rest hpair ih =>
      rw [joinPairs, if_pos hpair, List.flatMap_cons, List.flatMap_cons,
        escapePoint_surrogate (by omega), escapePoint_surrogate (by omega)]
      exact .pair (hex_unicodeEscape (by omega)) hpair.1
        (hex_unicodeEscape (by omega)) hpair.2 ih
  | case4 c d rest hpair ih =>
      rw [joinPairs, if_neg hpair, List.flatMap_cons]
      refine escapePoint_body true c (fun _ h => ?_) ih
      rw [List.flatMap_cons] at h
      exact hpair ⟨h.1, escapePoint_lowNext h.2⟩

/-- What stands between the quotes of a rendered string. -/
theorem readText_body (ascii : Bool) (s : Text) :
    StringBody (s.flatMap (escapePoint ascii)) (readText ascii s) := by
  cases ascii with
  | true => exact quote_body s
  | false =>
      show StringBody _ s
      induction s with
      | nil => exact .nil
      | cons c s ih => exact escapePoint_body false c nofun ih

/-! ## Numbers -/

theorem digits_isDigit {n : ℕ} {c : CodePoint} (h : c ∈ digits n) :
    isDigit c = true := by
  obtain ⟨d, hd, rfl⟩ := List.mem_map.mp h
  have := Nat.isDigit_of_mem_toDigits (by omega) (by omega) hd
  rw [isDigit, Bool.and_eq_true, decide_eq_true_eq, decide_eq_true_eq]
  show 0x30 ≤ d.toNat ∧ d.toNat ≤ 0x39
  simpa [Char.isDigit, UInt32.le_iff_toNat_le] using this

theorem digits_digits (n : ℕ) : Digits (digits n) :=
  ⟨digits_ne_nil n, fun _ h => digits_isDigit h⟩

theorem natOfDigits_map (ds : List Char) (k : ℕ) :
    (ds.map chr).foldl (fun n c => n * 10 + (c.val - 0x30)) k =
      Nat.ofDigitChars 10 ds k := by
  induction ds generalizing k with
  | nil => simp
  | cons d ds ih =>
      rw [List.map_cons, List.foldl_cons, ih, Nat.ofDigitChars_cons,
        Nat.mul_comm]
      rfl

theorem natOfDigits_digits (n : ℕ) : natOfDigits (digits n) = n := by
  rw [natOfDigits, digits, natOfDigits_map, Nat.ofDigitChars_ten_toDigits]

/-- Only zero is written with a leading zero. -/
theorem digits_head_zero {n : ℕ} (h : (digits n).head? = some (chr '0')) :
    n = 0 := by
  induction n using Nat.strongRecOn with
  | _ n ih =>
      by_cases hn : n < 10
      · rw [digits, Nat.toDigits_of_lt_base hn] at h
        interval_cases n
        · rfl
        all_goals exact absurd h (by decide)
      · rw [digits, Nat.toDigits_of_base_le (by omega) (by omega),
          List.map_append, List.head?_append_of_ne_nil _
            (by simp [Nat.toDigits_ne_nil])] at h
        have := ih (n / 10) (by omega) h
        omega

theorem intPart_digits (n : ℕ) : IntPart (digits n) := by
  refine ⟨digits_digits n, fun h => ?_⟩
  rw [digits_head_zero h]
  rfl

theorem renderInt_eq (n : ℤ) :
    ∃ negative, renderInt n = sign negative ++ digits n.natAbs ∧
      signed negative n.natAbs = n := by
  cases n with
  | ofNat n => exact ⟨false, rfl, rfl⟩
  | negSucc n => exact ⟨true, rfl, rfl⟩

theorem numberText_renderInt (n : ℤ) : NumberText (renderInt n) (.int n) := by
  obtain ⟨negative, hrender, hsigned⟩ := renderInt_eq n
  have h := @NumberText.mk negative _ _ _ _ _ (intPart_digits n.natAbs) .none
    .none
  rw [literalValue_int, natOfDigits_digits, hsigned] at h
  rw [hrender]
  simpa using h

theorem numberText_renderDecimal (m e : ℤ) :
    NumberText (renderDecimal (.dec m e)) (.float (.dec m e)) := by
  obtain ⟨negative, hrender, hsigned⟩ := renderInt_eq m
  have hexp : ExpPart (chr 'e' :: renderInt e) (some e) := by
    cases e with
    | ofNat n =>
        have h := @ExpPart.plain (chr 'e') _ (.inl rfl) (digits_digits n)
        rw [natOfDigits_digits] at h
        exact h
    | negSucc n =>
        have h := @ExpPart.minus (chr 'e') _ (.inl rfl) (digits_digits (n + 1))
        rw [natOfDigits_digits] at h
        exact h
  have h := @NumberText.mk negative _ _ _ _ _ (intPart_digits m.natAbs) .none
    hexp
  have hfloat : ¬ (([] : Text) = [] ∧ some e = none) := by simp
  rw [literalValue_float hfloat] at h
  simp only [List.append_nil, natOfDigits_digits, hsigned, List.length_nil,
    Nat.cast_zero, sub_zero, Option.getD_some] at h
  rw [renderDecimal, hrender]
  simpa using h

/-! ## Values -/

theorem blanks_nil : Blanks [] := fun _ h => by cases h

theorem blanks_gap (st : Style) : Blanks st.gap := by
  intro c hc
  rw [Style.gap] at hc
  split at hc
  · rw [List.mem_singleton.mp hc]
    decide
  · cases hc

theorem quote_eq (ascii : Bool) (s rest : Text) :
    quote ascii s ++ rest =
      chr '"' :: (s.flatMap (escapePoint ascii) ++ (chr '"' :: rest)) := by
  rw [quote, List.cons_append, List.append_assoc]
  rfl

mutual

theorem render_valueText (st : Style) : ∀ (v : Json), Finite v →
    ValueText (render st v) (readBack st.ascii v)
  | .null, _ => .null
  | .bool true, _ => .true
  | .bool false, _ => .false
  | .int n, _ => .number (numberText_renderInt n)
  | .float (.dec m e), _ => .number (numberText_renderDecimal m e)
  | .str s, _ => .string (readText_body st.ascii s)
  | .arr [], _ => .emptyArray blanks_nil
  | .arr (x :: xs), h => .array
      (renderItems_text st xs h.2 blanks_nil (render_valueText st x h.1))
  | .obj [], _ => .emptyObject blanks_nil
  | .obj ((k, v) :: fs), h => by
      have hfields := renderFields_text st fs h.2 blanks_nil
        (readText_body st.ascii k) (render_valueText st v h.1)
      rw [render, quote_eq]
      exact .object hfields

/-- From the first item on, with what goes before it. -/
theorem renderItems_text (st : Style) : ∀ (xs : List Json), FiniteItems xs →
    ∀ {w t : Text} {x : Json}, Blanks w → ValueText t x →
      ItemsText (w ++ (t ++ renderItems st xs))
        (x :: readBackItems st.ascii xs)
  | [], _ => fun hw ht => .last hw ht blanks_nil
  | y :: ys, h => fun hw ht => .cons hw ht blanks_nil
      (renderItems_text st ys h.2 (blanks_gap st) (render_valueText st y h.1))

/-- From the first name on, with what goes before it. -/
theorem renderFields_text (st : Style) : ∀ (fs : List (Text × Json)),
    FiniteFields fs → ∀ {w k t s : Text} {x : Json}, Blanks w →
      StringBody k s → ValueText t x →
      FieldsText (w ++ (chr '"' :: (k ++ (chr '"' :: (chr ':' :: (st.gap ++
        (t ++ renderFields st fs)))))))
        ((s, x) :: readBackFields st.ascii fs)
  | [], _ => fun hw hk ht => .last hw hk blanks_nil (blanks_gap st) ht blanks_nil
  | (k', v) :: fs, h => fun hw hk ht => by
      have hfields := renderFields_text st fs h.2 (blanks_gap st)
        (readText_body st.ascii k') (render_valueText st v h.1)
      rw [renderFields, quote_eq]
      exact .cons hw hk blanks_nil (blanks_gap st) ht blanks_nil hfields

end

theorem render_writes (st : Style) {v : Json} (hv : Finite v) :
    Writes (render st v) (readBack st.ascii v) :=
  ⟨[], render st v, [], blanks_nil, render_valueText st v hv, blanks_nil,
    by simp⟩

mutual

@[simp] theorem convertible_readBack (ascii : Bool) : ∀ v : Json,
    convertible (readBack ascii v) = convertible v
  | .null | .bool _ | .int _ | .float _ | .str _ => by
      simp [readBack, convertible]
  | .arr xs => convertibleItems_readBack ascii xs
  | .obj fs => convertibleFields_readBack ascii fs

theorem convertibleItems_readBack (ascii : Bool) : ∀ xs : List Json,
    convertibleItems (readBackItems ascii xs) = convertibleItems xs
  | [] => rfl
  | x :: xs => by
      rw [readBackItems, convertibleItems, convertibleItems,
        convertible_readBack ascii x, convertibleItems_readBack ascii xs]

theorem convertibleFields_readBack (ascii : Bool) :
    ∀ fs : List (Text × Json),
      convertibleFields (readBackFields ascii fs) = convertibleFields fs
  | [] => rfl
  | (k, v) :: fs => by
      rw [readBackFields, convertibleFields, convertibleFields,
        convertible_readBack ascii v, convertibleFields_readBack ascii fs]

end

/-- `loads` after `dumps`. -/
theorem loads_dumps_readBack {v : Json} (hv : Finite v)
    (hint : convertible v = true) :
    loads (dumps v) = .ok (readBack true v) := by
  have hwrites := render_writes pythonStyle hv
  rw [dumps, loads_writes hwrites]
  exact if_pos ((convertible_readBack true v).trans hint)

/-! ## Plain values -/

theorem joinPairs_plain {s : Text}
    (hs : s.all (fun c => !Text.isSurrogate c) = true) : joinPairs s = s := by
  induction s using joinPairs.induct with
  | case1 => rfl
  | case2 c => rfl
  | case3 c d rest hpair ih =>
      rw [List.all_cons, Bool.and_eq_true, Bool.not_eq_true',
        Text.isSurrogate, Bool.and_eq_false_iff, decide_eq_false_iff_not,
        decide_eq_false_iff_not] at hs
      omega
  | case4 c d rest hpair ih =>
      rw [List.all_cons, Bool.and_eq_true] at hs
      rw [joinPairs, if_neg hpair, ih hs.2]

theorem readText_plain (ascii : Bool) {s : Text}
    (hs : s.all (fun c => !Text.isSurrogate c) = true) :
    readText ascii s = s := by
  cases ascii with
  | true => exact joinPairs_plain hs
  | false => rfl

mutual

/-- A plain value comes back as it is. -/
theorem plain_readBack (ascii : Bool) : ∀ {v : Json}, Plain v →
    readBack ascii v = v ∧ Finite v ∧ convertible v = true
  | .null, _ => ⟨rfl, trivial, rfl⟩
  | .bool _, _ => ⟨rfl, trivial, rfl⟩
  | .int n, h => ⟨rfl, trivial, decide_eq_true h⟩
  | .float _, h => h.elim
  | .str s, h => ⟨congrArg Json.str (readText_plain ascii h), trivial, rfl⟩
  | .arr xs, h => by
      obtain ⟨hsame, hfinite, hint⟩ := @plainItems_readBack ascii xs h
      exact ⟨congrArg Json.arr hsame, hfinite, hint⟩
  | .obj fs, h => by
      obtain ⟨hsame, hfinite, hint⟩ := @plainFields_readBack ascii fs h
      exact ⟨congrArg Json.obj hsame, hfinite, hint⟩

theorem plainItems_readBack (ascii : Bool) : ∀ {xs : List Json},
    PlainItems xs → readBackItems ascii xs = xs ∧ FiniteItems xs ∧
      convertibleItems xs = true
  | [], _ => ⟨rfl, trivial, rfl⟩
  | x :: xs, h => by
      obtain ⟨hx, hfinite, hint⟩ := plain_readBack ascii h.1
      obtain ⟨hxs, hfinites, hints⟩ := plainItems_readBack ascii h.2
      exact ⟨by rw [readBackItems, hx, hxs], ⟨hfinite, hfinites⟩,
        by rw [convertibleItems, hint, hints]; rfl⟩

theorem plainFields_readBack (ascii : Bool) : ∀ {fs : List (Text × Json)},
    PlainFields fs → readBackFields ascii fs = fs ∧ FiniteFields fs ∧
      convertibleFields fs = true
  | [], _ => ⟨rfl, trivial, rfl⟩
  | (k, v) :: fs, h => by
      obtain ⟨hv, hfinite, hint⟩ := plain_readBack ascii h.2.1
      obtain ⟨hfs, hfinites, hints⟩ := plainFields_readBack ascii h.2.2
      exact ⟨by rw [readBackFields, readText_plain ascii h.1, hv, hfs],
        ⟨hfinite, hfinites⟩, by rw [convertibleFields, hint, hints]; rfl⟩

end

theorem readBack_string (ascii : Bool) (s : String) :
    readBack ascii (string s) = string s :=
  (plain_readBack ascii (plain_string s)).1

theorem readBackFields_map (ascii : Bool) (fields : List (String × Json)) :
    readBackFields ascii (fields.map fun f => (Text.ofString f.1, f.2)) =
      (fields.map fun f => (f.1, readBack ascii f.2)).map fun f =>
        (Text.ofString f.1, f.2) := by
  induction fields with
  | nil => rfl
  | cons f fields ih =>
      rw [List.map_cons, readBackFields, ih, readText_plain ascii
        (plain_string f.1)]
      rfl

/-- The names of an object come back as they are. -/
theorem readBack_object (ascii : Bool) (fields : List (String × Json)) :
    readBack ascii (object fields) =
      object (fields.map fun f => (f.1, readBack ascii f.2)) := by
  rw [object, readBack, readBackFields_map]
  rfl

theorem finite_object {fields : List (String × Json)}
    (h : ∀ f ∈ fields, Finite f.2) : Finite (object fields) := by
  show FiniteFields _
  induction fields with
  | nil => trivial
  | cons f fields ih =>
      exact ⟨h f List.mem_cons_self,
        ih fun g hg => h g (List.mem_cons_of_mem f hg)⟩

theorem convertible_object {fields : List (String × Json)}
    (h : ∀ f ∈ fields, convertible f.2 = true) :
    convertible (object fields) = true := by
  show convertibleFields _ = true
  induction fields with
  | nil => rfl
  | cons f fields ih =>
      rw [List.map_cons, convertibleFields, h f List.mem_cons_self,
        ih fun g hg => h g (List.mem_cons_of_mem f hg)]
      rfl

theorem readBackItems_eq (ascii : Bool) (xs : List Json) :
    readBackItems ascii xs = xs.map (readBack ascii) := by
  induction xs with
  | nil => rfl
  | cons x xs ih => rw [readBackItems, ih, List.map_cons]

theorem finite_arr {items : List Json} (h : ∀ j ∈ items, Finite j) :
    Finite (.arr items) := by
  show FiniteItems items
  induction items with
  | nil => trivial
  | cons x xs ih =>
      exact ⟨h x List.mem_cons_self,
        ih fun y hy => h y (List.mem_cons_of_mem x hy)⟩

/-- Joining pairs leaves nothing empty. -/
theorem readText_ne_nil (ascii : Bool) {s : Text} (hs : s ≠ []) :
    readText ascii s ≠ [] := by
  cases ascii with
  | false => exact hs
  | true =>
      show joinPairs s ≠ []
      cases s with
      | nil => exact absurd rfl hs
      | cons c s =>
          cases s with
          | nil => simp [joinPairs]
          | cons d s =>
              rw [joinPairs]
              split
              · simp
              · simp

theorem parse_render (st : Style) {v : Json} (hv : Plain v) :
    parse (render st v) = .ok v := by
  obtain ⟨hsame, hfinite, hint⟩ := plain_readBack st.ascii hv
  have hwrites := render_writes st hfinite
  rw [hsame] at hwrites
  rw [parse_writes hwrites, if_pos hint]

/-- `loads` undoes `dumps`. -/
theorem loads_dumps {v : Json} (hv : Plain v) : loads (dumps v) = .ok v := by
  obtain ⟨hsame, hfinite, hint⟩ := plain_readBack true hv
  rw [loads_dumps_readBack hfinite hint, hsame]

end Lib.Json
