import JetCore.Lib.JsonScan

/-!
# Nesting, and the limit on it

`depth` is how many containers a value has around its innermost one, that one
included. A limit changes nothing about a text but this: as soon as one
container too many begins, `tooDeep` is what comes of the text, whatever stands
after it (`Limited`). So a text that is read without a limit is read under one
exactly if its value is not deeper (`loads_limit`).
-/

namespace Lib.Json

mutual

def depth : Json → ℕ
  | .arr xs => depthItems xs + 1
  | .obj fs => depthFields fs + 1
  | .null | .bool _ | .int _ | .float _ | .str _ => 0

def depthItems : List Json → ℕ
  | [] => 0
  | x :: xs => max (depth x) (depthItems xs)

def depthFields : List (Text × Json) → ℕ
  | [] => 0
  | (_, v) :: fs => max (depth v) (depthFields fs)

end

variable {α : Type}

/-- What a limit makes of an outcome, of which `d` is the depth: nothing, if
that is within the limit. -/
def Limited (d : α → ℕ) (n : ℕ) (limited unlimited : Scan α) : Prop :=
  (limited = unlimited ∧ ∀ a rest, unlimited = .ok (a, rest) → d a ≤ n) ∨
    limited = .error .tooDeep ∧ ∀ a rest, unlimited = .ok (a, rest) → n < d a

theorem limited_error {d : α → ℕ} {n : ℕ} (e : Failure) :
    Limited d n (.error e) (.error e) := .inl ⟨rfl, nofun⟩

theorem limited_ok {d : α → ℕ} {n : ℕ} {a : α} {rest : Text} (h : d a ≤ n) :
    Limited d n (.ok (a, rest)) (.ok (a, rest)) := by
  refine .inl ⟨rfl, fun a' rest' heq => ?_⟩
  cases heq
  exact h

/-- An outcome without containers. -/
theorem limited_flat {d : α → ℕ} {n : ℕ} {x : Scan α}
    (h : ∀ a rest, x = .ok (a, rest) → d a = 0) : Limited d n x x :=
  .inl ⟨rfl, fun a rest heq => (h a rest heq).le.trans (Nat.zero_le n)⟩

/-- The three ways in which it comes out. -/
theorem Limited.cases {d : α → ℕ} {n : ℕ} {x y : Scan α} (h : Limited d n x y) :
    (∃ e, x = .error e ∧ y = .error e) ∨
      (∃ a rest, x = .ok (a, rest) ∧ y = .ok (a, rest) ∧ d a ≤ n) ∨
        x = .error .tooDeep ∧ ∀ a rest, y = .ok (a, rest) → n < d a := by
  rcases h with ⟨rfl, hle⟩ | hdeep
  · cases x with
    | error e => exact .inl ⟨e, rfl, rfl⟩
    | ok r => exact .inr (.inl ⟨r.1, r.2, rfl, rfl, hle r.1 r.2 rfl⟩)
  · exact .inr (.inr hdeep)

/-! ## What is no container -/

theorem scanNumber_flat {t rest : Text} {v : Json}
    (h : scanNumber t = .ok (v, rest)) : depth v = 0 := by
  unfold scanNumber at h
  extract_lets negative body all whole sign at h
  clear_value whole sign
  split at h
  · cases h
  · cases hfrac : scanFraction whole.2 with
    | some frac =>
        rw [hfrac] at h
        cases hexp : scanExponent frac.2 with
        | some exp =>
            simp only [hexp] at h
            cases h
            rfl
        | none =>
            simp only [hexp] at h
            cases h
            rfl
    | none =>
        rw [hfrac] at h
        cases hexp : scanExponent whole.2 with
        | some exp =>
            simp only [hexp] at h
            cases h
            rfl
        | none =>
            simp only [hexp] at h
            split at h
            · cases h
            · cases h
              rfl

theorem scanWord_flat {word : String} {t rest : Text} {v v' : Json}
    (hv : depth v = 0) (h : scanWord word v t = .ok (v', rest)) :
    depth v' = 0 := by
  rw [scanWord] at h
  split at h
  · cases h
    exact hv
  · cases h

variable {c : CodePoint} {rest rest' : Text} {v : Json} {fuel : ℕ}

theorem scanValue_flat {limit : Option ℕ} (hobj : c ≠ chr '\x7b')
    (harr : c ≠ chr '[')
    (h : scanValue limit (fuel + 1) (c :: rest) = .ok (v, rest')) :
    depth v = 0 := by
  rw [scanValue, if_neg hobj, if_neg harr] at h
  split at h
  · cases hstring : scanString (rest.length + 1) rest with
    | error e =>
        rw [hstring] at h
        cases h
    | ok r =>
        rw [hstring] at h
        cases h
        rfl
  · repeat (split at h; · exact scanWord_flat rfl h)
    exact scanNumber_flat h

theorem scanValue_limit (limit : Option ℕ) (hobj : c ≠ chr '\x7b')
    (harr : c ≠ chr '[') : scanValue limit (fuel + 1) (c :: rest) =
      scanValue none (fuel + 1) (c :: rest) := by
  rw [scanValue, scanValue, if_neg hobj, if_neg harr, if_neg hobj, if_neg harr]

/-! ## The scanner -/

/-- The limit does nothing to a scan but end it. -/
structure LimitsOnly (fuel : ℕ) : Prop where
  value : ∀ n t, Limited depth n (scanValue (some n) fuel t)
    (scanValue none fuel t)
  items : ∀ n t, Limited depthItems n (scanItems (some n) fuel t)
    (scanItems none fuel t)
  fields : ∀ n t, Limited depthFields n (scanFields (some n) fuel t)
    (scanFields none fuel t)

theorem limited_container (close : CodePoint) (empty : Json) (mk : α → Json)
    (inside : Option ℕ → Text → Scan α) {d : α → ℕ}
    (hempty : depth empty = 1) (hmk : ∀ a, depth (mk a) = d a + 1)
    (ih : ∀ k t, Limited d k (inside (some k) t) (inside none t))
    (n : ℕ) (t : Text) :
    Limited depth n (scanContainer close empty mk inside (some n) t)
      (scanContainer close empty mk inside none t) := by
  rw [scanContainer, scanContainer]
  cases n with
  | zero =>
      refine .inr ⟨rfl, fun v rest h => ?_⟩
      simp only [enter] at h
      split at h
      · cases h
      · split at h
        · cases h
          exact hempty ▸ Nat.one_pos
        · split at h
          · cases h
          · cases h
            exact hmk _ ▸ Nat.succ_pos _
  | succ k =>
      simp only [enter]
      split
      · exact limited_error _
      · split
        · exact limited_ok (hempty.trans_le (Nat.succ_le_succ (Nat.zero_le k)))
        · next c rest _ _ =>
            rcases (ih k (c :: rest)).cases with
              ⟨e, hx, hy⟩ | ⟨a, r, hx, hy, hle⟩ | ⟨hx, hlt⟩
            · rw [hx, hy]
              exact limited_error e
            · rw [hx, hy]
              exact limited_ok ((hmk a).trans_le (Nat.succ_le_succ hle))
            · rw [hx]
              refine .inr ⟨rfl, fun v r h => ?_⟩
              split at h
              · cases h
              · next hy =>
                  cases h
                  exact hmk _ ▸ Nat.succ_lt_succ (hlt _ _ hy)

theorem limited_element (close : CodePoint) (mk : Json → α)
    (more : Option ℕ → Text → Scan (List α)) {d : List α → ℕ} (hnil : d [] = 0)
    (hmk : ∀ v as, d (mk v :: as) = max (depth v) (d as))
    (ih : LimitsOnly fuel)
    (hmore : ∀ n t, Limited d n (more (some n) t) (more none t)) (n : ℕ)
    (t : Text) :
    Limited d n (scanElement close mk fuel more (some n) t)
      (scanElement close mk fuel more none t) := by
  have hone : ∀ v, d [mk v] = depth v := by
    intro v
    rw [hmk, hnil, Nat.max_zero]
  rw [scanElement, scanElement]
  rcases (ih.value n t).cases with
    ⟨e, hx, hy⟩ | ⟨v, rest, hx, hy, hle⟩ | ⟨hx, hlt⟩
  · rw [hx, hy]
    exact limited_error e
  · rw [hx, hy]
    simp only []
    split
    · exact limited_error _
    · next c rest' _ =>
        split
        · exact limited_ok ((hone v).trans_le hle)
        · split
          · rcases (hmore n (skipBlanks rest')).cases with
              ⟨e, hx', hy'⟩ | ⟨as, r, hx', hy', hle'⟩ | ⟨hx', hlt⟩
            · rw [hx', hy']
              exact limited_error e
            · rw [hx', hy']
              exact limited_ok ((hmk v as).trans_le (max_le hle hle'))
            · rw [hx']
              refine .inr ⟨rfl, fun as r h => ?_⟩
              split at h
              · cases h
              · next hy' =>
                  cases h
                  rw [hmk]
                  exact lt_max_of_lt_right (hlt _ _ hy')
          · exact limited_error _
  · rw [hx]
    refine .inr ⟨rfl, fun as r h => ?_⟩
    split at h
    · cases h
    · next v rest hy =>
        have hdeep := hlt v rest hy
        split at h
        · cases h
        · split at h
          · cases h
            exact (hone v).symm ▸ hdeep
          · split at h
            · split at h
              · cases h
              · cases h
                rw [hmk]
                exact lt_max_of_lt_left hdeep
            · cases h

theorem limited_value (ih : LimitsOnly fuel) (n : ℕ) (t : Text) :
    Limited depth n (scanValue (some n) (fuel + 1) t)
      (scanValue none (fuel + 1) t) := by
  cases t with
  | nil => exact limited_error _
  | cons c rest =>
      by_cases hobj : c = chr '\x7b'
      · subst hobj
        rw [scanValue_object, scanValue_object]
        exact limited_container _ _ _ _ rfl (fun _ => rfl) ih.fields n rest
      · by_cases harr : c = chr '['
        · subst harr
          rw [scanValue_array, scanValue_array]
          exact limited_container _ _ _ _ rfl (fun _ => rfl) ih.items n rest
        · rw [scanValue_limit (some n) hobj harr]
          exact limited_flat fun v rest' h => scanValue_flat hobj harr h

theorem limited_items (ih : LimitsOnly fuel) (n : ℕ) (t : Text) :
    Limited depthItems n (scanItems (some n) (fuel + 1) t)
      (scanItems none (fuel + 1) t) := by
  rw [scanItems_succ, scanItems_succ]
  exact limited_element _ _ _ rfl (fun _ _ => rfl) ih ih.items n t

theorem limited_fields (ih : LimitsOnly fuel) (n : ℕ) (t : Text) :
    Limited depthFields n (scanFields (some n) (fuel + 1) t)
      (scanFields none (fuel + 1) t) := by
  rcases scanFields_cases t with h | ⟨k, rest, -, h⟩
  · rw [h, h]
    exact limited_error _
  · rw [h, h]
    exact limited_element _ _ _ rfl (fun _ _ => rfl) ih ih.fields n rest

theorem limitsOnly (fuel : ℕ) : LimitsOnly fuel := by
  induction fuel with
  | zero =>
      exact ⟨fun _ _ => limited_error _, fun _ _ => limited_error _,
        fun _ _ => limited_error _⟩
  | succ fuel ih =>
      exact ⟨limited_value ih, limited_items ih, limited_fields ih⟩

/-! ## A whole text -/

theorem parse_limit (t : Text) (n : ℕ) :
    (parse t (some n) = parse t ∧ ∀ v, parse t = .ok v → depth v ≤ n) ∨
      parse t (some n) = .error .tooDeep ∧
        ∀ v, parse t = .ok v → n < depth v := by
  rw [parse, parse]
  rcases ((limitsOnly (2 * t.length + 1)).value n (skipBlanks t)).cases with
    ⟨e, hx, hy⟩ | ⟨v, rest, hx, hy, hle⟩ | ⟨hx, hlt⟩
  · rw [hx, hy]
    exact .inl ⟨rfl, nofun⟩
  · rw [hx, hy]
    refine .inl ⟨rfl, fun v' h => ?_⟩
    simp only [] at h
    split at h
    · cases h
      exact hle
    · cases h
  · rw [hx]
    refine .inr ⟨rfl, fun v h => ?_⟩
    split at h
    · cases h
    · next hy =>
        split at h
        · cases h
          exact hlt _ _ hy
        · cases h

theorem parse_of_loads {b : Bytes} {t : Text} {v : Json}
    (ht : decodeBytes b = some t) (h : loads b = .ok v) : parse t = .ok v := by
  rw [loads, ht] at h
  simp only [] at h
  cases hparse : parse t with
  | ok w =>
      rw [hparse] at h
      exact congrArg Except.ok (Except.ok.inj h)
  | error e =>
      rw [hparse] at h
      cases e <;> cases h

/-- A text that is read is read under a limit too if the value is not deeper,
and what is not too deep is refused as it is without one. -/
theorem loads_limit (b : Bytes) (n : ℕ) :
    (loads b (some n) = loads b ∧ ∀ v, loads b = .ok v → depth v ≤ n) ∨
      loads b (some n) = .error .recursionError ∧
        ∀ v, loads b = .ok v → n < depth v := by
  cases ht : decodeBytes b with
  | none =>
      rw [loads, loads, ht]
      exact .inl ⟨rfl, fun _ h => by cases h⟩
  | some t =>
      rcases parse_limit t n with ⟨heq, hle⟩ | ⟨heq, hlt⟩
      · refine .inl ⟨?_, fun v h => hle v (parse_of_loads ht h)⟩
        rw [loads, loads, ht]
        simp only []
        rw [heq]
      · refine .inr ⟨?_, fun v h => hlt v (parse_of_loads ht h)⟩
        rw [loads, ht]
        simp only []
        rw [heq]

theorem loads_of_fits {b : Bytes} {v : Json} {n : ℕ} (h : loads b = .ok v)
    (hfits : depth v ≤ n) : loads b (some n) = .ok v := by
  rcases loads_limit b n with ⟨heq, -⟩ | ⟨-, hlt⟩
  · rw [heq, h]
  · exact absurd (hlt v h) (Nat.not_lt.mpr hfits)

/-- What comes of a text under a limit that is kept comes of it without one. -/
theorem loads_of_limit {b : Bytes} {limit : Option ℕ}
    {r : Except LoadsError Json} (h : loads b limit = r)
    (hkept : r ≠ .error .recursionError) : loads b = r := by
  cases limit with
  | none => exact h
  | some n =>
      rcases loads_limit b n with ⟨heq, -⟩ | ⟨heq, -⟩
      · exact heq.symm.trans h
      · exact absurd (h.symm.trans heq) hkept

/-! ## Without a limit -/

theorem scanNumber_ne_tooDeep (t : Text) : scanNumber t ≠ .error .tooDeep := by
  intro h
  unfold scanNumber at h
  extract_lets negative body all whole sign at h
  clear_value whole sign
  split at h
  · cases h
  · cases hfrac : scanFraction whole.2 with
    | some frac =>
        rw [hfrac] at h
        cases hexp : scanExponent frac.2 with
        | some exp =>
            simp only [hexp] at h
            cases h
        | none =>
            simp only [hexp] at h
            cases h
    | none =>
        rw [hfrac] at h
        cases hexp : scanExponent whole.2 with
        | some exp =>
            simp only [hexp] at h
            cases h
        | none =>
            simp only [hexp] at h
            split at h
            · cases h
            · cases h

theorem scanWord_ne_tooDeep (word : String) (v : Json) (t : Text) :
    scanWord word v t ≠ .error .tooDeep := by
  rw [scanWord]
  split
  · exact fun h => by cases h
  · exact fun h => by cases h

structure NeverDeep (fuel : ℕ) : Prop where
  value : ∀ t, scanValue none fuel t ≠ .error .tooDeep
  items : ∀ t, scanItems none fuel t ≠ .error .tooDeep
  fields : ∀ t, scanFields none fuel t ≠ .error .tooDeep

theorem container_ne_tooDeep {close : CodePoint} {empty : Json}
    {mk : α → Json} {inside : Option ℕ → Text → Scan α}
    (ih : ∀ t, inside none t ≠ .error .tooDeep) (t : Text) :
    scanContainer close empty mk inside none t ≠ .error .tooDeep := by
  simp only [scanContainer, enter]
  intro h
  split at h
  · cases h
  · split at h
    · cases h
    · split at h
      · next hinside =>
          cases h
          exact ih _ hinside
      · cases h

theorem element_ne_tooDeep {close : CodePoint} {mk : Json → α}
    {more : Option ℕ → Text → Scan (List α)} (ih : NeverDeep fuel)
    (hmore : ∀ t, more none t ≠ .error .tooDeep) (t : Text) :
    scanElement close mk fuel more none t ≠ .error .tooDeep := by
  rw [scanElement]
  intro h
  split at h
  · next hvalue =>
      cases h
      exact ih.value t hvalue
  · split at h
    · cases h
    · split at h
      · cases h
      · split at h
        · split at h
          · next hrest =>
              cases h
              exact hmore _ hrest
          · cases h
        · cases h

theorem value_ne_tooDeep (ih : NeverDeep fuel) (t : Text) :
    scanValue none (fuel + 1) t ≠ .error .tooDeep := by
  cases t with
  | nil => exact fun h => by cases h
  | cons c rest =>
      by_cases hobj : c = chr '\x7b'
      · subst hobj
        rw [scanValue_object]
        exact container_ne_tooDeep ih.fields rest
      · by_cases harr : c = chr '['
        · subst harr
          rw [scanValue_array]
          exact container_ne_tooDeep ih.items rest
        · rw [scanValue, if_neg hobj, if_neg harr]
          split
          · split
            · next hstring =>
                rw [scanString_error hstring]
                exact fun h => by cases h
            · exact fun h => by cases h
          · repeat (split; · exact scanWord_ne_tooDeep _ _ _)
            exact scanNumber_ne_tooDeep _

theorem neverDeep (fuel : ℕ) : NeverDeep fuel := by
  induction fuel with
  | zero => exact ⟨nofun, nofun, nofun⟩
  | succ fuel ih =>
      refine ⟨value_ne_tooDeep ih, fun t => ?_, fun t => ?_⟩
      · rw [scanItems_succ]
        exact element_ne_tooDeep ih ih.items t
      · rcases scanFields_cases t with h | ⟨k, rest, -, h⟩
        · rw [h]
          nofun
        · rw [h]
          exact element_ne_tooDeep ih ih.fields rest

theorem loads_ne_recursionError (b : Bytes) :
    loads b ≠ .error .recursionError := by
  rw [loads]
  cases decodeBytes b with
  | none => nofun
  | some t =>
      intro h
      simp only [] at h
      split at h
      · cases h
      · cases h
      · cases h
      · next hparse =>
          rw [parse] at hparse
          split at hparse
          · next hvalue =>
              cases hparse
              exact (neverDeep _).value _ hvalue
          · split at hparse
            · cases hparse
            · cases hparse

end Lib.Json
