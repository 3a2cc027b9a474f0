import JetCore.Lib.Json
import Mathlib.Data.List.TakeDrop
import Mathlib.Data.List.TakeWhile

/-!
# How the scanner goes on

An array and an object are scanned alike, and so are their elements but for a
member's name (`scanContainer`, `scanElement`). What is left of a text after a
value is no longer than the text, and of two calls in a row one takes a
character. So the fuel is bookkeeping: two scans of a text agree as soon as
both have twice its length and one more (`agree`), and `parse` passes as much
(`parse_fuel_irrelevant`). The fuel of a string is its length and one more
(`scanString_congr`).
-/

namespace Lib.Json

variable {α : Type} {c : CodePoint} {t rest : Text} {fuel : ℕ}

/-! ## Strings -/

theorem scanChar_error {t : Text} {e : Failure} (h : scanChar t = .error e) :
    e = .badSyntax := by
  unfold scanChar at h
  split at h
  · cases h
    rfl
  · split at h
    · cases h
    · split at h
      · split at h
        · cases h
          rfl
        · split at h
          · split at h
            · cases h
            · cases h
              rfl
          · split at h
            · cases h
            · cases h
              rfl
      · split at h
        · cases h
          rfl
        · cases h

theorem scanString_error {t : Text} {e : Failure} {fuel : ℕ}
    (h : scanString fuel t = .error e) : e = .badSyntax := by
  induction fuel generalizing t with
  | zero =>
      cases h
      rfl
  | succ fuel ih =>
      rw [scanString] at h
      split at h
      · next hchar =>
          cases h
          exact scanChar_error hchar
      · cases h
      · split at h
        · next hrest =>
            cases h
            exact ih hrest
        · cases h

/-! ## What is left -/

theorem skipBlanks_length (t : Text) : (skipBlanks t).length ≤ t.length :=
  List.length_dropWhile_le _ t

theorem hex4_length {v : ℕ} (h : hex4 t = some (v, rest)) :
    rest.length < t.length := by
  unfold hex4 at h
  split at h
  · split at h
    · cases h
      simp only [List.length_cons]
      omega
    · cases h
  · cases h

theorem scanUnicode_length {p : CodePoint}
    (h : scanUnicode t = some (p, rest)) : rest.length < t.length := by
  rw [scanUnicode, Option.map_eq_some_iff] at h
  obtain ⟨⟨hi, after⟩, hhex, h⟩ := h
  have hafter := hex4_length hhex
  have hrest := congrArg Prod.snd h
  simp only [] at hrest
  split at hrest
  · split at hrest
    · split at hrest
      · split at hrest
        · next hlow =>
            have hlow := hex4_length hlow
            simp only [List.length_cons] at hafter
            split at hrest
            · simp only [] at hrest
              rw [← hrest]
              omega
            · rw [← hrest]
              exact hafter
        · rw [← hrest]
          exact hafter
      · rw [← hrest]
        exact hafter
    · rw [← hrest]
      exact hafter
  · rw [← hrest]
    exact hafter

theorem scanChar_length {p : Option CodePoint}
    (h : scanChar t = .ok (p, rest)) : rest.length < t.length := by
  unfold scanChar at h
  split at h
  · cases h
  · next c after =>
      rw [List.length_cons]
      split at h
      · cases h
        exact Nat.lt_succ_self _
      · split at h
        · split at h
          · cases h
          · next e after' =>
              rw [List.length_cons]
              split at h
              · split at h
                · next hunicode =>
                    cases h
                    have hlt := scanUnicode_length hunicode
                    omega
                · cases h
              · split at h
                · cases h
                  omega
                · cases h
        · split at h
          · cases h
          · cases h
            exact Nat.lt_succ_self _

theorem scanString_length {s : Text} (h : scanString fuel t = .ok (s, rest)) :
    rest.length < t.length := by
  induction fuel generalizing t s with
  | zero => cases h
  | succ fuel ih =>
      rw [scanString] at h
      split at h
      · cases h
      · next hchar =>
          cases h
          exact scanChar_length hchar
      · next hchar =>
          have hlt := scanChar_length hchar
          split at h
          · cases h
          · next hrest =>
              cases h
              exact (ih hrest).trans hlt

theorem span_length (p : CodePoint → Bool) (t : Text) :
    (t.span p).2.length ≤ t.length := by
  rw [List.span_eq_takeWhile_dropWhile]
  exact List.length_dropWhile_le p t

theorem scanFraction_length {ds : Text} (h : scanFraction t = some (ds, rest)) :
    rest.length ≤ t.length := by
  unfold scanFraction at h
  split at h
  · next p after =>
      have hspan := span_length isDigit after
      split at h
      · simp only [] at h
        split at h
        · cases h
        · rw [congrArg Prod.snd (Option.some.inj h)] at hspan
          exact hspan.trans (Nat.le_succ _)
      · cases h
  · cases h

theorem scanExponent_length {e : ℤ} (h : scanExponent t = some (e, rest)) :
    rest.length ≤ t.length := by
  unfold scanExponent at h
  split at h
  · split at h
    · split at h
      · next s after =>
          extract_lets signed ds at h
          have hds : ds.2.length ≤ after.length + 1 := by
            refine (span_length isDigit _).trans ?_
            split
            · exact Nat.le_succ _
            · exact le_rfl
          have hrest : ds.2 = rest := by
            clear_value ds
            split at h
            · cases h
            · split at h
              · exact congrArg Prod.snd (Option.some.inj h)
              · exact congrArg Prod.snd (Option.some.inj h)
          rw [← hrest]
          exact hds.trans (Nat.le_succ _)
      · cases h
    · cases h
  · cases h

theorem scanNumber_length {v : Json} (h : scanNumber t = .ok (v, rest)) :
    rest.length ≤ t.length := by
  unfold scanNumber at h
  extract_lets negative body all whole sign at h
  have hbody : body.length ≤ t.length := by
    unfold body
    split
    · rw [List.length_tail]
      exact Nat.sub_le _ _
    · exact le_rfl
  have hwhole : whole.2.length ≤ t.length := by
    refine le_trans ?_ hbody
    unfold whole
    split
    · rw [List.length_tail]
      exact Nat.sub_le _ _
    · exact span_length isDigit body
  clear_value whole sign
  split at h
  · cases h
  · cases hfrac : scanFraction whole.2 with
    | some frac =>
        have hlen := (scanFraction_length hfrac).trans hwhole
        rw [hfrac] at h
        cases hexp : scanExponent frac.2 with
        | some exp =>
            simp only [hexp] at h
            cases h
            exact (scanExponent_length hexp).trans hlen
        | none =>
            simp only [hexp] at h
            cases h
            exact hlen
    | none =>
        rw [hfrac] at h
        cases hexp : scanExponent whole.2 with
        | some exp =>
            simp only [hexp] at h
            cases h
            exact (scanExponent_length hexp).trans hwhole
        | none =>
            simp only [hexp] at h
            split at h
            · cases h
            · cases h
              exact hwhole

theorem scanWord_length {word : String} {v v' : Json}
    (h : scanWord word v t = .ok (v', rest)) : rest.length ≤ t.length := by
  rw [scanWord] at h
  split at h
  · cases h
    rw [List.length_drop]
    exact Nat.sub_le _ _
  · cases h

/-! ## Containers and their elements -/

variable {v : Json}

/-- What `scanValue` does with an array or an object, `inside` of which it goes
on with another scan. -/
def scanContainer (close : CodePoint) (empty : Json) (mk : α → Json)
    (inside : Option ℕ → Text → Scan α) (limit : Option ℕ) (t : Text) :
    Scan Json :=
  match enter limit with
  | none => .error .tooDeep
  | some inner =>
      match skipBlanks t with
      | [] => .error .badSyntax
      | c :: rest =>
          if c = close then .ok (empty, rest)
          else
            match inside inner (c :: rest) with
            | .error e => .error e
            | .ok (a, rest') => .ok (mk a, rest')

theorem scanValue_object (limit : Option ℕ) :
    scanValue limit (fuel + 1) (chr '\x7b' :: rest) =
      scanContainer (chr '\x7d') (.obj []) .obj
        (fun limit => scanFields limit fuel) limit rest := by
  rw [scanValue, if_neg (by decide), if_pos rfl, scanContainer]
  cases enter limit with
  | none => rfl
  | some inner =>
      cases skipBlanks rest with
      | nil => rfl
      | cons c rest' =>
          simp only []
          split
          · rfl
          · cases scanFields inner fuel (c :: rest') with
            | error e => rfl
            | ok scanned => rfl

theorem scanValue_array (limit : Option ℕ) :
    scanValue limit (fuel + 1) (chr '[' :: rest) =
      scanContainer (chr ']') (.arr []) .arr
        (fun limit => scanItems limit fuel) limit rest := by
  rw [scanValue, if_neg (by decide), if_neg (by decide), if_pos rfl,
    scanContainer]
  cases enter limit with
  | none => rfl
  | some inner =>
      cases skipBlanks rest with
      | nil => rfl
      | cons c rest' =>
          simp only []
          split
          · rfl
          · cases scanItems inner fuel (c :: rest') with
            | error e => rfl
            | ok scanned => rfl

/-- What the two loops do with an element: scan its value, and then `more`. -/
def scanElement (close : CodePoint) (mk : Json → α) (fuel : ℕ)
    (more : Option ℕ → Text → Scan (List α)) (limit : Option ℕ) (t : Text) :
    Scan (List α) :=
  match scanValue limit fuel t with
  | .error e => .error e
  | .ok (v, rest) =>
      match skipBlanks rest with
      | [] => .error .badSyntax
      | c :: rest' =>
          if c = close then .ok ([mk v], rest')
          else if c = chr ',' then
            match more limit (skipBlanks rest') with
            | .error e => .error e
            | .ok (as, rest'') => .ok (mk v :: as, rest'')
          else .error .badSyntax

theorem scanItems_succ (limit : Option ℕ) (t : Text) :
    scanItems limit (fuel + 1) t = scanElement (chr ']') id fuel
      (fun limit => scanItems limit fuel) limit t := by
  rw [scanItems, scanElement]
  cases scanValue limit fuel t with
  | error e => rfl
  | ok scanned =>
      simp only []
      cases skipBlanks scanned.2 with
      | nil => rfl
      | cons c rest =>
          simp only []
          split
          · rfl
          · split
            · cases scanItems limit fuel (skipBlanks rest) with
              | error e => rfl
              | ok more => rfl
            · rfl

/-- A member, from its name on: the name depends on neither the limit nor the
fuel. -/
theorem scanFields_cases (t : Text) :
    (∀ fuel limit, scanFields limit (fuel + 1) t = .error .badSyntax) ∨
      ∃ k rest, rest.length < t.length ∧
        ∀ fuel limit, scanFields limit (fuel + 1) t =
          scanElement (chr '\x7d') (fun v => (k, v)) fuel
            (fun limit => scanFields limit fuel) limit rest := by
  cases t with
  | nil => exact .inl fun _ _ => rfl
  | cons q t =>
      by_cases hq : q = chr '"'
      · cases hname : scanString (t.length + 1) t with
        | error e =>
            refine .inl fun fuel limit => ?_
            rw [scanFields, if_pos hq, hname, scanString_error hname]
        | ok name =>
            cases hblanks : skipBlanks name.2 with
            | nil =>
                refine .inl fun fuel limit => ?_
                rw [scanFields, if_pos hq, hname]
                simp only [hblanks]
            | cons c rest =>
                by_cases hc : c = chr ':'
                · refine .inr ⟨name.1, skipBlanks rest, ?_, fun fuel limit => ?_⟩
                  · have hname := scanString_length hname
                    have hafter := skipBlanks_length name.2
                    have hrest := skipBlanks_length rest
                    rw [hblanks, List.length_cons] at hafter
                    rw [List.length_cons]
                    omega
                  rw [scanFields, if_pos hq, hname]
                  simp only [hblanks, if_pos hc, scanElement]
                  cases scanValue limit fuel (skipBlanks rest) with
                  | error e => rfl
                  | ok scanned =>
                      simp only []
                      cases skipBlanks scanned.2 with
                      | nil => rfl
                      | cons d rest' =>
                          simp only []
                          split
                          · rfl
                          · split
                            · cases scanFields limit fuel (skipBlanks rest')
                              with
                              | error e => rfl
                              | ok more => rfl
                            · rfl
                · refine .inl fun fuel limit => ?_
                  rw [scanFields, if_pos hq, hname]
                  simp only [hblanks, if_neg hc]
      · refine .inl fun fuel limit => ?_
        rw [scanFields, if_neg hq]

/-! ## What is left of a value -/

/-- A scan leaves no more than it was given. -/
structure Shortens (fuel : ℕ) : Prop where
  value : ∀ {limit t v rest}, scanValue limit fuel t = .ok (v, rest) →
    rest.length ≤ t.length
  items : ∀ {limit t xs rest}, scanItems limit fuel t = .ok (xs, rest) →
    rest.length ≤ t.length
  fields : ∀ {limit t fs rest}, scanFields limit fuel t = .ok (fs, rest) →
    rest.length ≤ t.length

variable {close : CodePoint} {empty : Json} {limit : Option ℕ}

theorem container_length {mk : α → Json} {inside : Option ℕ → Text → Scan α}
    (ih : ∀ {limit t a rest}, inside limit t = .ok (a, rest) →
      rest.length ≤ t.length)
    (h : scanContainer close empty mk inside limit t = .ok (v, rest)) :
    rest.length ≤ t.length := by
  rw [scanContainer] at h
  split at h
  · cases h
  · have hblanks := skipBlanks_length t
    split at h
    · cases h
    · next c after heq =>
        rw [heq] at hblanks
        split at h
        · cases h
          exact (Nat.le_succ _).trans hblanks
        · split at h
          · cases h
          · next hinside =>
              cases h
              exact (ih hinside).trans hblanks

theorem element_length {mk : Json → α}
    {more : Option ℕ → Text → Scan (List α)} (ih : Shortens fuel)
    (hmore : ∀ {limit t as rest}, more limit t = .ok (as, rest) →
      rest.length ≤ t.length) {as : List α}
    (h : scanElement close mk fuel more limit t = .ok (as, rest)) :
    rest.length ≤ t.length := by
  rw [scanElement] at h
  split at h
  · cases h
  · next v after hvalue =>
      have hafter := ih.value hvalue
      have hblanks := skipBlanks_length after
      split at h
      · cases h
      · next c after' heq =>
          rw [heq, List.length_cons] at hblanks
          split at h
          · cases h
            omega
          · split at h
            · split at h
              · cases h
              · next hrest =>
                  cases h
                  have hlen := hmore hrest
                  have hblanks' := skipBlanks_length after'
                  omega
            · cases h

theorem value_length (ih : Shortens fuel)
    (h : scanValue limit (fuel + 1) t = .ok (v, rest)) :
    rest.length ≤ t.length := by
  cases t with
  | nil => cases h
  | cons c after =>
      by_cases hobj : c = chr '\x7b'
      · subst hobj
        rw [scanValue_object] at h
        exact (container_length ih.fields h).trans (Nat.le_succ _)
      · by_cases harr : c = chr '['
        · subst harr
          rw [scanValue_array] at h
          exact (container_length ih.items h).trans (Nat.le_succ _)
        · rw [scanValue, if_neg hobj, if_neg harr] at h
          split at h
          · split at h
            · cases h
            · next hstring =>
                cases h
                exact (scanString_length hstring).le.trans (Nat.le_succ _)
          · repeat (split at h; · exact scanWord_length h)
            exact scanNumber_length h

theorem shortens (fuel : ℕ) : Shortens fuel := by
  induction fuel with
  | zero => exact ⟨nofun, nofun, nofun⟩
  | succ fuel ih =>
      refine ⟨value_length ih, fun h => ?_, fun {limit t fs rest} h => ?_⟩
      · rw [scanItems_succ] at h
        exact element_length ih ih.items h
      · rcases scanFields_cases t with herror | ⟨k, after, hlt, hmember⟩
        · rw [herror] at h
          cases h
        · rw [hmember] at h
          exact (element_length ih ih.fields h).trans hlt.le

/-! ## Enough fuel -/

theorem scanString_congr {fuel fuel' : ℕ} (h : t.length < fuel)
    (h' : t.length < fuel') : scanString fuel t = scanString fuel' t := by
  induction fuel generalizing t fuel' with
  | zero => cases h
  | succ fuel ih =>
      obtain ⟨fuel', rfl⟩ : ∃ n, fuel' = n + 1 := ⟨fuel' - 1, by omega⟩
      rw [scanString, scanString]
      split
      · rfl
      · rfl
      · next p after hchar =>
          have hlt := scanChar_length hchar
          have hafter : scanString fuel after = scanString fuel' after :=
            ih (by omega) (by omega)
          rw [hafter]

theorem container_congr {mk : α → Json}
    {inside inside' : Option ℕ → Text → Scan α}
    (h : ∀ limit u, u.length ≤ t.length → inside limit u = inside' limit u) :
    scanContainer close empty mk inside limit t =
      scanContainer close empty mk inside' limit t := by
  rw [scanContainer, scanContainer]
  split
  · rfl
  · have hblanks := skipBlanks_length t
    split
    · rfl
    · next heq =>
        rw [heq] at hblanks
        rw [h _ _ hblanks]

theorem element_congr {mk : Json → α} {fuel fuel' : ℕ}
    {more more' : Option ℕ → Text → Scan (List α)}
    (hvalue : scanValue limit fuel t = scanValue limit fuel' t)
    (hmore : ∀ u, u.length < t.length → more limit u = more' limit u) :
    scanElement close mk fuel more limit t =
      scanElement close mk fuel' more' limit t := by
  rw [scanElement, scanElement, ← hvalue]
  split
  · rfl
  · next v after hscan =>
      have hafter := (shortens fuel).value hscan
      have hblanks := skipBlanks_length after
      split
      · rfl
      · next c after' heq =>
          rw [heq, List.length_cons] at hblanks
          have hblanks' := skipBlanks_length after'
          rw [hmore (skipBlanks after') (by omega)]

/-- Two scans agree on every text that both have enough fuel for. -/
structure Agree (fuel fuel' : ℕ) : Prop where
  value : ∀ limit t, 2 * t.length < fuel → 2 * t.length < fuel' →
    scanValue limit fuel t = scanValue limit fuel' t
  items : ∀ limit t, 2 * t.length + 1 < fuel → 2 * t.length + 1 < fuel' →
    scanItems limit fuel t = scanItems limit fuel' t
  fields : ∀ limit t, 2 * t.length + 1 < fuel → 2 * t.length + 1 < fuel' →
    scanFields limit fuel t = scanFields limit fuel' t

theorem value_agree {fuel fuel' : ℕ} (ih : Agree fuel fuel')
    (limit : Option ℕ) (t : Text) (h : 2 * t.length < fuel + 1)
    (h' : 2 * t.length < fuel' + 1) :
    scanValue limit (fuel + 1) t = scanValue limit (fuel' + 1) t := by
  cases t with
  | nil => rfl
  | cons c after =>
      rw [List.length_cons] at h h'
      by_cases hobj : c = chr '\x7b'
      · subst hobj
        rw [scanValue_object, scanValue_object]
        exact container_congr fun limit u hu =>
          ih.fields limit u (by omega) (by omega)
      · by_cases harr : c = chr '['
        · subst harr
          rw [scanValue_array, scanValue_array]
          exact container_congr fun limit u hu =>
            ih.items limit u (by omega) (by omega)
        · rw [scanValue, scanValue, if_neg hobj, if_neg harr, if_neg hobj,
            if_neg harr]

theorem items_agree {fuel fuel' : ℕ} (ih : Agree fuel fuel')
    (limit : Option ℕ) (t : Text) (h : 2 * t.length + 1 < fuel + 1)
    (h' : 2 * t.length + 1 < fuel' + 1) :
    scanItems limit (fuel + 1) t = scanItems limit (fuel' + 1) t := by
  rw [scanItems_succ, scanItems_succ]
  exact element_congr (ih.value limit t (by omega) (by omega)) fun u hu =>
    ih.items limit u (by omega) (by omega)

theorem fields_agree {fuel fuel' : ℕ} (ih : Agree fuel fuel')
    (limit : Option ℕ) (t : Text) (h : 2 * t.length + 1 < fuel + 1)
    (h' : 2 * t.length + 1 < fuel' + 1) :
    scanFields limit (fuel + 1) t = scanFields limit (fuel' + 1) t := by
  rcases scanFields_cases t with herror | ⟨k, after, hlt, hmember⟩
  · rw [herror, herror]
  · rw [hmember, hmember]
    exact element_congr (ih.value limit after (by omega) (by omega))
      fun u hu => ih.fields limit u (by omega) (by omega)

theorem agree (fuel fuel' : ℕ) : Agree fuel fuel' := by
  induction fuel generalizing fuel' with
  | zero => exact ⟨nofun, nofun, nofun⟩
  | succ fuel ih =>
      cases fuel' with
      | zero => exact ⟨nofun, nofun, nofun⟩
      | succ fuel' =>
          exact ⟨value_agree (ih fuel'), items_agree (ih fuel'),
            fields_agree (ih fuel')⟩

/-- What `parse` passes is enough: with more, it comes to the same. -/
theorem parse_fuel_irrelevant (limit : Option ℕ) {t : Text} {fuel : ℕ}
    (h : 2 * t.length < fuel) :
    scanValue limit (2 * t.length + 1) (skipBlanks t) =
      scanValue limit fuel (skipBlanks t) := by
  have hblanks := skipBlanks_length t
  exact (agree _ _).value limit _ (by omega) (by omega)

end Lib.Json
