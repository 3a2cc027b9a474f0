import JetCore.Ref.Creds

/-!
# Which key a credentials file is taken for

The pattern is sharp, so what it matches at a position is one block at most
(`matches_seedBlock`), and one seed. A block may be matched from any of its
first dashes on, or from dashes before it, which is why the text before is asked
not to hold the marker, and nothing else (`search_block`).
-/

namespace JetCore

open Lib

namespace Creds

def eols : List Bytes := [[newline], [carriageReturn, newline]]

/-- Not empty, and no end of a line in it. -/
def IsLine (seed : Bytes) : Prop :=
  seed ≠ [] ∧ ∀ x ∈ seed, x ≠ carriageReturn ∧ x ≠ newline

/-- What stands between the dashes before and the dashes after: the markers, and
the seed on a line of its own. -/
inductive Body (seed : Bytes) : Bytes → Prop
  | mk (b c : ℕ) {blanks eol eol' : Bytes} :
      (∀ x ∈ blanks, isBlank x = true) → eol ∈ eols → IsLine seed →
      eol' ∈ eols →
      Body seed (beginMarker ++ (List.replicate (b + 1) dash ++ (blanks ++
        (eol ++ (seed ++ (eol' ++ (List.replicate (c + 1) dash ++
          endMarker)))))))

/-- A block as nsc writes it, whatever the numbers of its dashes. -/
def SeedBlock (seed block : Bytes) : Prop :=
  ∃ a d body, Body seed body ∧ block = List.replicate (a + 1) dash ++
    (body ++ List.replicate (d + 1) dash)

variable {p : Pattern UInt8} {w : Bytes} {captured : List Bytes}

/-! ## The items -/

theorem matches_dashes : Pattern.Matches (dashes :: p) w captured ↔
    ∃ n v, w = List.replicate (n + 1) dash ++ v ∧ p.Matches v captured := by
  rw [Pattern.matches_cons]
  constructor
  · rintro ⟨u, v, rest, rfl, ⟨hall, hlow, -⟩, hmatches, rfl⟩
    have hu : u = List.replicate u.length dash :=
      List.eq_replicate_of_mem fun x hx => of_decide_eq_true (hall x hx)
    obtain ⟨n, hn⟩ := Nat.exists_eq_succ_of_ne_zero (Nat.pos_iff_ne_zero.mp hlow)
    exact ⟨n, v, by rw [hu, hn], hmatches⟩
  · rintro ⟨n, v, rfl, hmatches⟩
    refine ⟨_, v, captured, rfl, ⟨fun x hx => ?_, ?_, nofun⟩, hmatches, rfl⟩
    · exact decide_eq_true (List.eq_of_mem_replicate hx)
    · rw [List.length_replicate]
      exact Nat.le_add_left 1 n

theorem matches_blanks : Pattern.Matches (blanks :: p) w captured ↔
    ∃ u v, w = u ++ v ∧ (∀ x ∈ u, isBlank x = true) ∧
      p.Matches v captured := by
  rw [Pattern.matches_cons]
  constructor
  · rintro ⟨u, v, rest, rfl, ⟨hall, -, -⟩, hmatches, rfl⟩
    exact ⟨u, v, rfl, hall, hmatches⟩
  · rintro ⟨u, v, rfl, hall, hmatches⟩
    exact ⟨u, v, captured, rfl, ⟨hall, Nat.zero_le _, nofun⟩, hmatches, rfl⟩

theorem matches_eol :
    Pattern.Matches (carriageReturns :: Item.one newline :: p) w captured ↔
      ∃ eol v, eol ∈ eols ∧ w = eol ++ v ∧ p.Matches v captured := by
  simp only [Pattern.matches_cons (a := carriageReturns), Pattern.matches_one]
  constructor
  · rintro ⟨u, v, rest, rfl, ⟨hall, -, hhigh⟩, ⟨v, rfl, hmatches⟩, rfl⟩
    match u, hhigh 1 rfl with
    | [], _ => exact ⟨[newline], v, by decide, rfl, hmatches⟩
    | [x], _ =>
        have hx : x = carriageReturn :=
          of_decide_eq_true (hall x List.mem_cons_self)
        exact ⟨[carriageReturn, newline], v, by decide, by rw [hx]; rfl,
          hmatches⟩
  · rintro ⟨eol, v, heol, rfl, hmatches⟩
    simp only [eols, List.mem_cons, List.not_mem_nil, or_false] at heol
    rcases heol with rfl | rfl
    · exact ⟨[], _, captured, rfl, ⟨nofun, Nat.zero_le _,
        fun _ _ => Nat.zero_le _⟩, ⟨v, rfl, hmatches⟩, rfl⟩
    · refine ⟨[carriageReturn], _, captured, rfl, ⟨?_, Nat.zero_le _, ?_⟩,
        ⟨v, rfl, hmatches⟩, rfl⟩
      · intro x hx
        exact decide_eq_true (List.mem_singleton.mp hx)
      · intro n hn
        cases hn
        exact le_rfl

theorem matches_seedLine : Pattern.Matches (seedLine :: p) w captured ↔
    ∃ seed v rest, w = seed ++ v ∧ IsLine seed ∧ p.Matches v rest ∧
      captured = seed :: rest := by
  rw [Pattern.matches_cons]
  constructor
  · rintro ⟨u, v, rest, rfl, ⟨hall, hlow, -⟩, hmatches, rfl⟩
    exact ⟨u, v, rest, rfl, ⟨List.ne_nil_of_length_pos hlow, fun x hx => by
      simpa [seedLine] using hall x hx⟩, hmatches, rfl⟩
  · rintro ⟨seed, v, rest, rfl, ⟨hne, hline⟩, hmatches, rfl⟩
    exact ⟨seed, v, rest, rfl, ⟨fun x hx => by
      simpa [seedLine] using hline x hx, List.length_pos_of_ne_nil hne, nofun⟩,
      hmatches, rfl⟩

theorem matches_seedBlock {block : Bytes} :
    seedBlock.Matches block captured ↔
      ∃ seed, captured = [seed] ∧ SeedBlock seed block := by
  simp only [seedBlock, matches_dashes, Pattern.matches_word, matches_blanks,
    matches_eol, matches_seedLine, Pattern.matches_nil]
  constructor
  · rintro ⟨a, -, rfl, -, rfl, b, -, rfl, blanks, -, rfl, hblanks, eol, -, heol,
      rfl, seed, -, -, rfl, hseed, ⟨eol', -, heol', rfl, c, -, rfl, -, rfl, d,
      -, rfl, rfl, rfl⟩, rfl⟩
    refine ⟨seed, rfl, a, d, _, .mk b c hblanks heol hseed heol', ?_⟩
    simp only [List.append_assoc, List.append_nil]
  · rintro ⟨seed, rfl, a, d, -, ⟨b, c, hblanks, heol, hseed, heol'⟩, rfl⟩
    simp only [List.append_assoc]
    exact ⟨a, _, rfl, _, rfl, b, _, rfl, _, _, rfl, hblanks, _, _, heol, rfl,
      seed, _, _, rfl, hseed, ⟨_, _, heol', rfl, c, _, rfl, _, rfl, d, _,
        (List.append_nil _).symm, rfl, rfl⟩, rfl⟩

/-- No item takes what the next one begins with. -/
theorem sharp_seedBlock : seedBlock.Sharp := by
  have hdashes : ∀ {p : Pattern UInt8}, p.begins dash = false → ∀ x,
      dashes.has x = true → p.begins x = false := by
    intro p hp x hx
    rw [of_decide_eq_true hx]
    exact hp
  have hreturns : ∀ {p : Pattern UInt8} x, carriageReturns.has x = true →
      Pattern.begins (Item.one newline :: p) x = false := by
    intro p x hx
    rw [of_decide_eq_true hx]
    rfl
  refine .inr ⟨.inr (hdashes rfl), Pattern.sharp_word ?_⟩
  refine .inr ⟨.inr (hdashes rfl), .inr ⟨.inr ?_, ?_⟩⟩
  · intro x hx
    rcases Bool.or_eq_true_iff.mp hx with hx | hx
    · rw [of_decide_eq_true hx]
      rfl
    · rw [of_decide_eq_true hx]
      rfl
  refine .inr ⟨.inr hreturns, .inr ⟨.inl rfl, .inr ⟨.inr ?_, ?_⟩⟩⟩
  · intro x hx
    obtain ⟨hreturn, hnewline⟩ := Bool.and_eq_true_iff.mp hx
    simp [Pattern.begins, carriageReturns, Item.one, of_decide_eq_true hreturn,
      of_decide_eq_true hnewline]
  refine .inr ⟨.inr hreturns, .inr ⟨.inl rfl, .inl ?_⟩⟩
  intro item hitem
  simp only [List.mem_cons, List.mem_append, Pattern.word, List.mem_map,
    List.not_mem_nil, or_false] at hitem
  rcases hitem with rfl | ⟨x, -, rfl⟩ | rfl
  · rfl
  · rfl
  · rfl

/-! ## Which block is found -/

/-- The marker begins the body, and holds no dash. -/
theorem Body.head {seed body : Bytes} (h : Body seed body) :
    ∃ rest, body = beginMarker ++ rest := by
  cases h with
  | mk b c _ _ _ _ => exact ⟨_, rfl⟩

theorem dash_not_mem : dash ∉ beginMarker := by decide

/-- A marker that is not in the text before does not end in the block. -/
theorem append_dash_eq {before rest u v : Bytes} (hmarker : ¬ u <:+: before)
    (hdash : dash ∉ u) (h : u ++ v = before ++ dash :: rest) : False := by
  rcases List.append_eq_append_iff.mp h with ⟨more, rfl, -⟩ | ⟨more, rfl, hmore⟩
  · exact hmarker (List.prefix_append _ _).isInfix
  · cases more with
    | nil => exact hmarker (by rw [List.append_nil])
    | cons x more =>
        cases hmore
        exact hdash (List.mem_append_right _ List.mem_cons_self)

/-- A body does not begin before the marker can. -/
theorem Body.not_before {seed body before rest rest' : Bytes}
    (h : Body seed body) (hmarker : ¬ beginMarker <:+: before)
    (heq : body ++ rest = before ++ dash :: rest') : False := by
  obtain ⟨tail, rfl⟩ := h.head
  rw [List.append_assoc] at heq
  exact append_dash_eq hmarker dash_not_mem heq

/-- An earlier match is of the same block, with more dashes before it. -/
theorem same_of_earlier {before before' seed body rest rest' : Bytes}
    {a a' : ℕ} (hmarker : ¬ beginMarker <:+: before) (hbody : Body seed body)
    (hlength : before'.length ≤ before.length)
    (heq : before' ++ (List.replicate (a' + 1) dash ++ (body ++ rest)) =
      before ++ (List.replicate (a + 1) dash ++ rest')) :
    ∃ n, List.replicate (n + 1) dash ++ (body ++ rest) =
      List.replicate (a + 1) dash ++ rest' := by
  obtain ⟨more, rfl⟩ : ∃ more, before = before' ++ more := by
    rcases List.append_eq_append_iff.mp heq with
      ⟨more, hmore, -⟩ | ⟨more, rfl, -⟩
    · exact ⟨more, hmore⟩
    · rw [List.length_append] at hlength
      exact ⟨[], by simpa using hlength⟩
  rw [List.append_assoc, List.append_cancel_left_eq] at heq
  rcases List.append_eq_append_iff.mp heq with
    ⟨left, rfl, hleft⟩ | ⟨left, hdashes, hleft⟩
  · refine (hbody.not_before (fun hinfix => hmarker ?_) hleft).elim
    exact hinfix.trans (List.suffix_append_of_suffix
      (List.suffix_append _ _)).isInfix
  · have hleft_eq : left = List.replicate left.length dash := by
      refine List.eq_replicate_of_mem fun x hx => ?_
      refine List.eq_of_mem_replicate (n := a' + 1) ?_
      rw [hdashes]
      exact List.mem_append_right _ hx
    cases hn : left.length with
    | zero =>
        rw [List.length_eq_zero_iff.mp hn, List.nil_append] at hleft
        have hempty : ¬ beginMarker <:+: [] := by decide
        exact (hbody.not_before hempty hleft.symm).elim
    | succ n =>
        rw [hn] at hleft_eq
        exact ⟨n, by rw [← hleft_eq, hleft]⟩

/-- The first marker of the file is in the block, so the block is found. -/
theorem search_block {before block seed after : Bytes}
    (hmarker : ¬ beginMarker <:+: before) (hblock : SeedBlock seed block) :
    seedBlock.search (before ++ block ++ after) = some [seed] := by
  have hmatches := matches_seedBlock.mpr ⟨seed, rfl, hblock⟩
  cases hsearch : seedBlock.search (before ++ block ++ after) with
  | none =>
      exact absurd hmatches
        (Pattern.search_eq_none.mp hsearch before block after [seed] rfl)
  | some captured =>
      obtain ⟨before', block', after', heq, hmatches', hfirst⟩ :=
        (Pattern.search_eq_some sharp_seedBlock).mp hsearch
      obtain ⟨seed', rfl, a', d', body', hbody', rfl⟩ :=
        matches_seedBlock.mp hmatches'
      have hlength := hfirst before block after [seed] rfl hmatches
      obtain ⟨a, d, body, hbody, rfl⟩ := hblock
      simp only [List.append_assoc] at heq
      obtain ⟨n, hn⟩ := same_of_earlier hmarker hbody' hlength heq.symm
      have hsame := matches_seedBlock.mpr
        ⟨seed', rfl, n, d', body', hbody', rfl⟩
      rw [Pattern.captures_unique sharp_seedBlock hsame hmatches
        (by simpa only [List.append_assoc] using hn)]

/-! ## What is made of the seed -/

/-- White space neither at the start nor at the end. -/
def Trimmed (s : String) : Prop :=
  ∀ c, c ∈ s.toList.head? ∨ c ∈ s.toList.getLast? → isSpace c = false

theorem strip_eq {s : String} (h : Trimmed s) : strip s = s := by
  have hdrop : s.toList.dropWhile isSpace = s.toList := by
    refine List.dropWhile_eq_self_iff.mpr fun hlength => ?_
    rw [h _ (.inl (by rw [List.head?_eq_getElem?, Option.mem_def,
      List.getElem?_eq_getElem hlength]))]
    exact Bool.false_ne_true
  have hrdrop : s.toList.rdropWhile isSpace = s.toList := by
    refine List.rdropWhile_eq_self_iff.mpr fun hne => ?_
    rw [h _ (.inr (List.getLast?_eq_some_getLast hne))]
    exact Bool.false_ne_true
  rw [strip, hdrop, hrdrop, String.ofList_toList]

theorem keypairOf_text (P : Primitives) {s : String} {seed : Bytes}
    (hencode : Utf8.encode (Text.ofString s) = some seed) (h : Trimmed s) :
    keypairOf P seed = (keypairFromSeed P s).mapError .raised := by
  rw [keypairOf, Utf8.decode_encode hencode, Option.bind_some,
    Text.toString?_ofString]
  simp only []
  rw [strip_eq h]

/-! ## The file -/

/-- What is loaded of a file of these bytes. -/
structure Loads (P : Primitives) (data : Bytes) : Prop where
  /-- Of a file whose first marker is in a block, the seed of that block. -/
  found : ∀ before block after seed, data = before ++ block ++ after →
    ¬ beginMarker <:+: before → SeedBlock seed block →
      loadSigningKeypair P data = keypairOf P seed
  /-- The seed as it stands there, if it is text without spaces around it. -/
  text : ∀ before block after seed (s : String),
    data = before ++ block ++ after → ¬ beginMarker <:+: before →
      SeedBlock seed block → Utf8.encode (Text.ofString s) = some seed →
        Trimmed s →
          loadSigningKeypair P data = (keypairFromSeed P s).mapError .raised
  /-- A key comes of the seed of a block before which no other begins. -/
  loaded : ∀ pair, loadSigningKeypair P data = .ok pair →
    ∃ before block after seed, data = before ++ block ++ after ∧
      SeedBlock seed block ∧ keypairOf P seed = .ok pair ∧
      ∀ before' block' after' seed', data = before' ++ block' ++ after' →
        SeedBlock seed' block' → before.length ≤ before'.length
  missing : loadSigningKeypair P data = .error .credsParseError ↔
    ∀ before block after seed, data = before ++ block ++ after →
      ¬ SeedBlock seed block

theorem keypairOf_ne (P : Primitives) (seed : Bytes) :
    keypairOf P seed ≠ .error .credsParseError := by
  intro h
  rw [keypairOf] at h
  split at h
  · cases h
  · next text _ =>
      cases hpair : keypairFromSeed P (strip text) with
      | ok pair => rw [hpair] at h; cases h
      | error e => rw [hpair] at h; cases h

theorem loads (P : Primitives) (data : Bytes) : Loads P data := by
  have hfound : ∀ before block after seed, data = before ++ block ++ after →
      ¬ beginMarker <:+: before → SeedBlock seed block →
        loadSigningKeypair P data = keypairOf P seed := by
    rintro before block after seed rfl hmarker hblock
    rw [loadSigningKeypair, search_block hmarker hblock]
    rfl
  refine ⟨hfound, ?_, ?_, ?_⟩
  · intro before block after seed s hdata hmarker hblock hencode hspaces
    rw [hfound before block after seed hdata hmarker hblock]
    exact keypairOf_text P hencode hspaces
  · intro pair hpair
    cases hsearch : seedBlock.search data with
    | none =>
        rw [loadSigningKeypair, hsearch] at hpair
        cases hpair
    | some captured =>
        obtain ⟨before, block, after, hdata, hmatches, hfirst⟩ :=
          (Pattern.search_eq_some sharp_seedBlock).mp hsearch
        obtain ⟨seed, rfl, hblock⟩ := matches_seedBlock.mp hmatches
        rw [loadSigningKeypair, hsearch] at hpair
        refine ⟨before, block, after, seed, hdata, hblock, hpair, ?_⟩
        intro before' block' after' seed' hdata' hblock'
        exact hfirst before' block' after' [seed'] hdata'
          (matches_seedBlock.mpr ⟨seed', rfl, hblock'⟩)
  · constructor
    · intro h before block after seed hdata hblock
      cases hsearch : seedBlock.search data with
      | none =>
          exact Pattern.search_eq_none.mp hsearch before block after [seed]
            hdata (matches_seedBlock.mpr ⟨seed, rfl, hblock⟩)
      | some captured =>
          rw [loadSigningKeypair, hsearch] at h
          exact keypairOf_ne P _ h
    · intro h
      have hnone : seedBlock.search data = none := by
        rw [Pattern.search_eq_none]
        intro before block after captured hdata hmatches
        obtain ⟨seed, -, hblock⟩ := matches_seedBlock.mp hmatches
        exact h before block after seed hdata hblock
      rw [loadSigningKeypair, hnone]

end Creds

end JetCore
