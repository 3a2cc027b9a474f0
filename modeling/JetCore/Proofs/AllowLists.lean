import JetCore.Ref.BootstrapAuth

/-!
# Registration keys are each identity's own

The allow list of an identity is built as one line of words between commas and
read back by taking the line apart, so it has the words that went in as long as
no word holds a comma. No NATS rule keeps one out of a name. Without commas the
list is exactly what the manifest declares and the keys derived from it
(`allowPub_of_commaFree`), and the last token of a key says whose it is, so
nobody may write another's (`isolated_iff_commaFree`).
-/

namespace JetCore

open Lib

/-- A token of a subject: not empty, no dot, no wildcard, no white space. -/
def IsToken (t : List Char) : Prop :=
  t ≠ [] ∧ ∀ c ∈ t, c ≠ '.' ∧ c ≠ '*' ∧ c ≠ '>' ∧ c.isWhitespace = false

instance decidableIsToken (t : List Char) : Decidable (IsToken t) :=
  @instDecidableAnd _ _ inferInstance (List.decidableBAll _ t)

/-- A literal `events.*` subject. -/
def IsEventsSubject (s : String) : Prop :=
  ∃ rest, tokens s = "events".toList :: rest ∧ ∀ t ∈ rest, IsToken t

structure Manifest where
  adapters : List ManifestEntry
  token : ∀ a ∈ adapters, IsToken a.serviceId.toList
  distinct : (adapters.map ManifestEntry.serviceId).Nodup
  literal : ∀ a ∈ adapters, ∀ s ∈ a.publish ++ a.subscribe, IsEventsSubject s

/-- What the manifest means the identity to publish to. -/
def declaredPub (a : ManifestEntry) : List String :=
  a.publish ++ baselinePub ::
    (a.subscribe.map (directorySubject · a.serviceId) ++
      [identitySubject a.serviceId])

/-- The list is what was declared, lets the identity write its own keys, and
nobody else's. -/
structure IsolatedKeys (m : Manifest) (a : ManifestEntry) : Prop where
  exact : allowPub a = declaredPub a
  registers : ∀ s ∈ a.subscribe,
    allows (allowPub a) (directorySubject s a.serviceId) = true
  identifies : allows (allowPub a) (identitySubject a.serviceId) = true
  isolates : ∀ b ∈ m.adapters, b ≠ a →
    (∀ s, allows (allowPub a) (directorySubject s b.serviceId) = false) ∧
    allows (allowPub a) (identitySubject b.serviceId) = false

/-- No name of the entry holds a comma. -/
def CommaFree (a : ManifestEntry) : Prop :=
  ',' ∉ a.serviceId.toList ∧ ∀ s ∈ a.publish ++ a.subscribe, ',' ∉ s.toList

/-! ## Words between commas -/

/-- Words the line can be taken apart into. -/
def Words (l : List (List Char)) : Prop := ∀ w ∈ l, w ≠ [] ∧ ',' ∉ w

variable {l : List (List Char)} {w : List Char}

@[simp] theorem joinCommas_nil : joinCommas [] = [] := rfl

@[simp] theorem joinCommas_singleton (w : List Char) : joinCommas [w] = w := by
  simp [joinCommas]

theorem joinCommas_cons (w : List Char) (h : l ≠ []) :
    joinCommas (w :: l) = w ++ ',' :: joinCommas l := by
  cases l with
  | nil => exact absurd rfl h
  | cons v l => simp [joinCommas, List.intercalate_cons_cons]

theorem joinCommas_append {l' : List (List Char)} (h : l ≠ []) (h' : l' ≠ []) :
    joinCommas (l ++ l') = joinCommas l ++ ',' :: joinCommas l' := by
  induction l with
  | nil => exact absurd rfl h
  | cons w l ih =>
      cases l with
      | nil =>
          rw [joinCommas_singleton]
          exact joinCommas_cons w h'
      | cons v l =>
          rw [List.cons_append, joinCommas_cons w (by simp),
            joinCommas_cons w (by simp), ih (by simp), List.append_assoc]
          rfl

theorem Words.joinCommas_ne_nil (h : Words l) (hne : l ≠ []) :
    joinCommas l ≠ [] := by
  cases l with
  | nil => exact absurd rfl hne
  | cons w l =>
      have hw := (h w List.mem_cons_self).1
      cases l with
      | nil => simpa [joinCommas] using hw
      | cons v l =>
          rw [joinCommas_cons w (by simp)]
          simp

/-- A line of words begins with none. -/
theorem Words.head (h : Words l) : (joinCommas l).head? ≠ some ',' := by
  cases l with
  | nil => simp [joinCommas]
  | cons w l =>
      obtain ⟨hw, hcomma⟩ := h w List.mem_cons_self
      obtain ⟨c, cs, rfl⟩ := List.exists_cons_of_ne_nil hw
      have hc : c ≠ ',' := fun heq => hcomma (by rw [heq]; simp)
      cases l with
      | nil => simpa [joinCommas] using hc
      | cons v l =>
          rw [joinCommas_cons _ (by simp)]
          simpa using hc

/-- And ends with none. -/
theorem Words.last (h : Words l) : (joinCommas l).getLast? ≠ some ',' := by
  induction l with
  | nil => simp [joinCommas]
  | cons w l ih =>
      cases l with
      | nil =>
          intro hlast
          exact (h w List.mem_cons_self).2
            (List.mem_of_getLast? (by simpa [joinCommas] using hlast))
      | cons v l =>
          have hrest : Words (v :: l) := fun u hu => h u (by simp [hu])
          have hne := hrest.joinCommas_ne_nil (by simp)
          rw [joinCommas_cons w (by simp),
            List.getLast?_append_of_ne_nil _ (by simp),
            List.getLast?_cons_of_ne_nil hne]
          exact ih hrest

theorem squeezeCommas_append (hw : ',' ∉ w) (rest : List Char) :
    squeezeCommas (w ++ rest) = w ++ squeezeCommas rest := by
  induction w with
  | nil => rfl
  | cons c w ih =>
      rw [List.mem_cons, not_or] at hw
      rw [List.cons_append, squeezeCommas, if_neg fun h => hw.1 h.1.symm,
        ih hw.2, List.cons_append]

theorem squeezeCommas_comma {rest : List Char} (h : rest.head? ≠ some ',') :
    squeezeCommas (',' :: rest) = ',' :: squeezeCommas rest := by
  rw [squeezeCommas, if_neg fun hh => h hh.2]

theorem Words.squeeze (h : Words l) :
    squeezeCommas (joinCommas l) = joinCommas l := by
  induction l with
  | nil => rfl
  | cons w l ih =>
      have hw := (h w List.mem_cons_self).2
      cases l with
      | nil =>
          have hend := squeezeCommas_append hw []
          simpa [joinCommas, squeezeCommas] using hend
      | cons v l =>
          have hrest : Words (v :: l) := fun u hu => h u (by simp [hu])
          rw [joinCommas_cons w (by simp), squeezeCommas_append hw,
            squeezeCommas_comma hrest.head, ih hrest]

theorem Words.split (h : Words l) (hne : l ≠ []) :
    (joinCommas l).splitOn ',' = l :=
  List.splitOn_intercalate ',' (fun w hw => (h w hw).2) hne

theorem Words.readFields (h : Words l) (hne : l ≠ []) :
    readFields (joinCommas l) = l := by
  rw [JetCore.readFields, h.split hne]
  refine if_neg fun hlast => ?_
  exact (h [] (List.mem_of_getLast? hlast)).1 rfl

theorem Words.append {l' : List (List Char)} (h : Words l) (h' : Words l') :
    Words (l ++ l') := by
  intro w hw
  rcases List.mem_append.mp hw with hw | hw
  · exact h w hw
  · exact h' w hw

theorem Words.addWord (h : Words l) (w : List Char) :
    addWord (joinCommas l) w = joinCommas (l ++ [w]) := by
  rw [JetCore.addWord]
  cases l with
  | nil => simp
  | cons v l =>
      rw [if_neg (h.joinCommas_ne_nil (by simp)),
        joinCommas_append (by simp) (by simp), joinCommas_singleton]

/-- The loop puts its words behind each other. -/
theorem foldl_addWord (f : List Char → List Char) (words : List (List Char))
    (hwords : Words (words.map f)) : ∀ {acc : List (List Char)}, Words acc →
      words.foldl (fun line s => addWord line (f s)) (joinCommas acc) =
        joinCommas (acc ++ words.map f) := by
  induction words with
  | nil =>
      intro acc _
      rw [List.map_nil, List.append_nil, List.foldl_nil]
  | cons s words ih =>
      intro acc hacc
      have hs : Words [f s] := fun u hu => hwords u (by
        rw [List.mem_singleton.mp hu]; simp)
      rw [List.foldl_cons, hacc.addWord,
        ih (fun u hu => hwords u (by simp [hu])) (hacc.append hs),
        List.append_assoc]
      rfl

/-! ## The line and its words -/

variable {a : ManifestEntry} {s i : String}

theorem toList_directorySubject (s i : String) :
    (directorySubject s i).toList =
      "$KV.service-directory.".toList ++ s.toList ++ '.' :: i.toList := by
  simp only [directorySubject, kvSubject, kvKey, String.toList_append,
    List.append_assoc]
  rfl

theorem toList_identitySubject (i : String) :
    (identitySubject i).toList =
      "$KV.service-identity.".toList ++ i.toList := by
  simp only [identitySubject, kvSubject, String.toList_append,
    List.append_assoc]
  rfl

theorem IsEventsSubject.ne_nil (h : IsEventsSubject s) : s.toList ≠ [] := by
  obtain ⟨rest, htokens, -⟩ := h
  intro hnil
  rw [tokens, hnil, List.splitOn_nil] at htokens
  cases htokens

/-- Every name that was declared is a word, when none holds a comma. -/
theorem words_declaredPub (hfree : CommaFree a)
    (hlit : ∀ s ∈ a.publish ++ a.subscribe, IsEventsSubject s) :
    Words ((declaredPub a).map String.toList) := by
  have hpublish : Words (a.publish.map String.toList) := by
    intro w hw
    obtain ⟨s, hs, rfl⟩ := List.mem_map.mp hw
    have hmem : s ∈ a.publish ++ a.subscribe := List.mem_append_left _ hs
    exact ⟨(hlit s hmem).ne_nil, hfree.2 s hmem⟩
  have hdirectory : Words ((a.subscribe.map
      (directorySubject · a.serviceId)).map String.toList) := by
    intro w hw
    obtain ⟨_, hx, rfl⟩ := List.mem_map.mp hw
    obtain ⟨s, hs, rfl⟩ := List.mem_map.mp hx
    have hcomma := hfree.2 s (List.mem_append_right _ hs)
    rw [toList_directorySubject]
    refine ⟨by simp, ?_⟩
    simp only [List.mem_append, List.mem_cons, not_or]
    exact ⟨⟨by decide, hcomma⟩, by decide, hfree.1⟩
  have hidentity : Words [(identitySubject a.serviceId).toList] := by
    intro w hw
    rw [List.mem_singleton.mp hw, toList_identitySubject]
    refine ⟨by simp, ?_⟩
    simp only [List.mem_append, not_or]
    exact ⟨by decide, hfree.1⟩
  have hbaseline : Words [baselinePub.toList] := by
    intro w hw
    rw [List.mem_singleton.mp hw]
    exact ⟨by decide, by decide⟩
  have hall := hpublish.append
    (hbaseline.append (hdirectory.append hidentity))
  rw [declaredPub, List.map_append, List.map_cons, List.map_append]
  exact hall

theorem kvWrite_eq (hsubs : Words (a.subscribe.map String.toList))
    (hkeys : Words ((a.subscribe.map
      (directorySubject · a.serviceId)).map String.toList)) :
    kvWrite (joinCommas (a.subscribe.map String.toList)) a.serviceId.toList =
      joinCommas ((a.subscribe.map (directorySubject · a.serviceId) ++
        [identitySubject a.serviceId]).map String.toList) := by
  have hmap : (a.subscribe.map String.toList).map (fun s =>
      "$KV.service-directory.".toList ++ s ++ '.' :: a.serviceId.toList) =
      (a.subscribe.map (directorySubject · a.serviceId)).map
        String.toList := by
    rw [List.map_map, List.map_map]
    refine List.map_congr_left fun s _ => ?_
    exact (toList_directorySubject s a.serviceId).symm
  have hdirectory : (if joinCommas (a.subscribe.map String.toList) = [] then []
      else (readFields (joinCommas (a.subscribe.map String.toList))).foldl
        (fun acc s => addWord acc ("$KV.service-directory.".toList ++ s ++
          '.' :: a.serviceId.toList)) []) =
      joinCommas ((a.subscribe.map
        (directorySubject · a.serviceId)).map String.toList) := by
    by_cases hnone : a.subscribe.map String.toList = []
    · rw [if_pos (by rw [hnone]; rfl), ← hmap, hnone]
      rfl
    · rw [if_neg (hsubs.joinCommas_ne_nil hnone), hsubs.readFields hnone]
      have hfold := foldl_addWord (fun s =>
        "$KV.service-directory.".toList ++ s ++ '.' :: a.serviceId.toList)
        (a.subscribe.map String.toList) (by rw [hmap]; exact hkeys)
        (fun w (hw : w ∈ []) => by cases hw)
      rw [hmap, List.nil_append] at hfold
      exact hfold
  rw [kvWrite, hdirectory, hkeys.addWord, List.map_append, List.map_singleton,
    toList_identitySubject]

/-- What the script hands over, and what is read in it. -/
theorem allowPub_of_commaFree (hfree : CommaFree a)
    (hlit : ∀ s ∈ a.publish ++ a.subscribe, IsEventsSubject s) :
    allowPub a = declaredPub a := by
  have hwords := words_declaredPub hfree hlit
  have hsubs : Words (a.subscribe.map String.toList) := by
    intro w hw
    obtain ⟨s, hs, rfl⟩ := List.mem_map.mp hw
    have hmem : s ∈ a.publish ++ a.subscribe := List.mem_append_right _ hs
    exact ⟨(hlit s hmem).ne_nil, hfree.2 s hmem⟩
  have hkeys : Words ((a.subscribe.map
      (directorySubject · a.serviceId)).map String.toList) := by
    intro w hw
    obtain ⟨x, hx, rfl⟩ := List.mem_map.mp hw
    refine hwords _ (List.mem_map_of_mem ?_)
    simp [declaredPub, hx]
  have hline : dropFrontComma (squeezeCommas
      (joinCommas (a.publish.map String.toList) ++
        ',' :: baselinePub.toList ++ ',' :: joinCommas
          ((a.subscribe.map (directorySubject · a.serviceId) ++
            [identitySubject a.serviceId]).map String.toList))) =
      joinCommas ((declaredPub a).map String.toList) := by
    have htail : Words ((baselinePub :: (a.subscribe.map
        (directorySubject · a.serviceId) ++
          [identitySubject a.serviceId])).map String.toList) := by
      intro w hw
      obtain ⟨x, hx, rfl⟩ := List.mem_map.mp hw
      refine hwords _ (List.mem_map_of_mem ?_)
      rw [declaredPub]
      exact List.mem_append_right _ hx
    rw [List.append_assoc, List.cons_append,
      ← joinCommas_cons baselinePub.toList (by simp), ← List.map_cons]
    by_cases hnone : a.publish.map String.toList = []
    · -- a leading comma, which the second expression takes off
      rw [hnone, joinCommas_nil, List.nil_append,
        squeezeCommas_comma htail.head, htail.squeeze, dropFrontComma,
        List.head?_cons, if_pos rfl, List.tail_cons, declaredPub,
        List.map_append, hnone]
      rfl
    · rw [← joinCommas_append hnone (by simp), ← List.map_append]
      show dropFrontComma (squeezeCommas (joinCommas
        ((declaredPub a).map String.toList))) = _
      rw [hwords.squeeze, dropFrontComma, if_neg hwords.head]
  have hpub : allPub a = joinCommas ((declaredPub a).map String.toList) := by
    rw [allPub, kvWrite_eq hsubs hkeys, hline, dropEndComma, if_neg hwords.last]
  rw [allowPub, hpub, hwords.split (by simp [declaredPub]), List.map_map]
  refine (List.map_congr_left fun s _ => ?_).trans (List.map_id _)
  exact String.ofList_toList

theorem comma_not_mem_allowPub (hs : s ∈ allowPub a) : ',' ∉ s.toList := by
  obtain ⟨w, hw, rfl⟩ := List.mem_map.mp hs
  rw [String.toList_ofList]
  exact not_mem_of_mem_splitOn hw

/-! ## Whose key it is -/

theorem IsToken.tokens_eq (h : IsToken i.toList) : tokens i = [i.toList] :=
  tokens_of_single fun hdot => (h.2 '.' hdot).1 rfl

theorem IsToken.literal {t : List Char} (h : IsToken t) :
    t ≠ ['*'] ∧ t ≠ ['>'] := by
  refine ⟨?_, ?_⟩
  · rintro rfl
    exact (h.2 '*' List.mem_cons_self).2.1 rfl
  · rintro rfl
    exact (h.2 '>' List.mem_cons_self).2.2.1 rfl

theorem IsEventsSubject.literal (h : IsEventsSubject s) :
    Literal (tokens s) := by
  obtain ⟨rest, htokens, hrest⟩ := h
  rw [htokens]
  intro t ht
  rcases List.mem_cons.mp ht with rfl | ht
  · exact ⟨by decide, by decide⟩
  · exact (hrest t ht).literal

theorem tokens_kvSubject (bucket key : String) :
    tokens (kvSubject bucket key) =
      "$KV".toList :: (tokens bucket ++ tokens key) := by
  have hdot : "$KV." ++ bucket = "$KV" ++ "." ++ bucket := rfl
  rw [kvSubject, tokens_dot, hdot, tokens_dot]
  rfl

/-- A key of the service: its last token is the service's id. -/
def KeyOf (i s : String) : Prop :=
  ∃ front, tokens s = "$KV".toList :: front ++ [i.toList]

theorem keyOf_directorySubject (hi : IsToken i.toList) (s : String) :
    KeyOf i (directorySubject s i) := by
  refine ⟨tokens "service-directory" ++ tokens s, ?_⟩
  rw [directorySubject, tokens_kvSubject, kvKey, tokens_dot, hi.tokens_eq]
  simp

theorem keyOf_identitySubject (hi : IsToken i.toList) :
    KeyOf i (identitySubject i) := by
  refine ⟨tokens "service-identity", ?_⟩
  rw [identitySubject, tokens_kvSubject, hi.tokens_eq]
  simp

theorem KeyOf.injective {i' : String} (h : KeyOf i s) (h' : KeyOf i' s) :
    i = i' := by
  obtain ⟨front, hfront⟩ := h
  obtain ⟨front', hfront'⟩ := h'
  have hlast := (List.append_inj' (hfront.symm.trans hfront') rfl).2
  exact String.toList_inj.mp (List.cons.inj hlast).1

/-- What the identity may publish to is no key, or a key of its own, and a
subject of the baseline is of the JetStream API. -/
theorem mem_declaredPub (hi : IsToken a.serviceId.toList)
    (hlit : ∀ s ∈ a.publish ++ a.subscribe, IsEventsSubject s)
    (hs : s ∈ declaredPub a) :
    IsEventsSubject s ∨ s = baselinePub ∨
      Literal (tokens s) ∧ KeyOf a.serviceId s := by
  rw [declaredPub, List.mem_append, List.mem_cons, List.mem_append,
    List.mem_singleton] at hs
  rcases hs with hs | rfl | hs | rfl
  · exact .inl (hlit s (List.mem_append_left _ hs))
  · exact .inr (.inl rfl)
  · obtain ⟨t, ht, rfl⟩ := List.mem_map.mp hs
    have ht := (hlit t (List.mem_append_right _ ht)).literal
    refine .inr (.inr ⟨?_, keyOf_directorySubject hi t⟩)
    rw [directorySubject, tokens_kvSubject, kvKey, tokens_dot, hi.tokens_eq]
    intro u hu
    simp only [List.mem_cons, List.mem_append, List.not_mem_nil,
      or_false] at hu
    rcases hu with rfl | hu | hu | rfl
    · exact ⟨by decide, by decide⟩
    · exact (by decide : Literal (tokens "service-directory")) u hu
    · exact ht u hu
    · exact hi.literal
  · refine .inr (.inr ⟨?_, keyOf_identitySubject hi⟩)
    rw [identitySubject, tokens_kvSubject, hi.tokens_eq]
    intro u hu
    simp only [List.mem_cons, List.mem_append, List.not_mem_nil,
      or_false] at hu
    rcases hu with rfl | hu | rfl
    · exact ⟨by decide, by decide⟩
    · exact (by decide : Literal (tokens "service-identity")) u hu
    · exact hi.literal

/-- No key of another service matches. -/
theorem not_allows_key (hi : IsToken a.serviceId.toList)
    (hlit : ∀ s ∈ a.publish ++ a.subscribe, IsEventsSubject s)
    (hkey : KeyOf i s) (hne : i ≠ a.serviceId) :
    allows (declaredPub a) s = false := by
  refine Bool.eq_false_iff.mpr fun h => ?_
  obtain ⟨p, hp, hmatch⟩ := List.any_eq_true.mp h
  obtain ⟨front, hfront⟩ := hkey
  rcases mem_declaredPub hi hlit hp with hevents | rfl | ⟨hp, howner⟩
  · have heq := (subjectMatches_literal hevents.literal).mp hmatch
    obtain ⟨rest, htokens, -⟩ := hevents
    rw [hfront, htokens] at heq
    exact absurd (List.cons.inj heq).1 (by decide)
  · have hbaseline : tokens baselinePub =
        ["$JS".toList, "API".toList, ['>']] := by decide
    rw [hbaseline, hfront, List.cons_append, subjectMatches] at hmatch
    · cases hmatch
    · intro heq
      exact absurd heq (by decide)
  · have heq := tokens_injective ((subjectMatches_literal hp).mp hmatch)
    rw [← heq] at howner
    exact hne (KeyOf.injective ⟨front, hfront⟩ howner)

theorem allows_declared (hi : IsToken a.serviceId.toList)
    (hlit : ∀ s ∈ a.publish ++ a.subscribe, IsEventsSubject s)
    (hs : s ∈ declaredPub a) (hkey : KeyOf a.serviceId s) :
    allows (declaredPub a) s = true := by
  refine List.any_eq_true.mpr ⟨s, hs, ?_⟩
  rcases mem_declaredPub hi hlit hs with hevents | rfl | ⟨hp, -⟩
  · exact (subjectMatches_literal hevents.literal).mpr rfl
  · obtain ⟨front, hfront⟩ := hkey
    exact absurd (List.cons.inj hfront).1 (by decide)
  · exact (subjectMatches_literal hp).mpr rfl

/-! ## Any manifest -/

/-- The allow list of an identity is the declared one, lets it write its own
keys and no other identity's, exactly when its id and its subjects have no
comma in them. -/
theorem isolated_iff_commaFree (m : Manifest) (ha : a ∈ m.adapters) :
    IsolatedKeys m a ↔ CommaFree a := by
  have hi := m.token a ha
  have hlit := m.literal a ha
  constructor
  · intro h
    have hcomma : ∀ s ∈ declaredPub a, ',' ∉ s.toList := by
      intro s hs
      rw [← h.exact] at hs
      exact comma_not_mem_allowPub hs
    refine ⟨?_, fun s hs => ?_⟩
    · have hid := hcomma (identitySubject a.serviceId) (by simp [declaredPub])
      rw [toList_identitySubject, List.mem_append, not_or] at hid
      exact hid.2
    · rcases List.mem_append.mp hs with hs | hs
      · exact hcomma s (List.mem_append_left _ hs)
      · have hkey := hcomma (directorySubject s a.serviceId)
          (by simp only [declaredPub, List.mem_append, List.mem_cons]
              exact .inr (.inr (.inl (List.mem_map_of_mem hs))))
        rw [toList_directorySubject, List.mem_append, List.mem_append, not_or,
          not_or] at hkey
        exact hkey.1.2
  · intro hfree
    have hexact := allowPub_of_commaFree hfree hlit
    refine ⟨hexact, fun s hs => ?_, ?_, fun b hb hne => ?_⟩
    · rw [hexact]
      refine allows_declared hi hlit ?_ (keyOf_directorySubject hi s)
      simp only [declaredPub, List.mem_append, List.mem_cons]
      exact .inr (.inr (.inl (List.mem_map_of_mem hs)))
    · rw [hexact]
      refine allows_declared hi hlit ?_ (keyOf_identitySubject hi)
      simp [declaredPub]
    · have hid : b.serviceId ≠ a.serviceId := fun heq =>
        hne (List.inj_on_of_nodup_map m.distinct hb ha heq)
      have hb := m.token b hb
      rw [hexact]
      exact ⟨fun s => not_allows_key hi hlit (keyOf_directorySubject hb s) hid,
        not_allows_key hi hlit (keyOf_identitySubject hb) hid⟩

theorem isEventsSubject_orderCreated :
    IsEventsSubject "events.orders.OrderCreated" :=
  ⟨["orders".toList, "OrderCreated".toList], by decide, by decide⟩

theorem isEventsSubject_requestCompleted :
    IsEventsSubject "events.http.RequestCompleted" :=
  ⟨["http".toList, "RequestCompleted".toList], by decide, by decide⟩

/-- The HTTP adapter, under an id of its own, beside a plain publisher. -/
def httpManifest (httpAdapter restApi : String)
    (hhttp : IsToken httpAdapter.toList) (hrest : IsToken restApi.toList)
    (hne : httpAdapter ≠ restApi) : Manifest where
  adapters := [
    ⟨httpAdapter, ["events.http.RequestCompleted"],
      ["events.orders.OrderCreated"]⟩,
    ⟨restApi, ["events.orders.OrderCreated"], []⟩]
  token a ha := by
    simp only [List.mem_cons, List.not_mem_nil, or_false] at ha
    rcases ha with rfl | rfl
    · exact hhttp
    · exact hrest
  distinct := by simp [hne]
  literal a ha s hs := by
    simp only [List.mem_cons, List.not_mem_nil, or_false] at ha
    rcases ha with rfl | rfl
    · simp only [List.cons_append, List.nil_append, List.mem_cons,
        List.not_mem_nil, or_false] at hs
      rcases hs with rfl | rfl
      · exact isEventsSubject_requestCompleted
      · exact isEventsSubject_orderCreated
    · rw [List.append_nil, List.mem_singleton] at hs
      rw [hs]
      exact isEventsSubject_orderCreated

theorem isolated_iff_httpAdapter :
    IsolatedKeys (httpManifest "http-adapter-01" "rest-api-service-01"
        (by decide) (by decide) (by decide))
      ⟨"http-adapter-01", ["events.http.RequestCompleted"],
        ["events.orders.OrderCreated"]⟩ ↔
    CommaFree ⟨"http-adapter-01", ["events.http.RequestCompleted"],
      ["events.orders.OrderCreated"]⟩ :=
  isolated_iff_commaFree _ List.mem_cons_self

/-- An id with a comma in it, and beside it the identity of its first half:
the one may write the other's signing key. -/
theorem comma_grants_identity :
    ¬ IsolatedKeys (httpManifest "rest-01,blue" "rest-01"
        (by decide) (by decide) (by decide))
      ⟨"rest-01,blue", ["events.http.RequestCompleted"],
        ["events.orders.OrderCreated"]⟩ := by
  intro h
  have hother := (h.isolates
    ⟨"rest-01", ["events.orders.OrderCreated"], []⟩
    (List.mem_cons_of_mem _ List.mem_cons_self) (by decide)).2
  have hgranted : allows (allowPub ⟨"rest-01,blue",
      ["events.http.RequestCompleted"], ["events.orders.OrderCreated"]⟩)
      (identitySubject "rest-01") = true := by decide +kernel
  rw [hgranted] at hother
  cases hother

end JetCore
