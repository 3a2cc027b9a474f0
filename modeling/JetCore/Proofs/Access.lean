import JetCore.Proofs.Process
import JetCore.Proofs.RoundTrip
import JetCore.Proofs.Subscribers
import JetCore.Ref.AdapterIdentities
import JetCore.Spec.Access

/-!
# Who can read, and whose word it is

The allow list of an identity lets it write the entries of its own service, in
the directory for the subjects it subscribes to (`allows_directory`). So
every entry that a watch tells of was written by a subscriber, or is the marker
of one that expired (`Owned`), and what a cache lists was in some entry it was
told of (`mem_current_told`). Encryption and signatures carry that over to who
can open a message and who can have sent it.
-/

namespace JetCore

open Lib

namespace Access

variable {m : Manifest} {py : Interpreter} {s s' : Access}
  {acts : List AccessAct} {a : ManifestEntry}

/-! ## What the allow list lets through -/

theorem kvSubject_injective {bucket : String} {key key' : String}
    (h : kvSubject bucket key = kvSubject bucket key') : key = key' := by
  have htokens := congrArg tokens h
  rw [tokens_kvSubject, tokens_kvSubject] at htokens
  exact tokens_injective (List.append_cancel_left (List.cons.inj htokens).2)

/-- The buckets' names are one token each, and two. -/
theorem kvSubject_ne (key key' : String) :
    kvSubject KvBucket.directory.name key ≠
      kvSubject KvBucket.identity.name key' := by
  intro h
  have htokens := congrArg tokens h
  rw [tokens_kvSubject, tokens_kvSubject] at htokens
  exact absurd (List.cons.inj (List.cons.inj htokens).2).1 (by decide)

theorem tokens_baselinePub :
    tokens baselinePub = ["$JS".toList, "API".toList, ['>']] := by
  decide

/-- What the identity may publish to of a bucket: it is on its list, and no
subject of an event. -/
theorem kvSubject_mem (ha : a ∈ m.adapters) (hfree : CommaFree a)
    {bucket key : String}
    (h : allows (allowPub a) (kvSubject bucket key) = true) :
    kvSubject bucket key ∈ a.subscribe.map (directorySubject · a.serviceId) ++
      [identitySubject a.serviceId] := by
  have hi := m.token a ha
  have hlit := m.literal a ha
  rw [allowPub_of_commaFree hfree hlit] at h
  obtain ⟨p, hp, hmatch⟩ := List.any_eq_true.mp h
  obtain ⟨rest, hrest⟩ : ∃ rest, tokens (kvSubject bucket key) =
      "$KV".toList :: rest := ⟨_, tokens_kvSubject _ _⟩
  have hevents : ¬ IsEventsSubject (kvSubject bucket key) := by
    rintro ⟨rest', htokens, -⟩
    rw [hrest] at htokens
    exact absurd (List.cons.inj htokens).1 (by decide)
  have heq : kvSubject bucket key = p := by
    rcases mem_declaredPub hi hlit hp with hevent | rfl | ⟨hliteral, -⟩
    · exact tokens_injective ((subjectMatches_literal hevent.literal).mp hmatch)
    · rw [tokens_baselinePub, hrest, subjectMatches] at hmatch
      · cases hmatch
      · intro heq
        exact absurd heq (by decide)
    · exact tokens_injective ((subjectMatches_literal hliteral).mp hmatch)
  subst heq
  rw [declaredPub, List.mem_append, List.mem_cons] at hp
  rcases hp with hp | hp | hp
  · exact absurd (hlit _ (List.mem_append_left _ hp)) hevents
  · have htokens := congrArg tokens hp
    rw [hrest, tokens_baselinePub] at htokens
    exact absurd (List.cons.inj htokens).1 (by decide)
  · exact hp

theorem allows_directory (ha : a ∈ m.adapters) (hfree : CommaFree a)
    {key : String} (h : allows (allowPub a)
      (kvSubject KvBucket.directory.name key) = true) :
    ∃ t ∈ a.subscribe, key = kvKey t a.serviceId := by
  rcases List.mem_append.mp (kvSubject_mem ha hfree h) with hmem | hmem
  · obtain ⟨t, ht, heq⟩ := List.mem_map.mp hmem
    exact ⟨t, ht, (kvSubject_injective heq).symm⟩
  · exact absurd (List.mem_singleton.mp hmem) (kvSubject_ne _ _)

theorem allows_identity (ha : a ∈ m.adapters) (hfree : CommaFree a)
    {key : String} (h : allows (allowPub a)
      (kvSubject KvBucket.identity.name key) = true) :
    key = a.serviceId := by
  rcases List.mem_append.mp (kvSubject_mem ha hfree h) with hmem | hmem
  · obtain ⟨t, ht, heq⟩ := List.mem_map.mp hmem
    exact absurd heq (kvSubject_ne _ _)
  · exact kvSubject_injective (List.mem_singleton.mp hmem)

/-! ## Whose entries they are -/

/-- Every write is of an entry of the writer's own, or an expiry's marker. -/
def Owns (m : Manifest) (own : ManifestEntry → String → Prop)
    (log : List KvWrite) : Prop :=
  ∀ write ∈ log,
    (∃ a ∈ m.adapters, write.1 = some a ∧ own a write.2.key) ∨
      write.1 = none ∧ ∃ key, write.2 = .purge key

def OwnDirectory (a : ManifestEntry) (key : String) : Prop :=
  ∃ t ∈ a.subscribe, key = kvKey t a.serviceId

def OwnIdentity (a : ManifestEntry) (key : String) : Prop := key = a.serviceId

structure Owned (m : Manifest) (s : Access) : Prop where
  directory : Owns m OwnDirectory s.directory
  identity : Owns m OwnIdentity s.identity

theorem Owns.append {own : ManifestEntry → String → Prop} {log : List KvWrite}
    (h : Owns m own log) {write : KvWrite}
    (hwrite : (∃ a ∈ m.adapters, write.1 = some a ∧ own a write.2.key) ∨
      write.1 = none ∧ ∃ key, write.2 = .purge key) :
    Owns m own (log ++ [write]) := by
  intro w hw
  rcases List.mem_append.mp hw with hw | hw
  · exact h w hw
  · rw [List.mem_singleton.mp hw]
    exact hwrite

theorem owned_of_reached (hfree : ∀ a ∈ m.adapters, CommaFree a)
    (h : Reached m acts s) : s.Owned m := by
  refine Run.invariant (I := Owned m) ?_ h ⟨nofun, nofun⟩
  intro s act s' hs _ hstep
  cases act with
  | write a bucket op =>
      rw [step] at hstep
      split at hstep
      · next hmay =>
          cases hstep
          obtain ⟨ha, hallows⟩ := hmay
          cases bucket with
          | directory => exact ⟨hs.directory.append (.inl ⟨a, ha, rfl,
              allows_directory ha (hfree a ha) hallows⟩), hs.identity⟩
          | identity => exact ⟨hs.directory, hs.identity.append (.inl
              ⟨a, ha, rfl, allows_identity ha (hfree a ha) hallows⟩)⟩
      · cases hstep
  | expire bucket key =>
      cases hstep
      cases bucket with
      | directory =>
          exact ⟨hs.directory.append (.inr ⟨rfl, key, rfl⟩), hs.identity⟩
      | identity =>
          exact ⟨hs.directory, hs.identity.append (.inr ⟨rfl, key, rfl⟩)⟩

/-- An entry that no other adapter may write is as its adapter and the clock
left it. -/
theorem Owns.ownLast_eq {own : ManifestEntry → String → Prop}
    {log : List KvWrite} (h : Owns m own log) {key : String}
    (hkey : ∀ b ∈ m.adapters, own b key → b = a) :
    ownLast log a key = lastOn KvOp.key key (log.map Prod.snd) := by
  rw [ownLast]
  induction log with
  | nil => rfl
  | cons write log ih =>
      have hrest : Owns m own log := fun w hw => h w (List.mem_cons_of_mem _ hw)
      rw [List.filter_cons, List.map_cons, lastOn, ← ih hrest]
      split
      · rw [List.map_cons, lastOn]
      · next hother =>
          rw [decide_eq_true_eq, not_or] at hother
          have hne : write.2.key ≠ key := by
            rintro rfl
            rcases h write List.mem_cons_self with ⟨b, hb, heq, hown⟩ | ⟨heq, -⟩
            · rw [hkey b hb hown] at heq
              exact hother.1 heq
            · exact hother.2 heq
          rw [if_neg hne, Option.or_none]

/-! ## What a cache lists -/

/-- One turn adds at most what it was told. -/
theorem mem_current_consume {c : RecipientCache} {item : WatchItem} {r : Json}
    (h : r ∈ (c.consume py item).current) : r ∈ c.current ∨
      ∃ key value, item = .entry (.put key value) ∧
        recipientOf py value = .ok (some r) := by
  rw [RecipientCache.consume.eq_def] at h
  split at h
  · exact .inl h
  · split at h
    · exact .inl h
    · exact .inl h
    · exact .inl (List.map_subset _ (List.filter_subset_self _) h)
    · exact .inl (List.map_subset _ (List.filter_subset_self _) h)
    · next key value =>
        split at h
        · next r' hr' =>
            obtain ⟨⟨key', r''⟩, hmem, rfl⟩ := List.mem_map.mp h
            have hget := Dict.mem_entries.mp hmem
            rw [Dict.get?_set] at hget
            split at hget
            · cases hget
              exact .inr ⟨key, value, rfl, hr'⟩
            · exact .inl (List.mem_map.mpr
                ⟨_, Dict.mem_entries.mpr hget, rfl⟩)
        · exact .inl h
        · exact .inl h

theorem mem_current_told {items : List WatchItem} {r : Json}
    (h : r ∈ (items.foldl (RecipientCache.consume py) {}).current) :
    ∃ key value, .entry (.put key value) ∈ items ∧
      recipientOf py value = .ok (some r) := by
  induction items using List.reverseRecOn with
  | nil => cases h
  | append_singleton items item ih =>
      rw [List.foldl_concat] at h
      rcases mem_current_consume h with hold | ⟨key, value, rfl, hr⟩
      · obtain ⟨key, value, hmem, hr⟩ := ih hold
        exact ⟨key, value, List.mem_append_left _ hmem, hr⟩
      · exact ⟨key, value, List.mem_append_right _
          (List.mem_singleton_self _), hr⟩

/-- What a watch tells of was written under a key it watches. -/
theorem mem_watchItems {subject : String} {before later : List KvOp} {op : KvOp}
    (h : .entry op ∈ watchItems subject before later) :
    op ∈ before ++ later ∧ watched subject op = true := by
  rw [watchItems, List.mem_append, List.mem_cons] at h
  rcases h with h | h | h
  · obtain ⟨op', hop', heq⟩ := List.mem_map.mp h
    cases heq
    obtain ⟨hmem, hwatched⟩ := List.mem_filter.mp hop'
    exact ⟨List.mem_append_left _ (mem_compact hmem), hwatched⟩
  · cases h
  · obtain ⟨op', hop', heq⟩ := List.mem_map.mp h
    cases heq
    obtain ⟨hmem, hwatched⟩ := List.mem_filter.mp hop'
    exact ⟨List.mem_append_right _ hmem, hwatched⟩

theorem tokens_watchPattern (subject : String) :
    tokens (watchPattern subject) = tokens subject ++ [['*']] := by
  have h := tokens_dot subject "*"
  rwa [tokens_of_single (t := "*") (by decide), String.append_assoc] at h

/-- A literal subject's watch sees its own keys. -/
theorem subject_of_watched {subject t serviceId : String}
    (hsubject : IsEventsSubject subject) (hi : IsToken serviceId.toList)
    {op : KvOp} (hkey : op.key = kvKey t serviceId)
    (hwatched : watched subject op = true) : t = subject := by
  rw [watched, hkey, tokens_watchPattern, kvKey, tokens_dot, hi.tokens_eq,
    subjectMatches_star hsubject.literal] at hwatched
  obtain ⟨u, hu⟩ := hwatched
  exact tokens_injective (List.append_inj' hu rfl).1

theorem listed_registered (hs : s.Owned m) {subject : String}
    {cache : RecipientCache} (hsubject : IsEventsSubject subject)
    (hcache : s.CacheOf py subject cache) {r : Json} (hr : r ∈ cache.current) :
    ∃ a, s.Registered m py a subject r := by
  obtain ⟨before, later, items, hops, htold, rfl⟩ := hcache
  obtain ⟨key, value, hmem, hvalue⟩ := mem_current_told hr
  obtain ⟨hwritten, hwatched⟩ := mem_watchItems (htold.subset hmem)
  rw [← hops] at hwritten
  obtain ⟨⟨writer, op⟩, hwrite, heq⟩ := List.mem_map.mp hwritten
  obtain rfl : op = .put key value := heq
  rcases hs.directory _ hwrite with ⟨a, ha, hwriter, t, ht, hkey⟩ | ⟨-, k, hk⟩
  · obtain rfl : writer = some a := hwriter
    obtain rfl : key = kvKey t a.serviceId := hkey
    obtain rfl := subject_of_watched hsubject (m.token a ha) rfl hwatched
    exact ⟨a, ha, ht, value, hwrite, hvalue⟩
  · cases hk

/-! ## That a subscriber is listed -/

theorem alive_of_consume {c : RecipientCache} {item : WatchItem}
    (h : (c.consume py item).failed = none) : c.failed = none := by
  rw [RecipientCache.consume.eq_def] at h
  split at h
  · exact h
  · next halive => exact Option.not_isSome_iff_eq_none.mp halive

theorem consume_get?_of_ne {c : RecipientCache} {op : KvOp} {key : String}
    (hne : op.key ≠ key) :
    (c.consume py (.entry op)).entries.get? key = c.entries.get? key := by
  rw [RecipientCache.consume.eq_def]
  split
  · rfl
  · cases op with
    | put k v =>
        simp only []
        split
        · exact Dict.get?_set_of_ne _ _ (Ne.symm hne)
        · rfl
        · rfl
    | delete k => exact (Dict.get?_pop _ _ _).trans (if_neg (Ne.symm hne))
    | purge k => exact (Dict.get?_pop _ _ _).trans (if_neg (Ne.symm hne))

/-- The operation an item tells of. -/
def told : WatchItem → Option KvOp
  | .entry op => some op
  | _ => none

/-- A cache that is alive has the last it was told of a key, if that was a
well-formed entry. -/
theorem get?_of_alive {items : List WatchItem} {key : String} {value : Bytes}
    {r : Json} (hvalue : recipientOf py value = .ok (some r)) :
    (items.foldl (RecipientCache.consume py) {}).failed = none →
      lastOn KvOp.key key (items.filterMap told) = some (.put key value) →
        (items.foldl (RecipientCache.consume py) {}).entries.get? key =
          some r := by
  induction items using List.reverseRecOn with
  | nil => exact fun _ hlast => by cases hlast
  | append_singleton items item ih =>
      intro halive hlast
      rw [List.foldl_concat] at halive ⊢
      rw [List.filterMap_append, lastOn_append] at hlast
      have hbefore := alive_of_consume halive
      cases item with
      | timeout =>
          rw [RecipientCache.consume.eq_def, if_neg (by simp [hbefore])]
          exact ih hbefore hlast
      | caughtUp =>
          rw [RecipientCache.consume.eq_def, if_neg (by simp [hbefore])]
          exact ih hbefore hlast
      | entry op =>
          by_cases hkey : op.key = key
          · have hop : op = .put key value := by
              have hself : lastOn KvOp.key key ([WatchItem.entry op].filterMap
                  told) = some op := by
                show (lastOn KvOp.key key []).or _ = _
                rw [if_pos hkey]
                rfl
              rw [hself] at hlast
              exact Option.some.inj hlast
            subst hop
            rw [RecipientCache.consume.eq_def, if_neg (by simp [hbefore])]
            simp only [hvalue]
            exact Dict.get?_set_self _ _ _
          · rw [consume_get?_of_ne hkey]
            refine ih hbefore ?_
            have hnone : lastOn KvOp.key key ([WatchItem.entry op].filterMap
                told) = none := by
              show (lastOn KvOp.key key []).or _ = _
              rw [if_neg hkey]
              rfl
            rw [hnone] at hlast
            exact hlast

theorem told_watchItems (subject : String) (before later : List KvOp) :
    (watchItems subject before later).filterMap told =
      (compact KvOp.key before).filter (watched subject) ++
        later.filter (watched subject) := by
  have hentries : ∀ ops : List KvOp,
      (ops.map WatchItem.entry).filterMap told = ops := by
    intro ops
    rw [List.filterMap_map]
    exact List.filterMap_some
  rw [watchItems, List.filterMap_append, hentries, List.filterMap_cons]
  exact congrArg _ (hentries _)

theorem lastOn_told {subject : String} {before later : List KvOp}
    {key : String} (hkey : subjectMatches (tokens (watchPattern subject))
      (tokens key) = true) :
    lastOn KvOp.key key ((watchItems subject before later).filterMap told) =
      lastOn KvOp.key key (before ++ later) := by
  have hlast := fun log => lastOn_filter KvOp.key
    (fun k => subjectMatches (tokens (watchPattern subject)) (tokens k)) key log
  rw [told_watchItems, lastOn_append, lastOn_append,
    show watched subject = fun op => subjectMatches
      (tokens (watchPattern subject)) (tokens op.key) from rfl,
    hlast, hlast, if_pos hkey, if_pos hkey, lastOn_compact]

theorem watchPattern_kvKey {subject serviceId : String}
    (hsubject : IsEventsSubject subject) (hi : IsToken serviceId.toList) :
    subjectMatches (tokens (watchPattern subject))
      (tokens (kvKey subject serviceId)) = true := by
  rw [tokens_watchPattern, kvKey, tokens_dot, hi.tokens_eq,
    subjectMatches_star hsubject.literal]
  exact ⟨_, rfl⟩

theorem eq_of_serviceId {b : ManifestEntry} (ha : a ∈ m.adapters)
    (hb : b ∈ m.adapters) (h : b.serviceId = a.serviceId) : b = a :=
  List.inj_on_of_nodup_map m.distinct hb ha h

theorem serviceId_of_kvKey {b : ManifestEntry} (ha : a ∈ m.adapters)
    (hb : b ∈ m.adapters) {t subject : String}
    (h : kvKey subject a.serviceId = kvKey t b.serviceId) : b = a := by
  have htokens := congrArg tokens h
  rw [kvKey, kvKey, tokens_dot, tokens_dot, (m.token a ha).tokens_eq,
    (m.token b hb).tokens_eq] at htokens
  have hlast := (List.append_inj' htokens rfl).2
  exact eq_of_serviceId ha hb
    (String.toList_inj.mp (List.cons.inj hlast).1).symm

theorem kept_listed (hs : s.Owned m) {subject : String} {cache : RecipientCache}
    (hsubject : IsEventsSubject subject) (hcache : s.CaughtUp py subject cache)
    (halive : cache.failed = none) (ha : a ∈ m.adapters) {value : Bytes}
    {r : Json} (hlast : ownLast s.directory a (kvKey subject a.serviceId) =
      some (.put (kvKey subject a.serviceId) value))
    (hvalue : recipientOf py value = .ok (some r)) : r ∈ cache.current := by
  obtain ⟨before, later, hops, rfl⟩ := hcache
  rw [hs.directory.ownLast_eq fun b hb ⟨t, _, hkey⟩ =>
    serviceId_of_kvKey ha hb hkey, hops] at hlast
  have hget := get?_of_alive hvalue halive
    ((lastOn_told (watchPattern_kvKey hsubject (m.token a ha))).trans hlast)
  exact List.mem_map.mpr ⟨_, Dict.mem_entries.mpr hget, rfl⟩

/-! ## Who can open a message -/

variable {P : Primitives}

theorem opened_registered (hsealed : P.Sealed) (hs : s.Owned m) {call : Call}
    {event : Event} {cache : RecipientCache}
    (hsubject : IsEventsSubject call.args.subject)
    (hcache : s.CacheOf py call.args.subject cache)
    (hrecipients : call.recipients = cache.current)
    (hbuilt : call.event P = .ok event) {privateKey : String}
    {identity plaintext : Bytes}
    (hidentity : P.identityFromStr privateKey = .ok identity)
    (hopens : Opens P event privateKey plaintext) :
    ∃ a r, s.Registered m py a call.args.subject r ∧
      (asStr r >>= P.recipientFromStr) = .ok (P.toPublic identity) := by
  obtain ⟨c, signature, _, hc, -, -, rfl⟩ := buildEvent_eq_ok.mp hbuilt
  obtain ⟨c', hdecoded, hplaintext⟩ := hopens
  rw [b64decode_encode] at hdecoded
  cases hdecoded
  have hdecrypt : P.ageDecrypt c identity = .ok plaintext := by
    rw [decrypt, hidentity] at hplaintext
    exact hplaintext
  rw [encryptPayload] at hc
  split at hc
  · cases hc
    obtain ⟨e, he⟩ := hsealed.empty identity
    cases he.symm.trans hdecrypt
  · obtain ⟨parsed, hparsed, hencrypt⟩ := bind_eq_ok.mp hc
    have hmem : P.toPublic identity ∈ parsed := by
      by_contra hnot
      obtain ⟨e, he⟩ := hsealed.others _ _ _ _ _ hencrypt hnot
      cases he.symm.trans hdecrypt
    obtain ⟨r, hr, hparse⟩ := mapM_mem hparsed _ hmem
    rw [hrecipients] at hr
    obtain ⟨a, ha⟩ := listed_registered hs hsubject hcache hr
    exact ⟨a, r, ha, hparse⟩

/-! ## Whose word it is -/

theorem found_own (hs : s.Owned m) (ha : a ∈ m.adapters) :
    s.identities a.serviceId =
      ((ownLast s.identity a a.serviceId).bind KvOp.value?).elim
        (.error .keyNotFoundError) fun value => .ok (entryValue value) := by
  rw [hs.identity.ownLast_eq fun b hb hkey => eq_of_serviceId ha hb hkey.symm,
    identities, Bucket.get, Bucket.get?_after]
  cases lastOn KvOp.key a.serviceId (s.identity.map Prod.snd) with
  | none => rfl
  | some op => cases op <;> rfl

theorem vouched_registered (hs : s.Owned m) {w : Pydantic}
    {consumer : BusClient} {drawn : Drawn} {msg : Msg} {world : World}
    {r : ReceivedEvent}
    (h : (consumer.process P w s.identities drawn msg world).1 = .ok r) :
    ∃ a ∈ m.adapters, a.serviceId = r.details.sourceServiceId ∧
      ∃ value key signature sig,
        (some a, .put a.serviceId value) ∈ s.identity ∧
        lookupSigningKey P (fun _ => .ok (some value)) a.serviceId =
          .ok (some key) ∧
        r.details.signature = some signature ∧
        b64decode signature = .ok sig ∧
        verify P key r.payload sig = .ok true := by
  obtain ⟨log, hprocess⟩ :=
    process_quiet P w consumer s.identities drawn msg world
  rw [hprocess] at h
  obtain ⟨-, -, c, signature, key, sig, -, -, hsignature, hlookup, hdecoded,
    hverify⟩ := outcome_eq_ok.mp h
  obtain ⟨value, hget, hvalue⟩ : ∃ value,
      s.identities r.details.sourceServiceId = .ok (some value) ∧
      lookupSigningKey P (fun _ => .ok (some value))
        r.details.sourceServiceId = .ok (some key) := by
    rw [lookupSigningKey] at hlookup
    split at hlookup
    · cases hlookup
    · cases hlookup
    · cases hlookup
    · next value hget => exact ⟨value, hget, hlookup⟩
  have hlive := Bucket.get?_of_get hget
  rw [Bucket.get?_after] at hlive
  cases hlast : lastOn KvOp.key r.details.sourceServiceId
      (s.identity.map Prod.snd) with
  | none => rw [hlast] at hlive; cases hlive
  | some op =>
      rw [hlast] at hlive
      obtain ⟨hmem, hkey⟩ := lastOn_mem hlast
      obtain ⟨⟨writer, op'⟩, hwrite, heq⟩ := List.mem_map.mp hmem
      obtain rfl : op' = op := heq
      rcases hs.identity _ hwrite with ⟨a, ha, hwriter, hown⟩ | ⟨-, k, hk⟩
      · obtain rfl : writer = some a := hwriter
        have hid : a.serviceId = r.details.sourceServiceId :=
          (hown.symm.trans hkey)
        refine ⟨a, ha, hid, value, key, signature, sig, ?_, ?_, hsignature,
          hdecoded, hverify⟩
        · cases op' with
          | put k v =>
              obtain rfl : v = value := Option.some.inj hlive
              obtain rfl : k = a.serviceId := hown
              exact hwrite
          | delete k => cases hlive
          | purge k => cases hlive
        · rw [hid]
          exact hvalue
      · obtain rfl : op' = .purge k := hk
        cases hlive

/-- However the adapters of the manifest go wrong, within what the server lets
them write. -/
theorem guarded (hsealed : P.Sealed) (hfree : ∀ a ∈ m.adapters, CommaFree a)
    (h : Reached m acts s) : s.Guarded m py P := by
  have hs := owned_of_reached hfree h
  exact {
    listed := fun _ _ hsubject hcache _ hr =>
      listed_registered hs hsubject hcache hr
    kept := fun _ _ _ _ _ hsubject hcache halive ha _ hlast hvalue =>
      kept_listed hs hsubject hcache halive ha hlast hvalue
    opened := fun _ _ _ hsubject hcache hrecipients hbuilt _ _ _ hidentity
        hopens => opened_registered hsealed hs hsubject hcache hrecipients
      hbuilt hidentity hopens
    found := fun _ ha => found_own hs ha
    vouched := fun _ _ _ _ _ _ hprocess => vouched_registered hs hprocess }

/-! ## The manifest there is -/

/-- An adapter may register for what it subscribes to. -/
theorem allows_register (ha : a ∈ m.adapters) (hfree : CommaFree a)
    (subject : String) (hsubject : subject ∈ a.subscribe) :
    allows (allowPub a) (directorySubject subject a.serviceId) = true := by
  have hlit := m.literal a ha
  rw [allowPub_of_commaFree hfree hlit]
  refine allows_declared (m.token a ha) hlit ?_
    (keyOf_directorySubject (m.token a ha) subject)
  rw [declaredPub]
  exact List.mem_append_right _ (List.mem_cons_of_mem _
    (List.mem_append_left _ (List.mem_map_of_mem hsubject)))

def subjects : List String := [
  "events.files.FileWriteRequested", "events.files.FileReadRequested",
  "events.files.FileListRequested", "events.files.FileDeleteRequested",
  "events.files.FileCreateCompleted", "events.files.FileWriteCompleted",
  "events.files.FileReadCompleted", "events.files.FileListCompleted",
  "events.files.FileDeleteCompleted", "events.files.FileOperationFailed",
  "events.http.RequestCompleted", "events.orders.OrderCreated",
  "events.orders.OrderPersisted", "events.db.orders.RowChanged"]

theorem isEventsSubject_subjects {subject : String}
    (h : subject ∈ subjects) : IsEventsSubject subject := by
  have hall : ∀ s ∈ subjects, (tokens s).head? = some "events".toList ∧
      ∀ t ∈ (tokens s).tail, IsToken t := by decide +kernel
  obtain ⟨hhead, htail⟩ := hall subject h
  exact ⟨_, List.eq_cons_of_mem_head? hhead, htail⟩

theorem mem_subjects : ∀ a ∈ AdapterIdentities.adapters,
    ∀ s ∈ a.publish ++ a.subscribe, s ∈ subjects := by
  decide +kernel

def manifest : Manifest where
  adapters := AdapterIdentities.adapters
  token := by decide +kernel
  distinct := by decide +kernel
  literal := fun a ha s hs => isEventsSubject_subjects (mem_subjects a ha s hs)

theorem manifest_commaFree : ∀ a ∈ manifest.adapters, CommaFree a := by
  have hids : ∀ a ∈ AdapterIdentities.adapters, ',' ∉ a.serviceId.toList := by
    decide +kernel
  have hsubjects : ∀ s ∈ subjects, ',' ∉ s.toList := by decide +kernel
  exact fun a ha => ⟨hids a ha, fun s hs => hsubjects s (mem_subjects a ha s hs)⟩

theorem step_write {bucket : KvBucket} {op : KvOp} (ha : a ∈ m.adapters)
    (h : allows (allowPub a) (kvSubject bucket.name op.key) = true) :
    s.step m (.write a bucket op) = some (s.append (some a, op) bucket) :=
  if_pos ⟨ha, h⟩

/-- The database adapter registers, and the observer writes nonsense under an
entry of its own. -/
def observedActs : List AccessAct := [
  .write (AdapterIdentities.dbAdapterMysql "db-adapter-mysql-01") .directory
    (register "events.orders.OrderCreated" "db-adapter-mysql-01"
      "database-adapter-mysql" Sample.recipientText Sample.newYearText),
  .write AdapterIdentities.testObserver .directory
    (.put (kvKey "events.orders.OrderCreated" "test-observer-01") [])]

theorem guarded_observed : ∃ s, Reached manifest observedActs s ∧
    s.Guarded manifest .thousand Sample.sealedPrimitives := by
  have hadapter : AdapterIdentities.dbAdapterMysql "db-adapter-mysql-01" ∈
      manifest.adapters := by simp [manifest, AdapterIdentities.adapters]
  have hobserver : AdapterIdentities.testObserver ∈ manifest.adapters := by
    simp [manifest, AdapterIdentities.adapters]
  have hregisters := allows_register hadapter (manifest_commaFree _ hadapter)
    "events.orders.OrderCreated" (by decide)
  have hwrites := allows_register hobserver (manifest_commaFree _ hobserver)
    "events.orders.OrderCreated" (by decide)
  have hrun : Reached manifest observedActs _ :=
    .cons trivial (step_write hadapter hregisters)
      (.cons trivial (step_write hobserver hwrites) (.nil _))
  exact ⟨_, hrun, guarded Subscribers.sample_sealed manifest_commaFree hrun⟩

end Access

end JetCore
