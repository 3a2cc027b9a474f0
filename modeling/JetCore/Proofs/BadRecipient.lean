import JetCore.Proofs.RoundTrip

/-!
# A recipient that is none

`encrypt_for_recipients` parses every cached key before it encrypts to any, so
one key that is no age recipient stops the publish, whoever else is listed. The
cache lets such a key in: it looks for the member, not at what it holds. So the
others are served exactly when every cached key is a recipient
(`isolated_iff`).
-/

namespace JetCore

open Lib

/-- The value is a string that `from_str` takes. -/
def isRecipient (P : Primitives) (j : Json) : Bool :=
  match asStr j >>= P.recipientFromStr with
  | .ok _ => true
  | .error _ => false

/-- The holder of an identity whose public key is one of the listed
recipients. -/
def Listed (P : Primitives) (keys : List Json) (identity : Bytes) : Prop :=
  IsIdentity identity ∧ ∃ k, Json.string k ∈ keys ∧
    P.recipientFromStr k = .ok (P.toPublic identity)

/-- The event is for exactly the valid recipients, and each can read it. -/
structure Serves (P : Primitives) (keys : List Json) (payload : Bytes)
    (event : Event) : Prop where
  decrypts : ∀ identity, Listed P keys identity →
    ∃ c, b64decode event.event.eventPayload = .ok c ∧
      decrypt P c (P.identityToStr identity) = .ok payload
  recorded : event.event.encryption.recipients.map Json.string =
    keys.filter (isRecipient P)

/-- A publish under what the cache holds succeeds and serves the valid
recipients. It succeeds on a subject the stream captures and on a message id
the stream does not take for a duplicate. -/
def Isolated (P : Primitives) (w : Pydantic) (client : BusClient)
    (cache : RecipientCache) (args : PublishArgs) : Prop :=
  ∀ (draws : Draws) (now : ℕ) (world : World), captured args.subject = true →
    world.stream.duplicateOf now args.msgId = none →
    ∃ event, Serves P cache.current args.payload event ∧
      (client.publish P w cache.current draws now args world).1 =
        .ok event.event.eventDetails.eventId ∧
      (client.publish P w cache.current draws now args world).2.stream.messages =
        world.stream.messages ++
          [⟨args.subject, event.toWire w, args.msgId, now⟩]

variable {P : Primitives} {w : Pydantic} {client : BusClient} {keys : List Json}

/-! ## Every key is parsed -/

theorem isRecipient_iff {j : Json} :
    isRecipient P j = true ↔ ValidRecipient P j := by
  constructor
  · intro h
    cases j with
    | str t =>
        rw [isRecipient, asStr] at h
        cases ht : t.toString? with
        | none => rw [ht] at h; cases h
        | some k =>
            rw [ht] at h
            cases hr : P.recipientFromStr k with
            | error e => simp [bind, Except.bind, hr] at h
            | ok r =>
                exact ⟨k, r,
                  congrArg Json.str (Text.ofString_of_toString? ht).symm, hr⟩
    | _ => cases h
  · rintro ⟨k, r, rfl, hr⟩
    simp [isRecipient, asStr_string, bind, Except.bind, hr]

/-- One that is none is one too many. -/
theorem encryptForRecipients_raises (coins plaintext : Bytes)
    (hbad : ∃ j ∈ keys, isRecipient P j = false) :
    ∃ e, encryptForRecipients P coins plaintext keys = .error e := by
  have hparse : ∃ e, (keys.mapM fun k => do P.recipientFromStr (← asStr k)) =
      .error e := by
    clear coins plaintext
    obtain ⟨j, hj, hnone⟩ := hbad
    induction keys with
    | nil => cases hj
    | cons k keys ih =>
        rw [List.mapM_cons]
        cases hk : (do P.recipientFromStr (← asStr k) : Except Exn Bytes) with
        | error e => exact ⟨e, rfl⟩
        | ok r =>
            rcases List.mem_cons.mp hj with rfl | hj
            · rw [isRecipient] at hnone
              split at hnone
              · cases hnone
              · next e he => rw [he] at hk; cases hk
            · obtain ⟨e, he⟩ := ih hj
              rw [he]
              exact ⟨e, rfl⟩
  obtain ⟨e, he⟩ := hparse
  exact ⟨e, by rw [encryptForRecipients, he]; rfl⟩

variable (w client) in
theorem publish_raises (hbad : ∃ j ∈ keys, isRecipient P j = false)
    (draws : Draws) (now : ℕ) (args : PublishArgs) (world : World) :
    ∃ e, (client.publish P w keys draws now args world).1 = .error e := by
  obtain ⟨e, he⟩ := encryptForRecipients_raises draws.coins args.payload hbad
  have hne : ¬ keys.isEmpty = true := by
    obtain ⟨j, hj, -⟩ := hbad
    simpa using List.ne_nil_of_mem hj
  have hbuild : client.buildEvent P keys draws.coins draws.built args =
      .error e := by
    rw [BusClient.buildEvent, encryptPayload, if_neg hne, he]
    rfl
  refine ⟨e, ?_⟩
  simp only [BusClient.publish, Bus.bind_apply, Bus.warnIf, Bus.act, Bus.of,
    hbuild]

/-! ## When all of them are recipients -/

theorem asStringList_recorded (hvalid : ∀ j ∈ keys, ValidRecipient P j)
    {names : List String} (h : asStringList (.arr keys) = .ok names) :
    names.map Json.string = keys := by
  change keys.mapM asString = .ok names at h
  induction keys generalizing names with
  | nil =>
      cases h
      rfl
  | cons j keys ih =>
      obtain ⟨k, r, rfl, -⟩ := hvalid j (by simp)
      rw [List.mapM_cons, asString_string] at h
      obtain ⟨name, hname, h⟩ := bind_eq_ok.mp h
      obtain ⟨rest, hrest, h⟩ := bind_eq_ok.mp h
      cases hname
      cases h
      rw [List.map_cons, ih (fun j hj => hvalid j (by simp [hj])) hrest]

theorem decrypt_of_listed (hP : P.Genuine)
    (hvalid : ∀ j ∈ keys, ValidRecipient P j) {coins payload c : Bytes}
    (h : encryptForRecipients P coins payload keys = .ok c) {identity : Bytes}
    (hlisted : Listed P keys identity) :
    decrypt P c (P.identityToStr identity) = .ok payload := by
  obtain ⟨hdrawn, k, hk, hpublic⟩ := hlisted
  obtain ⟨rs, hrs, -, -, hmem⟩ := parse_recipients hvalid
  obtain ⟨rs', hrs', henc⟩ := bind_eq_ok.mp h
  obtain rfl := Except.ok.inj (hrs.symm.trans hrs')
  rw [decrypt, hP.identity_parse identity hdrawn]
  exact hP.decrypts coins payload rs c identity hdrawn henc
    (hmem k _ hk hpublic)

/-- With at least one valid recipient in the cache, a publish serves the valid
ones whatever else is cached exactly when nothing else is. -/
theorem isolated_iff (hP : P.Genuine) {key : Bytes}
    (hseed : P.nkeysRawPublic client.signingSeed = .ok key)
    {cache : RecipientCache}
    (hsome : ∃ j ∈ cache.current, isRecipient P j = true) {args : PublishArgs}
    (hcap : captured args.subject = true) :
    Isolated P w client cache args ↔
      ∀ j ∈ cache.current, isRecipient P j = true := by
  constructor
  · intro h j hj
    by_contra hnone
    have hbad : ∃ j ∈ cache.current, isRecipient P j = false :=
      ⟨j, hj, Bool.eq_false_of_not_eq_true hnone⟩
    let world : World := { stream := { duplicateWindow := 0 } }
    have hnot : world.stream.duplicateOf 0 args.msgId = none := rfl
    obtain ⟨event, -, hok, -⟩ := h Sample.draws 0 world hcap hnot
    obtain ⟨e, he⟩ := publish_raises w client hbad
      Sample.draws 0 args world
    rw [he] at hok
    cases hok
  · intro hall draws now world _ hdup
    have hvalid : ∀ j ∈ cache.current, ValidRecipient P j :=
      fun j hj => isRecipient_iff.mp (hall j hj)
    have hne : cache.current ≠ [] := by
      obtain ⟨j, hj, -⟩ := hsome
      exact List.ne_nil_of_mem hj
    obtain ⟨event, hevent⟩ :=
      buildEvent_succeeds hP hseed hvalid hne draws.coins draws.built args
    obtain ⟨log, hlog⟩ := publish_of_not_duplicate (w := w) hevent hcap hdup
    obtain ⟨c, signature, names, hc, -, hnames, heq⟩ :=
      buildEvent_eq_ok.mp hevent
    rw [encryptPayload, if_neg (by simpa using hne)] at hc
    have hpayload : event.event.eventPayload = Base64.encode c := by rw [heq]
    have hnamed : event.event.encryption.recipients = names := by rw [heq]
    refine ⟨event, ⟨fun identity hlisted => ⟨c, ?_, ?_⟩, ?_⟩, ?_, ?_⟩
    · rw [hpayload, b64decode_encode]
    · exact decrypt_of_listed hP hvalid hc hlisted
    · rw [hnamed, asStringList_recorded hvalid hnames]
      exact (List.filter_eq_self.mpr hall).symm
    · rw [hlog]
    · rw [hlog]

def sampleKey : Json := Json.string Sample.client.encryptionKeypair.publicKey

theorem isRecipient_sample : isRecipient Sample.primitives sampleKey = true :=
  isRecipient_iff.mpr (sample_recipients_valid _ List.mem_cons_self)

/-- A cache with one recipient in it. -/
def sampleCache : RecipientCache where
  entries := Dict.empty.set "events.orders.OrderCreated.db-01" sampleKey
  ready := true

theorem sampleCache_current : sampleCache.current = [sampleKey] := rfl

theorem isolated_sample :
    Isolated Sample.primitives Sample.text Sample.client sampleCache
        (Sample.order Sample.tea) ↔
      ∀ j ∈ sampleCache.current, isRecipient Sample.primitives j = true := by
  refine isolated_iff Sample.genuine Sample.rawPublic
    ⟨sampleKey, ?_, isRecipient_sample⟩ (by decide)
  rw [sampleCache_current]
  exact List.mem_cons_self

/-- The same cache after one service has registered a key that is no age
recipient. -/
def spoiledCache : RecipientCache where
  entries := sampleCache.entries.set "events.orders.OrderCreated.web-01"
    (Json.string "not-a-key")
  ready := true

theorem spoiledCache_current : spoiledCache.current =
    [sampleKey, Json.string "not-a-key"] := rfl

/-- Nobody is served. -/
theorem spoiledCache_blocks :
    (∃ j ∈ spoiledCache.current, isRecipient Sample.primitives j = true) ∧
    ¬ Isolated Sample.primitives Sample.text Sample.client spoiledCache
      (Sample.order Sample.tea) := by
  have hcap : captured (Sample.order Sample.tea).subject = true := by decide
  have hbad : ∃ j ∈ spoiledCache.current,
      isRecipient Sample.primitives j = false := by
    refine ⟨Json.string "not-a-key", ?_, by decide +kernel⟩
    rw [spoiledCache_current]
    exact List.mem_cons_of_mem _ List.mem_cons_self
  refine ⟨⟨sampleKey, ?_, isRecipient_sample⟩, fun h => ?_⟩
  · rw [spoiledCache_current]
    exact List.mem_cons_self
  · obtain ⟨event, -, hok, -⟩ := h Sample.draws 0 Sample.world hcap rfl
    obtain ⟨e, he⟩ := publish_raises Sample.text Sample.client hbad
      Sample.draws 0 (Sample.order Sample.tea) Sample.world
    rw [he] at hok
    cases hok

end JetCore
