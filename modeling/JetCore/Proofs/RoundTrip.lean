import JetCore.Proofs.Process
import JetCore.Proofs.Sample

/-!
# From `publish` to `_process` and back

What a sender publishes, a listed recipient receives: the same payload and the
same event. Four layers have to undo each other, and each is a lemma of its
own. The envelope and its JSON text are `Event.fromWire_toWire`, base64 is
`b64decode_encode`, encryption is `decrypt_encryptForRecipients`, and the
signature over the digest verifies under the registered key by
`verify_nkeyPublic`.

What pyrage and nkeys do is assumed as documented (`Primitives.Genuine`), and
so is pydantic's text layer (`Pydantic.Faithful`).
-/

namespace JetCore

open Lib

theorem b64decode_encode (b : Bytes) : b64decode (Base64.encode b) = .ok b := by
  rw [b64decode, Base64.decode_encode]

/-! ## Encryption -/

/-- A value pyrage accepts as a recipient. -/
def ValidRecipient (P : Primitives) (j : Json) : Prop :=
  ∃ k r, j = Json.string k ∧ P.recipientFromStr k = .ok r

theorem asStr_string (s : String) : asStr (Json.string s) = .ok s := by
  rw [Json.string, asStr, Text.toString?_ofString]
  rfl

theorem parse_recipients {P : Primitives} : ∀ {keys : List Json},
    (∀ j ∈ keys, ValidRecipient P j) →
    ∃ recipients, (keys.mapM fun k => do P.recipientFromStr (← asStr k)) =
        .ok recipients ∧ recipients.length = keys.length ∧
      (∀ r ∈ recipients, ∃ k, P.recipientFromStr k = .ok r) ∧
      ∀ k r, Json.string k ∈ keys → P.recipientFromStr k = .ok r →
        r ∈ recipients := by
  intro keys
  induction keys with
  | nil =>
      intro _
      exact ⟨[], rfl, rfl, nofun, fun k r hk => by cases hk⟩
  | cons j keys ih =>
      intro hvalid
      obtain ⟨k, r, rfl, hr⟩ := hvalid j (by simp)
      obtain ⟨rs, hrs, hlen, hparsed, hmem⟩ :=
        ih fun j hj => hvalid j (by simp [hj])
      refine ⟨r :: rs, ?_, by simp [hlen],
        List.forall_mem_cons.mpr ⟨⟨k, hr⟩, hparsed⟩, ?_⟩
      · rw [List.mapM_cons, hrs]
        simp only [asStr_string, hr, bind, Except.bind]
        rfl
      · intro k' r' hk' hr'
        rcases List.mem_cons.mp hk' with heq | hk'
        · obtain rfl := Text.ofString_injective (Json.str.inj heq)
          rw [hr] at hr'
          cases hr'
          exact List.mem_cons_self
        · exact List.mem_cons_of_mem _ (hmem k' r' hk' hr')

theorem encryptForRecipients_ok {P : Primitives} (hP : P.Genuine)
    {keys : List Json} (hvalid : ∀ j ∈ keys, ValidRecipient P j)
    (hne : keys ≠ []) (coins plaintext : Bytes) :
    ∃ c, encryptForRecipients P coins plaintext keys = .ok c := by
  obtain ⟨rs, hrs, hlen, hparsed, -⟩ := parse_recipients hvalid
  have hne' : rs ≠ [] := by
    rintro rfl
    exact hne (List.length_eq_zero_iff.mp hlen.symm)
  obtain ⟨c, hc⟩ := hP.encrypts coins plaintext rs hne' hparsed
  exact ⟨c, bind_eq_ok.mpr ⟨rs, hrs, hc⟩⟩

/-- Any listed recipient's own key undoes the encryption. -/
theorem decrypt_encryptForRecipients {P : Primitives} (hP : P.Genuine)
    {keys : List Json} (hvalid : ∀ j ∈ keys, ValidRecipient P j)
    {identity : Bytes} (hdrawn : IsIdentity identity)
    (hmem : Json.string (generateEncryptionKeypair P identity).publicKey ∈ keys)
    {coins plaintext c : Bytes}
    (h : encryptForRecipients P coins plaintext keys = .ok c) :
    decrypt P c (generateEncryptionKeypair P identity).privateKey =
      .ok plaintext := by
  obtain ⟨rs, hrs, -, -, hlisted⟩ := parse_recipients hvalid
  obtain ⟨rs', hrs', henc⟩ := bind_eq_ok.mp h
  obtain rfl := Except.ok.inj (hrs.symm.trans hrs')
  have hown := hlisted _ _ hmem (hP.recipient_parse identity hdrawn)
  rw [decrypt, generateEncryptionKeypair, hP.identity_parse identity hdrawn]
  exact hP.decrypts coins plaintext rs c identity hdrawn henc hown

/-! ## Signing -/

/-- A seed's own signature verifies under the text of its public key. -/
theorem verify_nkeyPublic {P : Primitives} (hP : P.Genuine) {seed : String}
    {key : Bytes} (hseed : P.nkeysRawPublic seed = .ok key)
    (plaintext : Bytes) :
    ∃ signature, sign P seed plaintext = .ok signature ∧
      verify P (Text.ofString (nkeyPublic P key)) plaintext signature =
        .ok true := by
  obtain ⟨signature, hsign, hverify⟩ :=
    hP.verifies seed key (digest P plaintext) hseed
  refine ⟨signature, hsign, ?_⟩
  rw [verify, decodeNkeyPublic_nkeyPublic P (hP.key_length seed key hseed)]
  simp only [bind, Except.bind, hverify]

/-! ## Publish -/

theorem asStringList_valid {P : Primitives} {keys : List Json}
    (hvalid : ∀ j ∈ keys, ValidRecipient P j) :
    ∃ names, asStringList (.arr keys) = .ok names := by
  show ∃ names, keys.mapM asString = .ok names
  induction keys with
  | nil => exact ⟨[], rfl⟩
  | cons j keys ih =>
      obtain ⟨k, r, rfl, -⟩ := hvalid j (by simp)
      obtain ⟨names, hnames⟩ := ih fun j hj => hvalid j (by simp [hj])
      refine ⟨k :: names, ?_⟩
      rw [List.mapM_cons, asString_string, hnames]
      rfl

/-- The event `publish` builds, spelled out. -/
theorem buildEvent_eq_ok {P : Primitives} {client : BusClient}
    {recipients : List Json} {coins : Bytes} {drawn : Drawn}
    {args : PublishArgs} {event : Event} :
    client.buildEvent P recipients coins drawn args = .ok event ↔
      ∃ ciphertext signature names,
        encryptPayload P coins args.payload recipients = .ok ciphertext ∧
        sign P client.signingSeed args.payload = .ok signature ∧
        asStringList (.arr recipients) = .ok names ∧
        event = ⟨⟨{
          eventId := drawn.eventId
          eventCreated := drawn.now
          eventType := args.eventType
          eventSchemaVersion := args.eventSchemaVersion
          sourceServiceId := client.serviceId
          sourcePublicKey := some client.signingPublicKey
          correlationId := args.correlationId
          signature := some (Base64.encode signature) },
          ⟨encryptionAlgorithm, names⟩, Base64.encode ciphertext⟩⟩ := by
  simp only [BusClient.buildEvent, bind_eq_ok]
  constructor
  · rintro ⟨c, hc, s, hs, names, hnames, h⟩
    cases h
    exact ⟨c, s, names, hc, hs, hnames, rfl⟩
  · rintro ⟨c, s, names, hc, hs, hnames, rfl⟩
    exact ⟨c, hc, s, hs, names, hnames, rfl⟩

/-- Nothing raises on the way to the envelope. -/
theorem buildEvent_succeeds {P : Primitives} (hP : P.Genuine)
    {client : BusClient} {key : Bytes}
    (hseed : P.nkeysRawPublic client.signingSeed = .ok key)
    {recipients : List Json} (hvalid : ∀ j ∈ recipients, ValidRecipient P j)
    (hne : recipients ≠ []) (coins : Bytes) (drawn : Drawn)
    (args : PublishArgs) :
    ∃ event, client.buildEvent P recipients coins drawn args = .ok event := by
  obtain ⟨c, hc⟩ := encryptForRecipients_ok hP hvalid hne coins args.payload
  obtain ⟨signature, hsign, -⟩ := verify_nkeyPublic hP hseed args.payload
  obtain ⟨names, hnames⟩ := asStringList_valid hvalid
  have hencrypt : encryptPayload P coins args.payload recipients = .ok c := by
    rw [encryptPayload, if_neg (by simpa using hne), hc]
  exact ⟨_, buildEvent_eq_ok.mpr
    ⟨c, signature, names, hencrypt, hsign, hnames, rfl⟩⟩

/-- A publish that is no duplicate stores the event it built and returns its
id. -/
theorem publish_of_not_duplicate {P : Primitives} {w : Pydantic}
    {client : BusClient} {recipients : List Json} {draws : Draws} {now : ℕ}
    {args : PublishArgs} {event : Event}
    (hbuild : client.buildEvent P recipients draws.coins draws.built args =
      .ok event)
    {world : World} (hcap : captured args.subject = true)
    (hdup : world.stream.duplicateOf now args.msgId = none) :
    ∃ log, client.publish P w recipients draws now args world =
      (.ok event.event.eventDetails.eventId,
        { world with
          stream := { world.stream with
            messages := world.stream.messages ++
              [⟨args.subject, event.toWire w, args.msgId, now⟩] }
          log := log }) := by
  refine ⟨if recipients.isEmpty then
    world.log ++ [.noRecipients args.subject] else world.log, ?_⟩
  simp only [BusClient.publish, Bus.bind_apply, Bus.warnIf, Bus.act, Bus.of,
    hbuild, jsPublish, if_pos hcap, Stream.publish, hdup]
  rfl

/-! ## End to end -/

/-- What a sender builds for a list of recipients, one of them receives. -/
theorem outcome_of_built {P : Primitives} (hP : P.Genuine) {w : Pydantic}
    (hw : w.Faithful) {sender consumer : BusClient} {identity key : Bytes}
    (hdrawn : IsIdentity identity) (hconsumer : consumer.encryptionKeypair =
      generateEncryptionKeypair P identity)
    (hseed : P.nkeysRawPublic sender.signingSeed = .ok key)
    {identities : String → Except Exn (Option Bytes)}
    (hregistered : lookupSigningKey P identities sender.serviceId =
      .ok (some (Text.ofString (nkeyPublic P key))))
    {recipients : List Json} (hvalid : ∀ j ∈ recipients, ValidRecipient P j)
    (hmem : Json.string consumer.encryptionKeypair.publicKey ∈ recipients)
    {coins : Bytes} {built : Drawn} {args : PublishArgs} {event : Event}
    (hevent : sender.buildEvent P recipients coins built args = .ok event)
    (drawn : Drawn) {msg : Msg} (hmsg : msg.data = event.toWire w) :
    consumer.outcome P w identities drawn msg =
      .ok ⟨event, args.payload, msg⟩ := by
  obtain ⟨c, signature, _, hc, hsign, -, rfl⟩ := buildEvent_eq_ok.mp hevent
  have hne : recipients ≠ [] := List.ne_nil_of_mem hmem
  rw [encryptPayload, if_neg (by simpa using hne)] at hc
  obtain ⟨signature', hsign', hverify⟩ :=
    verify_nkeyPublic hP hseed args.payload
  obtain rfl := Except.ok.inj (hsign.symm.trans hsign')
  refine outcome_eq_ok.mpr ⟨rfl, ?_, c, _, _, signature, b64decode_encode c,
    ?_, rfl, hregistered, b64decode_encode signature, hverify⟩
  · rw [hmsg]
    exact Event.fromWire_toWire hw drawn _
  · rw [hconsumer] at hmem ⊢
    exact decrypt_encryptForRecipients hP hvalid hdrawn hmem hc

/-- For every sender whose seed's key is the registered one and every list of
valid recipients that contains the consumer, what `publish` stores on a
captured subject, when the stream does not take it for a duplicate, is
processed by the consumer to the very event and payload, and `publish` returns
that event's id. -/
theorem process_publish {P : Primitives} (hP : P.Genuine) {w : Pydantic}
    (hw : w.Faithful) {sender consumer : BusClient} {identity key : Bytes}
    (hdrawn : IsIdentity identity) (hconsumer : consumer.encryptionKeypair =
      generateEncryptionKeypair P identity)
    (hseed : P.nkeysRawPublic sender.signingSeed = .ok key)
    {identities : String → Except Exn (Option Bytes)}
    (hregistered : lookupSigningKey P identities sender.serviceId =
      .ok (some (Text.ofString (nkeyPublic P key))))
    {recipients : List Json} (hvalid : ∀ j ∈ recipients, ValidRecipient P j)
    (hmem : Json.string consumer.encryptionKeypair.publicKey ∈ recipients)
    {draws : Draws} {now : ℕ} {args : PublishArgs} {world : World}
    (hcap : captured args.subject = true)
    (hdup : world.stream.duplicateOf now args.msgId = none) :
    ∃ event log, sender.publish P w recipients draws now args world =
        (.ok event.event.eventDetails.eventId,
          { world with
            stream := { world.stream with
              messages := world.stream.messages ++
                [⟨args.subject, event.toWire w, args.msgId, now⟩] }
            log := log }) ∧
      (∃ signature, event.event.eventDetails = {
        eventId := draws.built.eventId
        eventCreated := draws.built.now
        eventType := args.eventType
        eventSchemaVersion := args.eventSchemaVersion
        sourceServiceId := sender.serviceId
        sourcePublicKey := some sender.signingPublicKey
        correlationId := args.correlationId
        signature := some signature }) ∧
      ∀ (drawn : Drawn) (msg : Msg) (world' : World),
        msg.data = event.toWire w →
        (consumer.process P w identities drawn msg world').1 =
          .ok ⟨event, args.payload, msg⟩ := by
  have hne : recipients ≠ [] := List.ne_nil_of_mem hmem
  obtain ⟨event, hevent⟩ :=
    buildEvent_succeeds hP hseed hvalid hne draws.coins draws.built args
  obtain ⟨log, hlog⟩ := publish_of_not_duplicate (w := w) hevent hcap hdup
  obtain ⟨_, signature, _, -, -, -, rfl⟩ := buildEvent_eq_ok.mp hevent
  refine ⟨_, log, hlog, ⟨_, rfl⟩, fun drawn msg world' hmsg => ?_⟩
  obtain ⟨log', hprocess⟩ :=
    process_quiet P w consumer identities drawn msg world'
  rw [hprocess]
  exact outcome_of_built hP hw hdrawn hconsumer hseed hregistered hvalid hmem
    hevent drawn hmsg

theorem sample_recipients_valid :
    ∀ j ∈ Sample.recipients, ValidRecipient Sample.primitives j := by
  intro j hj
  obtain rfl := List.mem_singleton.mp hj
  exact ⟨Sample.client.encryptionKeypair.publicKey,
    Sample.primitives.toPublic Sample.identity, rfl,
    Sample.genuine.recipient_parse Sample.identity Sample.isIdentity⟩

theorem sample_builds (drawn : Drawn) (args : PublishArgs) :
    ∃ event, Sample.client.buildEvent Sample.primitives Sample.recipients
      Sample.coins drawn args = .ok event :=
  buildEvent_succeeds Sample.genuine Sample.rawPublic sample_recipients_valid
    (by decide) Sample.coins drawn args

/-- The order for tea, published and received by the same client. -/
theorem process_publish_tea :
    ∃ event log, Sample.client.publish Sample.primitives Sample.text
        Sample.recipients Sample.draws 0 (Sample.order Sample.tea)
        Sample.world =
        (.ok event.event.eventDetails.eventId,
          { Sample.world with
            stream := { Sample.world.stream with
              messages := Sample.world.stream.messages ++
                [⟨"events.orders.OrderCreated", event.toWire Sample.text, none,
                  0⟩] }
            log := log }) ∧
      (∃ signature, event.event.eventDetails = {
        eventId := "019b76da-a800-7000-8000-000000000001"
        eventCreated := Sample.newYear
        eventType := "OrderCreated"
        eventSchemaVersion := "1.0.0"
        sourceServiceId := "rest-api-service-01"
        sourcePublicKey := some Sample.client.signingPublicKey
        correlationId := none
        signature := some signature }) ∧
      ∀ (drawn : Drawn) (msg : Msg) (world' : World),
        msg.data = event.toWire Sample.text →
        (Sample.client.process Sample.primitives Sample.text Sample.identities
          drawn msg world').1 = .ok ⟨event, Sample.tea.payload, msg⟩ :=
  process_publish Sample.genuine Sample.faithful Sample.isIdentity rfl
    Sample.rawPublic Sample.registered sample_recipients_valid
    (List.mem_singleton.mpr rfl) (by decide) (Stream.duplicateOf_none _ _)

end JetCore
