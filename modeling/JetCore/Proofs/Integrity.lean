import JetCore.Proofs.Fetch
import JetCore.Proofs.RoundTrip
import JetCore.Spec.Network

/-!
# What an accepted event proves

An accepted event proves that its sender passed a payload of the same digest
to `publish`, and no more. The signature is over the digest of the payload
alone: nothing binds it to the subject, the event type, the event id or the
correlation id beside it.

The first half is an invariant of the network (`Sound`): under an honest key
the ledger holds only digests of published payloads, and an honest id is
registered only with an honest party's key. The second half is
`outcome_of_other_details`: any event with the payload and the signature of a
published one is accepted, whatever its details say.
-/

namespace JetCore

open Lib

variable {P : Primitives} {w : Pydantic} {parties : Parties P}

/-! ## The steps that are taken -/

theorem step_connect {net : Network} {c : BusClient}
    {adapterType registeredAt : String} (hc : c ∈ parties.honest) :
    net.step parties w (.connect c adapterType registeredAt) =
      some { net with directory := net.directory.apply (.put c.serviceId
        (identityValue c.serviceId adapterType c.signingPublicKey
          registeredAt)) } :=
  if_pos hc

theorem step_publish {net : Network} {call : Call}
    (hc : call.client ∈ parties.honest) :
    net.step parties w (.publish call) = some { net with
      world := (call.run P w net.world).2
      ledger := net.ledger ++ call.signs P (parties.keyOf call.client)
      published := net.published ++ [call] } :=
  if_pos hc

theorem step_inject {net : Network} {now : ℕ} {subject : String} {data : Bytes}
    {msgId : Option String}
    (h : (parties.allowed subject && captured subject) = true) :
    net.step parties w (.inject now subject data msgId) = some { net with
      world := { net.world with
        stream := (net.world.stream.publish now subject data msgId).2 } } :=
  if_pos h

/-! ## The invariant -/

structure Sound (parties : Parties P) (net : Network) : Prop where
  ledger : ∀ c ∈ parties.honest, ∀ message signature,
    (parties.keyOf c, message, signature) ∈ net.ledger →
    ∃ call ∈ net.published, call.client.serviceId = c.serviceId ∧
      digest P call.args.payload = message
  directory : ∀ c ∈ parties.honest, ∀ value,
    net.directory.get? c.serviceId = some value →
    ∃ c' ∈ parties.honest, c'.serviceId = c.serviceId ∧
      ∃ adapterType registeredAt, value = identityValue c'.serviceId
        adapterType c'.signingPublicKey registeredAt

theorem Sound.initial (duplicateWindow : ℕ) :
    Sound parties (.initial duplicateWindow) where
  ledger _ _ _ _ h := by cases h
  directory _ _ _ h := by cases h

theorem mem_signs {key key' message signature : Bytes} {call : Call}
    (h : (key', message, signature) ∈ call.signs P key) :
    key' = key ∧ message = digest P call.args.payload := by
  rw [Call.signs] at h
  split at h
  · cases List.mem_singleton.mp h
    exact ⟨rfl, rfl⟩
  · cases h

theorem Sound.step {net net' : Network} {act : Act} (h : Sound parties net)
    (hstep : net.step parties w act = some net') : Sound parties net' := by
  cases act with
  | connect c adapterType registeredAt =>
      rw [Network.step] at hstep
      split at hstep
      · next hc =>
          cases hstep
          refine ⟨h.ledger, fun c₁ hc₁ value hvalue => ?_⟩
          rw [Bucket.get?_apply] at hvalue
          split at hvalue
          · next hid =>
              cases hvalue
              exact ⟨c, hc, hid, adapterType, registeredAt, rfl⟩
          · exact h.directory c₁ hc₁ value hvalue
      · cases hstep
  | publish call =>
      rw [Network.step] at hstep
      split at hstep
      · next hcall =>
          cases hstep
          refine ⟨fun c hc message signature hmem => ?_, h.directory⟩
          rcases List.mem_append.mp hmem with hmem | hmem
          · obtain ⟨call', hcall', hfacts⟩ := h.ledger c hc message signature hmem
            exact ⟨call', List.mem_append_left _ hcall', hfacts⟩
          · obtain ⟨hkey, rfl⟩ := mem_signs hmem
            exact ⟨call, List.mem_append_right _ (List.mem_singleton.mpr rfl),
              parties.own_key _ hcall _ hc hkey.symm, rfl⟩
      · cases hstep
  | inject now subject data msgId =>
      rw [Network.step] at hstep
      split at hstep
      · cases hstep
        exact ⟨h.ledger, h.directory⟩
      · cases hstep
  | claim serviceId value =>
      rw [Network.step] at hstep
      split at hstep
      · cases hstep
      · next hother =>
          cases hstep
          refine ⟨h.ledger, fun c hc value' hvalue => ?_⟩
          rw [Bucket.get?_apply] at hvalue
          split at hvalue
          · next hid =>
              exact absurd (List.mem_map.mpr ⟨c, hc, hid.symm⟩) hother
          · exact h.directory c hc value' hvalue
  | sign key message signature =>
      rw [Network.step] at hstep
      split at hstep
      · cases hstep
      · next hother =>
          cases hstep
          refine ⟨fun c hc message' signature' hmem => ?_, h.directory⟩
          rcases List.mem_append.mp hmem with hmem | hmem
          · exact h.ledger c hc message' signature' hmem
          · cases List.mem_singleton.mp hmem
            exact absurd (List.mem_map_of_mem hc) hother
  | expire serviceId =>
      cases hstep
      refine ⟨h.ledger, fun c hc value hvalue => ?_⟩
      rw [Bucket.get?_apply] at hvalue
      split at hvalue
      · cases hvalue
      · exact h.directory c hc value hvalue

theorem Sound.of_reaches {duplicateWindow : ℕ} {acts : List Act}
    {net : Network} (h : Network.Reaches parties w duplicateWindow acts net) :
    Sound parties net :=
  Run.invariant (fun hs _ hstep => hs.step hstep) h (.initial duplicateWindow)

/-! ## An accepted event -/

theorem nkeyPublic_injective {key key' : Bytes} (hkey : key.length = 32)
    (hkey' : key'.length = 32)
    (h : Text.ofString (nkeyPublic P key) = Text.ofString (nkeyPublic P key')) :
    key = key' := by
  have hdecode := decodeNkeyPublic_nkeyPublic P hkey
  rw [h, decodeNkeyPublic_nkeyPublic P hkey'] at hdecode
  exact (Except.ok.inj hdecode).symm

theorem naclVerify_ideal {ledger : Ledger} {key message signature : Bytes} :
    (P.ideal ledger).naclVerify key message signature = .ok () ↔
      (key, message, signature) ∈ ledger := by
  show (if (key, message, signature) ∈ ledger then Except.ok ()
    else Except.error Exn.badSignatureError) = .ok () ↔ _
  split
  · next h => exact ⟨fun _ => h, fun _ => rfl⟩
  · next h =>
      refine ⟨fun hc => ?_, fun hmem => absurd hmem h⟩
      cases hc

theorem nkeyPublic_ideal (ledger : Ledger) (key : Bytes) :
    nkeyPublic (P.ideal ledger) key = nkeyPublic P key := rfl

/-- Under an honest id only an honest party's key is found. -/
theorem Sound.registered {net : Network} (h : Sound parties net)
    (hlength : ∀ seed key, P.nkeysRawPublic seed = .ok key → key.length = 32)
    {ledger : Ledger} {c : BusClient}
    (hc : c ∈ parties.honest) {key : Bytes} (hlen : key.length = 32)
    (hlookup : lookupSigningKey (P.ideal ledger) net.directory.get c.serviceId =
      .ok (some (Text.ofString (nkeyPublic P key)))) :
    ∃ c' ∈ parties.honest, c'.serviceId = c.serviceId ∧
      parties.keyOf c' = key := by
  obtain ⟨value, _, _, hvalue, -⟩ := lookupSigningKey_eq_some.mp hlookup
  obtain ⟨c', hc', hid, adapterType, registeredAt, rfl⟩ :=
    h.directory c hc value (Bucket.get?_of_get hvalue)
  have hfound := lookupSigningKey_identityValue (P.ideal ledger) hvalue
  have htext := Option.some.inj (Except.ok.inj (hfound.symm.trans hlookup))
  rw [parties.public_key c' hc'] at htext
  have hlen' := hlength _ _ (parties.seed_key c' hc')
  exact ⟨c', hc', hid, nkeyPublic_injective hlen' hlen htext⟩

/-- In every run, whoever fetches whatever messages: an event that is returned
under an honest party's id has a payload of the same digest as one that this
party had passed to `publish`. -/
theorem fetch_payload_published
    (hlength : ∀ seed key, P.nkeysRawPublic seed = .ok key → key.length = 32)
    {duplicateWindow : ℕ}
    {acts : List Act} {net : Network}
    (hnet : Network.Reaches parties w duplicateWindow acts net)
    {consumer : BusClient} {draws : ℕ → Drawn} {durableName : String}
    {pulled : Except Exn (List Msg)} {received : List ReceivedEvent}
    (hfetch : net.fetch P w consumer draws durableName pulled =
      .ok received)
    {r : ReceivedEvent} (hr : r ∈ received) {c : BusClient}
    (hc : c ∈ parties.honest) (hid : r.details.sourceServiceId = c.serviceId) :
    ∃ call ∈ net.published,
      call.client.serviceId = r.details.sourceServiceId ∧
      P.sha256 call.args.payload = P.sha256 r.payload := by
  have hsound := Sound.of_reaches hnet
  obtain ⟨k, hout⟩ := mem_fetch hfetch hr
  obtain ⟨-, -, -, -, trusted, sig, -, -, -, hlookup, -, hverify⟩ :=
    outcome_eq_ok.mp hout
  obtain ⟨key, hlen, rfl, hnacl⟩ := verify_eq_true.mp hverify
  rw [hid, nkeyPublic_ideal] at hlookup
  obtain ⟨c', hc', hid', rfl⟩ := hsound.registered hlength hc hlen hlookup
  obtain ⟨call, hcall, hcallid, hdigest⟩ :=
    hsound.ledger c' hc' _ _ (naclVerify_ideal.mp hnacl)
  exact ⟨call, hcall, by rw [hcallid, hid', hid], hdigest⟩

/-! ## What the signature does not cover -/

/-- An event that has the payload, the signature and the source of a published
one is accepted by every recipient of that one, whatever else it says. -/
theorem outcome_of_other_details (hP : P.Genuine) (hw : w.Faithful)
    {consumer : BusClient} {identity : Bytes} (hdrawn : IsIdentity identity)
    (hconsumer : consumer.encryptionKeypair =
      generateEncryptionKeypair P identity)
    {call : Call} (hvalid : ∀ j ∈ call.recipients, ValidRecipient P j)
    (hlisted : Json.string consumer.encryptionKeypair.publicKey ∈
      call.recipients)
    {e : Event} (he : call.event P = .ok e) {key : Bytes}
    (hseed : P.nkeysRawPublic call.client.signingSeed = .ok key)
    {ledger : Ledger} (hledger : ∀ s ∈ call.signs P key, s ∈ ledger)
    {identities : String → Except Exn (Option Bytes)}
    (hregistered : lookupSigningKey (P.ideal ledger) identities
      call.client.serviceId = .ok (some (Text.ofString (nkeyPublic P key))))
    {e' : Event} (hpayload : e'.event.eventPayload = e.event.eventPayload)
    (hsignature : e'.event.eventDetails.signature =
      e.event.eventDetails.signature)
    (hsource : e'.event.eventDetails.sourceServiceId =
      e.event.eventDetails.sourceServiceId)
    (drawn : Drawn) {msg : Msg} (hmsg : msg.data = e'.toWire w) :
    consumer.outcome (P.ideal ledger) w identities drawn msg =
      .ok ⟨e', call.args.payload, msg⟩ := by
  obtain ⟨c, signature, _, hc, hsign, -, rfl⟩ := buildEvent_eq_ok.mp he
  have hne := List.ne_nil_of_mem hlisted
  rw [encryptPayload, if_neg (by simpa using hne)] at hc
  have hmem : (key, digest P call.args.payload, signature) ∈ ledger := by
    refine hledger _ ?_
    rw [Call.signs, hsign]
    exact List.mem_singleton.mpr rfl
  have hverify : verify (P.ideal ledger) (Text.ofString (nkeyPublic P key))
      call.args.payload signature = .ok true :=
    verify_eq_true.mpr
      ⟨key, hP.key_length _ _ hseed, rfl, naclVerify_ideal.mpr hmem⟩
  refine outcome_eq_ok.mpr ⟨rfl, ?_, c, _, _, signature,
    (congrArg b64decode hpayload).trans (b64decode_encode c), ?_, hsignature,
    ?_, b64decode_encode signature, hverify⟩
  · rw [hmsg]
    exact Event.fromWire_toWire hw drawn e'
  · rw [hconsumer] at hlisted ⊢
    exact decrypt_encryptForRecipients hP hvalid hdrawn hlisted hc
  · rw [ReceivedEvent.details, hsource]
    exact hregistered

/-! ## An order passed off as its own answer -/

/-- One honest client; the adversary may publish answers to orders. -/
def sampleParties : Parties Sample.primitives where
  honest := [Sample.client]
  keyOf _ := Sample.key
  seed_key c hc := by
    obtain rfl := List.mem_singleton.mp hc
    exact Sample.rawPublic
  public_key c hc := by
    obtain rfl := List.mem_singleton.mp hc
    rfl
  own_key c hc c' hc' _ := by
    rw [List.mem_singleton.mp hc, List.mem_singleton.mp hc']
  allowed subject := subject = "events.orders.OrderPersisted"

/-- The event of an order with the details of an answer. -/
def passedOff (e : Event) : Event :=
  ⟨{ e.event with eventDetails := { e.event.eventDetails with
    eventId := "019b76da-b178-7000-8000-000000000004"
    eventType := "OrderPersisted"
    correlationId := some e.event.eventDetails.eventId } }⟩

def passedOffMsg (e : Event) : Msg where
  seq := 2
  subject := "events.orders.OrderPersisted"
  data := (passedOff e).toWire Sample.text
  numDelivered := 1

/-- The client connects and publishes the order, and the adversary publishes
the same payload and signature under other details. -/
def passOff (e : Event) : List Act := [
  .connect Sample.client "rest-api-service" "2026-01-01T00:00:00+00:00",
  .publish (Sample.orderCall none),
  .inject 1 (passedOffMsg e).subject (passedOffMsg e).data none]

theorem passOff_reaches (e : Event) (duplicateWindow : ℕ) :
    ∃ net, Network.Reaches sampleParties Sample.text duplicateWindow
        (passOff e) net ∧
      net.directory.get? Sample.client.serviceId = some (identityValue
        Sample.client.serviceId "rest-api-service"
        Sample.client.signingPublicKey "2026-01-01T00:00:00+00:00") ∧
      net.ledger = (Sample.orderCall none).signs Sample.primitives Sample.key ∧
      net.published = [Sample.orderCall none] ∧
      ∃ stored ∈ net.world.stream.messages,
        stored.subject = (passedOffMsg e).subject ∧
        stored.data = (passedOffMsg e).data := by
  have hhonest : Sample.client ∈ sampleParties.honest := List.mem_cons_self
  have hallowed : (sampleParties.allowed "events.orders.OrderPersisted" &&
      captured "events.orders.OrderPersisted") = true := by decide
  refine ⟨_, .cons trivial (step_connect hhonest) (.cons trivial
    (step_publish hhonest) (.cons trivial (step_inject hallowed) (.nil _))),
    ?_, rfl, rfl, ?_⟩
  · rw [Bucket.get?_apply]
    exact if_pos rfl
  · refine ⟨⟨_, _, none, 1⟩, ?_, rfl, rfl⟩
    simp only [Stream.publish, Stream.duplicateOf_none]
    exact List.mem_append_right _ (List.mem_singleton.mpr rfl)

/-- The client takes it for an answer that it sent itself. -/
theorem passOff_accepted (duplicateWindow : ℕ) :
    ∃ e net, Network.Reaches sampleParties Sample.text duplicateWindow
        (passOff e) net ∧ net.published = [Sample.orderCall none] ∧
      (∃ stored ∈ net.world.stream.messages,
        stored.subject = (passedOffMsg e).subject ∧
        stored.data = (passedOffMsg e).data) ∧
      (passedOff e).event.eventDetails.sourceServiceId =
        Sample.client.serviceId ∧
      net.fetch Sample.primitives Sample.text Sample.client
        (fun _ => Sample.draws.parsed) "orders" (.ok [passedOffMsg e]) =
          .ok [⟨passedOff e, Sample.tea.payload, passedOffMsg e⟩] := by
  obtain ⟨e, he⟩ : ∃ e, (Sample.orderCall none).event Sample.primitives =
      .ok e := sample_builds _ _
  obtain ⟨net, hreach, hdir, hledger, hpublished, hstored⟩ :=
    passOff_reaches e duplicateWindow
  have hsource : e.event.eventDetails.sourceServiceId =
      Sample.client.serviceId := by
    obtain ⟨_, _, _, -, -, -, rfl⟩ := buildEvent_eq_ok.mp he
    rfl
  refine ⟨e, net, hreach, hpublished, hstored, hsource, ?_⟩
  have hledger' : ∀ s ∈ (Sample.orderCall none).signs Sample.primitives
      Sample.key, s ∈ net.ledger := by
    rw [hledger]
    exact fun s hs => hs
  have hlisted : Json.string Sample.client.encryptionKeypair.publicKey ∈
      (Sample.orderCall none).recipients := List.mem_singleton.mpr rfl
  have hvalid : ∀ j ∈ (Sample.orderCall none).recipients,
      ValidRecipient Sample.primitives j := sample_recipients_valid
  have hconsumer : Sample.client.encryptionKeypair =
      generateEncryptionKeypair Sample.primitives Sample.identity := rfl
  have hpayload : (passedOff e).event.eventPayload = e.event.eventPayload :=
    rfl
  have hdata : (passedOffMsg e).data = (passedOff e).toWire Sample.text := rfl
  have hlookup := lookupSigningKey_identityValue
    (Sample.primitives.ideal net.ledger) (Bucket.get_identityValue hdir)
  have hout := outcome_of_other_details Sample.genuine Sample.faithful
    Sample.isIdentity hconsumer hvalid hlisted he Sample.rawPublic hledger' hlookup hpayload rfl
    rfl Sample.draws.parsed hdata
  have hsub : (Sample.client.subscriptions.get? "orders").isSome := by decide
  rw [Network.fetch]
  exact @fetch_one _ _ _ _ "orders" hsub (fun _ => Sample.draws.parsed) _ _
    hout net.world

theorem fetch_payload_published_passedOff :
    ∃ e net r, Network.Reaches sampleParties Sample.text 120000000000
        (passOff e) net ∧
      net.fetch Sample.primitives Sample.text Sample.client
        (fun _ => Sample.draws.parsed) "orders" (.ok [passedOffMsg e]) =
          .ok [r] ∧
      ∃ call ∈ net.published,
        call.client.serviceId = r.details.sourceServiceId ∧
        Sample.primitives.sha256 call.args.payload =
          Sample.primitives.sha256 r.payload := by
  obtain ⟨e, net, hreach, -, -, hsource, hfetch⟩ :=
    passOff_accepted 120000000000
  exact ⟨e, net, _, hreach, hfetch,
    fetch_payload_published Sample.genuine.key_length hreach hfetch
      List.mem_cons_self (c := Sample.client) List.mem_cons_self hsource⟩

/-- Not everything that is returned under an honest id stems from a publish of
that subject, event type, event id and correlation id. -/
theorem fetch_not_original :
    ¬ ∀ (acts : List Act) (net : Network) (consumer : BusClient)
      (draws : ℕ → Drawn) (durableName : String) (msgs : List Msg)
      (received : List ReceivedEvent),
      Network.Reaches sampleParties Sample.text 120000000000 acts net →
      (∀ m ∈ msgs, ∃ stored ∈ net.world.stream.messages,
        stored.subject = m.subject ∧ stored.data = m.data) →
      net.fetch Sample.primitives Sample.text consumer draws durableName
        (.ok msgs) = .ok received →
      ∀ r ∈ received, ∀ c ∈ sampleParties.honest,
        r.details.sourceServiceId = c.serviceId →
        ∃ call ∈ net.published, call.Originates r := by
  intro h
  obtain ⟨e, net, hreach, hpublished, hstored, hsource, hfetch⟩ :=
    passOff_accepted 120000000000
  obtain ⟨call, hcall, -, -, -, htype, -⟩ := h _ net _ _ _ _ _ hreach
    (fun m hm => by rw [List.mem_singleton.mp hm]; exact hstored) hfetch _
    List.mem_cons_self Sample.client List.mem_cons_self hsource
  rw [hpublished] at hcall
  rw [List.mem_singleton.mp hcall] at htype
  have hne : "OrderCreated" ≠ "OrderPersisted" := by decide
  exact hne htype

end JetCore
