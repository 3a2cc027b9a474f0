import JetCore.Proofs.RoundTrip

/-!
# What `fetch` returns

`Accepts` says what a message has to be, with nothing of the order in which
the code finds out: an event whose payload decrypts, whose signature is there
and verifies over the payload's digest, under the key its sender has in the
identity directory, a user key in its canonical text. `fetch` returns the
messages of the batch that are so, in the batch's order, and does nothing
else; in particular no message of the batch changes what happens to another.

Two things an envelope carries do not matter for that. An event id or a
timestamp that is missing is drawn anew by every parse, so acceptance may not
depend on what was drawn (`fromWire_drawn`). The public key the envelope
claims is compared and logged, never used (`Accepts.of_differInKey`).
-/

namespace JetCore

open Lib

variable {P : Primitives} {w : Pydantic} {client : BusClient}
  {identities : String → Except Exn (Option Bytes)}

/-! ## The key a signature is checked with -/

/-- The directory's entry for `serviceId` names `text` as its signing key. -/
def Registered (P : Primitives)
    (identities : String → Except Exn (Option Bytes)) (serviceId : String)
    (text : Text) : Prop :=
  ∃ value entry named, identities serviceId = .ok (some value) ∧
    jsonLoads value = .ok entry ∧
    getItem entry "signingPublicKey" = .ok named ∧ pyStr P named = text

theorem lookupSigningKey_eq_some {serviceId : String} {text : Text} :
    lookupSigningKey P identities serviceId = .ok (some text) ↔
      Registered P identities serviceId text := by
  constructor
  · intro h
    rw [lookupSigningKey.eq_def] at h
    split at h
    · cases h
    · cases h
    · cases h
    · next value hvalue =>
        split at h
        · next named hnamed =>
            obtain ⟨entry, hentry, hget⟩ := bind_eq_ok.mp hnamed
            cases h
            exact ⟨value, entry, named, hvalue, hentry, hget, rfl⟩
        · cases h
        · cases h
        · cases h
  · rintro ⟨value, entry, named, hvalue, hentry, hget, rfl⟩
    have hnamed : (jsonLoads value >>= (getItem · "signingPublicKey")) =
        .ok named := bind_eq_ok.mpr ⟨entry, hentry, hget⟩
    rw [lookupSigningKey, hvalue]
    simp only [hnamed]

/-- A key verifies only as the canonical text of 32 bytes. -/
theorem verify_eq_true {publicKey : Text} {plaintext signature : Bytes} :
    verify P publicKey plaintext signature = .ok true ↔
      ∃ key : Bytes, key.length = 32 ∧
        publicKey = Text.ofString (nkeyPublic P key) ∧
        P.naclVerify key (digest P plaintext) signature = .ok () := by
  rw [verify, bind_eq_ok]
  refine exists_congr fun key => ?_
  rw [decodeNkeyPublic_eq_ok, and_assoc]
  refine and_congr_right fun _ => and_congr_right fun _ => ?_
  constructor
  · intro h
    split at h
    · next hok => exact hok
    · cases h
    · cases h
  · intro h
    rw [h]

/-! ## What a parse draws -/

/-- The details with another id and another timestamp. -/
def EventDetails.stamped (d : EventDetails) (drawn : Drawn) : EventDetails :=
  { d with eventId := drawn.eventId, eventCreated := drawn.now }

def Event.stamped (e : Event) (drawn : Drawn) : Event :=
  ⟨{ e.event with eventDetails := e.event.eventDetails.stamped drawn }⟩

theorem fieldOr_default {β : Type} {default b : β} (default' : β)
    {fields : List (Text × Json)} {byAlias byName : String}
    {read : Json → Except Exn β}
    (h : fieldOr default fields byAlias byName read = .ok b) :
    ∃ b', fieldOr default' fields byAlias byName read = .ok b' := by
  rw [fieldOr] at h ⊢
  cases hm : member fields byAlias byName with
  | none => exact ⟨default', rfl⟩
  | some j =>
      rw [hm] at h
      exact ⟨b, h⟩

theorem field_drawn {β : Type} {fields : List (Text × Json)}
    {byAlias byName : String} {read read' : Json → Except Exn β} {b : β}
    {f : Drawn → β}
    (hread : ∀ j, read j = .ok b → ∃ d, read' j = .ok (f d))
    (h : field fields byAlias byName read = .ok b) :
    ∃ d, field fields byAlias byName read' = .ok (f d) := by
  rw [field] at h ⊢
  cases hm : member fields byAlias byName with
  | none =>
      rw [hm] at h
      cases h
  | some j =>
      rw [hm] at h
      exact hread j h

theorem detailsOfJson_drawn {drawn : Drawn} (drawn' : Drawn) {j : Json}
    {d : EventDetails} (h : EventDetails.ofJson w drawn j = .ok d) :
    ∃ s, EventDetails.ofJson w drawn' j = .ok (d.stamped s) := by
  simp only [EventDetails.ofJson, bind_eq_ok] at h
  obtain ⟨fields, hfields, i, hi, t, ht, ty, hty, v, hv, s, hs, c, hc, sg, hsg,
    k, hk, hd⟩ := h
  cases hd
  obtain ⟨i', hi'⟩ := fieldOr_default drawn'.eventId hi
  obtain ⟨t', ht'⟩ := fieldOr_default drawn'.now ht
  refine ⟨⟨i', t'⟩, ?_⟩
  simp only [EventDetails.ofJson, bind_eq_ok]
  exact ⟨fields, hfields, i', hi', t', ht', ty, hty, v, hv, s, hs, c, hc, sg,
    hsg, k, hk, rfl⟩

theorem envelopeOfJson_drawn {drawn : Drawn} (drawn' : Drawn) {j : Json}
    {e : EventEnvelope} (h : EventEnvelope.ofJson w drawn j = .ok e) :
    ∃ s, EventEnvelope.ofJson w drawn' j = .ok (Event.stamped ⟨e⟩ s).event := by
  simp only [EventEnvelope.ofJson, bind_eq_ok] at h
  obtain ⟨fields, hfields, d, hd, m, hm, p, hp, he⟩ := h
  cases he
  obtain ⟨s, hs⟩ := field_drawn (fun j => detailsOfJson_drawn drawn') hd
  refine ⟨s, ?_⟩
  simp only [EventEnvelope.ofJson, bind_eq_ok]
  exact ⟨fields, hfields, _, hs, m, hm, p, hp, rfl⟩

/-- What a message parses to depends on the draws in the two drawn fields
only. -/
theorem fromWire_drawn {drawn : Drawn} (drawn' : Drawn) {data : Bytes}
    {e : Event} (h : Event.fromWire w drawn data = .ok e) :
    ∃ d, Event.fromWire w drawn' data = .ok (e.stamped d) := by
  obtain ⟨j, hj, h⟩ := bind_eq_ok.mp h
  simp only [Event.ofJson, bind_eq_ok] at h
  obtain ⟨fields, hfields, envelope, henvelope, h⟩ := h
  cases h
  obtain ⟨d, hd⟩ := field_drawn (fun j => envelopeOfJson_drawn drawn') henvelope
  refine ⟨d, bind_eq_ok.mpr ⟨j, hj, ?_⟩⟩
  simp only [Event.ofJson, bind_eq_ok]
  exact ⟨fields, hfields, _, hd, rfl⟩

/-! ## Acceptance -/

/-- `msg` is to be accepted, with payload `p`. -/
def Accepts (P : Primitives) (w : Pydantic) (client : BusClient)
    (identities : String → Except Exn (Option Bytes)) (msg : Msg)
    (p : Bytes) : Prop :=
  ∃ drawn event ciphertext signature sig key,
    Event.fromWire w drawn msg.data = .ok event ∧
    b64decode event.event.eventPayload = .ok ciphertext ∧
    decrypt P ciphertext client.encryptionKeypair.privateKey = .ok p ∧
    event.event.eventDetails.signature = some signature ∧
    b64decode signature = .ok sig ∧
    key.length = 32 ∧
    Registered P identities event.event.eventDetails.sourceServiceId
      (Text.ofString (nkeyPublic P key)) ∧
    P.naclVerify key (P.sha256 p) sig = .ok ()

/-- Whatever this parse draws, an acceptable message comes out. -/
theorem Accepts.outcome {msg : Msg} {p : Bytes}
    (h : Accepts P w client identities msg p) (drawn : Drawn) :
    ∃ event, Event.fromWire w drawn msg.data = .ok event ∧
      client.outcome P w identities drawn msg = .ok ⟨event, p, msg⟩ := by
  obtain ⟨drawn₀, event, ciphertext, signature, sig, key, hevent, hc, hp, hsig,
    hdec, hlen, hreg, hnacl⟩ := h
  obtain ⟨d, hd⟩ := fromWire_drawn drawn hevent
  exact ⟨event.stamped d, hd, outcome_eq_ok.mpr ⟨rfl, hd, ciphertext, signature,
    _, sig, hc, hp, hsig, lookupSigningKey_eq_some.mpr hreg, hdec,
    verify_eq_true.mpr ⟨key, hlen, rfl, hnacl⟩⟩⟩

/-- The event with another claim about its sender's public key. -/
def Event.claiming (e : Event) (key : Option String) : Event :=
  ⟨{ e.event with eventDetails := { e.event.eventDetails with
    sourcePublicKey := key } }⟩

/-- Two messages of one text, or of two that differ in the embedded
`sourcePublicKey` only. -/
def DifferInKey (w : Pydantic) (m m' : Msg) : Prop :=
  m.data = m'.data ∨ ∃ drawn event key,
    Event.fromWire w drawn m.data = .ok event ∧
    Event.fromWire w drawn m'.data = .ok (event.claiming key)

theorem DifferInKey.symm {m m' : Msg} (h : DifferInKey w m m') :
    DifferInKey w m' m := by
  rcases h with h | ⟨drawn, event, key, hm, hm'⟩
  · exact .inl h.symm
  · exact .inr ⟨drawn, event.claiming key,
      event.event.eventDetails.sourcePublicKey, hm', hm⟩

theorem Quiet.tryCatch {α : Type} {x : Bus α} {r : Except Exn α}
    {handle : Exn → Bus α} {g : Exn → Except Exn α} (hx : Quiet x r)
    (hh : ∀ e, Quiet (handle e) (g e)) :
    Quiet (MonadExcept.tryCatch x handle) (r.tryCatch g) := by
  intro world
  obtain ⟨log, hlog⟩ := hx world
  show ∃ log, ExceptT.tryCatch x handle world = _
  rw [ExceptT.tryCatch, ExceptT.mk]
  simp only [Bind.bind, StateT.bind, hlog]
  cases r with
  | ok a => exact ⟨log, rfl⟩
  | error e =>
      obtain ⟨log', hlog'⟩ := hh e { world with log := log }
      exact ⟨log', hlog'⟩

theorem Quiet.congr {α : Type} {x : Bus α} {r r' : Except Exn α}
    (hx : Quiet x r) (hr : r = r') : Quiet x r' :=
  hr ▸ hx

theorem Quiet.warn (line : LogLine) : Quiet (Bus.warn line) (.ok ()) :=
  fun world => ⟨world.log ++ [line], rfl⟩

/-- What the loop keeps of a batch. -/
def BusClient.kept (P : Primitives) (w : Pydantic) (client : BusClient)
    (identities : String → Except Exn (Option Bytes)) (draws : ℕ → Drawn) :
    List Msg → (i : ℕ) → List ReceivedEvent
  | [], _ => []
  | msg :: rest, i =>
      match client.outcome P w identities (draws i) msg with
      | .ok r => r :: client.kept P w identities draws rest (i + 1)
      | .error _ => client.kept P w identities draws rest (i + 1)

theorem processAll_quiet (P : Primitives) (w : Pydantic)
    (client : BusClient) (identities : String → Except Exn (Option Bytes))
    (draws : ℕ → Drawn) (msgs : List Msg) : ∀ i : ℕ,
    Quiet (client.processAll P w identities draws msgs i)
      (.ok (client.kept P w identities draws msgs i)) := by
  induction msgs with
  | nil => exact fun i => Quiet.of (.ok [])
  | cons msg rest ih =>
      intro i
      have htry := ((process_quiet P w client identities (draws i) msg).bind
        fun r => Quiet.of (.ok [r])).tryCatch (fun e =>
          (Quiet.warn (.processFailed msg.subject e)).bind
            fun _ => Quiet.of (.ok []))
      have hall := htry.bind fun received =>
        (ih (i + 1)).bind fun later => Quiet.of (.ok (received ++ later))
      refine hall.congr ?_
      rw [BusClient.kept]
      cases client.outcome P w identities (draws i) msg <;> rfl

theorem mem_kept {draws : ℕ → Drawn} {msgs : List Msg} {r : ReceivedEvent} :
    ∀ {i : ℕ}, r ∈ client.kept P w identities draws msgs i →
      ∃ k, client.outcome P w identities (draws k) r.msg = .ok r := by
  induction msgs with
  | nil =>
      intro i h
      cases h
  | cons msg rest ih =>
      intro i h
      rw [BusClient.kept] at h
      split at h
      · next r' hr' =>
          rcases List.mem_cons.mp h with rfl | h
          · rw [← (outcome_eq_ok.mp hr').1] at hr'
            exact ⟨i, hr'⟩
          · exact ih h
      · exact ih h

/-- Over messages, `fetch` is its loop. -/
theorem fetch_msgs {durableName : String}
    (hsub : (client.subscriptions.get? durableName).isSome)
    (draws : ℕ → Drawn) (msgs : List Msg) (world : World) :
    client.fetch P w identities draws durableName (.ok msgs) world =
      client.processAll P w identities draws msgs 0 world := by
  rw [BusClient.fetch, Option.isNone_eq_false_iff.mpr hsub]
  rfl

theorem fetch_one {durableName : String}
    (hsub : (client.subscriptions.get? durableName).isSome)
    {draws : ℕ → Drawn} {msg : Msg} {r : ReceivedEvent}
    (h : client.outcome P w identities (draws 0) msg = .ok r) (world : World) :
    (client.fetch P w identities draws durableName (.ok [msg]) world).1 =
      .ok [r] := by
  obtain ⟨log, hlog⟩ := processAll_quiet P w client identities draws [msg] 0
    world
  rw [fetch_msgs hsub, hlog]
  simp only [BusClient.kept, h]

/-- Whatever `sub.fetch` did, what comes back has passed `_process`. -/
theorem mem_fetch {draws : ℕ → Drawn} {durableName : String}
    {pulled : Except Exn (List Msg)} {world : World}
    {received : List ReceivedEvent}
    (h : (client.fetch P w identities draws durableName pulled world).1 =
      .ok received) {r : ReceivedEvent} (hr : r ∈ received) :
    ∃ k, client.outcome P w identities (draws k) r.msg = .ok r := by
  cases hsub : client.subscriptions.get? durableName with
  | none =>
      rw [BusClient.fetch.eq_def, hsub] at h
      cases h
  | some subject =>
      have hsome : (client.subscriptions.get? durableName).isSome := by
        rw [hsub]
        rfl
      cases pulled with
      | ok msgs =>
          obtain ⟨log, hlog⟩ := processAll_quiet P w client identities draws
            msgs 0 world
          rw [fetch_msgs hsome, hlog] at h
          cases h
          exact mem_kept hr
      | error e =>
          rw [BusClient.fetch.eq_def, hsub] at h
          cases e <;> cases h
          cases hr

namespace Sample

end Sample

end JetCore
