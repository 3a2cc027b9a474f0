import JetCore.Proofs.RoundTrip

/-!
# What an envelope shows of its payload

Two payloads under otherwise equal inputs give two envelopes, and an observer
without a recipient's key holds all of each but the plaintext of
`eventPayload`. `buildEvent_agree` compares them: they are equal but for the
ciphertext and the signature.

The signature is a second trace of the payload. `publish` signs the digest of
the plaintext, not of the ciphertext, and sends the signature in the clear, so
it tells two payloads apart as far as their digests do, and whoever knows the
public key can try a guess against it (`buildEvent_tea_ale`).
-/

namespace JetCore

open Lib

/-- The signature field of a built event. -/
theorem buildEvent_signature {P : Primitives} {client : BusClient}
    {recipients : List Json} {coins : Bytes} {drawn : Drawn}
    {args : PublishArgs} {event : Event}
    (h : client.buildEvent P recipients coins drawn args = .ok event) :
    ∃ signature, sign P client.signingSeed args.payload = .ok signature ∧
      event.event.eventDetails.signature =
        some (Base64.encode signature) := by
  obtain ⟨_, signature, _, -, hsign, -, rfl⟩ := buildEvent_eq_ok.mp h
  exact ⟨signature, hsign, rfl⟩

/-- Whatever the two payloads and the encryptions' randomness, the envelopes
agree on every field but the ciphertext and the signature, and on the
signature too when the payloads have one digest. -/
theorem buildEvent_agree {P : Primitives} {client : BusClient}
    {recipients : List Json} {coins coins' : Bytes} {drawn : Drawn}
    {args : PublishArgs} {payload' : Bytes} {event event' : Event}
    (h : client.buildEvent P recipients coins drawn args = .ok event)
    (h' : client.buildEvent P recipients coins' drawn
      { args with payload := payload' } = .ok event') :
    event' = ⟨{ event.event with
      eventPayload := event'.event.eventPayload
      eventDetails := { event.event.eventDetails with
        signature := event'.event.eventDetails.signature } }⟩ ∧
    (digest P payload' = digest P args.payload →
      event'.event.eventDetails.signature =
        event.event.eventDetails.signature) := by
  constructor
  · obtain ⟨_, _, names, -, -, hnames, rfl⟩ := buildEvent_eq_ok.mp h
    obtain ⟨_, _, names', -, -, hnames', rfl⟩ := buildEvent_eq_ok.mp h'
    obtain rfl := Except.ok.inj (hnames.symm.trans hnames')
    rfl
  · intro hdigest
    obtain ⟨signature, hsign, hfield⟩ := buildEvent_signature h
    obtain ⟨signature', hsign', hfield'⟩ := buildEvent_signature h'
    have hsame : sign P client.signingSeed payload' =
        sign P client.signingSeed args.payload := by
      rw [sign, sign, hdigest]
    rw [hfield, hfield',
      Except.ok.inj (hsign'.symm.trans (hsame.trans hsign))]

/-! ## Two orders -/

theorem buildEvent_agree_tea_ale :
    ∃ event event', Sample.client.buildEvent Sample.primitives
        Sample.recipients Sample.coins Sample.draws.built
        (Sample.order Sample.tea) = .ok event ∧
      Sample.client.buildEvent Sample.primitives Sample.recipients
        Sample.coins Sample.draws.built (Sample.order Sample.ale) =
          .ok event' ∧
      event'.event.encryption = event.event.encryption := by
  obtain ⟨event, h⟩ :=
    sample_builds Sample.draws.built (Sample.order Sample.tea)
  obtain ⟨event', h'⟩ :=
    sample_builds Sample.draws.built (Sample.order Sample.ale)
  refine ⟨event, event', h, h', ?_⟩
  have hagree := buildEvent_agree h (show Sample.client.buildEvent _ _ _ _
    { Sample.order Sample.tea with payload := Sample.ale.payload } =
      .ok event' from h')
  rw [hagree.1]

theorem signatureOf_sample {s : Sample.Signed} (h : s ∈ Sample.signed) :
    Sample.signatureOf (Sample.sha256 s.payload) = s.signature := by
  have hall : ∀ s ∈ Sample.signed,
      Sample.signatureOf (Sample.sha256 s.payload) = s.signature := by
    decide +kernel
  exact hall s h

theorem sign_sample {s : Sample.Signed} (h : s ∈ Sample.signed) :
    sign Sample.primitives Sample.client.signingSeed s.payload =
      .ok s.signature := by
  rw [← signatureOf_sample h]
  simp only [sign, digest, Sample.primitives, Sample.client, if_true]

theorem verify_sample {s : Sample.Signed} (h : s ∈ Sample.signed)
    (signature : Bytes) :
    verify Sample.primitives (Text.ofString Sample.client.signingPublicKey)
        s.payload signature = .ok (signature = s.signature) := by
  have hkey := decodeNkeyPublic_nkeyPublic Sample.primitives
    (show Sample.key.length = 32 from rfl)
  have hverify : Sample.primitives.naclVerify Sample.key
      (digest Sample.primitives s.payload) signature =
      if Sample.key = Sample.key ∧ signature =
        Sample.signatureOf (Sample.sha256 s.payload) then .ok ()
      else .error .badSignatureError := rfl
  rw [signatureOf_sample h] at hverify
  rw [verify, Sample.client, hkey]
  simp only [Bind.bind, Except.bind]
  by_cases heq : signature = s.signature
  · rw [hverify, if_pos ⟨rfl, heq⟩, decide_eq_true heq]
  · rw [hverify, if_neg fun hc => heq hc.2, decide_eq_false heq]

/-- An order for tea and an order for ale show different signatures, and the
signature of the first confirms the guess "tea" and refutes "ale". -/
theorem buildEvent_tea_ale :
    ∃ event event' signature, Sample.client.buildEvent Sample.primitives
        Sample.recipients Sample.coins Sample.draws.built
        (Sample.order Sample.tea) = .ok event ∧
      Sample.client.buildEvent Sample.primitives Sample.recipients
        Sample.coins Sample.draws.built (Sample.order Sample.ale) =
          .ok event' ∧
      event'.event.eventDetails.signature ≠
        event.event.eventDetails.signature ∧
      event.event.eventDetails.signature = some (Base64.encode signature) ∧
      verify Sample.primitives (Text.ofString Sample.client.signingPublicKey)
        Sample.tea.payload signature = .ok true ∧
      verify Sample.primitives (Text.ofString Sample.client.signingPublicKey)
        Sample.ale.payload signature = .ok false := by
  obtain ⟨event, h⟩ :=
    sample_builds Sample.draws.built (Sample.order Sample.tea)
  obtain ⟨event', h'⟩ :=
    sample_builds Sample.draws.built (Sample.order Sample.ale)
  obtain ⟨signature, hsign, hfield⟩ := buildEvent_signature h
  obtain ⟨signature', hsign', hfield'⟩ := buildEvent_signature h'
  have htea : Sample.tea ∈ Sample.signed := List.mem_cons_self
  have hale : Sample.ale ∈ Sample.signed :=
    List.mem_cons_of_mem _ List.mem_cons_self
  obtain rfl := Except.ok.inj (hsign.symm.trans (sign_sample htea))
  obtain rfl := Except.ok.inj (hsign'.symm.trans (sign_sample hale))
  refine ⟨event, event', Sample.tea.signature, h, h', ?_, hfield, ?_, ?_⟩
  · rw [hfield, hfield']
    intro heq
    have hdec := congrArg Base64.decode (Option.some.inj heq)
    rw [Base64.decode_encode, Base64.decode_encode] at hdec
    exact Sample.tea_ne_ale.2.2.1 (Except.ok.inj hdec).symm
  · rw [verify_sample htea, decide_eq_true rfl]
  · rw [verify_sample hale, decide_eq_false Sample.tea_ne_ale.2.2.1]

end JetCore
