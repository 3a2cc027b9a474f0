import JetCore.Ref.BusClient

/-!
# What `_process` answers

`_process` touches nothing but the log, and its log lines depend on nothing
another message does. So everything about it is in one pure function,
`outcome`, and `outcome_eq_ok` says once what has to hold for a message to be
accepted: the facts the `try` block of `fetch` checks one after the other.

`Quiet` is the frame rule that makes the first half a matter of composition:
a step that only logs, followed by steps that only log, only logs.
-/

namespace JetCore

open Lib

/-- The answer of `_process`, its log line apart. -/
def BusClient.outcome (P : Primitives) (w : Pydantic) (client : BusClient)
    (identities : String → Except Exn (Option Bytes)) (drawn : Drawn)
    (msg : Msg) : Except Exn ReceivedEvent := do
  let event ← Event.fromWire w drawn msg.data
  let details := event.event.eventDetails
  let ciphertext ← b64decode event.event.eventPayload
  let plaintext ← decrypt P ciphertext client.encryptionKeypair.privateKey
  match details.signature with
  | none => .error (.signatureVerificationError
      (.missingSignature details.eventId))
  | some signature =>
      match ← lookupSigningKey P identities details.sourceServiceId with
      | none => .error (.signatureVerificationError
          (.noIdentity details.sourceServiceId details.eventId))
      | some trustedKey => do
          let sig ← b64decode signature
          if ← verify P trustedKey plaintext sig then
            .ok ⟨event, plaintext, msg⟩
          else .error (.signatureVerificationError
            (.badSignature details.eventId))

/-- `x` answers `r` and touches nothing but the log. -/
def Quiet {α : Type} (x : Bus α) (r : Except Exn α) : Prop :=
  ∀ world : World, ∃ log, x world = (r, { world with log := log })

theorem Quiet.of {α : Type} (r : Except Exn α) : Quiet (Bus.of r) r :=
  fun world => ⟨world.log, rfl⟩

theorem Quiet.bind {α β : Type} {x : Bus α} {r : Except Exn α}
    {f : α → Bus β} {g : α → Except Exn β} (hx : Quiet x r)
    (hf : ∀ a, Quiet (f a) (g a)) : Quiet (x >>= f) (r >>= g) := by
  intro world
  obtain ⟨log, hlog⟩ := hx world
  rw [Bus.bind_apply, hlog]
  cases r with
  | error e => exact ⟨log, rfl⟩
  | ok a =>
      obtain ⟨log', hlog'⟩ := hf a { world with log := log }
      exact ⟨log', hlog'⟩

theorem Quiet.warnIf {α : Type} {f : Unit → Bus α} {r : Except Exn α}
    {b : Bool} {line : LogLine} (hf : Quiet (f ()) r) :
    Quiet (Bus.warnIf b line >>= f) r := by
  intro world
  obtain ⟨log, hlog⟩ := hf { world with
    log := if b then world.log ++ [line] else world.log }
  exact ⟨log, hlog⟩

theorem process_quiet (P : Primitives) (w : Pydantic) (client : BusClient)
    (identities : String → Except Exn (Option Bytes)) (drawn : Drawn)
    (msg : Msg) : Quiet (client.process P w identities drawn msg)
      (client.outcome P w identities drawn msg) := by
  refine (Quiet.of _).bind fun event => ?_
  refine (Quiet.of _).bind fun ciphertext => ?_
  refine (Quiet.of _).bind fun plaintext => ?_
  cases event.event.eventDetails.signature with
  | none => exact Quiet.of _
  | some signature =>
      refine (Quiet.of _).bind fun found => ?_
      cases found with
      | none => exact Quiet.of _
      | some trustedKey =>
          refine Quiet.warnIf ?_
          refine (Quiet.of _).bind fun sig => ?_
          refine (Quiet.of _).bind fun accepted => ?_
          cases accepted with
          | true => exact Quiet.of _
          | false => exact Quiet.of _

theorem outcome_eq_ok {P : Primitives} {w : Pydantic} {client : BusClient}
    {identities : String → Except Exn (Option Bytes)} {drawn : Drawn}
    {msg : Msg} {r : ReceivedEvent} :
    client.outcome P w identities drawn msg = .ok r ↔
      r.msg = msg ∧ Event.fromWire w drawn msg.data = .ok r.event ∧
      ∃ ciphertext signature trustedKey sig,
        b64decode r.event.event.eventPayload = .ok ciphertext ∧
        decrypt P ciphertext client.encryptionKeypair.privateKey =
          .ok r.payload ∧
        r.details.signature = some signature ∧
        lookupSigningKey P identities r.details.sourceServiceId =
          .ok (some trustedKey) ∧
        b64decode signature = .ok sig ∧
        verify P trustedKey r.payload sig = .ok true := by
  simp only [BusClient.outcome, bind_eq_ok]
  constructor
  · rintro ⟨event, hevent, ciphertext, hc, plaintext, hp, h⟩
    split at h
    · cases h
    · next signature hsig =>
        obtain ⟨found, hfound, h⟩ := bind_eq_ok.mp h
        split at h
        · cases h
        · next trustedKey =>
            obtain ⟨sig, hdec, h⟩ := bind_eq_ok.mp h
            obtain ⟨accepted, hver, h⟩ := bind_eq_ok.mp h
            split at h
            · next hacc =>
                cases h
                exact ⟨rfl, hevent, ciphertext, signature, trustedKey, sig, hc,
                  hp, hsig, hfound, hdec, by rw [hver, hacc]⟩
            · cases h
  · rintro ⟨rfl, hevent, ciphertext, signature, trustedKey, sig, hc, hp, hsig,
      hfound, hdec, hver⟩
    refine ⟨r.event, hevent, ciphertext, hc, r.payload, hp, ?_⟩
    rw [ReceivedEvent.details] at hsig hfound
    rw [hsig]
    simp only [hfound, hdec, hver, bind, Except.bind, if_true]

end JetCore
