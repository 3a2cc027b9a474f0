import JetCore.Proofs.RoundTrip
import JetCore.Spec.Fleet

/-!
# How long an adapter's identity lasts

`register_identity` writes an entry that lives ninety days and says that a
live adapter never gets near that. What renews the entry is connecting, and
an adapter connects once, so its uptime is the entry's age.
`lookup_own_key_iff` draws the line: the key is found as long as less than
ninety days have passed since the adapter connected, and not a nanosecond
longer, whatever else it and the others did in the meantime.
-/

namespace JetCore

open Lib

variable {P : Primitives} {w : Pydantic}

/-! ## The entry between two registrations -/

theorem step_identities {f f' : Fleet} {a : FleetAct}
    (h : f.step P w a = some f') {serviceId : String}
    (ha : a.registers serviceId = false) :
    f'.identities.entry serviceId = f.identities.entry serviceId ∧
      f'.identities.now = f.identities.now + a.duration := by
  cases a with
  | wait d =>
      cases h
      exact ⟨rfl, rfl⟩
  | connect id adapterType encryptionKeypair signing registeredAt =>
      cases h
      have hne : serviceId ≠ id := fun heq =>
        of_decide_eq_false ha heq.symm
      refine ⟨?_, rfl⟩
      show (registerIdentity _ _ _ _ _).entry serviceId = _
      rw [registerIdentity, Expiring.entry_put, if_neg hne]
  | publish call =>
      rw [Fleet.step] at h
      split at h
      · cases h
        exact ⟨rfl, rfl⟩
      · cases h
  | close client =>
      rw [Fleet.step] at h
      split at h
      · cases h
        exact ⟨rfl, rfl⟩
      · cases h

theorem run_identities {serviceId : String} {acts : List FleetAct} :
    ∀ {f f' : Fleet}, Run (Fleet.step P w) always f acts f' →
    (∀ a ∈ acts, a.registers serviceId = false) →
    f'.identities.entry serviceId = f.identities.entry serviceId ∧
      f'.identities.now = f.identities.now + elapsed acts := by
  induction acts with
  | nil =>
      intro f f' h _
      cases h
      exact ⟨rfl, rfl⟩
  | cons a acts ih =>
      intro f f' h hacts
      obtain ⟨-, f₁, hstep, hrest⟩ := h.cons_inv
      obtain ⟨hentry, hnow⟩ := step_identities hstep (hacts a (by simp))
      obtain ⟨hentry', hnow'⟩ := ih hrest fun b hb => hacts b (by simp [hb])
      refine ⟨hentry'.trans hentry, ?_⟩
      rw [hnow', hnow, elapsed, elapsed, List.map_cons, List.sum_cons,
        Nat.add_assoc]

/-! ## The lookup -/

theorem lookup_of_entry {b : IdentityBucket}
    {id adapterType signingPublicKey registeredAt : String} {deadline : ℕ}
    (h : b.entry id = some (identityValue id adapterType signingPublicKey
      registeredAt, deadline)) :
    lookupSigningKey P b.get id =
      if b.now < deadline then .ok (some (Text.ofString signingPublicKey))
      else .ok none := by
  split
  · next hlive =>
      have hget := (Expiring.get?_eq h).trans (if_pos hlive)
      exact lookupSigningKey_identityValue P
        (IdentityBucket.get_identityValue hget)
  · next hexpired =>
      have hget := (Expiring.get?_eq h).trans (if_neg hexpired)
      rw [lookupSigningKey, IdentityBucket.get, hget]

/-- What the lookup answers after a connect that no other connect of the same
id follows. -/
theorem lookup_after_connect {before later : List FleetAct}
    {start now : Fleet} {serviceId adapterType registeredAt : String}
    {encryptionKeypair : EncryptionKeyPair} {signing : SigningKeyPair}
    (hrun : Run (Fleet.step P w) always start (before ++ .connect serviceId
      adapterType encryptionKeypair signing registeredAt :: later) now)
    (hsole : ∀ a ∈ later, a.registers serviceId = false) :
    lookupSigningKey P now.identities.get serviceId =
      if elapsed later < identityTtlSeconds * 1000000000 then
        .ok (some (Text.ofString signing.publicKey))
      else .ok none := by
  obtain ⟨f, -, hlater⟩ := hrun.split
  obtain ⟨-, f₁, hconnect, hrest⟩ := hlater.cons_inv
  cases hconnect
  obtain ⟨hentry, hnow⟩ := run_identities hrest hsole
  have hown : now.identities.entry serviceId = some (identityValue serviceId
      adapterType signing.publicKey registeredAt,
      f.identities.now + identityTtlSeconds * 1000000000) := by
    rw [hentry]
    show (registerIdentity _ _ _ _ _).entry serviceId = _
    rw [registerIdentity, Expiring.entry_put, if_pos rfl]
  have hclock : now.identities.now = f.identities.now + elapsed later := hnow
  rw [lookup_of_entry hown, hclock]
  simp only [Nat.add_lt_add_iff_left]

/-- A seed's signatures verify under the public key of its pair. -/
theorem verify_keypairFromSeed (hP : P.Genuine) {signing : SigningKeyPair}
    (hpair : keypairFromSeed P signing.seed = .ok signing)
    {payload signature : Bytes}
    (hsign : sign P signing.seed payload = .ok signature) :
    verify P (Text.ofString signing.publicKey) payload signature =
      .ok true := by
  obtain ⟨key, hkey, hpublic⟩ := bind_eq_ok.mp hpair
  obtain ⟨signature', hsign', hverify⟩ := verify_nkeyPublic hP hkey payload
  obtain rfl := Except.ok.inj (hsign.symm.trans hsign')
  rw [← Except.ok.inj hpublic]
  exact hverify

/-- In every run, after a connect that no other connect of the same id
follows: the lookup answers with the adapter's own key if and only if less
than the time to live has passed since, and as long as it does, whatever the
adapter signs verifies under the answer. -/
theorem lookup_own_key_iff {before later : List FleetAct} {start now : Fleet}
    {serviceId adapterType registeredAt : String}
    {encryptionKeypair : EncryptionKeyPair} {signing : SigningKeyPair}
    (hrun : Run (Fleet.step P w) always start (before ++ .connect serviceId
      adapterType encryptionKeypair signing registeredAt :: later) now)
    (hsole : ∀ a ∈ later, a.registers serviceId = false) :
    (lookupSigningKey P now.identities.get serviceId =
        .ok (some (Text.ofString signing.publicKey)) ↔
      elapsed later < identityTtlSeconds * 1000000000) ∧
    (P.Genuine → keypairFromSeed P signing.seed = .ok signing →
      elapsed later < identityTtlSeconds * 1000000000 →
      ∀ payload signature, sign P signing.seed payload = .ok signature →
        ∃ trusted, lookupSigningKey P now.identities.get serviceId =
          .ok (some trusted) ∧ verify P trusted payload signature = .ok true) := by
  rw [lookup_after_connect hrun hsole]
  refine ⟨?_, fun hP hpair hlive payload signature hsign =>
    ⟨_, if_pos hlive, verify_keypairFromSeed hP hpair hsign⟩⟩
  constructor
  · intro h
    split at h
    · next hlive => exact hlive
    · cases h
  · exact fun hlive => if_pos hlive

/-! ## One adapter -/

/-- The sample client connects and then only time passes. -/
def aloneFor (d : ℕ) : List FleetAct := [
  .connect Sample.client.serviceId "rest-api-service"
    Sample.client.encryptionKeypair
    ⟨Sample.seed, Sample.client.signingPublicKey⟩ "2026-01-01T00:00:00+00:00",
  .wait d]

theorem aloneFor_run (d : ℕ) : ∃ now, Run (Fleet.step Sample.primitives
    Sample.text) always ⟨Sample.world, {}, []⟩ (aloneFor d) now ∧
    now.connected.map BusClient.serviceId = [Sample.client.serviceId] :=
  ⟨_, .cons trivial rfl (.cons trivial rfl (.nil _)), rfl⟩

theorem aloneFor_sole (d : ℕ) : ∀ a ∈ [FleetAct.wait d],
    a.registers Sample.client.serviceId = false := by
  intro a ha
  rw [List.mem_singleton.mp ha]
  rfl

/-- An hour after connecting: the key is there, and what the adapter signs
verifies under it. -/
theorem lookup_own_key_iff_hour : ∃ now, Run (Fleet.step Sample.primitives
      Sample.text) always ⟨Sample.world, {}, []⟩ (aloneFor 3600000000000) now ∧
    lookupSigningKey Sample.primitives now.identities.get
      Sample.client.serviceId =
        .ok (some (Text.ofString Sample.client.signingPublicKey)) ∧
    ∃ trusted signature,
      sign Sample.primitives Sample.seed Sample.tea.payload = .ok signature ∧
      lookupSigningKey Sample.primitives now.identities.get
        Sample.client.serviceId = .ok (some trusted) ∧
      verify Sample.primitives trusted Sample.tea.payload signature =
        .ok true := by
  obtain ⟨now, hrun, -⟩ := aloneFor_run 3600000000000
  have hlive : elapsed [.wait 3600000000000] <
      identityTtlSeconds * 1000000000 := by
    simp [elapsed, FleetAct.duration, identityTtlSeconds]
  obtain ⟨hiff, hverifies⟩ := lookup_own_key_iff
    (show Run _ _ _ ([] ++ aloneFor _) now from hrun) (aloneFor_sole _)
  have hpair : keypairFromSeed Sample.primitives Sample.seed =
      .ok ⟨Sample.seed, Sample.client.signingPublicKey⟩ :=
    bind_eq_ok.mpr ⟨Sample.key, Sample.rawPublic, rfl⟩
  obtain ⟨signature, hsign, -⟩ :=
    verify_nkeyPublic Sample.genuine Sample.rawPublic Sample.tea.payload
  obtain ⟨trusted, hlookup, hverify⟩ := hverifies Sample.genuine hpair hlive
    Sample.tea.payload signature hsign
  exact ⟨now, hrun, hiff.mpr hlive, trusted, signature, hsign, hlookup,
    hverify⟩

/-- Ninety days after connecting the adapter is still there and its key is
not. -/
theorem lookup_after_ninety_days : ∃ now, Run (Fleet.step Sample.primitives
      Sample.text) always ⟨Sample.world, {}, []⟩
      (aloneFor 7776000000000000) now ∧
    now.connected.map BusClient.serviceId = [Sample.client.serviceId] ∧
    lookupSigningKey Sample.primitives now.identities.get
      Sample.client.serviceId ≠
        .ok (some (Text.ofString Sample.client.signingPublicKey)) := by
  obtain ⟨now, hrun, hconnected⟩ := aloneFor_run 7776000000000000
  refine ⟨now, hrun, hconnected, fun h => ?_⟩
  have hlookup := lookup_after_connect (show Run _ _ _ ([] ++ aloneFor _) now
    from hrun) (aloneFor_sole _)
  rw [if_neg (by simp [elapsed, FleetAct.duration, identityTtlSeconds])]
    at hlookup
  cases hlookup.symm.trans h

end JetCore
