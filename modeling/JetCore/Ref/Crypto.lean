import JetCore.Lib.BaseN
import JetCore.Ref.Exn

/-!
# `crypto.py`: payload encryption and event signing

What the module computes itself is here in full: the digest that is signed,
the decoding of an nkey public key with its three checks, the order in which
things are tried and which failures become `False` and which escape. What it
calls is a parameter, `Primitives`: pyrage, nkeys, nacl and the hash function,
each a function that answers or raises.

Recipient keys reach `encrypt_for_recipients` from a registry entry's JSON, so
their type is whatever JSON value stood there; pyrage takes a string of scalar
values and nothing else.
-/

namespace JetCore

open Lib

/-- The third-party functions and the hash, as the code calls them. -/
structure Primitives where
  /-- `hashlib.sha256(..).digest()` -/
  sha256 : Bytes → Bytes
  /-- `x25519.Recipient.from_str`, and `str()` of a recipient. -/
  recipientFromStr : String → Except Exn Bytes
  recipientToStr : Bytes → String
  /-- `x25519.Identity.from_str`, and `str()` of an identity. -/
  identityFromStr : String → Except Exn Bytes
  identityToStr : Bytes → String
  /-- `identity.to_public()` -/
  toPublic : Bytes → Bytes
  /-- `pyrage.encrypt`, with the randomness it draws. -/
  ageEncrypt (coins plaintext : Bytes) (recipients : List Bytes) :
    Except Exn Bytes
  /-- `pyrage.decrypt` with one identity. -/
  ageDecrypt (ciphertext identity : Bytes) : Except Exn Bytes
  /-- The raw public key of `nkeys.from_seed(seed)`, a user seed. -/
  nkeysRawPublic (seed : String) : Except Exn Bytes
  /-- `nkeys.from_seed(seed).sign(..)` -/
  nkeysSign (seed : String) (message : Bytes) : Except Exn Bytes
  crc16 : Bytes → UInt16
  /-- `nacl.signing.VerifyKey(key).verify(..)` -/
  naclVerify (key message signature : Bytes) : Except Exn Unit
  /-- `str()` of a decoded JSON value that is not a string. -/
  strOf : Json → Text

/-- `nkeys.PREFIX_BYTE_USER` -/
def prefixByteUser : UInt8 := 160

/-- The bytes of an X25519 identity, as `Identity.generate()` draws them. -/
def IsIdentity (i : Bytes) : Prop := i.length = 32

/-- What the code relies on in the third-party functions: the two keys of an
identity print and parse back, an encryption to recipients that have been parsed,
one at least, succeeds and the identity of any of them undoes it, and a seed's
signature verifies under its public key, which is 32 bytes long. -/
structure Primitives.Genuine (P : Primitives) : Prop where
  recipient_parse : ∀ i, IsIdentity i →
    P.recipientFromStr (P.recipientToStr (P.toPublic i)) = .ok (P.toPublic i)
  identity_parse : ∀ i, IsIdentity i →
    P.identityFromStr (P.identityToStr i) = .ok i
  encrypts : ∀ coins plaintext recipients, recipients ≠ [] →
    (∀ r ∈ recipients, ∃ s, P.recipientFromStr s = .ok r) →
    ∃ c, P.ageEncrypt coins plaintext recipients = .ok c
  decrypts : ∀ coins plaintext recipients c identity, IsIdentity identity →
    P.ageEncrypt coins plaintext recipients = .ok c →
    P.toPublic identity ∈ recipients → P.ageDecrypt c identity = .ok plaintext
  key_length : ∀ seed key, P.nkeysRawPublic seed = .ok key → key.length = 32
  verifies : ∀ seed key message, P.nkeysRawPublic seed = .ok key →
    ∃ signature, P.nkeysSign seed message = .ok signature ∧
      P.naclVerify key message signature = .ok ()

/-- `EncryptionKeyPair` -/
structure EncryptionKeyPair where
  privateKey : String
  publicKey : String
  deriving DecidableEq

/-- `SigningKeyPair` -/
structure SigningKeyPair where
  seed : String
  publicKey : String
  deriving DecidableEq

/-- `generate_encryption_keypair`, given the identity it draws. -/
def generateEncryptionKeypair (P : Primitives) (identity : Bytes) :
    EncryptionKeyPair :=
  ⟨P.identityToStr identity, P.recipientToStr (P.toPublic identity)⟩

/-! ## Encryption -/

/-- What pyrage's argument conversion makes of a Python value. -/
def asStr : Json → Except Exn String
  | .str t => t.toString?.elim (.error .unicodeEncodeError) .ok
  | _ => .error .typeError

def encryptForRecipients (P : Primitives) (coins plaintext : Bytes)
    (recipientPublicKeys : List Json) : Except Exn Bytes := do
  let recipients ← recipientPublicKeys.mapM fun k => do
    P.recipientFromStr (← asStr k)
  P.ageEncrypt coins plaintext recipients

def decrypt (P : Primitives) (ciphertext : Bytes) (privateKey : String) :
    Except Exn Bytes := do
  P.ageDecrypt ciphertext (← P.identityFromStr privateKey)

/-! ## Signing -/

/-- `_digest` -/
def digest (P : Primitives) (plaintext : Bytes) : Bytes := P.sha256 plaintext

def sign (P : Primitives) (seed : String) (plaintext : Bytes) :
    Except Exn Bytes :=
  P.nkeysSign seed (digest P plaintext)

/-- `int.from_bytes(.., "little")` -/
def littleEndian : Bytes → ℕ
  | [] => 0
  | b :: bs => b.toNat + 0x100 * littleEndian bs

/-- `_decode_nkey_public` -/
def decodeNkeyPublic (P : Primitives) (publicKey : Text) :
    Except Exn Bytes := do
  let encoded ← (Utf8.encode publicKey).elim (.error .unicodeEncodeError) .ok
  let padding := List.replicate ((8 - encoded.length % 8) % 8) Base32.pad
  let raw ← (Base32.decode (encoded ++ padding)).elim
    (.error (.malformedNkey .notBase32)) .ok
  if raw.length ≠ 35 then
    .error (.malformedNkey (.unexpectedLength raw.length))
  else if littleEndian (raw.drop 33) ≠ (P.crc16 (raw.take 33)).toNat then
    .error (.malformedNkey .checksumMismatch)
  else if raw.head? ≠ some prefixByteUser then
    .error (.malformedNkey (.notUser (raw.headD 0).toNat))
  else .ok ((raw.take 33).drop 1)

/-- A signature that does not verify is `False`; everything else that goes
wrong escapes. -/
def verify (P : Primitives) (publicKey : Text) (plaintext signature : Bytes) :
    Except Exn Bool := do
  let key ← decodeNkeyPublic P publicKey
  match P.naclVerify key (digest P plaintext) signature with
  | .ok () => .ok true
  | .error .badSignatureError => .ok false
  | .error e => .error e

/-! ## The encoding that is decoded -/

def littleEndian16 (n : UInt16) : Bytes :=
  [UInt8.ofNat n.toNat, UInt8.ofNat (n.toNat / 0x100)]

/-- The text form of a user key, as nkeys writes it: prefix byte, key,
checksum, in base 32. -/
def nkeyPublic (P : Primitives) (key : Bytes) : String :=
  let body := prefixByteUser :: key
  Utf8.asciiString (Base32.encode (body ++ littleEndian16 (P.crc16 body)))

/-- `_keypair_from_seed` -/
def keypairFromSeed (P : Primitives) (seed : String) :
    Except Exn SigningKeyPair := do
  return ⟨seed, nkeyPublic P (← P.nkeysRawPublic seed)⟩

theorem littleEndian_littleEndian16 (n : UInt16) :
    littleEndian (littleEndian16 n) = n.toNat := by
  have hn := n.toNat_lt
  simp only [littleEndian, littleEndian16, UInt8.toNat_ofNat']
  omega

theorem littleEndian16_littleEndian {b : Bytes} {n : UInt16}
    (hb : b.length = 2) (h : littleEndian b = n.toNat) :
    littleEndian16 n = b := by
  match b, hb with
  | [x, y], _ =>
      have hx := x.toNat_lt
      have hy := y.toNat_lt
      simp only [littleEndian] at h
      have hlow : UInt8.ofNat n.toNat = x := by
        rw [← UInt8.toNat_inj, UInt8.toNat_ofNat']
        omega
      have hhigh : UInt8.ofNat (n.toNat / 0x100) = y := by
        rw [← UInt8.toNat_inj, UInt8.toNat_ofNat']
        omega
      rw [littleEndian16, hlow, hhigh]

/-- An encoding that decodes without the padding the decoder adds. -/
theorem eq_of_decode_padded {encoded raw : Bytes} {n : ℕ}
    (h : Base32.decode (encoded ++ List.replicate n Base32.pad) = some raw)
    (hlen : raw.length = 35) : encoded = Base32.encode raw := by
  have henc := Base32.encode_decode (k := 7) h (by omega) (by omega)
  have hn : n = 0 := by
    by_contra hne
    have hmem : Base32.pad ∈ Base32.encode raw := by
      rw [henc]
      exact List.mem_append_right _ (List.mem_replicate.mpr ⟨hne, rfl⟩)
    obtain ⟨d, hd, hpad⟩ := Base32.mem_encode hmem
    exact Base32.digit_ne_pad d hd hpad.symm
  rw [henc, hn, List.replicate_zero, List.append_nil]

theorem encode_inj {t u : Text} {b : Bytes} (ht : Utf8.encode t = some b)
    (hu : Utf8.encode u = some b) : t = u := by
  have h := (Utf8.decode_encode ht).symm.trans (Utf8.decode_encode hu)
  exact Option.some.inj h

theorem encode_nkeyPublic (P : Primitives) (key : Bytes) :
    Utf8.encode (Text.ofString (nkeyPublic P key)) =
      some (Base32.encode (prefixByteUser :: key ++
        littleEndian16 (P.crc16 (prefixByteUser :: key)))) := by
  refine Utf8.encode_asciiString fun x hx => ?_
  obtain ⟨n, hn, rfl⟩ := Base32.mem_encode hx
  exact Base32.digit_ascii n hn

/-- `_decode_nkey_public` is the inverse of nkeys' own encoding. -/
theorem decodeNkeyPublic_nkeyPublic (P : Primitives) {key : Bytes}
    (hkey : key.length = 32) :
    decodeNkeyPublic P (Text.ofString (nkeyPublic P key)) = .ok key := by
  generalize hbody : prefixByteUser :: key = body
  have hlen : body.length = 33 := by
    rw [← hbody, List.length_cons, hkey]
  generalize hraw : body ++ littleEndian16 (P.crc16 body) = raw
  have hrawlen : raw.length = 5 * 7 := by
    rw [← hraw, List.length_append, hlen]
    rfl
  have htake : raw.take 33 = body := by
    rw [← hraw, List.take_left' hlen]
  have hdrop : raw.drop 33 = littleEndian16 (P.crc16 body) := by
    rw [← hraw, List.drop_left' hlen]
  have hhead : raw.head? = some prefixByteUser := by
    rw [← hraw, ← hbody]
    rfl
  have henc : Utf8.encode (Text.ofString (nkeyPublic P key)) =
      some (Base32.encode raw) := by
    rw [encode_nkeyPublic, hbody, hraw]
  have hmod : (8 - (Base32.encode raw).length % 8) % 8 = 0 := by
    rw [Base32.length_encode raw 7 hrawlen]
  rw [decodeNkeyPublic, henc]
  simp only [Option.elim_some, hmod, List.replicate_zero, List.append_nil,
    Base32.decode_encode 7 hrawlen, bind, Except.bind]
  rw [if_neg (by omega), hdrop, htake, littleEndian_littleEndian16,
    if_neg (by simp), if_neg (by simp [hhead]), ← hbody]
  rfl

/-- Only the canonical text of a user key decodes. -/
theorem decodeNkeyPublic_eq_ok {P : Primitives} {publicKey : Text}
    {key : Bytes} : decodeNkeyPublic P publicKey = .ok key ↔
      key.length = 32 ∧ publicKey = Text.ofString (nkeyPublic P key) := by
  constructor
  · intro h
    obtain ⟨encoded, henc, h⟩ := bind_eq_ok.mp h
    obtain ⟨raw, hraw, h⟩ := bind_eq_ok.mp h
    rw [elim_ok_eq_ok] at henc hraw
    split at h
    · cases h
    · next hlen =>
        split at h
        · cases h
        · next hcrc =>
            split at h
            · cases h
            · next hhead =>
                rw [not_not] at hlen hcrc hhead
                cases h
                have hbody : prefixByteUser :: (raw.take 33).drop 1 =
                    raw.take 33 := by
                  match raw, hhead with
                  | x :: rest, hx =>
                      cases hx
                      rfl
                have htail := littleEndian16_littleEndian
                  (by rw [List.length_drop, hlen]) hcrc
                have hcode := eq_of_decode_padded hraw hlen
                refine ⟨by rw [List.length_drop, List.length_take, hlen]; rfl,
                  encode_inj (henc.trans (congrArg some hcode)) ?_⟩
                rw [encode_nkeyPublic, hbody, htail, List.take_append_drop]
  · rintro ⟨hkey, rfl⟩
    exact decodeNkeyPublic_nkeyPublic P hkey

end JetCore
