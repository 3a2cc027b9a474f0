import JetCore.Proofs.Envelope
import JetCore.Spec.Calls
import Mathlib.Data.Nat.Digits.Defs
import Mathlib.Logic.Function.Iterate

/-!
# One key of each kind

Concrete primitives, for the places where a general statement is applied to an
actual message. One X25519 identity, one user seed and two order payloads come
with the values the real libraries compute for them: the printed keys, the
digests, the signatures and the age ciphertexts. Away from these the functions
are stand-ins that keep what `Primitives.Genuine` asks for.

`text` does the same for the text layer: the compact JSON text, and one
timestamp in its ISO form. `client` is an adapter that holds all of these and
has registered its identity.
-/

namespace JetCore.Sample

open Lib

def identity : Bytes :=
  [1, 2, 3, 4, 5, 6, 7, 8, 9, 10, 11, 12, 13, 14, 15, 16, 17, 18, 19, 20,
   21, 22, 23, 24, 25, 26, 27, 28, 29, 30, 31, 32]

theorem isIdentity : IsIdentity identity := rfl

def identityText : String :=
  "AGE-SECRET-KEY-1QYPQXPQ9QCRSSZG2PVXQ6RS0ZQG3YYC5Z5TPWXQERGD3C8G7RUSQGPQYEE"

def recipient : Bytes :=
  [7, 163, 124, 188, 20, 32, 147, 200, 183, 85, 220, 27, 16, 232, 108, 180,
   38, 55, 74, 209, 106, 168, 83, 237, 11, 223, 192, 178, 184, 109, 28, 124]

def recipientText : String :=
  "age1q73he0q5yzfu3d64msd3p6rvksnrwjk3d2598mgtmlqt9wrdr37q2vrn72"

def seed : String :=
  "SUACCIRDEQSSMJZIFEVCWLBNFYXTAMJSGM2DKNRXHA4TUOZ4HU7D6QDZBM"

/-- The raw public key of `seed`. -/
def key : Bytes :=
  [231, 241, 98, 161, 11, 236, 85, 154, 254, 161, 149, 228, 220, 232, 75,
   105, 86, 141, 93, 44, 176, 150, 62, 180, 70, 192, 104, 94, 43, 23, 242,
   240]

def ascii (s : String) : Bytes := s.toList.map fun c => UInt8.ofNat c.toNat

/-- The randomness of both encryptions: the ephemeral key, the file key and
the nonce, one after the other. -/
def coins : Bytes := (List.range 64).map fun i => UInt8.ofNat (65 + i)

def header : Bytes :=
  ascii "age-encryption.org/v1\n-> X25519 " ++
  ascii "ZLEBsdC+WocEvQePmJUAH8A+jp+VIvGI3RKNmEbUhGY\n" ++
  ascii "3GxVfDsRKC+gk2yysNZ2DZ4DZgDzWg1YMGplT7RNRyk\n" ++
  ascii "--- LHyQ3eAlHvFFD468lnVYmyMnLnXtOVxN8syrqm9t40s\n"

/-- A payload with its digest, the seed's signature over that, and its
encryption to the recipient. -/
structure Signed where
  payload : Bytes
  digest : Bytes
  signature : Bytes
  ciphertext : Bytes

def tea : Signed where
  payload := ascii "\x7b\"orderId\": \"o-1\", \"item\": \"tea\"\x7d"
  digest :=
    [136, 58, 168, 51, 77, 86, 234, 0, 22, 248, 251, 8, 80, 219, 168, 126,
     250, 183, 34, 238, 44, 231, 137, 87, 190, 175, 74, 236, 62, 59, 190, 55]
  signature :=
    [89, 57, 189, 186, 207, 34, 241, 68, 31, 178, 105, 251, 252, 110, 221,
     248, 227, 194, 255, 35, 19, 73, 191, 100, 236, 95, 98, 74, 66, 111,
     146, 99, 74, 158, 194, 49, 128, 245, 175, 253, 183, 147, 1, 106, 37,
     203, 238, 64, 229, 221, 155, 69, 3, 203, 70, 86, 188, 78, 135, 75, 215,
     230, 119, 1]
  ciphertext := header ++
    [113, 114, 115, 116, 117, 118, 119, 120, 121, 122, 123, 124, 125, 126,
     127, 128, 214, 209, 207, 205, 92, 47, 174, 255, 240, 79, 54, 103, 97,
     228, 125, 64, 155, 161, 79, 123, 138, 86, 57, 115, 107, 30, 131, 87,
     43, 71, 147, 126, 23, 148, 224, 12, 239, 178, 82, 214, 90, 159, 249, 4,
     159, 88, 15, 249, 155]

def ale : Signed where
  payload := ascii "\x7b\"orderId\": \"o-1\", \"item\": \"ale\"\x7d"
  digest :=
    [199, 67, 157, 81, 152, 12, 47, 241, 142, 236, 247, 12, 119, 40, 243,
     51, 230, 4, 208, 226, 186, 82, 65, 223, 232, 232, 38, 28, 17, 245, 130,
     76]
  signature :=
    [143, 237, 29, 153, 10, 162, 22, 236, 84, 171, 179, 174, 40, 247, 83,
     105, 68, 148, 123, 79, 191, 11, 73, 47, 74, 181, 227, 3, 106, 134, 213,
     115, 119, 234, 122, 44, 173, 182, 77, 107, 226, 3, 194, 85, 159, 198,
     90, 239, 166, 156, 144, 139, 25, 234, 189, 151, 127, 158, 196, 138, 5,
     27, 145, 8]
  ciphertext := header ++
    [113, 114, 115, 116, 117, 118, 119, 120, 121, 122, 123, 124, 125, 126,
     127, 128, 214, 209, 207, 205, 92, 47, 174, 255, 240, 79, 54, 103, 97,
     228, 125, 64, 155, 161, 79, 123, 138, 86, 57, 115, 107, 30, 131, 87,
     62, 78, 151, 126, 23, 88, 138, 201, 192, 138, 112, 239, 12, 47, 62,
     169, 60, 235, 212, 206, 1]

def signed : List Signed := [tea, ale]

/-! ## The functions -/

/-- Prints `raw` as `text` and anything else in a form of its own. -/
def showAs (raw : Bytes) (text : String) (b : Bytes) : String :=
  if b = raw then text else String.ofList ('#' :: Base64.encodeList b)

def readAs (raw : Bytes) (text s : String) : Except Exn Bytes :=
  if s = text then .ok raw
  else
    match s.toList with
    | '#' :: cs => (Base64.decodeList cs 0 0 0).elim (.error .valueError) .ok
    | _ => .error .valueError

theorem readAs_showAs {raw : Bytes} {text : String}
    (htext : text.toList.head? ≠ some '#') (b : Bytes) :
    readAs raw text (showAs raw text b) = .ok b := by
  by_cases hb : b = raw
  · rw [showAs, if_pos hb, readAs, if_pos rfl, hb]
  · have hne : String.ofList ('#' :: Base64.encodeList b) ≠ text := by
      rintro rfl
      exact htext (by rw [String.toList_ofList]; rfl)
    rw [showAs, if_neg hb, readAs, if_neg hne, String.toList_ofList]
    simp only [Base64.decodeList_encodeList, Option.elim_some]

/-- CRC-16/XMODEM -/
def crc16 (b : Bytes) : UInt16 :=
  let shift (c : UInt16) : UInt16 :=
    if c &&& 0x8000 = 0 then c <<< 1 else (c <<< 1) ^^^ 0x1021
  b.foldl (fun (c : UInt16) (x : UInt8) =>
    Nat.iterate shift 8 (c ^^^ x.toUInt16 <<< 8)) 0

def sha256 (p : Bytes) : Bytes :=
  ((signed.find? fun s => s.payload = p).map Signed.digest).getD p

def signatureOf (message : Bytes) : Bytes :=
  ((signed.find? fun s => s.digest = message).map Signed.signature).getD message

def ageEncrypt (c plaintext : Bytes) (recipients : List Bytes) : Bytes :=
  if c = coins ∧ recipients = [recipient] then
    ((signed.find? fun s => s.payload = plaintext).map
      Signed.ciphertext).getD (0 :: plaintext)
  else 0 :: plaintext

def ageDecrypt (ciphertext i : Bytes) : Except Exn Bytes :=
  match ciphertext with
  | 0 :: plaintext => .ok plaintext
  | _ =>
      if i = identity then
        ((signed.find? fun s => s.ciphertext = ciphertext).map
          Signed.payload).elim (.error .decryptError) .ok
      else .error .decryptError

def primitives : Primitives where
  sha256 := sha256
  recipientFromStr := readAs recipient recipientText
  recipientToStr := showAs recipient recipientText
  identityFromStr := readAs identity identityText
  identityToStr := showAs identity identityText
  toPublic i :=
    if i = identity then recipient else if i = recipient then identity else i
  ageEncrypt c plaintext recipients := .ok (ageEncrypt c plaintext recipients)
  ageDecrypt := ageDecrypt
  nkeysRawPublic s := if s = seed then .ok key else .error .valueError
  nkeysSign s message :=
    if s = seed then .ok (signatureOf message) else .error .valueError
  crc16 := crc16
  naclVerify k message signature :=
    if k = key ∧ signature = signatureOf message then .ok ()
    else .error .badSignatureError
  strOf _ := []

theorem tea_ne_ale : tea.payload ≠ ale.payload ∧ tea.digest ≠ ale.digest ∧
    tea.signature ≠ ale.signature ∧ tea.ciphertext ≠ ale.ciphertext := by
  decide +kernel

theorem ageDecrypt_signed {s : Signed} (h : s ∈ signed) :
    ageDecrypt s.ciphertext identity = .ok s.payload := by
  have hhead : ∀ s ∈ signed, s.ciphertext.head? = some 0x61 := by decide +kernel
  have hfind : ∀ s ∈ signed, (signed.find? fun t =>
      t.ciphertext = s.ciphertext).map Signed.payload = some s.payload := by
    decide +kernel
  have hs := hhead s h
  rw [ageDecrypt.eq_def]
  split
  · next p hp =>
      rw [hp] at hs
      cases hs
  · rw [if_pos rfl, hfind s h]
    rfl

theorem ageDecrypt_ageEncrypt {c plaintext : Bytes} {recipients : List Bytes}
    {i : Bytes} (hi : recipients = [recipient] → i = identity) :
    ageDecrypt (ageEncrypt c plaintext recipients) i = .ok plaintext := by
  rw [ageEncrypt]
  split
  · next h =>
      obtain rfl := hi h.2
      cases hfind : signed.find? fun s => s.payload = plaintext with
      | none => rfl
      | some s =>
          have hpayload : s.payload = plaintext := by
            simpa using List.find?_some hfind
          rw [← hpayload]
          exact ageDecrypt_signed (List.mem_of_find?_eq_some hfind)
  · rfl

theorem genuine : primitives.Genuine where
  recipient_parse i _ := readAs_showAs (by decide) _
  identity_parse i _ := readAs_showAs (by decide) i
  encrypts _ _ _ _ _ := ⟨_, rfl⟩
  decrypts := by
    intro c plaintext recipients ciphertext i _ henc hmem
    cases henc
    refine ageDecrypt_ageEncrypt fun hrec => ?_
    rw [hrec, List.mem_singleton] at hmem
    simp only [primitives] at hmem
    split at hmem
    · next h => exact h
    · split at hmem
      · exact absurd hmem (by decide)
      · next h => exact absurd hmem h
  key_length := by
    intro s k h
    simp only [primitives] at h
    split at h
    · cases h
      rfl
    · cases h
  verifies := by
    intro s k message h
    simp only [primitives] at h ⊢
    split at h
    · next hs =>
        cases h
        exact ⟨signatureOf message, by rw [if_pos hs], by rw [if_pos ⟨rfl, rfl⟩]⟩
    · cases h

/-! ## The same for several recipients

A stand-in for age that is for somebody: the file says who can read it. -/

def toPublic (i : Bytes) : Bytes :=
  if i = identity then recipient else if i = recipient then identity else i

def sealedText (plaintext : Bytes) (recipients : List Bytes) : Json :=
  .arr (Json.string (Base64.encode plaintext) ::
    recipients.map fun r => Json.string (Base64.encode r))

def sealedEncrypt (c plaintext : Bytes) (recipients : List Bytes) : Bytes :=
  match signed.find? fun s => s.payload = plaintext with
  | some s =>
      if c = coins ∧ recipients = [recipient] then s.ciphertext
      else 0 :: Json.dumps (sealedText plaintext recipients)
  | none => 0 :: Json.dumps (sealedText plaintext recipients)

def isString (s : String) : Json → Bool
  | .str t => t = Text.ofString s
  | _ => false

/-- What is sealed, for one of its recipients. -/
def openSealed (i : Bytes) : Json → Except Exn Bytes
  | .arr (.str plaintext :: recipients) =>
      if recipients.any (isString (Base64.encode (toPublic i))) then
        match plaintext.toString?.map Base64.decode with
        | some (.ok b) => .ok b
        | _ => .error .decryptError
      else .error .decryptError
  | _ => .error .decryptError

def sealedDecrypt (ciphertext i : Bytes) : Except Exn Bytes :=
  match ciphertext with
  | 0 :: rest =>
      match Json.loads rest with
      | .ok v => openSealed i v
      | .error _ => .error .decryptError
  | _ => ageDecrypt ciphertext i

def sealedPrimitives : Primitives := { primitives with
  toPublic := toPublic
  ageEncrypt c plaintext recipients :=
    .ok (sealedEncrypt c plaintext recipients)
  ageDecrypt := sealedDecrypt }

theorem toPublic_eq_recipient {i : Bytes} : toPublic i = recipient ↔
    i = identity := by
  rw [toPublic]
  split
  · next h => exact iff_of_true rfl h
  · next hne =>
      refine iff_of_false (fun h => ?_) hne
      split at h
      · exact absurd h (by decide)
      · next hne' => exact hne' h

theorem plain_sealedText (plaintext : Bytes) (recipients : List Bytes) :
    Json.Plain (sealedText plaintext recipients) := by
  refine Json.plain_arr fun j hj => ?_
  rcases List.mem_cons.mp hj with rfl | hj
  · exact Json.plain_string _
  · obtain ⟨r, -, rfl⟩ := List.mem_map.mp hj
    exact Json.plain_string _

theorem base64_injective {b b' : Bytes}
    (h : Base64.encode b = Base64.encode b') : b = b' := by
  have hdecode := congrArg Base64.decode h
  rw [Base64.decode_encode, Base64.decode_encode] at hdecode
  exact Except.ok.inj hdecode

theorem sealedDecrypt_sealed (plaintext : Bytes) (recipients : List Bytes)
    (i : Bytes) :
    sealedDecrypt (0 :: Json.dumps (sealedText plaintext recipients)) i =
      if toPublic i ∈ recipients then .ok plaintext
      else .error .decryptError := by
  have hmem : (recipients.map fun r => Json.string (Base64.encode r)).any
      (isString (Base64.encode (toPublic i))) = true ↔
      toPublic i ∈ recipients := by
    rw [List.any_map, List.any_eq_true]
    constructor
    · rintro ⟨r, hr, heq⟩
      have hstring := Text.ofString_injective (of_decide_eq_true heq)
      exact base64_injective hstring ▸ hr
    · intro h
      exact ⟨_, h, decide_eq_true rfl⟩
  rw [sealedDecrypt, Json.loads_dumps (plain_sealedText _ _)]
  show openSealed i (.arr (.str (Text.ofString (Base64.encode plaintext)) :: _)) =
    _
  simp only [openSealed, hmem, Text.toString?_ofString, Option.map_some,
    Base64.decode_encode]

/-- A ciphertext age made is none of the stand-in's. -/
theorem sealedDecrypt_signed {s : Signed} (h : s ∈ signed) (i : Bytes) :
    sealedDecrypt s.ciphertext i =
      if i = identity then .ok s.payload else .error .decryptError := by
  have hhead : ∀ s ∈ signed, s.ciphertext.head? = some 0x61 := by decide +kernel
  have hs := hhead s h
  have hreal : sealedDecrypt s.ciphertext i = ageDecrypt s.ciphertext i := by
    rw [sealedDecrypt.eq_def]
    split
    · next rest hrest =>
        rw [hrest] at hs
        cases hs
    · rfl
  rw [hreal]
  split
  · next hi => rw [hi, ageDecrypt_signed h]
  · next hi =>
      rw [ageDecrypt.eq_def]
      split
      · next rest hrest =>
          rw [hrest] at hs
          cases hs
      · exact if_neg hi

/-- Who is listed decrypts, and who is not does not. -/
theorem sealedDecrypt_sealedEncrypt (c plaintext : Bytes)
    (recipients : List Bytes) (i : Bytes) :
    sealedDecrypt (sealedEncrypt c plaintext recipients) i =
      if toPublic i ∈ recipients then .ok plaintext
      else .error .decryptError := by
  rw [sealedEncrypt]
  split
  · next s hfind =>
      have hpayload : s.payload = plaintext := by
        simpa using List.find?_some hfind
      split
      · next h =>
          rw [sealedDecrypt_signed (List.mem_of_find?_eq_some hfind), h.2,
            hpayload]
          simp only [List.mem_singleton, toPublic_eq_recipient]
      · exact sealedDecrypt_sealed plaintext recipients i
  · exact sealedDecrypt_sealed plaintext recipients i

theorem sealed_genuine : sealedPrimitives.Genuine := { genuine with
  recipient_parse := fun _ _ => readAs_showAs (by decide) _
  encrypts := fun _ _ _ _ _ => ⟨_, rfl⟩
  decrypts := by
    intro c plaintext recipients ciphertext i _ henc hmem
    cases henc
    exact (sealedDecrypt_sealedEncrypt c plaintext recipients i).trans
      (if_pos hmem) }

/-! ## The text layer -/

/-- 2026-01-01 00:00 UTC -/
def newYear : DateTime := 63902822400000000

def newYearText : String := "2026-01-01T00:00:00Z"

def dumpDatetime (d : DateTime) : Json :=
  if d = newYear then Json.string newYearText else .int d.val

def parseDatetime : Json → Except Exn DateTime
  | .str t =>
      if t = Text.ofString newYearText then .ok newYear
      else .error .validationError
  | .int n =>
      if h : n.toNat < 315537897600000000 then .ok ⟨n.toNat, h⟩
      else .error .validationError
  | _ => .error .validationError

def text : Pydantic := compactPydantic dumpDatetime parseDatetime

theorem faithful : text.Faithful := by
  refine compactPydantic_faithful (fun d => ?_) fun d => ?_
  · rw [dumpDatetime]
    split
    · exact Json.plain_string _
    · have hlt : d.val < 10 ^ 18 := by
        have := d.isLt
        omega
      show (Nat.toDigits 10 d.val).length ≤ Json.maxIntDigits
      have := Nat.toDigits_length 10 d.val 18 (by omega) hlt
      rw [Json.maxIntDigits]
      omega
  · rw [dumpDatetime]
    split
    · next h =>
        rw [Json.string, parseDatetime, if_pos rfl, h]
    · simp only [parseDatetime, Int.toNat_natCast, d.isLt, dif_pos]

/-! ## A client -/

def client : BusClient where
  serviceId := "rest-api-service-01"
  encryptionKeypair := generateEncryptionKeypair primitives identity
  signingSeed := seed
  signingPublicKey := nkeyPublic primitives key
  subscriptions := Dict.empty.set "orders" "events.orders.OrderCreated"

theorem rawPublic :
    primitives.nkeysRawPublic client.signingSeed = .ok key := by
  simp only [primitives, client, if_true]

def identities (s : String) : Except Exn (Option Bytes) :=
  if s = client.serviceId then
    .ok (some (identityValue client.serviceId "rest-api-service"
      client.signingPublicKey "2026-01-01T00:00:00+00:00"))
  else .error .keyNotFoundError

theorem registered : lookupSigningKey primitives identities client.serviceId =
    .ok (some (Text.ofString (nkeyPublic primitives key))) :=
  lookupSigningKey_identityValue primitives (if_pos rfl)

def recipients : List Json := [Json.string client.encryptionKeypair.publicKey]

def draws : Draws where
  coins := coins
  built := ⟨"019b76da-a800-7000-8000-000000000001", newYear⟩
  parsed := ⟨"019b76da-a801-7000-8000-000000000002", newYear⟩

def order (s : Signed) : PublishArgs where
  subject := "events.orders.OrderCreated"
  payload := s.payload
  eventType := "OrderCreated"

/-- An order under a caller's key, as `create_order` publishes it. -/
def orderCall (key : Option String) : Call where
  client := client
  recipients := recipients
  draws := draws
  now := 0
  args := { order tea with msgId := key }

/-- An empty stream with a two minute duplicate window. -/
def world : World where
  stream := { duplicateWindow := 120000000000 }

end JetCore.Sample
