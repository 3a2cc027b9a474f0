import JetCore.Ref.Crypto

/-!
# One text for each nkey

A user key is printed as 56 characters of the base 32 alphabet, and
`_decode_nkey_public` reads that text and no other one: neither lower case nor
padding, and no text whose last character holds bits that are not the key's.
What it does not read it refuses with a `ValueError`, a text without a UTF-8
encoding included. Nothing is asked of the checksum.
-/

namespace JetCore

open Lib

def base32Alphabet : List Char := "ABCDEFGHIJKLMNOPQRSTUVWXYZ234567".toList

theorem digit_mem_alphabet : ∀ n < 32,
    Char.ofNat (Base32.digit n).toNat ∈ base32Alphabet := by decide

/-- Neither lower case nor padding. -/
theorem nkeyPublic_chars (P : Primitives) (key : Bytes) :
    ∀ c ∈ (nkeyPublic P key).toList, c ∈ base32Alphabet := by
  intro c hc
  rw [nkeyPublic, Utf8.asciiString, String.toList_ofList] at hc
  obtain ⟨x, hx, rfl⟩ := List.mem_map.mp hc
  obtain ⟨n, hn, rfl⟩ := Base32.mem_encode hx
  exact digit_mem_alphabet n hn

theorem nkeyPublic_length (P : Primitives) {key : Bytes}
    (hkey : key.length = 32) : (nkeyPublic P key).toList.length = 56 := by
  have hraw : (prefixByteUser :: key ++ littleEndian16
      (P.crc16 (prefixByteUser :: key))).length = 5 * 7 := by
    rw [List.length_append, List.length_cons, hkey]
    rfl
  rw [nkeyPublic, Utf8.asciiString, String.toList_ofList, List.length_map,
    Base32.length_encode _ 7 hraw]

/-- Of the five ways out of `_decode_nkey_public` the four that raise. -/
theorem decodeNkeyPublic_error {P : Primitives} {publicKey : Text} {e : Exn}
    (h : decodeNkeyPublic P publicKey = .error e) :
    e.isValueError = true := by
  rw [decodeNkeyPublic] at h
  cases henc : Utf8.encode publicKey with
  | none =>
      rw [henc] at h
      cases h
      rfl
  | some encoded =>
      rw [henc] at h
      simp only [Option.elim_some, bind, Except.bind] at h
      split at h
      · next e' hraw =>
          cases h
          rw [(elim_ok_eq_error hraw).symm]
          rfl
      · split at h
        · cases h
          rfl
        · split at h
          · cases h
            rfl
          · split at h
            · cases h
              rfl
            · cases h

/-- Decoding is the inverse of printing, in both directions, and total up to
`ValueError`. -/
theorem nkeyText_inverse (P : Primitives) :
    (∀ key : Bytes, key.length = 32 →
      decodeNkeyPublic P (Text.ofString (nkeyPublic P key)) = .ok key ∧
      (nkeyPublic P key).toList.length = 56 ∧
      ∀ c ∈ (nkeyPublic P key).toList, c ∈ base32Alphabet) ∧
    ∀ publicKey : Text,
      (∃ key, key.length = 32 ∧
        publicKey = Text.ofString (nkeyPublic P key) ∧
        decodeNkeyPublic P publicKey = .ok key) ∨
      ∃ e, decodeNkeyPublic P publicKey = .error e ∧
        e.isValueError = true := by
  refine ⟨fun key hkey => ⟨decodeNkeyPublic_nkeyPublic P hkey,
    nkeyPublic_length P hkey, nkeyPublic_chars P key⟩, fun publicKey => ?_⟩
  cases hdec : decodeNkeyPublic P publicKey with
  | ok key =>
      obtain ⟨hkey, htext⟩ := decodeNkeyPublic_eq_ok.mp hdec
      exact .inl ⟨key, hkey, htext, rfl⟩
  | error e => exact .inr ⟨e, rfl, decodeNkeyPublic_error hdec⟩

end JetCore
