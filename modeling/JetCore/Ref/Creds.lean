import JetCore.Lib.Pattern
import JetCore.Ref.Crypto
import Mathlib.Data.List.DropRight

/-!
# `creds.py`: the signing key of a credentials file

What is read of the file is its bytes. The pattern is compiled for bytes too, so
that its classes are classes of bytes.
-/

namespace JetCore

open Lib

inductive CredsError where
  /-- `CredsParseError`: "no USER NKEY SEED block found in {creds_path}" -/
  | credsParseError
  | raised (e : Exn)
  deriving DecidableEq

namespace Creds

/-- The bytes of an ASCII literal. -/
def literal (s : String) : Bytes := s.toList.map fun c => UInt8.ofNat c.toNat

def dash : UInt8 := 0x2D

def carriageReturn : UInt8 := 0x0D

def newline : UInt8 := 0x0A

def isBlank (x : UInt8) : Bool := x = 0x20 || x = 0x09

def beginMarker : Bytes := literal "BEGIN USER NKEY SEED"

def endMarker : Bytes := literal "END USER NKEY SEED"

/-- `-+` -/
def dashes : Item UInt8 where
  has x := x = dash

/-- `[ \t]*` -/
def blanks : Item UInt8 where
  has := isBlank
  low := 0

/-- `\r?` -/
def carriageReturns : Item UInt8 where
  has x := x = carriageReturn
  low := 0
  high := some 1

/-- `(?P<seed>[^\r\n]+)` -/
def seedLine : Item UInt8 where
  has x := x ≠ carriageReturn && x ≠ newline
  captured := true

/-- `_SEED_BLOCK` -/
def seedBlock : Pattern UInt8 :=
  dashes :: (Pattern.word beginMarker ++
    dashes :: blanks :: carriageReturns :: Item.one newline ::
      seedLine :: carriageReturns :: Item.one newline ::
        dashes :: (Pattern.word endMarker ++ [dashes]))

/-- `str.isspace`, of one character -/
def isSpace (c : Char) : Bool :=
  let n := c.toNat
  (0x09 ≤ n && n ≤ 0x0D) || (0x1C ≤ n && n ≤ 0x20) || n = 0x85 || n = 0xA0 ||
    n = 0x1680 || (0x2000 ≤ n && n ≤ 0x200A) || n = 0x2028 || n = 0x2029 ||
    n = 0x202F || n = 0x205F || n = 0x3000

/-- `str.strip` -/
def strip (s : String) : String :=
  String.ofList ((s.toList.dropWhile isSpace).rdropWhile isSpace)

/-- What is made of the group: `.decode().strip()`, and the key pair. -/
def keypairOf (P : Primitives) (seed : Bytes) :
    Except CredsError SigningKeyPair :=
  match (Utf8.decode seed).bind Text.toString? with
  | none => .error (.raised .unicodeDecodeError)
  | some text => (keypairFromSeed P (strip text)).mapError .raised

/-- `load_signing_keypair`, of what `read_bytes` has returned -/
def loadSigningKeypair (P : Primitives) (data : Bytes) :
    Except CredsError SigningKeyPair :=
  match seedBlock.search data with
  | none => .error .credsParseError
  | some captured => keypairOf P (captured.headD [])

end Creds

end JetCore
