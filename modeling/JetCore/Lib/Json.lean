import JetCore.Lib.Text

/-!
# JSON values, their rendering and their scanner

The value type keeps what a scripting runtime's JSON module keeps: integers
and decimal literals apart, object members in source order with repeats, so
that "last one wins" is a lookup rule (`Json.get?`) and not a loss in parsing.
A decimal literal is its mantissa and exponent as written, and the three
non-finite literals that module accepts are there too.

`render` writes a value in one of the usual styles: with or without a blank
after the separators, with or without escaping everything outside ASCII. The
scanner is the recursive descent the same module runs: `scanValue` dispatches
on the first character and never skips blanks before it, the container loops
skip them around their punctuation, and strings join a surrogate pair written
as two escapes. The fuel counts the calls of these functions, of which there
are two at most for a character, and it does not run out
(`parse_fuel_irrelevant`).

A runtime bounds how many arrays and objects the scanner can be in at a time,
and refuses the text as soon as one more begins. That bound is `limit`; without
one nesting is left out of account.

`loads` is the whole reading of a byte string: guess the encoding from the
byte-order mark or the zero bytes, decode letting surrogates pass, scan one
value between blanks. Its four failures are four different exceptions.
-/

namespace Lib

/-- A number literal that is not an integer: `mantissa * 10 ^ exponent`, or one
of the non-finite literals. -/
inductive Decimal where
  | dec (mantissa exponent : ℤ)
  | nan
  | infinity (negative : Bool)
  deriving DecidableEq

inductive Json where
  | null
  | bool (b : Bool)
  | int (n : ℤ)
  | float (d : Decimal)
  | str (s : Text)
  | arr (items : List Json)
  | obj (fields : List (Text × Json))

namespace Json

/-- The value a member lookup finds: of repeated members the last. -/
def get? (fields : List (Text × Json)) (k : Text) : Option Json :=
  (fields.reverse.find? fun f => f.1 = k).map Prod.snd

/-- A string value holding a string of scalar values. -/
def string (s : String) : Json := .str (Text.ofString s)

/-- An object whose members all have scalar-value names. -/
def object (fields : List (String × Json)) : Json :=
  .obj (fields.map fun f => (Text.ofString f.1, f.2))

/-- Looking a name up among members with scalar-value names. -/
theorem get?_object (fields : List (String × Json)) (k : String) :
    get? (fields.map fun f => (Text.ofString f.1, f.2)) (Text.ofString k) =
      (fields.reverse.find? fun f => f.1 = k).map Prod.snd := by
  rw [get?, ← List.map_reverse, List.find?_map, Option.map_map]
  have hkey : ((fun f : Text × Json => decide (f.1 = Text.ofString k)) ∘
      fun f : String × Json => (Text.ofString f.1, f.2)) =
      fun f => decide (f.1 = k) := by
    funext f
    have hiff : Text.ofString f.1 = Text.ofString k ↔ f.1 = k :=
      ⟨Text.ofString_injective, fun h => by rw [h]⟩
    simp only [Function.comp_apply, hiff]
  rw [hkey]
  rfl

/-! ## Rendering -/

def chr (c : Char) : CodePoint := Text.ofChar c

structure Style where
  /-- A blank after `,` and `:`. -/
  spaced : Bool
  /-- Everything outside printable ASCII escaped. -/
  ascii : Bool

def hexDigit (n : ℕ) : CodePoint :=
  if h : n < 10 then ⟨0x30 + n, by omega⟩
  else if h : n < 16 then ⟨0x57 + n, by omega⟩ else chr '0'

def unicodeEscape (v : ℕ) : Text :=
  [chr '\\', chr 'u', hexDigit (v / 0x1000), hexDigit (v / 0x100 % 0x10),
    hexDigit (v / 0x10 % 0x10), hexDigit (v % 0x10)]

def escapePoint (ascii : Bool) (c : CodePoint) : Text :=
  if c = chr '"' then [chr '\\', chr '"']
  else if c = chr '\\' then [chr '\\', chr '\\']
  else if c.val = 0x0A then [chr '\\', chr 'n']
  else if c.val = 0x0D then [chr '\\', chr 'r']
  else if c.val = 0x09 then [chr '\\', chr 't']
  else if c.val = 0x08 then [chr '\\', chr 'b']
  else if c.val = 0x0C then [chr '\\', chr 'f']
  else if c.val < 0x20 ∨ (ascii = true ∧ 0x7F ≤ c.val) then
    if c.val < 0x10000 then unicodeEscape c.val
    else unicodeEscape (0xD800 + (c.val - 0x10000) / 0x400) ++
      unicodeEscape (0xDC00 + (c.val - 0x10000) % 0x400)
  else [c]

def quote (ascii : Bool) (t : Text) : Text :=
  chr '"' :: (t.flatMap (escapePoint ascii) ++ [chr '"'])

/-- Decimal digits, most significant first. -/
def digits (n : ℕ) : Text := (Nat.toDigits 10 n).map chr

def renderInt : ℤ → Text
  | .ofNat n => digits n
  | .negSucc n => chr '-' :: digits (n + 1)

def renderDecimal : Decimal → Text
  | .dec m e => renderInt m ++ chr 'e' :: renderInt e
  | .nan => Text.ofString "NaN"
  | .infinity false => Text.ofString "Infinity"
  | .infinity true => Text.ofString "-Infinity"

def Style.gap (st : Style) : Text := if st.spaced then [chr ' '] else []

mutual

def render (st : Style) : Json → Text
  | .null => Text.ofString "null"
  | .bool true => Text.ofString "true"
  | .bool false => Text.ofString "false"
  | .int n => renderInt n
  | .float d => renderDecimal d
  | .str s => quote st.ascii s
  | .arr [] => [chr '[', chr ']']
  | .arr (x :: xs) => chr '[' :: (render st x ++ renderItems st xs)
  | .obj [] => [chr '{', chr '}']
  | .obj ((k, v) :: fs) =>
      chr '{' :: (quote st.ascii k ++ chr ':' :: (st.gap ++
        (render st v ++ renderFields st fs)))

/-- The items after the first, and the closing bracket. -/
def renderItems (st : Style) : List Json → Text
  | [] => [chr ']']
  | x :: xs => chr ',' :: (st.gap ++ (render st x ++ renderItems st xs))

/-- The members after the first, and the closing brace. -/
def renderFields (st : Style) : List (Text × Json) → Text
  | [] => [chr '}']
  | (k, v) :: fs =>
      chr ',' :: (st.gap ++ (quote st.ascii k ++ chr ':' :: (st.gap ++
        (render st v ++ renderFields st fs))))

end

/-! ## The scanner -/

/-- Why a text is not read: bad syntax, an integer literal longer than the
runtime converts, or more containers around a value than it can be in. -/
inductive Failure where
  | badSyntax
  | tooManyDigits
  | tooDeep
  deriving DecidableEq

abbrev Scan (β : Type) := Except Failure (β × Text)

def isBlank (c : CodePoint) : Bool :=
  c.val = 0x20 || c.val = 0x09 || c.val = 0x0A || c.val = 0x0D

def skipBlanks (t : Text) : Text := t.dropWhile isBlank

def isDigit (c : CodePoint) : Bool := 0x30 ≤ c.val && c.val ≤ 0x39

def hexVal (c : CodePoint) : Option ℕ :=
  if isDigit c then some (c.val - 0x30)
  else if 0x61 ≤ c.val ∧ c.val ≤ 0x66 then some (c.val - 0x57)
  else if 0x41 ≤ c.val ∧ c.val ≤ 0x46 then some (c.val - 0x37)
  else none

def hex4 : Text → Option (ℕ × Text)
  | a :: b :: c :: d :: rest =>
      match hexVal a, hexVal b, hexVal c, hexVal d with
      | some a, some b, some c, some d =>
          some (a * 0x1000 + b * 0x100 + c * 0x10 + d, rest)
      | _, _, _, _ => none
  | _ => none

def point (v : ℕ) : CodePoint := if h : v < 0x110000 then ⟨v, h⟩ else 0

/-- What follows `\u`: one code unit, or two that join when a high surrogate
is followed by the escape of a low one. -/
def scanUnicode (t : Text) : Option (CodePoint × Text) :=
  (hex4 t).map fun (hi, rest) =>
    if 0xD800 ≤ hi ∧ hi < 0xDC00 then
      match rest with
      | a :: b :: rest' =>
          if a = chr '\\' ∧ b = chr 'u' then
            match hex4 rest' with
            | some (lo, rest'') =>
                if 0xDC00 ≤ lo ∧ lo < 0xE000 then
                  (point (0x10000 + (hi - 0xD800) * 0x400 + (lo - 0xDC00)), rest'')
                else (point hi, rest)
            | none => (point hi, rest)
          else (point hi, rest)
      | _ => (point hi, rest)
    else (point hi, rest)

def unescape (c : CodePoint) : Option CodePoint :=
  if c = chr '"' then some (chr '"')
  else if c = chr '\\' then some (chr '\\')
  else if c = chr '/' then some (chr '/')
  else if c = chr 'b' then some 0x08
  else if c = chr 'f' then some 0x0C
  else if c = chr 'n' then some 0x0A
  else if c = chr 'r' then some 0x0D
  else if c = chr 't' then some 0x09
  else none

/-- One character of a string body; `none` is the closing quote. -/
def scanChar : Text → Scan (Option CodePoint)
  | [] => .error .badSyntax
  | c :: rest =>
      if c = chr '"' then .ok (none, rest)
      else if c = chr '\\' then
        match rest with
        | [] => .error .badSyntax
        | e :: rest' =>
            if e = chr 'u' then
              match scanUnicode rest' with
              | some (p, r) => .ok (some p, r)
              | none => .error .badSyntax
            else
              match unescape e with
              | some p => .ok (some p, rest')
              | none => .error .badSyntax
      else if c.val < 0x20 then .error .badSyntax
      else .ok (some c, rest)

/-- The rest of a string after its opening quote. -/
def scanString : ℕ → Text → Scan Text
  | 0, _ => .error .badSyntax
  | fuel + 1, t =>
      match scanChar t with
      | .error e => .error e
      | .ok (none, rest) => .ok ([], rest)
      | .ok (some c, rest) =>
          match scanString fuel rest with
          | .error e => .error e
          | .ok (s, rest') => .ok (c :: s, rest')

def natOfDigits (ds : Text) : ℕ :=
  ds.foldl (fun n c => n * 10 + (c.val - 0x30)) 0

/-- The default limit on the digits of an integer literal. -/
def maxIntDigits : ℕ := 4300

/-- The exponent part, when there is one: its value and what follows. -/
def scanExponent (t : Text) : Option (ℤ × Text) :=
  match t with
  | e :: rest =>
      if e = chr 'e' ∨ e = chr 'E' then
        match rest with
        | s :: rest' =>
            let signed := s = chr '-' ∨ s = chr '+'
            let ds := (if signed then rest' else rest).span isDigit
            if ds.1 = [] then none
            else if s = chr '-' then some (-(natOfDigits ds.1 : ℤ), ds.2)
            else some ((natOfDigits ds.1 : ℤ), ds.2)
        | [] => none
      else none
  | [] => none

/-- The fraction part, when there is one: its digits and what follows. -/
def scanFraction (t : Text) : Option (Text × Text) :=
  match t with
  | p :: rest =>
      if p = chr '.' then
        let ds := rest.span isDigit
        if ds.1 = [] then none else some ds
      else none
  | [] => none

/-- A number, from its first character on. A leading zero ends the integer
part. -/
def scanNumber (t : Text) : Scan Json :=
  let negative := t.head? = some (chr '-')
  let body := if negative then t.tail else t
  let all := body.span isDigit
  let int := if body.head? = some (chr '0') then ([chr '0'], body.tail) else all
  if int.1 = [] then .error .badSyntax
  else
    let signed : ℕ → ℤ := fun n => if negative then -(n : ℤ) else n
    match scanFraction int.2 with
    | some (frac, rest) =>
        let m := signed (natOfDigits (int.1 ++ frac))
        match scanExponent rest with
        | some (e, rest') => .ok (.float (.dec m (e - frac.length)), rest')
        | none => .ok (.float (.dec m (-frac.length)), rest)
    | none =>
        match scanExponent int.2 with
        | some (e, rest) => .ok (.float (.dec (signed (natOfDigits int.1)) e), rest)
        | none =>
            if maxIntDigits < int.1.length then .error .tooManyDigits
            else .ok (.int (signed (natOfDigits int.1)), int.2)

/-- A literal: the characters of `word`, then `v`. -/
def scanWord (word : String) (v : Json) (t : Text) : Scan Json :=
  if (Text.ofString word).isPrefixOf t then .ok (v, t.drop word.length)
  else .error .badSyntax

/-- The limit inside of one more container. -/
def enter : (limit : Option ℕ) → Option (Option ℕ)
  | none => some none
  | some 0 => none
  | some (n + 1) => some (some n)

mutual

def scanValue (limit : Option ℕ) : ℕ → Text → Scan Json
  | 0, _ => .error .badSyntax
  | _ + 1, [] => .error .badSyntax
  | fuel + 1, c :: rest =>
      if c = chr '"' then
        match scanString (rest.length + 1) rest with
        | .error e => .error e
        | .ok (s, rest') => .ok (.str s, rest')
      else if c = chr '{' then
        match enter limit with
        | none => .error .tooDeep
        | some inner =>
            match skipBlanks rest with
            | [] => .error .badSyntax
            | d :: rest' =>
                if d = chr '}' then .ok (.obj [], rest')
                else
                  match scanFields inner fuel (d :: rest') with
                  | .error e => .error e
                  | .ok (fs, rest'') => .ok (.obj fs, rest'')
      else if c = chr '[' then
        match enter limit with
        | none => .error .tooDeep
        | some inner =>
            match skipBlanks rest with
            | [] => .error .badSyntax
            | d :: rest' =>
                if d = chr ']' then .ok (.arr [], rest')
                else
                  match scanItems inner fuel (d :: rest') with
                  | .error e => .error e
                  | .ok (xs, rest'') => .ok (.arr xs, rest'')
      else if c = chr 'n' then scanWord "null" .null (c :: rest)
      else if c = chr 't' then scanWord "true" (.bool true) (c :: rest)
      else if c = chr 'f' then scanWord "false" (.bool false) (c :: rest)
      else if c = chr 'N' then scanWord "NaN" (.float .nan) (c :: rest)
      else if c = chr 'I' then
        scanWord "Infinity" (.float (.infinity false)) (c :: rest)
      else if c = chr '-' ∧ rest.head? = some (chr 'I') then
        scanWord "-Infinity" (.float (.infinity true)) (c :: rest)
      else scanNumber (c :: rest)

/-- The items of an array, from the first character of one on. -/
def scanItems (limit : Option ℕ) : ℕ → Text → Scan (List Json)
  | 0, _ => .error .badSyntax
  | fuel + 1, t =>
      match scanValue limit fuel t with
      | .error e => .error e
      | .ok (x, rest) =>
          match skipBlanks rest with
          | [] => .error .badSyntax
          | d :: rest' =>
              if d = chr ']' then .ok ([x], rest')
              else if d = chr ',' then
                match scanItems limit fuel (skipBlanks rest') with
                | .error e => .error e
                | .ok (xs, rest'') => .ok (x :: xs, rest'')
              else .error .badSyntax

/-- The members of an object, from the opening quote of a name on. -/
def scanFields (limit : Option ℕ) : ℕ → Text → Scan (List (Text × Json))
  | 0, _ => .error .badSyntax
  | _ + 1, [] => .error .badSyntax
  | fuel + 1, q :: t =>
      if q = chr '"' then
        match scanString (t.length + 1) t with
        | .error e => .error e
        | .ok (k, rest) =>
            match skipBlanks rest with
            | [] => .error .badSyntax
            | d :: rest' =>
                if d = chr ':' then
                  match scanValue limit fuel (skipBlanks rest') with
                  | .error e => .error e
                  | .ok (v, rest'') =>
                      match skipBlanks rest'' with
                      | [] => .error .badSyntax
                      | d' :: rest3 =>
                          if d' = chr '}' then .ok ([(k, v)], rest3)
                          else if d' = chr ',' then
                            match scanFields limit fuel (skipBlanks rest3) with
                            | .error e => .error e
                            | .ok (fs, rest4) => .ok ((k, v) :: fs, rest4)
                          else .error .badSyntax
                else .error .badSyntax
      else .error .badSyntax

end

/-- One value, blanks around it, and nothing else. -/
def parse (t : Text) (limit : Option ℕ := none) : Except Failure Json :=
  match scanValue limit (2 * t.length + 1) (skipBlanks t) with
  | .error e => .error e
  | .ok (v, rest) =>
      if skipBlanks rest = [] then .ok v else .error .badSyntax

/-! ## From bytes -/

inductive Encoding where
  | utf8
  | utf8Sig
  | utf16 (bigEndian : Bool)
  | utf16Bom
  | utf32 (bigEndian : Bool)
  | utf32Bom
  deriving DecidableEq

/-- The encoding a JSON byte string announces: by its byte-order mark, or by
where its first zero bytes are. -/
def detectEncoding (b : Bytes) : Encoding :=
  if [0x00, 0x00, 0xFE, 0xFF].isPrefixOf b || [0xFF, 0xFE, 0x00, 0x00].isPrefixOf b then
    .utf32Bom
  else if [0xFE, 0xFF].isPrefixOf b || [0xFF, 0xFE].isPrefixOf b then .utf16Bom
  else if [0xEF, 0xBB, 0xBF].isPrefixOf b then .utf8Sig
  else match b with
    | b₀ :: b₁ :: b₂ :: b₃ :: _ =>
        if b₀ = 0 then (if b₁ = 0 then .utf32 true else .utf16 true)
        else if b₁ = 0 then
          (if b₂ = 0 ∧ b₃ = 0 then .utf32 false else .utf16 false)
        else .utf8
    | [b₀, b₁] =>
        if b₀ = 0 then .utf16 true else if b₁ = 0 then .utf16 false else .utf8
    | _ => .utf8

def unit16 (bigEndian : Bool) (a b : UInt8) : ℕ :=
  if bigEndian then a.toNat * 0x100 + b.toNat else b.toNat * 0x100 + a.toNat

/-- One UTF-16 character, lone surrogates let through. -/
def step16 (bigEndian : Bool) : Bytes → Option (CodePoint × Bytes)
  | a :: b :: rest =>
      let hi := unit16 bigEndian a b
      if 0xD800 ≤ hi ∧ hi < 0xDC00 then
        match rest with
        | c :: d :: rest' =>
            let lo := unit16 bigEndian c d
            if 0xDC00 ≤ lo ∧ lo < 0xE000 then
              some (point (0x10000 + (hi - 0xD800) * 0x400 + (lo - 0xDC00)), rest')
            else some (point hi, rest)
        | _ => some (point hi, rest)
      else some (point hi, rest)
  | _ => none

def step32 (bigEndian : Bool) : Bytes → Option (CodePoint × Bytes)
  | a :: b :: c :: d :: rest =>
      let v := if bigEndian then
          ((a.toNat * 0x100 + b.toNat) * 0x100 + c.toNat) * 0x100 + d.toNat
        else ((d.toNat * 0x100 + c.toNat) * 0x100 + b.toNat) * 0x100 + a.toNat
      if v < 0x110000 then some (point v, rest) else none
  | _ => none

def decodeBytes (b : Bytes) : Option Text :=
  match detectEncoding b with
  | .utf8 => Utf8.decode b
  | .utf8Sig => Utf8.decode (b.drop 3)
  | .utf16 be => decodeWith (step16 be) b.length b
  | .utf16Bom =>
      decodeWith (step16 (b.head? = some 0xFE)) b.length (b.drop 2)
  | .utf32 be => decodeWith (step32 be) b.length b
  | .utf32Bom =>
      decodeWith (step32 (b.head? = some 0x00)) b.length (b.drop 4)

/-- The exceptions of `loads`. -/
inductive LoadsError where
  | unicodeDecodeError
  | jsonDecodeError
  | valueError
  | recursionError
  deriving DecidableEq

def loads (b : Bytes) (limit : Option ℕ := none) : Except LoadsError Json :=
  match decodeBytes b with
  | none => .error .unicodeDecodeError
  | some t =>
      match parse t limit with
      | .ok v => .ok v
      | .error .badSyntax => .error .jsonDecodeError
      | .error .tooManyDigits => .error .valueError
      | .error .tooDeep => .error .recursionError

/-- The default style of `dumps`: blanks after separators, ASCII only. -/
def pythonStyle : Style := ⟨true, true⟩

/-- The compact style: no blanks, text as it is. -/
def compactStyle : Style := ⟨false, false⟩

/-- `dumps(v).encode()`: the ASCII text, one byte a character. -/
def dumps (v : Json) : Bytes := (render pythonStyle v).flatMap Utf8.encodePoint

end Json

end Lib
