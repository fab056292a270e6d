import Gafam.Go.Text

/-!
# Package `encoding/json`

The values that `json.Unmarshal` reads from a text, numbers as they are written, and the strings that
`JSON.stringify` of the browser writes. A decoder of a struct looks at the members of an object one
after the other.
-/

namespace Gafam.Go

/-- A JSON value. -/
inductive JsonTree
  | null
  | bool (b : Bool)
  | num (text : GoString)
  | str (s : GoString)
  | arr (l : List JsonTree)
  | obj (members : List (GoString × JsonTree))

/-! ## Strings -/

/-- The value of a hexadecimal digit. -/
def hexValue (c : UInt8) : Option Nat :=
  if isDigit c then some (c.toNat - 0x30)
  else if 0x61 ≤ c ∧ c ≤ 0x66 then some (c.toNat - 0x61 + 10)
  else if 0x41 ≤ c ∧ c ≤ 0x46 then some (c.toNat - 0x41 + 10)
  else none

/-- Four hexadecimal digits. -/
def hexRune : GoString → Option (Nat × GoString)
  | a :: b :: c :: d :: rest => do
    let x ← hexValue a
    let y ← hexValue b
    let z ← hexValue c
    let w ← hexValue d
    return (((x * 16 + y) * 16 + z) * 16 + w, rest)
  | _ => none

/-- One half of a surrogate pair. -/
def isSurrogate (r : Nat) : Bool := 0xD800 ≤ r && r < 0xE000

/-- `utf16.DecodeRune`, if the two are a pair. -/
def decodeSurrogates (r r' : Nat) : Option Nat :=
  if 0xD800 ≤ r ∧ r < 0xDC00 ∧ 0xDC00 ≤ r' ∧ r' < 0xE000 then
    some ((r - 0xD800) * 1024 + (r' - 0xDC00) + 0x10000)
  else none

/-- What stands behind `\u`, with the text after it. A surrogate without its other half is
`runeError`. -/
def unquoteRune (s : GoString) : Option (GoString × GoString) :=
  match hexRune s with
  | none => none
  | some (r, rest) =>
    if isSurrogate r then
      let second : Option (Nat × GoString) :=
        match rest with
        | 0x5C :: 0x75 :: rest' => hexRune rest'
        | _ => none
      match second with
      | none => some (encodeRune runeError, rest)
      | some (r', rest') =>
        match decodeSurrogates r r' with
        | none => some (encodeRune runeError, rest)
        | some r => some (encodeRune r, rest')
    else some (encodeRune r, rest)

/-- The character of a one-letter escape. -/
def unescape (c : UInt8) : Option UInt8 :=
  if c = 0x22 ∨ c = 0x5C ∨ c = 0x2F then some c
  else if c = 0x62 then some 0x08
  else if c = 0x66 then some 0x0C
  else if c = 0x6E then some 0x0A
  else if c = 0x72 then some 0x0D
  else if c = 0x74 then some 0x09
  else none

/-- The rest of a string literal up to its closing quote, with the text after it. Bytes that are no
UTF-8 become `runeError`. -/
def unquote : Nat → GoString → Option (GoString × GoString)
  | 0, _ => none
  | _ + 1, [] => none
  | fuel + 1, c :: rest =>
    if c = 0x22 then some ([], rest)
    else if c = 0x5C then
      match rest with
      | [] => none
      | e :: rest =>
        if e = 0x75 then
          match unquoteRune rest with
          | none => none
          | some (r, rest) => (unquote fuel rest).map fun p => (r ++ p.1, p.2)
        else
          match unescape e with
          | none => none
          | some e => (unquote fuel rest).map fun p => (e :: p.1, p.2)
    else if c < 0x20 then none
    else if c < 0x80 then (unquote fuel rest).map fun p => (c :: p.1, p.2)
    else
      let d := decodeRune (c :: rest)
      (unquote fuel (rest.drop (d.2 - 1))).map fun p => (encodeRune d.1 ++ p.1, p.2)

/-! ## Values -/

/-- White space between the tokens. -/
def skipSpace (s : GoString) : GoString :=
  s.dropWhile fun c => c = 0x20 ∨ c = 0x09 ∨ c = 0x0A ∨ c = 0x0D

/-- Digits, at least one, and the text after them. -/
def scanDigits (s : GoString) : Option (GoString × GoString) :=
  let digits := s.takeWhile isDigit
  if digits = [] then none else some (digits, s.dropWhile isDigit)

/-- A number from its first digit on. -/
def scanUnsigned (s : GoString) : Option (GoString × GoString) := do
  let (whole, rest) ←
    match s with
    | 0x30 :: rest => some ([0x30], rest)
    | _ => scanDigits s
  let (fraction, rest) ←
    match rest with
    | 0x2E :: rest => (scanDigits rest).map fun p => (0x2E :: p.1, p.2)
    | _ => some ([], rest)
  match rest with
  | e :: rest' =>
    if e = 0x65 ∨ e = 0x45 then
      match rest' with
      | 0x2B :: rest => (scanDigits rest).map fun p => (whole ++ fraction ++ e :: 0x2B :: p.1, p.2)
      | 0x2D :: rest => (scanDigits rest).map fun p => (whole ++ fraction ++ e :: 0x2D :: p.1, p.2)
      | _ => (scanDigits rest').map fun p => (whole ++ fraction ++ e :: p.1, p.2)
    else some (whole ++ fraction, rest)
  | [] => some (whole ++ fraction, rest)

/-- A number. -/
def scanNumber : GoString → Option (GoString × GoString)
  | 0x2D :: rest => (scanUnsigned rest).map fun p => (0x2D :: p.1, p.2)
  | s => scanUnsigned s

/-- The text after a word. -/
def scanWord (word s : GoString) : Option GoString :=
  if word.isPrefixOf s then some (s.drop word.length) else none

/-- `maxNestingDepth`. -/
def maxNestingDepth : Nat := 10000

/-- The next token is this byte. -/
def expect (c : UInt8) (s : GoString) : Option GoString :=
  match skipSpace s with
  | d :: rest => if d = c then some rest else none
  | [] => none

mutual

/-- A value inside `depth` arrays and objects, with the text after it. -/
def parseValue (depth : Nat) : Nat → GoString → Option (JsonTree × GoString)
  | 0, _ => none
  | fuel + 1, s =>
    match skipSpace s with
    | [] => none
    | c :: rest =>
      if c = 0x22 then (unquote (rest.length + 1) rest).map fun p => (.str p.1, p.2)
      else if c = 0x7B then
        if maxNestingDepth ≤ depth then none
        else
          match expect 0x7D rest with
          | some rest => some (.obj [], rest)
          | none => (parseMembers (depth + 1) fuel rest).map fun p => (.obj p.1, p.2)
      else if c = 0x5B then
        if maxNestingDepth ≤ depth then none
        else
          match expect 0x5D rest with
          | some rest => some (.arr [], rest)
          | none => (parseElements (depth + 1) fuel rest).map fun p => (.arr p.1, p.2)
      else if c = 0x74 then (scanWord "true" (c :: rest)).map fun rest => (.bool true, rest)
      else if c = 0x66 then (scanWord "false" (c :: rest)).map fun rest => (.bool false, rest)
      else if c = 0x6E then (scanWord "null" (c :: rest)).map fun rest => (.null, rest)
      else (scanNumber (c :: rest)).map fun p => (.num p.1, p.2)

/-- The members of an object up to its closing brace. -/
def parseMembers (depth : Nat) : Nat → GoString → Option (List (GoString × JsonTree) × GoString)
  | 0, _ => none
  | fuel + 1, s => do
    let rest ← expect 0x22 s
    let (key, rest) ← unquote (rest.length + 1) rest
    let rest ← expect 0x3A rest
    let (v, rest) ← parseValue depth fuel rest
    match expect 0x7D rest with
    | some rest => some ([(key, v)], rest)
    | none =>
      let rest ← expect 0x2C rest
      let (members, rest) ← parseMembers depth fuel rest
      some ((key, v) :: members, rest)

/-- The elements of an array up to its closing bracket. -/
def parseElements (depth : Nat) : Nat → GoString → Option (List JsonTree × GoString)
  | 0, _ => none
  | fuel + 1, s => do
    let (v, rest) ← parseValue depth fuel s
    match expect 0x5D rest with
    | some rest => some ([v], rest)
    | none =>
      let rest ← expect 0x2C rest
      let (elements, rest) ← parseElements depth fuel rest
      some (v :: elements, rest)

end

/-- The value of a text. Every step down reads a byte, so the length is enough fuel. -/
def parseJson (s : GoString) : Option JsonTree :=
  match parseValue 0 (s.length + 1) s with
  | some (v, rest) => if skipSpace rest = [] then some v else none
  | none => none

/-! ## Writing -/

/-- The lower-case hexadecimal digit. -/
def hexDigit (n : Nat) : UInt8 := if n < 10 then UInt8.ofNat (0x30 + n) else UInt8.ofNat (0x61 + (n - 10))

/-- A character of a string that `JSON.stringify` writes. -/
def quoteByte (c : UInt8) : GoString :=
  if c = 0x22 ∨ c = 0x5C then [0x5C, c]
  else if c = 0x08 then "\\b"
  else if c = 0x09 then "\\t"
  else if c = 0x0A then "\\n"
  else if c = 0x0C then "\\f"
  else if c = 0x0D then "\\r"
  else if c < 0x20 then "\\u00" ++ [hexDigit (c.toNat / 16), hexDigit (c.toNat % 16)]
  else [c]

/-- A string that `JSON.stringify` writes. -/
def quote (s : GoString) : GoString := 0x22 :: (s.flatMap quoteByte ++ [0x22])

/-!
## What `json.Marshal` writes, and how a struct is read

Strings, and arrays and objects of values that are written already. A byte that is no UTF-8 is written
as `runeError`, and `<`, `>` and `&` are escaped.
-/

/-! ### UTF-8 -/

/-- The conversion `string([]rune(s))`: a byte that is no UTF-8 becomes `runeError`. -/
def reencode (s : GoString) : GoString := (segments s).flatMap fun r => encodeRune r.rune

/-- `utf8.ValidString`. -/
def validString (s : GoString) : Bool :=
  (segments s).all fun r => r.rune ≠ runeError || r.bytes.length ≠ 1

/-- `utf8.RuneStart`. -/
def runeStart (b : UInt8) : Bool := !(0x80 ≤ b && b < 0xC0)

/-! ### Writing -/

/-- An ASCII character of a string. -/
def marshalByte (c : UInt8) : GoString :=
  if c = 0x3C ∨ c = 0x3E ∨ c = 0x26 then
    "\\u00" ++ [hexDigit (c.toNat / 16), hexDigit (c.toNat % 16)]
  else quoteByte c

/-- A rune of a string. The line separators of JavaScript are escaped. -/
def marshalRune (r : Segment) : GoString :=
  match r.bytes with
  | [c] => if c.toNat < 0x80 then marshalByte c else "\\ufffd"
  | bytes =>
    if r.rune = 0x2028 ∨ r.rune = 0x2029 then "\\u202" ++ [hexDigit (r.rune % 16)] else bytes

/-- A string. -/
def marshalString (s : GoString) : GoString := 0x22 :: ((segments s).flatMap marshalRune ++ [0x22])

/-- Texts with commas in between. -/
def joinComma : List GoString → GoString
  | [] => []
  | [s] => s
  | s :: l => s ++ 0x2C :: joinComma l

/-- An array of values. -/
def marshalArray (l : List GoString) : GoString := 0x5B :: (joinComma l ++ [0x5D])

/-- A member of an object. -/
def marshalMember (m : GoString × GoString) : GoString := marshalString m.1 ++ 0x3A :: m.2

/-- An object with these members. -/
def marshalObject (members : List (GoString × GoString)) : GoString :=
  0x7B :: (joinComma (members.map marshalMember) ++ [0x7D])

/-! ### Reading -/

/-- The rune that stands for all that fold to it, as far as ASCII letters are concerned. -/
def foldRune (r : Nat) : Nat :=
  if 0x61 ≤ r ∧ r ≤ 0x7A then r - 0x20
  else if r = 0x17F then 0x53
  else if r = 0x212A then 0x4B
  else r

/-- `foldName`, which compares the name of a member with those of the fields. Runes outside ASCII that
fold to no ASCII letter are left as they are: no field has them in its name. -/
def foldName (s : GoString) : GoString := (segments s).flatMap fun r => encodeRune (foldRune r.rune)

/-- A member of an object is meant for the field of this name. -/
def isField (name key : GoString) : Bool := foldName key == foldName name

/-- A value that is decoded into a string. A value of another type is an error, which leaves the string
as it is. -/
def decodeString (old : GoString) : JsonTree → GoString
  | .str s => s
  | _ => old

/-- A value that is decoded into an `int64`. -/
def decodeInt64 (old : Int64) : JsonTree → Int64
  | .num text =>
    match atoi text with
    | some n => Int64.ofInt n
    | none => old
  | _ => old

end Gafam.Go
