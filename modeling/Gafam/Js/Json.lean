import Gafam.Js.Text

/-!
# `JSON.parse`

The grammar of ECMA-404 on UTF-16 code units. Numbers are kept as they are written, and the members of
an object in the order of the text.
-/

namespace Gafam.Js

/-- What `JSON.parse` returns. -/
inductive JsonValue
  | null
  | bool (b : Bool)
  | num (text : JsString)
  | str (s : JsString)
  | arr (l : List JsonValue)
  | obj (members : List (JsString × JsonValue))

/-- White space between the tokens. -/
def isJsonSpace (u : UInt16) : Bool := u == 0x20 || u == 0x09 || u == 0x0A || u == 0x0D

/-- The text from the next token on. -/
def skipSpace (s : JsString) : JsString := s.dropWhile isJsonSpace

/-- The next token is this character. -/
def expect (c : UInt16) (s : JsString) : Option JsString :=
  match skipSpace s with
  | d :: rest => if d = c then some rest else none
  | [] => none

/-! ## Strings -/

/-- The value of a hexadecimal digit. -/
def hexValue (u : UInt16) : Option Nat :=
  if isDigit u then some (u.toNat - 0x30)
  else if 0x61 ≤ u ∧ u ≤ 0x66 then some (u.toNat - 0x61 + 10)
  else if 0x41 ≤ u ∧ u ≤ 0x46 then some (u.toNat - 0x41 + 10)
  else none

/-- The code unit behind `\u`. -/
def hexUnit : JsString → Option (UInt16 × JsString)
  | a :: b :: c :: d :: rest => do
    let x ← hexValue a
    let y ← hexValue b
    let z ← hexValue c
    let w ← hexValue d
    return (UInt16.ofNat (((x * 16 + y) * 16 + z) * 16 + w), rest)
  | _ => none

/-- The character of a one-letter escape. -/
def unescape (c : UInt16) : Option UInt16 :=
  if c = 0x22 ∨ c = 0x5C ∨ c = 0x2F then some c
  else if c = 0x62 then some 0x08
  else if c = 0x66 then some 0x0C
  else if c = 0x6E then some 0x0A
  else if c = 0x72 then some 0x0D
  else if c = 0x74 then some 0x09
  else none

/-- What stands behind a backslash, with the text after it. -/
def escaped : JsString → Option (UInt16 × JsString)
  | [] => none
  | e :: rest => if e = 0x75 then hexUnit rest else (unescape e).map fun c => (c, rest)

/-- The rest of a string literal up to its closing quote, with the text after it. -/
def unquote : Nat → JsString → Option (JsString × JsString)
  | 0, _ => none
  | _ + 1, [] => none
  | fuel + 1, c :: rest =>
    if c = 0x22 then some ([], rest)
    else if c = 0x5C then
      (escaped rest).bind fun e => (unquote fuel e.2).map fun p => (e.1 :: p.1, p.2)
    else if c < 0x20 then none
    else (unquote fuel rest).map fun p => (c :: p.1, p.2)

/-! ## Numbers and words -/

/-- Digits, at least one, and the text after them. -/
def scanDigits (s : JsString) : Option (JsString × JsString) :=
  let digits := s.takeWhile isDigit
  if digits = [] then none else some (digits, s.dropWhile isDigit)

/-- The digits in front of the decimal point. -/
def scanWhole (s : JsString) : Option (JsString × JsString) :=
  if s.head? = some 0x30 then some ([0x30], s.tail) else scanDigits s

/-- The decimal point and what stands behind it, if there is one. -/
def scanFraction (s : JsString) : Option (JsString × JsString) :=
  if s.head? = some 0x2E then (scanDigits s.tail).map fun p => (0x2E :: p.1, p.2) else some ([], s)

/-- The sign of an exponent. -/
def scanSign (s : JsString) : JsString × JsString :=
  if s.head? = some 0x2B ∨ s.head? = some 0x2D then (s.take 1, s.tail) else ([], s)

/-- The exponent, if there is one. -/
def scanExponent (s : JsString) : Option (JsString × JsString) :=
  if s.head? = some 0x65 ∨ s.head? = some 0x45 then
    (scanDigits (scanSign s.tail).2).map fun p => (s.take 1 ++ (scanSign s.tail).1 ++ p.1, p.2)
  else some ([], s)

/-- A number. -/
def scanNumber (s : JsString) : Option (JsString × JsString) := do
  let sign := if s.head? = some 0x2D then s.take 1 else []
  let (whole, rest) ← scanWhole (if s.head? = some 0x2D then s.tail else s)
  let (fraction, rest) ← scanFraction rest
  let (exponent, rest) ← scanExponent rest
  return (sign ++ whole ++ fraction ++ exponent, rest)

/-- The text after a word. -/
def scanWord (word s : JsString) : Option JsString :=
  if word.isPrefixOf s then some (s.drop word.length) else none

/-! ## Values -/

mutual

/-- A value, with the text after it. -/
def parseValue : Nat → JsString → Option (JsonValue × JsString)
  | 0, _ => none
  | fuel + 1, s =>
    match skipSpace s with
    | [] => none
    | c :: rest =>
      if c = 0x22 then (unquote (rest.length + 1) rest).map fun p => (.str p.1, p.2)
      else if c = 0x7B then
        match expect 0x7D rest with
        | some rest => some (.obj [], rest)
        | none => (parseMembers fuel rest).map fun p => (.obj p.1, p.2)
      else if c = 0x5B then
        match expect 0x5D rest with
        | some rest => some (.arr [], rest)
        | none => (parseElements fuel rest).map fun p => (.arr p.1, p.2)
      else if c = 0x74 then (scanWord (ascii "true") (c :: rest)).map fun rest => (.bool true, rest)
      else if c = 0x66 then (scanWord (ascii "false") (c :: rest)).map fun rest => (.bool false, rest)
      else if c = 0x6E then (scanWord (ascii "null") (c :: rest)).map fun rest => (.null, rest)
      else (scanNumber (c :: rest)).map fun p => (.num p.1, p.2)

/-- The members of an object up to its closing brace. -/
def parseMembers : Nat → JsString → Option (List (JsString × JsonValue) × JsString)
  | 0, _ => none
  | fuel + 1, s => do
    let rest ← expect 0x22 s
    let (key, rest) ← unquote (rest.length + 1) rest
    let rest ← expect 0x3A rest
    let (v, rest) ← parseValue fuel rest
    match expect 0x7D rest with
    | some rest => some ([(key, v)], rest)
    | none =>
      let rest ← expect 0x2C rest
      let (members, rest) ← parseMembers fuel rest
      some ((key, v) :: members, rest)

/-- The elements of an array up to its closing bracket. -/
def parseElements : Nat → JsString → Option (List JsonValue × JsString)
  | 0, _ => none
  | fuel + 1, s => do
    let (v, rest) ← parseValue fuel s
    match expect 0x5D rest with
    | some rest => some ([v], rest)
    | none =>
      let rest ← expect 0x2C rest
      let (elements, rest) ← parseElements fuel rest
      some (v :: elements, rest)

end

/-- `JSON.parse(text)`, `none` being a `SyntaxError`: one value and nothing but white space around it.
Every step down reads a character, so the length is enough fuel. -/
def jsonParse (text : JsString) : Option JsonValue :=
  let s := strip isJsonSpace text
  match parseValue (s.length + 1) s with
  | some (v, []) => some v
  | _ => none

end Gafam.Js
