import Gafam.Go.Text
import Mathlib.Tactic.Common
import Mathlib.Algebra.Order.Ring.Nat

/-!
# JavaScript strings

A JavaScript string is a sequence of UTF-16 code units, and its length counts them. On the wire stands
UTF-8: a `TextDecoder` reads it one byte after the other, so that it does not matter where the chunks
of a stream end.
-/

namespace Gafam.Js

open Gafam.Go

/-- A JavaScript string. -/
abbrev JsString := List UInt16

instance : LawfulBEq JsString := inferInstance

/-- A code unit of ASCII. -/
def IsAscii (u : UInt16) : Prop := u < 0x80

instance (u : UInt16) : Decidable (IsAscii u) := inferInstanceAs (Decidable (u < 0x80))

/-- The string of a text in ASCII. -/
def ascii (s : GoString) : JsString := s.map UInt8.toUInt16

/-- The code units of a code point. -/
def utf16 (r : Nat) : JsString :=
  if r < 0x10000 then [UInt16.ofNat r]
  else [UInt16.ofNat (0xD800 + (r - 0x10000) / 1024), UInt16.ofNat (0xDC00 + (r - 0x10000) % 1024)]

/-! ## Reading UTF-8 -/

/-- Where the decoder stands inside a character: the bits read so far, the bytes still missing, and
the bounds for the next one. Whatever the missing bytes are, the character will lie outside ASCII and
inside Unicode. -/
structure Utf8State where
  codePoint : Nat
  missing : Nat
  lower : Nat
  upper : Nat
  continuation : 0x80 ≤ lower ∧ upper ≤ 0xBF
  least : missing ≠ 0 → 0x80 ≤ (codePoint * 64 + (lower - 0x80)) * 64 ^ (missing - 1)
  greatest : missing ≠ 0 → (codePoint * 64 + (upper - 0x80) + 1) * 64 ^ (missing - 1) ≤ 0x110000

/-- The decoder between two characters. -/
def Utf8State.start : Utf8State := ⟨0, 0, 0x80, 0xBF, by decide, by decide, by decide⟩

/-- The first byte of a character. -/
def leadByte (b : UInt8) : Utf8State × List Nat :=
  let c := b.toNat
  if c < 0x80 then (.start, [c])
  else if h : 0xC2 ≤ c ∧ c ≤ 0xDF then
    (⟨c - 0xC0, 1, 0x80, 0xBF, by decide, fun _ => by omega, fun _ => by omega⟩, [])
  else if h : 0xE0 ≤ c ∧ c ≤ 0xEF then
    (⟨c - 0xE0, 2, if c = 0xE0 then 0xA0 else 0x80, if c = 0xED then 0x9F else 0xBF,
      by split_ifs <;> decide, fun _ => by split_ifs <;> omega, fun _ => by split_ifs <;> omega⟩, [])
  else if h : 0xF0 ≤ c ∧ c ≤ 0xF4 then
    (⟨c - 0xF0, 3, if c = 0xF0 then 0x90 else 0x80, if c = 0xF4 then 0x8F else 0xBF,
      by split_ifs <;> decide, fun _ => by split_ifs <;> omega, fun _ => by split_ifs <;> omega⟩, [])
  else (.start, [runeError])

/-- A byte that continues a character. -/
def Utf8State.next (s : Utf8State) (b : UInt8) (hb : s.lower ≤ b.toNat ∧ b.toNat ≤ s.upper)
    (hm : 1 < s.missing) : Utf8State where
  codePoint := s.codePoint * 64 + b.toNat % 64
  missing := s.missing - 1
  lower := 0x80
  upper := 0xBF
  continuation := by decide
  least := by
    intro _
    obtain ⟨m, hm'⟩ : ∃ m, s.missing = m + 2 := ⟨s.missing - 2, by omega⟩
    have hleast := s.least (by omega)
    have hbits : s.lower - 0x80 ≤ b.toNat % 64 := by
      have := s.continuation
      omega
    rw [hm', show m + 2 - 1 = m + 1 from rfl, Nat.pow_succ, ← Nat.mul_assoc] at hleast
    rw [hm', show m + 2 - 1 - 1 = m from rfl, Nat.add_zero, Nat.mul_right_comm]
    apply Nat.le_trans hleast
    exact Nat.mul_le_mul_right 64 (Nat.mul_le_mul_right _ (by omega))
  greatest := by
    intro _
    obtain ⟨m, hm'⟩ : ∃ m, s.missing = m + 2 := ⟨s.missing - 2, by omega⟩
    have hgreatest := s.greatest (by omega)
    have hbits : b.toNat % 64 ≤ s.upper - 0x80 := by
      have := s.continuation
      omega
    rw [hm', show m + 2 - 1 = m + 1 from rfl, Nat.pow_succ] at hgreatest
    rw [hm', show m + 2 - 1 - 1 = m from rfl]
    have hnext : (s.codePoint * 64 + b.toNat % 64) * 64 + (0xBF - 0x80) + 1 =
        (s.codePoint * 64 + b.toNat % 64 + 1) * 64 := by
      omega
    rw [hnext, Nat.mul_assoc, Nat.mul_comm 64]
    apply Nat.le_trans _ hgreatest
    exact Nat.mul_le_mul_right _ (by omega)

/-- One byte of the stream. A byte that does not continue a character ends it, and is read again as
the first of the next one. -/
def utf8Step (s : Utf8State) (b : UInt8) : Utf8State × List Nat :=
  if s.missing = 0 then leadByte b
  else if hb : s.lower ≤ b.toNat ∧ b.toNat ≤ s.upper then
    if hm : 1 < s.missing then (s.next b hb hm, []) else (.start, [s.codePoint * 64 + b.toNat % 64])
  else ((leadByte b).1, runeError :: (leadByte b).2)

/-- The code points of a text, and where the decoder stands after it. -/
def utf8Run (s : Utf8State) : GoString → Utf8State × List Nat
  | [] => (s, [])
  | b :: rest =>
    let r := utf8Run (utf8Step s b).1 rest
    (r.1, (utf8Step s b).2 ++ r.2)

/-- What the end of the stream adds: a character that is not complete. -/
def Utf8State.flush (s : Utf8State) : List Nat := if s.missing = 0 then [] else [runeError]

/-- The string of a text that is read as a whole, without looking for a byte order mark. -/
def utf8Decode (s : GoString) : JsString :=
  ((utf8Run .start s).2 ++ (utf8Run .start s).1.flush).flatMap utf16

/-- A `TextDecoder`: where it stands, and whether it has dealt with the byte order mark. -/
structure TextDecoder where
  utf8 : Utf8State
  bomSeen : Bool

/-- `new TextDecoder()`. -/
def TextDecoder.new : TextDecoder := ⟨.start, false⟩

/-- U+FEFF in front of the text is dropped. -/
def skipBom (bomSeen : Bool) (l : List Nat) : List Nat :=
  match bomSeen, l with
  | false, 0xFEFF :: rest => rest
  | _, l => l

/-- `decoder.decode(value, { stream: true })`. -/
def TextDecoder.decode (d : TextDecoder) (value : GoString) : TextDecoder × JsString :=
  let r := utf8Run d.utf8 value
  (⟨r.1, d.bomSeen || !r.2.isEmpty⟩, (skipBom d.bomSeen r.2).flatMap utf16)

/-- The loop that decodes the chunks of a stream one after the other. -/
def TextDecoder.readAll (d : TextDecoder) : List GoString → JsString
  | [] => []
  | value :: values => (d.decode value).2 ++ (d.decode value).1.readAll values

/-! ## Methods of strings -/

/-- A character that `trim` takes away. -/
def isTrimSpace (u : UInt16) : Bool :=
  let c := u.toNat
  (9 ≤ c && c ≤ 13) || c == 0x20 || c == 0xA0 || c == 0x1680 || (0x2000 ≤ c && c ≤ 0x200A) ||
    c == 0x2028 || c == 0x2029 || c == 0x202F || c == 0x205F || c == 0x3000 || c == 0xFEFF

/-- The text without the characters at its two ends that have a property. -/
def strip (p : UInt16 → Bool) (s : JsString) : JsString :=
  ((s.dropWhile p).reverse.dropWhile p).reverse

/-- `s.trim()`. -/
def trim (s : JsString) : JsString := strip isTrimSpace s

/-- `s.indexOf(sub)`, `none` being -1. -/
def indexOf (sub : JsString) : JsString → Option Nat
  | [] => if sub = [] then some 0 else none
  | c :: cs => if sub.isPrefixOf (c :: cs) then some 0 else (indexOf sub cs).map (· + 1)

/-- The text in front of the first occurrence of the separator, `s.split(sep)[0]`. -/
def splitFirst (sep s : JsString) : JsString :=
  match indexOf sep s with
  | some i => s.take i
  | none => s

/-- `s.split(sep)[1]`, if there are two pieces. -/
def splitSecond (sep s : JsString) : Option JsString :=
  (indexOf sep s).map fun i => splitFirst sep (s.drop (i + sep.length))

/-- A decimal digit. -/
def isDigit (u : UInt16) : Bool := 0x30 ≤ u && u ≤ 0x39

/-- The number a list of digits denotes. -/
def digitsValue (s : JsString) : Nat := s.foldl (fun n u => n * 10 + (u.toNat - 0x30)) 0

/-- `parseInt(s)` of a text that does not start with `0x`; `none` is `NaN`. -/
def parseInt (s : JsString) : Option Int :=
  let s := s.dropWhile isTrimSpace
  let negative := s.head? = some 0x2D
  let rest := if negative ∨ s.head? = some 0x2B then s.tail else s
  let digits := rest.takeWhile isDigit
  if digits = [] then none
  else some (if negative then -(digitsValue digits : Int) else digitsValue digits)

/-- `sep` between the pieces, `pieces.join(sep)`. -/
def join (sep : JsString) (pieces : List JsString) : JsString := sep.intercalate pieces

end Gafam.Js
