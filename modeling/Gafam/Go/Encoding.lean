import Gafam.Go.Text
import Gafam.Go.Json

/-!
# Packages `encoding/base64`, `encoding/base32` and `encoding/hex`

`StdEncoding` of base64, which is also what `btoa` and `atob` of the browser write and read: three bytes become
four characters, and the last group is padded with `=`.
-/

namespace Gafam.Go

/-- The character of six bits. -/
def base64Char (n : Nat) : UInt8 :=
  if n < 26 then UInt8.ofNat (0x41 + n)
  else if n < 52 then UInt8.ofNat (0x61 + (n - 26))
  else if n < 62 then UInt8.ofNat (0x30 + (n - 52))
  else if n = 62 then 0x2B
  else 0x2F

/-- The six bits of a character. -/
def base64Value (c : UInt8) : Option Nat :=
  if 0x41 ≤ c ∧ c ≤ 0x5A then some (c.toNat - 0x41)
  else if 0x61 ≤ c ∧ c ≤ 0x7A then some (c.toNat - 0x61 + 26)
  else if 0x30 ≤ c ∧ c ≤ 0x39 then some (c.toNat - 0x30 + 52)
  else if c = 0x2B then some 62
  else if c = 0x2F then some 63
  else none

/-- The padding character. -/
def base64Pad : UInt8 := 0x3D

/-- `StdEncoding.EncodeToString`. -/
def base64Encode : GoString → GoString
  | [] => []
  | [a] => [base64Char (a.toNat / 4), base64Char (a.toNat % 4 * 16), base64Pad, base64Pad]
  | [a, b] =>
    [base64Char (a.toNat / 4), base64Char (a.toNat % 4 * 16 + b.toNat / 16),
      base64Char (b.toNat % 16 * 4), base64Pad]
  | a :: b :: c :: rest =>
    base64Char (a.toNat / 4) :: base64Char (a.toNat % 4 * 16 + b.toNat / 16) ::
      base64Char (b.toNat % 16 * 4 + c.toNat / 64) :: base64Char (c.toNat % 64) :: base64Encode rest

/-- The bytes that the bits of four characters make. -/
def base64Bytes (x y z w : Nat) : UInt8 × UInt8 × UInt8 :=
  (UInt8.ofNat (x * 4 + y / 16), UInt8.ofNat (y % 16 * 16 + z / 4), UInt8.ofNat (z % 4 * 64 + w))

/-- Groups of four characters. Only the last one may be padded, and bits that the padding leaves over
are ignored. -/
def base64Groups : GoString → Option GoString
  | [] => some []
  | a :: b :: c :: d :: rest => do
    let x ← base64Value a
    let y ← base64Value b
    if c = base64Pad ∧ d = base64Pad ∧ rest = [] then
      return [(base64Bytes x y 0 0).1]
    let z ← base64Value c
    if d = base64Pad ∧ rest = [] then
      return [(base64Bytes x y z 0).1, (base64Bytes x y z 0).2.1]
    let w ← base64Value d
    let more ← base64Groups rest
    return (base64Bytes x y z w).1 :: (base64Bytes x y z w).2.1 :: (base64Bytes x y z w).2.2 :: more
  | _ => none

/-- `StdEncoding.DecodeString`, which skips line breaks. -/
def base64Decode (s : GoString) : Option GoString :=
  base64Groups (s.filter fun c => c ≠ 0x0A ∧ c ≠ 0x0D)

/-!
## Base32

Five bytes become eight characters, and `StdEncoding` pads the last group with `=`.
-/

/-- The character of five bits. -/
def base32Char (n : Nat) : UInt8 :=
  if n < 26 then UInt8.ofNat (0x41 + n)
  else UInt8.ofNat (0x32 + (n - 26))

/-- The five bits of a character. -/
def base32Value (c : UInt8) : Option Nat :=
  if 0x41 ≤ c ∧ c ≤ 0x5A then some (c.toNat - 0x41)
  else if 0x32 ≤ c ∧ c ≤ 0x37 then some (c.toNat - 0x32 + 26)
  else none

/-- The bits of five bytes, in fives. -/
def base32Bits (a b c d e : Nat) : List Nat :=
  [a / 8, a % 8 * 4 + b / 64, b % 64 / 2, b % 2 * 16 + c / 16, c % 16 * 2 + d / 128, d % 128 / 4,
    d % 4 * 8 + e / 32, e % 32]

/-- The bits of a text, in fives. -/
def base32Digits : GoString → List Nat
  | [] => []
  | [a] => (base32Bits a.toNat 0 0 0 0).take 2
  | [a, b] => (base32Bits a.toNat b.toNat 0 0 0).take 4
  | [a, b, c] => (base32Bits a.toNat b.toNat c.toNat 0 0).take 5
  | [a, b, c, d] => (base32Bits a.toNat b.toNat c.toNat d.toNat 0).take 7
  | a :: b :: c :: d :: e :: rest =>
    base32Bits a.toNat b.toNat c.toNat d.toNat e.toNat ++ base32Digits rest

/-- How many characters the last group of a text with that many bytes lacks. -/
def base32Lacks (n : Nat) : Nat :=
  if n % 5 = 0 then 0
  else if n % 5 = 1 then 6
  else if n % 5 = 2 then 4
  else if n % 5 = 3 then 3
  else 1

/-- `EncodeToString` of `StdEncoding`, or of the encoding without padding. -/
def base32Encode (padded : Bool) (s : GoString) : GoString :=
  (base32Digits s).map base32Char ++
    if padded then List.replicate (base32Lacks s.length) base64Pad else []

/-- The bytes of a group of eight characters of which so many are read. -/
def base32Pack (v : List Nat) : GoString :=
  let bytes := [v.getD 0 0 * 8 + v.getD 1 0 / 4, v.getD 1 0 * 64 + v.getD 2 0 * 2 + v.getD 3 0 / 16,
    v.getD 3 0 * 16 + v.getD 4 0 / 2, v.getD 4 0 * 128 + v.getD 5 0 * 4 + v.getD 6 0 / 8,
    v.getD 6 0 * 32 + v.getD 7 0].map UInt8.ofNat
  if v.length = 8 then bytes
  else if v.length = 7 then bytes.take 4
  else if v.length = 5 then bytes.take 3
  else if v.length = 4 then bytes.take 2
  else if v.length = 2 then bytes.take 1
  else []

/-- The loop over the characters of a group, with those that are read. The result is the group, whether it was
padded, and the text behind it. -/
def base32Quantum : List Nat → GoString → Option (List Nat × Bool × GoString)
  | v, [] => if v.length = 8 then some (v, false, []) else none
  | v, c :: src =>
    if v.length = 8 then some (v, false, c :: src)
    else if c = base64Pad ∧ 2 ≤ v.length ∧ src.length < 8 then
      if src.length + v.length < 7 ∨ (src.take (7 - v.length)).any (· != base64Pad) ∨
          v.length = 1 ∨ v.length = 3 ∨ v.length = 6 then none
      else some (v, true, src)
    else (base32Value c).bind fun n => base32Quantum (v ++ [n]) src

/-- The loop over the groups. A group that was padded is the last one, whatever comes behind it. -/
def base32Quanta : Nat → GoString → Option GoString
  | _, [] => some []
  | 0, _ => none
  | fuel + 1, src => do
    let q ← base32Quantum [] src
    if q.2.1 then return base32Pack q.1
    let more ← base32Quanta fuel q.2.2
    return base32Pack q.1 ++ more

/-- `StdEncoding.DecodeString`, which skips line breaks. A group takes at least one character, so the length is
enough fuel. -/
def base32Decode (s : GoString) : Option GoString :=
  let src := s.filter fun c => c ≠ 0x0A ∧ c ≠ 0x0D
  base32Quanta src.length src

/-!
## Hexadecimal digits

A byte is written as two lower-case digits. Digits of either case are read.
-/

/-- `hex.EncodeToString`. -/
def hexEncode (s : GoString) : GoString :=
  s.flatMap fun b => [hexDigit (b.toNat / 16), hexDigit (b.toNat % 16)]

/-- `hex.DecodeString`; `none` is the error. -/
def hexDecode : GoString → Option GoString
  | [] => some []
  | [_] => none
  | a :: b :: rest => do
    let x ← hexValue a
    let y ← hexValue b
    let more ← hexDecode rest
    return UInt8.ofNat (x * 16 + y) :: more

theorem hexValue_digit {n : Nat} (h : n < 16) : hexValue (hexDigit n) = some n := by
  have hall : ∀ n, n < 16 → hexValue (hexDigit n) = some n := by decide
  exact hall n h

theorem mem_hexEncode {s : GoString} {c : UInt8} (h : c ∈ hexEncode s) :
    ∃ n < 16, c = hexDigit n := by
  obtain ⟨b, -, hc⟩ := List.mem_flatMap.1 h
  have hb := b.toNat_lt
  simp only [List.mem_cons, List.not_mem_nil, or_false] at hc
  rcases hc with rfl | rfl
  · exact ⟨b.toNat / 16, by omega, rfl⟩
  · exact ⟨b.toNat % 16, by omega, rfl⟩

theorem hexDecode_encode (s : GoString) : hexDecode (hexEncode s) = some s := by
  induction s with
  | nil => rfl
  | cons b s ih =>
    have hb := b.toNat_lt
    have hhigh : hexValue (hexDigit (b.toNat / 16)) = some (b.toNat / 16) :=
      hexValue_digit (by omega)
    have hlow : hexValue (hexDigit (b.toNat % 16)) = some (b.toNat % 16) :=
      hexValue_digit (by omega)
    have hbyte : b.toNat / 16 * 16 + b.toNat % 16 = b.toNat := by omega
    have hcons : hexEncode (b :: s) =
        hexDigit (b.toNat / 16) :: hexDigit (b.toNat % 16) :: hexEncode s := rfl
    rw [hcons]
    unfold hexDecode
    rw [hhigh, hlow, ih]
    simp only [Option.bind_eq_bind, Option.bind_some, hbyte, UInt8.ofNat_toNat]
    rfl

end Gafam.Go
