import Gafam.Go.Json

/-!
# Package `net`

Textual addresses, as `net.ParseIP` and `net.ParseCIDR` read them, and the kinds of addresses that the
methods of `net.IP` tell apart.
-/

namespace Gafam.Go

/-! ## Textual addresses -/

/-- The parts of a string between two separators. -/
def splitByte (sep : UInt8) : GoString → List GoString
  | [] => [[]]
  | c :: s =>
    if c = sep then [] :: splitByte sep s
    else ((splitByte sep s).head?.toList.map (c :: ·)) ++ (splitByte sep s).tail

/-- One field of an IPv4 address. -/
def parseOctet (s : GoString) : Option UInt8 :=
  if s = [] || !s.all isDigit then none
  else if s.length > 1 && s.head? == some 0x30 then none
  else if digitsValue s ≤ 255 then some (UInt8.ofNat (digitsValue s))
  else none

/-- `parseIPv4` of `net/netip`. -/
def parseIPv4 (s : GoString) : Option (List UInt8) :=
  match splitByte 0x2E s with
  | [a, b, c, d] => do
    let a ← parseOctet a
    let b ← parseOctet b
    let c ← parseOctet c
    let d ← parseOctet d
    return [a, b, c, d]
  | _ => none

/-- A hexadecimal digit. -/
def isHexDigit (c : UInt8) : Bool := (hexValue c).isSome

/-- The number that hexadecimal digits denote. -/
def hexNumber (s : GoString) : Nat := s.foldl (fun n c => n * 16 + (hexValue c).getD 0) 0

/-- The loop of `parseIPv6`, at most `n` more groups: what is left of the string, the bytes, and where
the ellipsis stands among them. -/
def parseGroups : Nat → GoString → List UInt8 → Option Nat →
    Option (GoString × List UInt8 × Option Nat)
  | 0, s, ip, ellipsis => some (s, ip, ellipsis)
  | n + 1, s, ip, ellipsis =>
    let digits := s.takeWhile isHexDigit
    let rest := s.dropWhile isHexDigit
    if digits = [] ∨ digits.length > 4 then none
    else if rest.head? = some 0x2E then
      -- an IPv4 address takes the place of the last two groups
      if (ellipsis = none ∧ ip.length ≠ 12) ∨ ip.length + 4 > 16 then none
      else (parseIPv4 s).map fun four => ([], ip ++ four, ellipsis)
    else
      let ip := ip ++ [UInt8.ofNat (hexNumber digits / 256), UInt8.ofNat (hexNumber digits)]
      match rest with
      | [] => some ([], ip, ellipsis)
      | c :: rest =>
        if c ≠ 0x3A ∨ rest = [] then none
        else if rest.head? = some 0x3A then
          if ellipsis.isSome then none
          else if rest.tail = [] then some ([], ip, some ip.length)
          else parseGroups n rest.tail ip (some ip.length)
        else parseGroups n rest ip ellipsis

/-- The bytes with the ellipsis filled up, if there is one. -/
def fillEllipsis (ip : List UInt8) (ellipsis : Option Nat) : Option (List UInt8) :=
  if ip.length < 16 then
    ellipsis.map fun k => ip.take k ++ List.replicate (16 - ip.length) 0 ++ ip.drop k
  else if ellipsis.isSome then none
  else some ip

/-- What comes after the loop of `parseIPv6`: the whole string has to be used up. -/
def groupsEnd : GoString × List UInt8 × Option Nat → Option (List UInt8)
  | ([], ip, ellipsis) => fillEllipsis ip ellipsis
  | _ => none

/-- `parseIPv6` of `net/netip`, for an address without a zone. -/
def parseIPv6 (s : GoString) : Option (List UInt8) :=
  if hasPrefix s "::" then
    if s.drop 2 = [] then some (List.replicate 16 0)
    else (parseGroups 8 (s.drop 2) [] (some 0)).bind groupsEnd
  else (parseGroups 8 s [] none).bind groupsEnd

/-- `netip.ParseAddr`, for an address without a zone: its four or sixteen bytes. -/
def parseAddr (s : GoString) : Option (List UInt8) :=
  match s.find? fun c => c == 0x2E || c == 0x3A with
  | some c => if c = 0x2E then parseIPv4 s else parseIPv6 s
  | none => none

/-- The bytes that make an IPv4 address one of sixteen bytes. -/
def v4InV6Prefix : List UInt8 := [0, 0, 0, 0, 0, 0, 0, 0, 0, 0, 0xFF, 0xFF]

/-- A `net.IP` that is an address. -/
structure IP where
  bytes : List UInt8
  size : bytes.length = 4 ∨ bytes.length = 16
deriving DecidableEq

/-- An address of sixteen bytes, if these are sixteen. -/
def IP.ofSixteen (bytes : List UInt8) : Option IP :=
  if h : bytes.length = 16 then some ⟨bytes, .inr h⟩ else none

/-- `net.ParseIP`. -/
def parseIP (s : GoString) : Option IP :=
  (parseAddr s).bind fun bytes =>
    if bytes.length = 4 then IP.ofSixteen (v4InV6Prefix ++ bytes) else IP.ofSixteen bytes

/-! ## Networks -/

/-- `To4` on the bytes of an address. -/
def to4 (bytes : List UInt8) : Option (List UInt8) :=
  if bytes.length = 4 then some bytes
  else if v4InV6Prefix.isPrefixOf bytes then some (bytes.drop 12)
  else none

/-- The bytes that decide: four if the address is one of IPv4. -/
def IP.short (ip : IP) : List UInt8 := (to4 ip.bytes).getD ip.bytes

structure IPNet where
  ip : List UInt8
  mask : List UInt8
deriving DecidableEq

/-- `CIDRMask`. -/
def cidrMask (ones size : Nat) : List UInt8 :=
  (List.range size).map fun i => UInt8.ofNat (256 - 2 ^ (8 - min 8 (ones - 8 * i)))

/-- The bytes under a mask. -/
def masked (mask bytes : List UInt8) : List UInt8 := List.zipWith (· &&& ·) bytes mask

/-- `net.ParseCIDR`. -/
def parseCIDR (s : GoString) : Option IPNet :=
  match splitN "/" 2 s with
  | [addr, bits] => do
    let bytes ← parseAddr addr
    if bits = [] || !bits.all isDigit then none
    else if digitsValue bits > 8 * bytes.length then none
    else
      let mask := cidrMask (digitsValue bits) bytes.length
      some ⟨masked mask bytes, mask⟩
  | _ => none

/-- `Contains`. -/
def IPNet.contains (n : IPNet) (ip : IP) : Bool :=
  ip.short.length == n.ip.length && masked n.mask n.ip == masked n.mask ip.short

/-! ## Kinds of addresses -/

/-- `IsUnspecified`. -/
def IP.isUnspecified (ip : IP) : Bool :=
  ip.short == [0, 0, 0, 0] || ip.short == List.replicate 16 0

/-- `IsLoopback`. -/
def IP.isLoopback (ip : IP) : Bool :=
  match ip.short with
  | [a, _, _, _] => a == 127
  | bytes => bytes == List.replicate 15 0 ++ [1]

/-- `IsPrivate`: the private ranges of IPv4 and the unique local ones of IPv6. -/
def IP.isPrivate (ip : IP) : Bool :=
  match ip.short with
  | [a, b, _, _] => a == 10 || (a == 172 && b &&& 0xF0 == 16) || (a == 192 && b == 168)
  | a :: _ => a &&& 0xFE == 0xFC
  | [] => false

/-- `IsMulticast`. -/
def IP.isMulticast (ip : IP) : Bool :=
  match ip.short with
  | [a, _, _, _] => a &&& 0xF0 == 0xE0
  | a :: _ => a == 0xFF
  | [] => false

/-- `IsLinkLocalUnicast`. -/
def IP.isLinkLocalUnicast (ip : IP) : Bool :=
  match ip.short with
  | [a, b, _, _] => a == 169 && b == 254
  | a :: b :: _ => a == 0xFE && b &&& 0xC0 == 0x80
  | _ => false

end Gafam.Go
