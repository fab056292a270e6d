import Mathlib.Data.List.Basic
import Mathlib.Algebra.Order.Ring.Int

/-!
# Strings and runes

A Go string is a sequence of bytes, not of characters: slicing counts bytes, and a slice may cut a
character in two. The functions below follow the package functions of `unicode`, `strings`, `strconv`
and `unicode/utf8` that the relay calls, on that representation.
-/

namespace Gafam.Go

/-!
## Runes

The two properties of a code point that the relay's text handling looks at: `unicode.IsSpace` and
`unicode.ToLower`. The lower-case table lists the code points above ASCII whose simple lower-case
mapping differs from themselves, as ranges with a stride, the layout of Go's own `CaseRanges`.
-/

/-- `utf8.RuneError`, what a byte that starts no valid encoding decodes to. -/
def runeError : Nat := 0xFFFD

/-- `unicode.IsSpace`. -/
def isSpace (r : Nat) : Bool :=
  (9 ≤ r && r ≤ 13) || r == 0x20 || r == 0x85 || r == 0xA0 || r == 0x1680 ||
    (0x2000 ≤ r && r ≤ 0x200A) || r == 0x2028 || r == 0x2029 || r == 0x202F || r == 0x205F ||
    r == 0x3000

/-- A run of code points `lo, lo + stride, …, hi` that are all moved by `delta`. -/
structure CaseRange where
  lo : Nat
  hi : Nat
  stride : Nat
  delta : Int

/-- The code point lies in the run. -/
def CaseRange.covers (c : CaseRange) (r : Nat) : Bool :=
  c.lo ≤ r && r ≤ c.hi && (r - c.lo) % c.stride == 0

/-- The upper- and title-case code points above ASCII with their distance to the lower-case one. -/
def lowerRanges : List CaseRange :=
  [⟨192, 214, 1, 32⟩, ⟨216, 222, 1, 32⟩, ⟨256, 302, 2, 1⟩, ⟨304, 304, 1, -199⟩, ⟨306, 310, 2, 1⟩,
   ⟨313, 327, 2, 1⟩, ⟨330, 374, 2, 1⟩, ⟨376, 376, 1, -121⟩, ⟨377, 381, 2, 1⟩, ⟨385, 385, 1, 210⟩,
   ⟨386, 388, 2, 1⟩, ⟨390, 390, 1, 206⟩, ⟨391, 391, 1, 1⟩, ⟨393, 394, 1, 205⟩, ⟨395, 395, 1, 1⟩,
   ⟨398, 398, 1, 79⟩, ⟨399, 399, 1, 202⟩, ⟨400, 400, 1, 203⟩, ⟨401, 401, 1, 1⟩,
   ⟨403, 403, 1, 205⟩, ⟨404, 404, 1, 207⟩, ⟨406, 406, 1, 211⟩, ⟨407, 407, 1, 209⟩,
   ⟨408, 408, 1, 1⟩, ⟨412, 412, 1, 211⟩, ⟨413, 413, 1, 213⟩, ⟨415, 415, 1, 214⟩,
   ⟨416, 420, 2, 1⟩, ⟨422, 422, 1, 218⟩, ⟨423, 423, 1, 1⟩, ⟨425, 425, 1, 218⟩, ⟨428, 428, 1, 1⟩,
   ⟨430, 430, 1, 218⟩, ⟨431, 431, 1, 1⟩, ⟨433, 434, 1, 217⟩, ⟨435, 437, 2, 1⟩,
   ⟨439, 439, 1, 219⟩, ⟨440, 440, 1, 1⟩, ⟨444, 444, 1, 1⟩, ⟨452, 452, 1, 2⟩, ⟨453, 453, 1, 1⟩,
   ⟨455, 455, 1, 2⟩, ⟨456, 456, 1, 1⟩, ⟨458, 458, 1, 2⟩, ⟨459, 475, 2, 1⟩, ⟨478, 494, 2, 1⟩,
   ⟨497, 497, 1, 2⟩, ⟨498, 500, 2, 1⟩, ⟨502, 502, 1, -97⟩, ⟨503, 503, 1, -56⟩, ⟨504, 542, 2, 1⟩,
   ⟨544, 544, 1, -130⟩, ⟨546, 562, 2, 1⟩, ⟨570, 570, 1, 10795⟩, ⟨571, 571, 1, 1⟩,
   ⟨573, 573, 1, -163⟩, ⟨574, 574, 1, 10792⟩, ⟨577, 577, 1, 1⟩, ⟨579, 579, 1, -195⟩,
   ⟨580, 580, 1, 69⟩, ⟨581, 581, 1, 71⟩, ⟨582, 590, 2, 1⟩, ⟨880, 882, 2, 1⟩, ⟨886, 886, 1, 1⟩,
   ⟨895, 895, 1, 116⟩, ⟨902, 902, 1, 38⟩, ⟨904, 906, 1, 37⟩, ⟨908, 908, 1, 64⟩,
   ⟨910, 911, 1, 63⟩, ⟨913, 929, 1, 32⟩, ⟨931, 939, 1, 32⟩, ⟨975, 975, 1, 8⟩, ⟨984, 1006, 2, 1⟩,
   ⟨1012, 1012, 1, -60⟩, ⟨1015, 1015, 1, 1⟩, ⟨1017, 1017, 1, -7⟩, ⟨1018, 1018, 1, 1⟩,
   ⟨1021, 1023, 1, -130⟩, ⟨1024, 1039, 1, 80⟩, ⟨1040, 1071, 1, 32⟩, ⟨1120, 1152, 2, 1⟩,
   ⟨1162, 1214, 2, 1⟩, ⟨1216, 1216, 1, 15⟩, ⟨1217, 1229, 2, 1⟩, ⟨1232, 1326, 2, 1⟩,
   ⟨1329, 1366, 1, 48⟩, ⟨4256, 4293, 1, 7264⟩, ⟨4295, 4295, 1, 7264⟩, ⟨4301, 4301, 1, 7264⟩,
   ⟨5024, 5103, 1, 38864⟩, ⟨5104, 5109, 1, 8⟩, ⟨7312, 7354, 1, -3008⟩, ⟨7357, 7359, 1, -3008⟩,
   ⟨7680, 7828, 2, 1⟩, ⟨7838, 7838, 1, -7615⟩, ⟨7840, 7934, 2, 1⟩, ⟨7944, 7951, 1, -8⟩,
   ⟨7960, 7965, 1, -8⟩, ⟨7976, 7983, 1, -8⟩, ⟨7992, 7999, 1, -8⟩, ⟨8008, 8013, 1, -8⟩,
   ⟨8025, 8031, 2, -8⟩, ⟨8040, 8047, 1, -8⟩, ⟨8072, 8079, 1, -8⟩, ⟨8088, 8095, 1, -8⟩,
   ⟨8104, 8111, 1, -8⟩, ⟨8120, 8121, 1, -8⟩, ⟨8122, 8123, 1, -74⟩, ⟨8124, 8124, 1, -9⟩,
   ⟨8136, 8139, 1, -86⟩, ⟨8140, 8140, 1, -9⟩, ⟨8152, 8153, 1, -8⟩, ⟨8154, 8155, 1, -100⟩,
   ⟨8168, 8169, 1, -8⟩, ⟨8170, 8171, 1, -112⟩, ⟨8172, 8172, 1, -7⟩, ⟨8184, 8185, 1, -128⟩,
   ⟨8186, 8187, 1, -126⟩, ⟨8188, 8188, 1, -9⟩, ⟨8486, 8486, 1, -7517⟩, ⟨8490, 8490, 1, -8383⟩,
   ⟨8491, 8491, 1, -8262⟩, ⟨8498, 8498, 1, 28⟩, ⟨8544, 8559, 1, 16⟩, ⟨8579, 8579, 1, 1⟩,
   ⟨9398, 9423, 1, 26⟩, ⟨11264, 11311, 1, 48⟩, ⟨11360, 11360, 1, 1⟩, ⟨11362, 11362, 1, -10743⟩,
   ⟨11363, 11363, 1, -3814⟩, ⟨11364, 11364, 1, -10727⟩, ⟨11367, 11371, 2, 1⟩,
   ⟨11373, 11373, 1, -10780⟩, ⟨11374, 11374, 1, -10749⟩, ⟨11375, 11375, 1, -10783⟩,
   ⟨11376, 11376, 1, -10782⟩, ⟨11378, 11378, 1, 1⟩, ⟨11381, 11381, 1, 1⟩,
   ⟨11390, 11391, 1, -10815⟩, ⟨11392, 11490, 2, 1⟩, ⟨11499, 11501, 2, 1⟩, ⟨11506, 11506, 1, 1⟩,
   ⟨42560, 42604, 2, 1⟩, ⟨42624, 42650, 2, 1⟩, ⟨42786, 42798, 2, 1⟩, ⟨42802, 42862, 2, 1⟩,
   ⟨42873, 42875, 2, 1⟩, ⟨42877, 42877, 1, -35332⟩, ⟨42878, 42886, 2, 1⟩, ⟨42891, 42891, 1, 1⟩,
   ⟨42893, 42893, 1, -42280⟩, ⟨42896, 42898, 2, 1⟩, ⟨42902, 42920, 2, 1⟩,
   ⟨42922, 42922, 1, -42308⟩, ⟨42923, 42923, 1, -42319⟩, ⟨42924, 42924, 1, -42315⟩,
   ⟨42925, 42925, 1, -42305⟩, ⟨42926, 42926, 1, -42308⟩, ⟨42928, 42928, 1, -42258⟩,
   ⟨42929, 42929, 1, -42282⟩, ⟨42930, 42930, 1, -42261⟩, ⟨42931, 42931, 1, 928⟩,
   ⟨42932, 42946, 2, 1⟩, ⟨42948, 42948, 1, -48⟩, ⟨42949, 42949, 1, -42307⟩,
   ⟨42950, 42950, 1, -35384⟩, ⟨42951, 42953, 2, 1⟩, ⟨42960, 42960, 1, 1⟩, ⟨42966, 42968, 2, 1⟩,
   ⟨42997, 42997, 1, 1⟩, ⟨65313, 65338, 1, 32⟩, ⟨66560, 66599, 1, 40⟩, ⟨66736, 66771, 1, 40⟩,
   ⟨66928, 66938, 1, 39⟩, ⟨66940, 66954, 1, 39⟩, ⟨66956, 66962, 1, 39⟩, ⟨66964, 66965, 1, 39⟩,
   ⟨68736, 68786, 1, 64⟩, ⟨71840, 71871, 1, 32⟩, ⟨93760, 93791, 1, 32⟩, ⟨125184, 125217, 1, 34⟩]

/-- `unicode.ToLower`. -/
def toLowerRune (r : Nat) : Nat :=
  if r < 0x80 then
    if 0x41 ≤ r && r ≤ 0x5A then r + 0x20 else r
  else
    match lowerRanges.find? (·.covers r) with
    | some c => (r + c.delta).toNat
    | none => r

/-! ## Strings -/

/-- A Go string. -/
abbrev GoString := List UInt8

/-- The bytes of a string literal of the source. -/
def str (s : String) : GoString := s.toList.flatMap String.utf8EncodeChar

instance : Coe String GoString := ⟨str⟩

instance : LawfulBEq GoString := inferInstance

/-- A property of the characters of a literal, checked on one after the other. -/
theorem forall_of_all {α : Type} {p : α → Prop} [DecidablePred p] {l : List α}
    (h : (l.all fun a => decide (p a)) = true) : ∀ a ∈ l, p a :=
  fun a ha => of_decide_eq_true (List.all_eq_true.1 h a ha)

theorem forall_byte {p : UInt8 → Prop} (h : ∀ n < 256, p (UInt8.ofNat n)) (c : UInt8) : p c := by
  have hc := h c.toNat c.toNat_lt
  rwa [UInt8.ofNat_toNat] at hc

/-! ### Runes -/

/-- A continuation byte inside the bounds that the first byte of the encoding allows. -/
def contByte (lo hi : Nat) (b : UInt8) : Bool := lo ≤ b.toNat && b.toNat ≤ hi

/-- The six payload bits of a continuation byte. -/
def payload (b : UInt8) : Nat := b.toNat % 64

/-- `utf8.DecodeRuneInString`: the first rune of a string and its width in bytes. A byte that starts
no valid encoding is `runeError` of width 1. -/
def decodeRune : GoString → Nat × Nat
  | [] => (runeError, 0)
  | b0 :: rest =>
    let c := b0.toNat
    if c < 0x80 then (c, 1)
    else if 0xC2 ≤ c && c ≤ 0xDF then
      match rest with
      | b1 :: _ =>
        if contByte 0x80 0xBF b1 then ((c - 0xC0) * 64 + payload b1, 2) else (runeError, 1)
      | _ => (runeError, 1)
    else if 0xE0 ≤ c && c ≤ 0xEF then
      match rest with
      | b1 :: b2 :: _ =>
        if contByte (if c == 0xE0 then 0xA0 else 0x80) (if c == 0xED then 0x9F else 0xBF) b1 &&
            contByte 0x80 0xBF b2 then
          ((c - 0xE0) * 4096 + payload b1 * 64 + payload b2, 3)
        else (runeError, 1)
      | _ => (runeError, 1)
    else if 0xF0 ≤ c && c ≤ 0xF4 then
      match rest with
      | b1 :: b2 :: b3 :: _ =>
        if contByte (if c == 0xF0 then 0x90 else 0x80) (if c == 0xF4 then 0x8F else 0xBF) b1 &&
            contByte 0x80 0xBF b2 && contByte 0x80 0xBF b3 then
          ((c - 0xF0) * 262144 + payload b1 * 4096 + payload b2 * 64 + payload b3, 4)
        else (runeError, 1)
      | _ => (runeError, 1)
    else (runeError, 1)

/-- `utf8.AppendRune` on an empty string. -/
def encodeRune (r : Nat) : GoString :=
  if r < 0x80 then [UInt8.ofNat r]
  else if r < 0x800 then [UInt8.ofNat (0xC0 + r / 64), UInt8.ofNat (0x80 + r % 64)]
  else if r < 0x10000 then
    [UInt8.ofNat (0xE0 + r / 4096), UInt8.ofNat (0x80 + r / 64 % 64), UInt8.ofNat (0x80 + r % 64)]
  else
    [UInt8.ofNat (0xF0 + r / 262144), UInt8.ofNat (0x80 + r / 4096 % 64),
      UInt8.ofNat (0x80 + r / 64 % 64), UInt8.ofNat (0x80 + r % 64)]

theorem encodeRune_ne_nil (r : Nat) : encodeRune r ≠ [] := by
  unfold encodeRune
  split_ifs <;> exact List.cons_ne_nil _ _

/-- A rune together with the bytes it was read from. -/
structure Segment where
  rune : Nat
  bytes : GoString

/-- The runes of a string, as `for range` visits them, at most `fuel` many. -/
def segmentsFuel : Nat → GoString → List Segment
  | 0, _ => []
  | _ + 1, [] => []
  | fuel + 1, b :: s =>
    let d := decodeRune (b :: s)
    ⟨d.1, b :: s.take (d.2 - 1)⟩ :: segmentsFuel fuel (s.drop (d.2 - 1))

/-- The runes of a string: every one takes at least one byte, so the length is enough fuel. -/
def segments (s : GoString) : List Segment := segmentsFuel s.length s

/-- The text of a list of runes. -/
def joinSegments (l : List Segment) : GoString := l.flatMap Segment.bytes

/-! ### Package `strings` -/

/-- `strings.ToLower`. -/
def toLower (s : GoString) : GoString := (segments s).flatMap fun r => encodeRune (toLowerRune r.rune)

/-- `strings.TrimSpace`. -/
def trimSpace (s : GoString) : GoString :=
  let front := (segments s).dropWhile fun r => isSpace r.rune
  joinSegments (front.reverse.dropWhile fun r => isSpace r.rune).reverse

/-- Nothing but white space. -/
def Blank (s : GoString) : Prop := ∀ r ∈ segments s, isSpace r.rune = true

/-- No white space. -/
def NoSpace (s : GoString) : Prop := ∀ r ∈ segments s, isSpace r.rune = false

/-- The second text begins with what is left of a white-space character that is cut, and but for white space the two
together hold these bytes only. -/
def CutsSpace (x y : GoString) : Prop :=
  ∃ a left w d, x = a ++ left ++ w ∧ y = left ++ d ∧ Blank a ∧ Blank (w ++ left) ∧ Blank d ∧ ¬ Blank left

/-- The words of a list of runes, `cur` being the bytes of the word read so far. -/
def fieldsAux : List Segment → GoString → List GoString
  | [], cur => if cur = [] then [] else [cur]
  | r :: rs, cur =>
    if isSpace r.rune then
      if cur = [] then fieldsAux rs [] else cur :: fieldsAux rs []
    else fieldsAux rs (cur ++ r.bytes)

/-- `strings.Fields`. -/
def fields (s : GoString) : List GoString := fieldsAux (segments s) []

/-- `strings.Index`; `none` is the source's `-1`. -/
def index (sub : GoString) : GoString → Option Nat
  | [] => if sub = [] then some 0 else none
  | c :: cs => if sub.isPrefixOf (c :: cs) then some 0 else (index sub cs).map (· + 1)

/-- `strings.Contains`. -/
def contains (s sub : GoString) : Bool := (index sub s).isSome

/-- `strings.HasPrefix`. -/
def hasPrefix (s start : GoString) : Bool := start.isPrefixOf s

/-- `strings.HasSuffix`. -/
def hasSuffix (s suffix : GoString) : Bool := suffix.isSuffixOf s

/-- `strings.TrimSuffix`. -/
def trimSuffix (s suffix : GoString) : GoString :=
  if hasSuffix s suffix then s.take (s.length - suffix.length) else s

/-- `strings.SplitN` for a non-empty separator and a non-negative count. -/
def splitN (sep : GoString) : Nat → GoString → List GoString
  | 0, _ => []
  | 1, s => [s]
  | n + 2, s =>
    match index sep s with
    | none => [s]
    | some i => s.take i :: splitN sep (n + 1) (s.drop (i + sep.length))

/-- `strings.ReplaceAll` of one byte by one byte. -/
def replaceByte (old new : UInt8) (s : GoString) : GoString :=
  s.map fun b => if b = old then new else b

/-- `strings.Trim` for a cut set of ASCII characters. -/
def trimCutset (cutset s : GoString) : GoString :=
  ((s.dropWhile (· ∈ cutset)).reverse.dropWhile (· ∈ cutset)).reverse

/-- The ASCII lower-case form of a byte. -/
def lowerByte (b : UInt8) : UInt8 := if 0x41 ≤ b && b ≤ 0x5A then b + 0x20 else b

/-- `strings.EqualFold` against an ASCII word without `k` and `s`: no other code point folds to a
letter of such a word, so the comparison is that of the ASCII lower-case forms. -/
def equalFoldAscii (s word : GoString) : Bool := s.map lowerByte == word.map lowerByte

/-! ### Package `strconv` -/

/-- An ASCII digit. -/
def isDigit (b : UInt8) : Bool := 0x30 ≤ b && b ≤ 0x39

/-- The number a list of ASCII digits denotes. -/
def digitsValue (s : GoString) : Nat := s.foldl (fun n b => n * 10 + (b.toNat - 0x30)) 0

/-- `strconv.Atoi` on a 64-bit machine; `none` is the error. -/
def atoi (s : GoString) : Option Int :=
  match s with
  | [] => none
  | c :: rest =>
    let neg := c == 0x2D
    let ds := if neg || c == 0x2B then rest else s
    if ds = [] || !ds.all isDigit then none
    else
      let n := digitsValue ds
      if neg then if n ≤ 2 ^ 63 then some (-(n : Int)) else none
      else if n < 2 ^ 63 then some n else none

/-- The verb `%d`. -/
def itoa (n : Int) : GoString := str (toString n)

end Gafam.Go
