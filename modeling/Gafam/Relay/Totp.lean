import Gafam.Go.Encoding
import Gafam.Go.Proofs.EncodingProofs
import Gafam.Go.Proofs.TextProofs
import Gafam.Go.Proofs.WordsProofs

/-!
# One-time codes

The vault makes the code of a TOTP secret as an authenticator does (RFC 6238): the HMAC of the number of the time
step, of which four bytes are read at a place that its last byte says.

Given are HMAC-SHA1 and the upper-case form of the runes above ASCII.
-/

namespace Gafam.Relay

open Gafam.Go

/-- HMAC-SHA1: the sum of a message under a key. -/
structure Hmac where
  sum : GoString → GoString → GoString
  length_sum : ∀ key message, (sum key message).length = 20

/-- `unicode.ToUpper`. -/
def toUpperRune (wide : Nat → Nat) (r : Nat) : Nat :=
  if r < 0x80 then
    if 0x61 ≤ r && r ≤ 0x7A then r - 0x20 else r
  else wide r

/-- `strings.ToUpper`. -/
def toUpper (wide : Nat → Nat) (s : GoString) : GoString :=
  (segments s).flatMap fun r => encodeRune (toUpperRune wide r.rune)

/-- `binary.BigEndian.PutUint64`. -/
def putUint64 (n : Nat) : GoString := (List.range 8).map fun i => UInt8.ofNat (n / 256 ^ (7 - i))

/-- The verb `%06d`. -/
def sprintf06d (n : Nat) : GoString := List.replicate (6 - (itoa n).length) 0x30 ++ itoa n

/-- The end of `totpCode`; `none` is an index outside of the sum, at which the source panics. -/
def truncateSum (sum : GoString) : Option GoString := do
  let last ← sum[sum.length - 1]?
  let offset := last.toNat % 16
  let b0 ← sum[offset]?
  let b1 ← sum[offset + 1]?
  let b2 ← sum[offset + 2]?
  let b3 ← sum[offset + 3]?
  return sprintf06d ((b0.toNat % 128 * 2 ^ 24 + b1.toNat * 2 ^ 16 + b2.toNat * 2 ^ 8 + b3.toNat) % 1000000)

/-- `totpCode` at a time in seconds. -/
def totpCode (wide : Nat → Nat) (hmac : Hmac) (unix : Int) (secretB32 : GoString) (periodSeconds : Int) :
    Option GoString :=
  let period := if periodSeconds ≤ 0 then 30 else periodSeconds
  match base32Decode (toUpper wide (trimSpace secretB32)) with
  | none => some []
  | some secret => truncateSum (hmac.sum secret (putUint64 (unix.tdiv period % 2 ^ 64).toNat))

/-! ## What the code is -/

/-- The ASCII upper-case form of a byte. -/
def upperByte (b : UInt8) : UInt8 := if 0x61 ≤ b && b ≤ 0x7A then b - 0x20 else b

/-- A secret as a service hands it out: the key in base32, padded or not, in letters of either case and with white
space around it. -/
structure Secret where
  key : GoString
  padded : Bool
  before : GoString
  letters : GoString
  after : GoString
  blank_before : Blank before
  blank_after : Blank after
  letters_eq : letters.map upperByte = base32Encode padded key

def Secret.text (s : Secret) : GoString := s.before ++ s.letters ++ s.after

/-- The number that bytes are, the highest one first. -/
def bytesValue (bytes : GoString) : Nat := bytes.foldl (fun n b => n * 256 + b.toNat) 0

/-- The lowest four bits of the last byte say where four bytes are read, of which the highest bit is dropped. -/
def dynamicTruncation (sum : GoString) : Nat :=
  bytesValue ((sum.drop ((sum.getD 19 0).toNat % 16)).take 4) % 2 ^ 31

/-- The six digits of a counter. -/
def hotp (hmac : Hmac) (key : GoString) (counter : Nat) : Nat :=
  dynamicTruncation (hmac.sum key ((List.range 8).map fun i => UInt8.ofNat (counter / 256 ^ (7 - i)))) % 10 ^ 6

/-- The six digits of a time; a step takes thirty seconds unless it is said otherwise. -/
def totp (hmac : Hmac) (key : GoString) (unix : Nat) (periodSeconds : Int) : Nat :=
  hotp hmac key (unix / if periodSeconds ≤ 0 then 30 else periodSeconds.toNat)

/-- The text is the number in six digits. -/
structure SixDigits (text : GoString) (n : Nat) : Prop where
  length_eq : text.length = 6
  digits : ∀ b ∈ text, isDigit b = true
  value_eq : digitsValue text = n

/-!
## The codes of padded secrets

The decoder knows base32 with padding only. A secret that is written without it is read if its last group is full;
if it is not, there is no code.
-/

/-! ### Six digits -/

theorem length_itoa_le {n k : Nat} (hk : 0 < k) (h : n < 10 ^ k) : (itoa n).length ≤ k := by
  have hone : ∀ l : List Char, (∀ c ∈ l, c.isDigit = true) → (l.flatMap String.utf8EncodeChar).length = l.length := by
    intro l hl
    induction l with
    | nil => rfl
    | cons c l ih =>
      obtain ⟨hc, hl⟩ := List.forall_mem_cons.1 hl
      obtain ⟨b, hb, -⟩ := encode_digit hc
      rw [List.flatMap_cons, hb, List.length_append, ih hl, List.length_singleton, List.length_cons, Nat.add_comm]
  unfold itoa str
  rw [toList_toString, hone _ isDigit_toDigits]
  exact (Nat.length_toDigits_le_iff (by decide) hk).2 h

theorem digitsValue_zeros (k : Nat) (s : GoString) : digitsValue (List.replicate k 0x30 ++ s) = digitsValue s := by
  induction k with
  | zero => rfl
  | succ k ih => exact ih

theorem sprintf06d_digits {n : Nat} (h : n < 10 ^ 6) : SixDigits (sprintf06d n) n where
  length_eq := by
    have hlen := length_itoa_le (by decide) h
    rw [sprintf06d, List.length_append, List.length_replicate]
    omega
  digits := by
    intro b hb
    rcases List.mem_append.1 hb with hb | hb
    · rw [List.eq_of_mem_replicate hb]
      rfl
    · exact List.all_eq_true.1 (all_isDigit_itoa n) b hb
  value_eq := by rw [sprintf06d, digitsValue_zeros, digitsValue_itoa]

/-! ### The sum -/

/-- The source masks the highest bit of the first byte, and RFC 4226 that of the number. -/
theorem bytesValue_four (b0 b1 b2 b3 : UInt8) :
    bytesValue [b0, b1, b2, b3] % 2 ^ 31 =
      b0.toNat % 128 * 2 ^ 24 + b1.toNat * 2 ^ 16 + b2.toNat * 2 ^ 8 + b3.toNat := by
  have h0 := b0.toNat_lt
  have h1 := b1.toNat_lt
  have h2 := b2.toNat_lt
  have h3 := b3.toNat_lt
  simp only [bytesValue, List.foldl_cons, List.foldl_nil]
  omega

/-- The four bytes lie inside of the sum: the offset is at most 15. -/
theorem truncateSum_eq {sum : GoString} (h : sum.length = 20) :
    truncateSum sum = some (sprintf06d (dynamicTruncation sum % 10 ^ 6)) := by
  have hlast : sum[sum.length - 1]? = some (sum.getD 19 0) := by
    rw [h, List.getD_eq_getElem?_getD]
    exact (List.getElem?_eq_getElem (by omega)).trans (by rw [List.getElem?_eq_getElem (by omega : 19 < sum.length)]; rfl)
  generalize hoffset : (sum.getD 19 0).toNat % 16 = offset
  have hin : offset < 16 := hoffset ▸ Nat.mod_lt _ (by decide)
  have h0 : offset < sum.length := by omega
  have h1 : offset + 1 < sum.length := by omega
  have h2 : offset + 2 < sum.length := by omega
  have h3 : offset + 3 < sum.length := by omega
  have hbytes : (sum.drop offset).take 4 = [sum[offset], sum[offset + 1], sum[offset + 2], sum[offset + 3]] := by
    rw [List.drop_eq_getElem_cons h0, List.drop_eq_getElem_cons h1, List.drop_eq_getElem_cons h2,
      List.drop_eq_getElem_cons h3]
    rfl
  rw [truncateSum, hlast, Option.bind_eq_bind, Option.bind_some]
  dsimp only
  rw [hoffset, List.getElem?_eq_getElem h0, List.getElem?_eq_getElem h1, List.getElem?_eq_getElem h2,
    List.getElem?_eq_getElem h3, dynamicTruncation, hoffset, hbytes, bytesValue_four]
  rfl

/-- The bytes of the counter are those of the step, however large it is. -/
theorem putUint64_mod (n : Nat) : putUint64 (n % 2 ^ 64) = putUint64 n := by
  refine List.map_congr_left fun i hi => ?_
  have hi := List.mem_range.1 hi
  have hpow : 2 ^ 64 = 256 ^ (7 - i) * 256 * 256 ^ i := by
    rw [Nat.mul_right_comm, ← Nat.pow_add, ← Nat.pow_succ, show (7 - i + i).succ = 8 by omega]
    rfl
  rw [← UInt8.toNat_inj, UInt8.toNat_ofNat', UInt8.toNat_ofNat', hpow, Nat.mul_assoc, Nat.mod_mul_right_div_self]
  exact Nat.mod_mod_of_dvd _ (Nat.dvd_mul_right _ _)

/-! ### The text of a secret -/

/-- A character of base32, or the padding. -/
def isBase32 (c : UInt8) : Bool := (base32Value c).isSome || c == base64Pad

theorem base32Encode_isBase32 {padded : Bool} {s : GoString} : ∀ c ∈ base32Encode padded s, isBase32 c = true :=
  base32Encode_forall (by decide) (by decide)

set_option maxRecDepth 8000 in
theorem ascii_of_isBase32 (c : UInt8) : isBase32 (upperByte c) = true → c.toNat < 0x80 ∧ isSpace c.toNat = false :=
  forall_byte (p := fun c => isBase32 (upperByte c) = true → c.toNat < 0x80 ∧ isSpace c.toNat = false) (by decide) c

set_option maxRecDepth 8000 in
theorem toUpper_ascii (wide : Nat → Nat) {s : GoString} (h : ∀ b ∈ s, b.toNat < 0x80) :
    toUpper wide s = s.map upperByte := by
  have hone : ∀ b : UInt8, b.toNat < 0x80 → encodeRune (toUpperRune (fun _ => 0) b.toNat) = [upperByte b] :=
    forall_byte (by decide)
  induction s with
  | nil => rfl
  | cons b s ih =>
    obtain ⟨hb, hs⟩ := List.forall_mem_cons.1 h
    have hrune : toUpperRune wide b.toNat = toUpperRune (fun _ => 0) b.toNat := by
      rw [toUpperRune, if_pos hb, toUpperRune, if_pos hb]
    rw [toUpper, segments_cons hb, List.flatMap_cons, hrune, hone b hb, List.map_cons]
    exact congrArg (upperByte b :: ·) (ih hs)

theorem Secret.ascii (s : Secret) : ∀ b ∈ s.letters, b.toNat < 0x80 ∧ isSpace b.toNat = false := by
  intro b hb
  refine ascii_of_isBase32 b (@base32Encode_isBase32 s.padded s.key _ ?_)
  exact s.letters_eq ▸ List.mem_map_of_mem hb

/-- What the code makes of the text before it is decoded. -/
theorem Secret.normalized (s : Secret) (wide : Nat → Nat) :
    toUpper wide (trimSpace s.text) = base32Encode s.padded s.key := by
  have htrim : trimSpace s.letters = s.letters := trimSpace_of_noEdgeSpace (noSpace_ascii s.ascii).noEdgeSpace
  rw [text, List.append_assoc, trimSpace_blank_append s.blank_before, trimSpace_append_blank s.blank_after, htrim,
    toUpper_ascii wide fun b hb => (s.ascii b hb).1, s.letters_eq]

/-! ### Codes -/

theorem timeStep_eq (now : Nat) (periodSeconds : Int) :
    (((now : Int).tdiv (if periodSeconds ≤ 0 then 30 else periodSeconds)) % 2 ^ 64).toNat =
      (now / if periodSeconds ≤ 0 then 30 else periodSeconds.toNat) % 2 ^ 64 := by
  by_cases h : periodSeconds ≤ 0
  · rw [if_pos h, if_pos h]
    rfl
  · obtain ⟨n, rfl⟩ := Int.eq_ofNat_of_zero_le (by omega : 0 ≤ periodSeconds)
    rw [if_neg h, if_neg h]
    rfl

/-- Without padding a key is decoded if its last group is full. -/
theorem totpCode_text (wide : Nat → Nat) (hmac : Hmac) (s : Secret) (now : Nat) (periodSeconds : Int) :
    totpCode wide hmac now s.text periodSeconds =
      if s.padded = true ∨ s.key.length % 5 = 0 then some (sprintf06d (totp hmac s.key now periodSeconds))
      else some [] := by
  rw [totpCode, s.normalized, base32Decode_encode]
  by_cases hread : s.padded = true ∨ s.key.length % 5 = 0
  · rw [if_pos hread, if_pos hread]
    dsimp only
    rw [truncateSum_eq (hmac.length_sum _ _), timeStep_eq, putUint64_mod]
    rfl
  · rw [if_neg hread, if_neg hread]

theorem totp_lt (hmac : Hmac) (key : GoString) (now : Nat) (periodSeconds : Int) :
    totp hmac key now periodSeconds < 10 ^ 6 := Nat.mod_lt _ (by decide)

/-- The code of a secret is that of RFC 6238 for its key if and only if the secret is padded or its last group is
full. -/
theorem totpCode_iff (wide : Nat → Nat) (hmac : Hmac) (s : Secret) (now : Nat) (periodSeconds : Int) :
    (∃ code, totpCode wide hmac now s.text periodSeconds = some code ∧
      SixDigits code (totp hmac s.key now periodSeconds)) ↔ s.padded = true ∨ s.key.length % 5 = 0 := by
  rw [totpCode_text]
  constructor
  · rintro ⟨code, hcode, hdigits⟩
    by_contra hread
    rw [if_neg hread] at hcode
    obtain rfl := Option.some.inj hcode
    exact absurd hdigits.length_eq (by decide)
  · intro hread
    rw [if_pos hread]
    exact ⟨_, rfl, sprintf06d_digits (totp_lt ..)⟩

/-- A key of sixteen bytes, written without padding. -/
def sixteenBytes : Secret where
  key := str "Hello!1234567890"
  padded := false
  before := []
  letters := str "JBSWY3DPEEYTEMZUGU3DOOBZGA"
  after := []
  blank_before := blank_nil
  blank_after := blank_nil
  letters_eq := by decide

/-- A function that stands for HMAC-SHA1. -/
def zeroHmac : Hmac := ⟨fun _ _ => List.replicate 20 0, fun _ _ => rfl⟩

theorem sixteenBytes_none : ¬ ∃ code, totpCode id zeroHmac (59 : Nat) sixteenBytes.text 30 = some code ∧
    SixDigits code (totp zeroHmac sixteenBytes.key 59 30) := by
  rintro ⟨code, hcode, hdigits⟩
  rw [totpCode_text, if_neg (by decide)] at hcode
  obtain rfl := Option.some.inj hcode
  exact absurd hdigits.length_eq (by decide)

end Gafam.Relay
