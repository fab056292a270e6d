import Gafam.Go.Text
import Mathlib.Tactic.Common
import Mathlib.Data.List.Infix
import Mathlib.Data.List.Basic

/-!
# Words and first characters of a string
-/

namespace Gafam.Go

theorem fieldsAux_ne_nil (l : List Segment) (cur : GoString) : ∀ w ∈ fieldsAux l cur, w ≠ [] := by
  induction l generalizing cur with
  | nil =>
    intro w hw
    unfold fieldsAux at hw
    split_ifs at hw with hc
    · simp at hw
    · simp only [List.mem_singleton] at hw
      exact hw ▸ hc
  | cons r rs ih =>
    intro w hw
    unfold fieldsAux at hw
    split_ifs at hw with hs hc
    · exact ih _ w hw
    · rcases List.mem_cons.1 hw with rfl | hw
      · exact hc
      · exact ih _ w hw
    · exact ih _ w hw

/-- `strings.Fields` returns no empty word. -/
theorem fields_ne_nil {s w : GoString} (hw : w ∈ fields s) : w ≠ [] := fieldsAux_ne_nil _ _ w hw

/-! ## Strings that start with an ASCII character -/

theorem segments_cons {c : UInt8} (hc : c.toNat < 0x80) (s : GoString) :
    segments (c :: s) = ⟨c.toNat, [c]⟩ :: segments s := by
  have hd : decodeRune (c :: s) = (c.toNat, 1) := if_pos hc
  unfold segments
  rw [List.length_cons, segmentsFuel, hd]
  rfl

/-- `strings.TrimSpace` keeps a first character that is no space. -/
theorem trimSpace_cons {c : UInt8} (hc : c.toNat < 0x80) (hs : isSpace c.toNat = false)
    (s : GoString) : ∃ t, trimSpace (c :: s) = c :: t := by
  let first : Segment := ⟨c.toNat, [c]⟩
  -- The first segment stops the scan from the back as well.
  have hback (l : List Segment) :
      ∃ l', (l ++ [first]).dropWhile (fun r => isSpace r.rune) = l' ++ [first] := by
    rw [List.dropWhile_append]
    split_ifs
    · exact ⟨[], by simp [first, hs]⟩
    · exact ⟨_, rfl⟩
  obtain ⟨l', hl'⟩ := hback (segments s).reverse
  refine ⟨joinSegments l'.reverse, ?_⟩
  unfold trimSpace
  rw [segments_cons hc]
  simp only [List.dropWhile_cons, hs, Bool.false_eq_true, if_false, List.reverse_cons]
  rw [hl']
  simp [joinSegments, first]

theorem toLower_cons {c : UInt8} (hc : c.toNat < 0x80) (s : GoString) :
    toLower (c :: s) = encodeRune (toLowerRune c.toNat) ++ toLower s := by
  unfold toLower
  rw [segments_cons hc, List.flatMap_cons]

/-- A colon is found where it first stands. -/
theorem index_colon {s : GoString} (hs : (0x3A : UInt8) ∉ s) (t : GoString) :
    index ":" (s ++ 0x3A :: t) = some s.length := by
  induction s with
  | nil => rfl
  | cons c s ih =>
    obtain ⟨hc, hs⟩ := not_or.1 (List.mem_cons.not.1 hs)
    have hstarts : (str ":").isPrefixOf (c :: (s ++ 0x3A :: t)) = false := by
      have hhead : ((0x3A : UInt8) == c) = false := beq_false_of_ne hc
      rw [show str ":" = [0x3A] from by decide, List.isPrefixOf_cons_cons, hhead]
      rfl
    rw [List.cons_append]
    unfold index
    rw [hstarts, if_neg Bool.false_ne_true, ih hs]
    rfl

/-!
## The first occurrence

`strings.Index` and `bytes.find` give the first place where one list of bytes stands within another: the
text in front of it, even with all but the last byte of the occurrence, does not hold it.
-/

theorem index_nil {sub : GoString} (hsub : sub ≠ []) : index sub [] = none := by
  rw [index, if_neg hsub]

theorem append_dropLast_front (a sub b : GoString) : a ++ sub.dropLast <+: a ++ sub ++ b := by
  have h : a ++ sub.dropLast <+: a ++ sub := (List.prefix_append_right_inj a).2 (List.dropLast_prefix sub)
  exact h.trans (List.prefix_append ..)

/-- The first occurrence. -/
theorem index_eq_some_iff {sub s : GoString} {i : Nat} (hsub : sub ≠ []) :
    index sub s = some i ↔
      ∃ a b, s = a ++ sub ++ b ∧ a.length = i ∧ ¬ sub <:+: a ++ sub.dropLast := by
  have hpos := List.length_pos_of_ne_nil hsub
  induction s generalizing i with
  | nil =>
    rw [index_nil hsub]
    constructor
    · rintro ⟨⟩
    · rintro ⟨a, b, h, -, -⟩
      obtain ⟨hab, -⟩ := List.append_eq_nil_iff.1 h.symm
      exact absurd (List.append_eq_nil_iff.1 hab).2 hsub
  | cons c cs ih =>
    rw [index]
    by_cases hpre : sub.isPrefixOf (c :: cs) = true
    · rw [if_pos hpre]
      have hfront : sub <+: c :: cs := List.isPrefixOf_iff_prefix.1 hpre
      constructor
      · rintro ⟨⟩
        obtain ⟨t, ht⟩ := hfront
        refine ⟨[], t, ht.symm, rfl, fun h => ?_⟩
        have hle := h.length_le
        rw [List.nil_append, List.length_dropLast] at hle
        omega
      · rintro ⟨a, b, hs, rfl, hno⟩
        rcases a with _ | ⟨x, a⟩
        · rfl
        · -- the occurrence at the front ends before the one behind `x :: a`
          have hlen : sub.length ≤ (x :: a ++ sub.dropLast).length := by
            rw [List.length_append, List.length_dropLast, List.length_cons]
            omega
          have hlong : x :: a ++ sub.dropLast <+: c :: cs := hs ▸ append_dropLast_front (x :: a) sub b
          exact absurd (List.prefix_of_prefix_length_le hfront hlong hlen).isInfix hno
    · rw [if_neg hpre, Option.map_eq_some_iff]
      have hno : ¬ sub <+: c :: cs := fun h => hpre (List.isPrefixOf_iff_prefix.2 h)
      constructor
      · rintro ⟨j, hj, rfl⟩
        obtain ⟨a, b, rfl, rfl, hfirst⟩ := ih.1 hj
        refine ⟨c :: a, b, rfl, rfl, fun h => ?_⟩
        rcases List.infix_cons_iff.1 h with h | h
        · exact hno (h.trans (append_dropLast_front (c :: a) sub b))
        · exact hfirst h
      · rintro ⟨a, b, hs, rfl, hfirst⟩
        rcases a with _ | ⟨x, a⟩
        · exact absurd ⟨b, hs.symm⟩ hno
        · obtain ⟨rfl, hcs⟩ := List.cons.inj hs
          refine ⟨a.length, ih.2 ⟨a, b, hcs, rfl, fun h => hfirst ?_⟩, rfl⟩
          exact List.infix_cons_iff.2 (.inr h)

/-- No occurrence. -/
theorem index_eq_none_iff {sub s : GoString} (hsub : sub ≠ []) : index sub s = none ↔ ¬ sub <:+: s := by
  induction s with
  | nil =>
    rw [index_nil hsub]
    exact ⟨fun _ h => hsub (List.infix_nil.1 h), fun _ => rfl⟩
  | cons c cs ih =>
    rw [index, List.infix_cons_iff, not_or, ← ih, ← List.isPrefixOf_iff_prefix]
    by_cases hpre : sub.isPrefixOf (c :: cs) = true
    · rw [if_pos hpre]
      constructor
      · rintro ⟨⟩
      · exact fun h => absurd hpre h.1
    · rw [if_neg hpre, Option.map_eq_none_iff]
      exact ⟨fun h => ⟨hpre, h⟩, fun h => h.2⟩

theorem pair_prefix_cons {x y c : UInt8} {s : GoString} :
    [x, y] <+: c :: s ↔ x = c ∧ ∃ q, s = y :: q := by
  rw [List.cons_prefix_cons]
  constructor
  · rintro ⟨rfl, q, hq⟩
    exact ⟨rfl, q, hq.symm⟩
  · rintro ⟨rfl, q, rfl⟩
    exact ⟨rfl, q, rfl⟩

/-- Two bytes stand in one of two texts put together, or across the place where they meet. -/
theorem pair_infix_append {x y : UInt8} {a b : GoString} :
    [x, y] <:+: a ++ b ↔
      [x, y] <:+: a ∨ [x, y] <:+: b ∨ ∃ p q, a = p ++ [x] ∧ b = y :: q := by
  constructor
  · induction a with
    | nil => exact fun h => .inr (.inl h)
    | cons c a ih =>
      intro h
      rw [List.cons_append] at h
      rcases List.infix_cons_iff.1 h with h | h
      · obtain ⟨rfl, q, hq⟩ := pair_prefix_cons.1 h
        rcases a with _ | ⟨d, a⟩
        · exact .inr (.inr ⟨[], q, rfl, hq⟩)
        · obtain ⟨rfl, -⟩ := List.cons.inj hq
          exact .inl ⟨[], a, rfl⟩
      · rcases ih h with h | h | ⟨p, q, rfl, rfl⟩
        · exact .inl (List.infix_cons_iff.2 (.inr h))
        · exact .inr (.inl h)
        · exact .inr (.inr ⟨c :: p, q, rfl, rfl⟩)
  · rintro (h | h | ⟨p, q, rfl, rfl⟩)
    · exact h.trans (List.prefix_append ..).isInfix
    · exact h.trans (List.suffix_append ..).isInfix
    · exact ⟨p, q, by simp⟩

/-!
## Numbers in ids

Ids are written with the verb `%d`. The text of a number determines the number, and it contains
nothing but digits, so that two numbers with another character between them can be told apart.
-/

/-- The byte of a digit. -/
theorem encode_digit {c : Char} (h : c.isDigit = true) :
    ∃ b : UInt8,
      String.utf8EncodeChar c = [b] ∧ b.toNat = c.toNat ∧ 48 ≤ b.toNat ∧ b.toNat ≤ 57 := by
  obtain ⟨hlo, hhi⟩ : 48 ≤ c.toNat ∧ c.toNat ≤ 57 := by
    unfold Char.isDigit at h
    simpa [UInt32.le_iff_toNat_le] using h
  refine ⟨c.toNat.toUInt8, ?_, ?_⟩
  · unfold String.utf8EncodeChar
    dsimp only
    exact if_pos (Nat.le_trans hhi (by decide))
  · have hb : c.toNat.toUInt8.toNat = c.toNat % 256 := by simp
    omega

theorem encode_digits {l : List Char} (h : ∀ c ∈ l, c.isDigit = true) (n : Nat) :
    (∀ b ∈ l.flatMap String.utf8EncodeChar, 48 ≤ b.toNat ∧ b.toNat ≤ 57) ∧
      (l.flatMap String.utf8EncodeChar).foldl (fun n b => n * 10 + (b.toNat - 0x30)) n =
        Nat.ofDigitChars 10 l n := by
  induction l generalizing n with
  | nil => exact ⟨nofun, rfl⟩
  | cons c l ih =>
    obtain ⟨b, hb, hbc, hdig⟩ := encode_digit (h c (List.mem_cons_self ..))
    obtain ⟨hall, hval⟩ :=
      ih (fun d hd => h d (List.mem_cons_of_mem _ hd)) (n * 10 + (b.toNat - 0x30))
    rw [List.flatMap_cons, hb]
    refine ⟨fun b' hb' => ?_, ?_⟩
    · rcases List.mem_cons.1 hb' with rfl | hb'
      · exact hdig
      · exact hall b' hb'
    · rw [Nat.ofDigitChars_cons, List.singleton_append, List.foldl_cons, hval, hbc, Nat.mul_comm]
      rfl

theorem toList_toString (n : Nat) : (toString (n : Int)).toList = Nat.toDigits 10 n :=
  Nat.toList_repr

theorem isDigit_toDigits {n : Nat} : ∀ c ∈ Nat.toDigits 10 n, c.isDigit = true := fun _ hc =>
  Nat.isDigit_of_mem_toDigits (by decide) (by decide) hc

/-- A number is written with digits only. -/
theorem mem_itoa {n : Nat} {b : UInt8} (h : b ∈ itoa n) : 48 ≤ b.toNat ∧ b.toNat ≤ 57 := by
  unfold itoa str at h
  rw [toList_toString] at h
  exact (encode_digits isDigit_toDigits 0).1 b h

theorem itoa_ne_nil (n : Nat) : itoa n ≠ [] := by
  intro h
  have hdigits := Nat.toDigits_ne_nil (n := n) (b := 10)
  unfold itoa str at h
  rw [toList_toString] at h
  cases hd : Nat.toDigits 10 n with
  | nil => exact hdigits hd
  | cons c l =>
    rw [hd, List.flatMap_cons] at h
    obtain ⟨b, hb, -⟩ := encode_digit (isDigit_toDigits c (hd ▸ List.mem_cons_self ..))
    rw [hb] at h
    cases h

/-- A number can be read back. -/
theorem digitsValue_itoa (n : Nat) : digitsValue (itoa n) = n := by
  unfold itoa str
  rw [toList_toString]
  exact (encode_digits isDigit_toDigits 0).2.trans Nat.ofDigitChars_ten_toDigits

theorem itoa_inj {n k : Nat} (h : itoa n = itoa k) : n = k := by
  rw [← digitsValue_itoa n, h, digitsValue_itoa]

/-- Two numbers with a byte between them that is no digit. -/
theorem itoa_append_inj {a b n k : Nat} {c : UInt8} (hc : c.toNat < 48)
    (h : itoa a ++ c :: itoa n = itoa b ++ c :: itoa k) : a = b ∧ n = k := by
  have hno : ∀ n : Nat, c ∉ itoa n := fun n hn => by
    have := (mem_itoa hn).1
    omega
  obtain ⟨h1, -, h2⟩ := (List.append_cons_inj_of_notMem (hno a) (hno n)).1 h
  exact ⟨itoa_inj h1, itoa_inj h2⟩

theorem head_toDigits {n : Nat} (hn : 0 < n) : ∃ c l, Nat.toDigits 10 n = c :: l ∧ c ≠ '0' := by
  induction n using Nat.strongRecOn with
  | _ n ih =>
    by_cases h : n < 10
    · refine ⟨n.digitChar, [], Nat.toDigits_of_lt_base h, ?_⟩
      have hall : ∀ n, n < 10 → 0 < n → n.digitChar ≠ '0' := by decide
      exact hall n h hn
    · obtain ⟨c, l, hl, hc⟩ := ih (n / 10) (by omega) (by omega)
      refine ⟨c, l ++ [(n % 10).digitChar], ?_, hc⟩
      rw [Nat.toDigits_of_base_le (by decide) (Nat.le_of_not_lt h), hl]
      rfl

/-- A positive number is written without leading zeros. -/
theorem head_itoa {n : Nat} (hn : 0 < n) : ∃ b l, itoa n = b :: l ∧ b ≠ 0x30 := by
  obtain ⟨c, l, hl, hc⟩ := head_toDigits hn
  obtain ⟨b, hb, hbc, -⟩ := encode_digit (isDigit_toDigits c (hl ▸ List.mem_cons_self ..))
  refine ⟨b, l.flatMap String.utf8EncodeChar, ?_, ?_⟩
  · unfold itoa str
    rw [toList_toString, hl, List.flatMap_cons, hb]
    rfl
  · rintro rfl
    have hcode : c.toNat = '0'.toNat := hbc.symm
    exact hc (Char.toNat_inj.1 hcode)

/-! ### Signed numbers -/

/-- A negative number is written with a minus sign. -/
theorem itoa_negSucc (n : Nat) : itoa (Int.negSucc n) = 0x2D :: itoa ((n + 1 : Nat) : Int) := by
  have hminus : (toString (Int.negSucc n)).toList = '-' :: Nat.toDigits 10 (n + 1) := by
    rw [← Nat.toList_repr]
    exact String.toList_append
  unfold itoa str
  rw [hminus, toList_toString]
  rfl

theorem isDigit_of_bounds {b : UInt8} (h : 48 ≤ b.toNat ∧ b.toNat ≤ 57) : isDigit b = true := by
  unfold isDigit
  simp only [Bool.and_eq_true, decide_eq_true_eq, UInt8.le_iff_toNat_le]
  exact h

theorem all_isDigit_itoa (n : Nat) : (itoa n).all isDigit = true :=
  List.all_eq_true.2 fun _ hb => isDigit_of_bounds (mem_itoa hb)

/-- `%d` and `strconv.Atoi` on 64-bit numbers. -/
theorem atoi_itoa {n : Int} (hlo : -2 ^ 63 ≤ n) (hhi : n < 2 ^ 63) : atoi (itoa n) = some n := by
  cases n with
  | ofNat n =>
    have hvalue := digitsValue_itoa n
    have hall := all_isDigit_itoa n
    have hsmall : n < 9223372036854775808 := by
      have hcast : (n : Int) < 2 ^ 63 := hhi
      omega
    change atoi (itoa n) = some (n : Int)
    cases h : itoa n with
    | nil => exact absurd h (itoa_ne_nil n)
    | cons c rest =>
      have hc := mem_itoa (n := n) (b := c) (h ▸ List.mem_cons_self ..)
      have hminus : (c == 0x2D) = false := beq_false_of_ne fun he => by
        rw [he] at hc
        exact absurd hc (by decide)
      have hplus : (c == 0x2B) = false := beq_false_of_ne fun he => by
        rw [he] at hc
        exact absurd hc (by decide)
      rw [h] at hvalue hall
      unfold atoi
      simp [hminus, hplus, hall, hvalue, hsmall]
  | negSucc n =>
    have hvalue := digitsValue_itoa (n + 1)
    have hall := all_isDigit_itoa (n + 1)
    have hne := itoa_ne_nil (n + 1)
    have hsmall : n + 1 ≤ 2 ^ 63 := by omega
    have hcond : (itoa ((n + 1 : Nat) : Int) = [] || !(itoa ((n + 1 : Nat) : Int)).all isDigit) =
        false := by
      rw [hall, decide_eq_false hne]
      rfl
    rw [itoa_negSucc]
    unfold atoi
    dsimp only
    rw [show ((0x2D : UInt8) == 0x2D) = true from rfl, Bool.true_or, if_pos rfl, hcond, hvalue,
      if_neg Bool.false_ne_true, if_pos rfl, if_pos hsmall, Int.negSucc_eq]
    rfl

/-- A number is written with digits and a sign only. -/
theorem notMem_itoa {c : UInt8} (hc : 57 < c.toNat) (n : Int) : c ∉ itoa n := by
  have hno : ∀ n : Nat, c ∉ itoa n := by
    intro n hn
    have := (mem_itoa hn).2
    omega
  cases n with
  | ofNat n => exact hno n
  | negSucc n =>
    rw [itoa_negSucc]
    intro h
    rcases List.mem_cons.1 h with rfl | h
    · exact absurd hc (by decide)
    · exact hno _ h

/-!
## The runes of a string

A string falls into encodings of runes and into bytes that belong to none. What is said of a string by
its runes is proved along this decomposition.
-/

/-! ### One rune -/

/-- The bounds of the second byte behind the first one of an encoding of three bytes. -/
def second3 (b0 b1 : UInt8) : Bool :=
  contByte (if b0.toNat == 0xE0 then 0xA0 else 0x80) (if b0.toNat == 0xED then 0x9F else 0xBF) b1

/-- The bounds of the second byte behind the first one of an encoding of four bytes. -/
def second4 (b0 b1 : UInt8) : Bool :=
  contByte (if b0.toNat == 0xF0 then 0x90 else 0x80) (if b0.toNat == 0xF4 then 0x8F else 0xBF) b1

/-- These bytes are the encoding of a rune. -/
inductive Encodes : Nat → GoString → Prop
  | one {b0 : UInt8} (h0 : b0.toNat < 0x80) : Encodes b0.toNat [b0]
  | two {b0 b1 : UInt8} (h0 : 0xC2 ≤ b0.toNat ∧ b0.toNat ≤ 0xDF) (h1 : contByte 0x80 0xBF b1) :
    Encodes ((b0.toNat - 0xC0) * 64 + payload b1) [b0, b1]
  | three {b0 b1 b2 : UInt8} (h0 : 0xE0 ≤ b0.toNat ∧ b0.toNat ≤ 0xEF) (h1 : second3 b0 b1)
    (h2 : contByte 0x80 0xBF b2) :
    Encodes ((b0.toNat - 0xE0) * 4096 + payload b1 * 64 + payload b2) [b0, b1, b2]
  | four {b0 b1 b2 b3 : UInt8} (h0 : 0xF0 ≤ b0.toNat ∧ b0.toNat ≤ 0xF4) (h1 : second4 b0 b1)
    (h2 : contByte 0x80 0xBF b2) (h3 : contByte 0x80 0xBF b3) :
    Encodes ((b0.toNat - 0xF0) * 262144 + payload b1 * 4096 + payload b2 * 64 + payload b3)
      [b0, b1, b2, b3]

theorem contByte_bounds {lo hi : Nat} {b : UInt8} (h : contByte lo hi b = true) :
    lo ≤ b.toNat ∧ b.toNat ≤ hi := by
  unfold contByte at h
  simpa using h

theorem second3_bounds {b0 b1 : UInt8} (h : second3 b0 b1 = true) :
    0x80 ≤ b1.toNat ∧ b1.toNat ≤ 0xBF ∧ (b0.toNat = 0xE0 → 0xA0 ≤ b1.toNat) ∧
      (b0.toNat = 0xED → b1.toNat ≤ 0x9F) := by
  unfold second3 at h
  have hb := contByte_bounds h
  simp only [beq_iff_eq] at hb
  split_ifs at hb <;> omega

theorem second4_bounds {b0 b1 : UInt8} (h : second4 b0 b1 = true) :
    0x80 ≤ b1.toNat ∧ b1.toNat ≤ 0xBF ∧ (b0.toNat = 0xF0 → 0x90 ≤ b1.toNat) ∧
      (b0.toNat = 0xF4 → b1.toNat ≤ 0x8F) := by
  unfold second4 at h
  have hb := contByte_bounds h
  simp only [beq_iff_eq] at hb
  split_ifs at hb <;> omega

/-- An encoding is decoded, whatever follows it. -/
theorem Encodes.decode {r : Nat} {bytes : GoString} (h : Encodes r bytes) (t : GoString) :
    decodeRune (bytes ++ t) = (r, bytes.length) := by
  cases h with
  | one h0 => exact if_pos h0
  | two h0 h1 =>
    unfold decodeRune
    dsimp only [List.cons_append, List.nil_append]
    rw [if_neg (by omega), if_pos (by simpa using h0), if_pos h1]
    rfl
  | three h0 h1 h2 =>
    unfold decodeRune
    dsimp only [List.cons_append, List.nil_append]
    rw [if_neg (by omega), if_neg (by simp; omega), if_pos (by simpa using h0)]
    rw [if_pos (by rw [h2, Bool.and_true]; exact h1)]
    rfl
  | four h0 h1 h2 h3 =>
    unfold decodeRune
    dsimp only [List.cons_append, List.nil_append]
    rw [if_neg (by omega), if_neg (by simp; omega), if_neg (by simp; omega),
      if_pos (by simpa using h0)]
    rw [if_pos (by rw [h2, h3, Bool.and_true, Bool.and_true]; exact h1)]
    rfl

/-- The bytes of an encoding behind the first one are continuation bytes, the first one is none. -/
theorem Encodes.shape {r : Nat} {bytes : GoString} (h : Encodes r bytes) :
    ∃ b0 rest, bytes = b0 :: rest ∧ ¬ (0x80 ≤ b0.toNat ∧ b0.toNat < 0xC0) ∧
      (∀ b ∈ rest, 0x80 ≤ b.toNat ∧ b.toNat < 0xC0) ∧ (rest ≠ [] → 0x80 ≤ b0.toNat) := by
  cases h with
  | @one b0 h0 => exact ⟨b0, [], rfl, by omega, nofun, fun h => absurd rfl h⟩
  | @two b0 b1 h0 h1 =>
    have := contByte_bounds h1
    refine ⟨b0, [b1], rfl, by omega, ?_, fun _ => by omega⟩
    simp only [List.mem_singleton, forall_eq]
    omega
  | @three b0 b1 b2 h0 h1 h2 =>
    have := second3_bounds h1
    have := contByte_bounds h2
    refine ⟨b0, [b1, b2], rfl, by omega, ?_, fun _ => by omega⟩
    simp only [List.mem_cons, List.not_mem_nil, or_false, forall_eq_or_imp, forall_eq]
    omega
  | @four b0 b1 b2 b3 h0 h1 h2 h3 =>
    have := second4_bounds h1
    have := contByte_bounds h2
    have := contByte_bounds h3
    refine ⟨b0, [b1, b2, b3], rfl, by omega, ?_, fun _ => by omega⟩
    simp only [List.mem_cons, List.not_mem_nil, or_false, forall_eq_or_imp, forall_eq]
    omega

theorem ofNat_eq {n : Nat} {b : UInt8} (h : n = b.toNat) : UInt8.ofNat n = b := by
  rw [h, UInt8.ofNat_toNat]

theorem payload_eq {b : UInt8} (h : 0x80 ≤ b.toNat ∧ b.toNat ≤ 0xBF) : payload b = b.toNat - 0x80 := by
  unfold payload
  omega

/-- Encoding is the inverse. -/
theorem Encodes.encode {r : Nat} {bytes : GoString} (h : Encodes r bytes) : encodeRune r = bytes := by
  cases h with
  | @one b0 h0 =>
    unfold encodeRune
    rw [if_pos h0, ofNat_eq rfl]
  | @two b0 b1 h0 h1 =>
    have hb1 := contByte_bounds h1
    have hp := payload_eq hb1
    unfold encodeRune
    rw [if_neg (by omega), if_pos (by omega), ofNat_eq (b := b0) (by omega),
      ofNat_eq (b := b1) (by omega)]
  | @three b0 b1 b2 h0 h1 h2 =>
    have hb1 := second3_bounds h1
    have hb2 := contByte_bounds h2
    have hp1 := payload_eq ⟨hb1.1, hb1.2.1⟩
    have hp2 := payload_eq hb2
    unfold encodeRune
    rw [if_neg (by omega), if_neg (by omega), if_pos (by omega), ofNat_eq (b := b0) (by omega),
      ofNat_eq (b := b1) (by omega), ofNat_eq (b := b2) (by omega)]
  | @four b0 b1 b2 b3 h0 h1 h2 h3 =>
    have hb1 := second4_bounds h1
    have hb2 := contByte_bounds h2
    have hb3 := contByte_bounds h3
    have hp1 := payload_eq ⟨hb1.1, hb1.2.1⟩
    have hp2 := payload_eq hb2
    have hp3 := payload_eq hb3
    unfold encodeRune
    rw [if_neg (by omega), if_neg (by omega), if_neg (by omega), ofNat_eq (b := b0) (by omega),
      ofNat_eq (b := b1) (by omega), ofNat_eq (b := b2) (by omega), ofNat_eq (b := b3) (by omega)]

/-- A string starts with an encoding, or with a byte that belongs to none. -/
theorem decodeRune_cases (b0 : UInt8) (s : GoString) :
    (∃ r bytes t, Encodes r bytes ∧ b0 :: s = bytes ++ t) ∨
      (0x80 ≤ b0.toNat ∧ decodeRune (b0 :: s) = (runeError, 1)) := by
  by_cases hascii : b0.toNat < 0x80
  · exact .inl ⟨_, [b0], s, .one hascii, rfl⟩
  have hlead : 0x80 ≤ b0.toNat := Nat.le_of_not_lt hascii
  by_cases hinvalid : decodeRune (b0 :: s) = (runeError, 1)
  · exact .inr ⟨hlead, hinvalid⟩
  refine .inl ?_
  unfold decodeRune at hinvalid
  dsimp only at hinvalid
  rw [if_neg hascii] at hinvalid
  by_cases h2 : (0xC2 ≤ b0.toNat && b0.toNat ≤ 0xDF) = true
  · rw [if_pos h2] at hinvalid
    match s, hinvalid with
    | [], hinvalid => exact absurd rfl hinvalid
    | b1 :: t, hinvalid =>
      by_cases h1 : contByte 0x80 0xBF b1 = true
      · exact ⟨_, [b0, b1], t, .two (by simpa using h2) h1, rfl⟩
      · exact absurd (if_neg h1) hinvalid
  rw [if_neg h2] at hinvalid
  by_cases h3 : (0xE0 ≤ b0.toNat && b0.toNat ≤ 0xEF) = true
  · rw [if_pos h3] at hinvalid
    match s, hinvalid with
    | [], hinvalid => exact absurd rfl hinvalid
    | [_], hinvalid => exact absurd rfl hinvalid
    | b1 :: b2 :: t, hinvalid =>
      by_cases h1 : (second3 b0 b1 && contByte 0x80 0xBF b2) = true
      · obtain ⟨h1, h2⟩ := (Bool.and_eq_true _ _).mp h1
        exact ⟨_, [b0, b1, b2], t, .three (by simpa using h3) h1 h2, rfl⟩
      · exact absurd (if_neg h1) hinvalid
  rw [if_neg h3] at hinvalid
  by_cases h4 : (0xF0 ≤ b0.toNat && b0.toNat ≤ 0xF4) = true
  · rw [if_pos h4] at hinvalid
    match s, hinvalid with
    | [], hinvalid => exact absurd rfl hinvalid
    | [_], hinvalid => exact absurd rfl hinvalid
    | [_, _], hinvalid => exact absurd rfl hinvalid
    | b1 :: b2 :: b3 :: t, hinvalid =>
      by_cases h1 : (second4 b0 b1 && contByte 0x80 0xBF b2 && contByte 0x80 0xBF b3) = true
      · obtain ⟨h1, h3⟩ := (Bool.and_eq_true _ _).mp h1
        obtain ⟨h1, h2⟩ := (Bool.and_eq_true _ _).mp h1
        exact ⟨_, [b0, b1, b2, b3], t, .four (by simpa using h4) h1 h2 h3, rfl⟩
      · exact absurd (if_neg h1) hinvalid
  rw [if_neg h4] at hinvalid
  exact absurd rfl hinvalid

/-- The first byte tells how many bytes there are. -/
def leadWidth (b0 : UInt8) : Nat :=
  if b0.toNat < 0x80 then 1 else if b0.toNat ≤ 0xDF then 2 else if b0.toNat ≤ 0xEF then 3 else 4

theorem Encodes.length_eq {r : Nat} {b0 : UInt8} {rest : GoString} (h : Encodes r (b0 :: rest)) :
    (b0 :: rest).length = leadWidth b0 := by
  unfold leadWidth
  cases h with
  | one h0 => rw [if_pos h0]; rfl
  | two h0 h1 => rw [if_neg (by omega), if_pos (by omega)]; rfl
  | three h0 h1 h2 => rw [if_neg (by omega), if_neg (by omega), if_pos (by omega)]; rfl
  | four h0 h1 h2 h3 => rw [if_neg (by omega), if_neg (by omega), if_neg (by omega)]; rfl

/-- The first bytes of an encoding, without the last ones, belong to no encoding. -/
theorem Encodes.cut {r : Nat} {b0 : UInt8} {conts : GoString} (h : Encodes r (b0 :: conts)) {n : Nat}
    (hn : n < conts.length) {c : UInt8} (hc : c.toNat < 0x80) (t : GoString) :
    decodeRune (b0 :: (conts.take n ++ c :: t)) = (runeError, 1) := by
  rcases decodeRune_cases b0 (conts.take n ++ c :: t) with ⟨r', bytes', t', h', heq⟩ | ⟨-, h'⟩
  · -- Such an encoding would have the ASCII byte among its continuation bytes.
    obtain ⟨b0', conts', rfl, -, hconts', -⟩ := h'.shape
    rw [List.cons_append] at heq
    obtain ⟨rfl, htail⟩ := List.cons.inj heq
    have hlen : conts'.length = conts.length := by
      have h1 := h.length_eq
      have h2 := h'.length_eq
      rw [← h2] at h1
      exact (Nat.succ.inj h1).symm
    have hmem : c ∈ conts' := by
      have htake : (conts.take n).length = n := by
        rw [List.length_take]
        omega
      have hget : (conts' ++ t')[n]? = some c := by
        rw [← htail, List.getElem?_append_right (by omega), htake, Nat.sub_self]
        rfl
      rw [List.getElem?_append_left (by omega)] at hget
      exact List.mem_of_getElem? hget
    have := hconts' c hmem
    omega
  · exact h'

/-! ### All runes -/

theorem segmentsFuel_eq (s : GoString) {fuel : Nat} (h : s.length ≤ fuel) :
    segmentsFuel fuel s = segments s := by
  have hall : ∀ fuel fuel' (s : GoString), s.length ≤ fuel → s.length ≤ fuel' →
      segmentsFuel fuel s = segmentsFuel fuel' s := by
    intro fuel
    induction fuel with
    | zero =>
      intro fuel' s hs hs'
      obtain rfl : s = [] := List.length_eq_zero_iff.1 (Nat.le_zero.1 hs)
      cases fuel' <;> rfl
    | succ fuel ih =>
      intro fuel' s hs hs'
      cases s with
      | nil => cases fuel' <;> rfl
      | cons b s =>
        obtain ⟨fuel', rfl⟩ := Nat.exists_eq_succ_of_ne_zero (Nat.ne_zero_of_lt hs')
        simp only [List.length_cons] at hs hs'
        unfold segmentsFuel
        dsimp only
        rw [ih fuel' (s.drop ((decodeRune (b :: s)).2 - 1)) (by rw [List.length_drop]; omega)
          (by rw [List.length_drop]; omega)]
  exact hall fuel s.length s h (Nat.le_refl _)

/-- An encoding is a segment of its own. -/
theorem segments_append {r : Nat} {bytes : GoString} (h : Encodes r bytes) (t : GoString) :
    segments (bytes ++ t) = ⟨r, bytes⟩ :: segments t := by
  obtain ⟨b0, rest, rfl, -, -, -⟩ := h.shape
  have hdecode := h.decode t
  rw [List.cons_append] at hdecode ⊢
  unfold segments
  rw [List.length_cons, segmentsFuel, hdecode]
  dsimp only
  rw [List.length_cons, Nat.add_sub_cancel, List.take_left, List.drop_left, segmentsFuel_eq t (by rw [List.length_append]; omega)]
  rfl

/-- So is a byte that belongs to none. -/
theorem segments_invalid {b0 : UInt8} {s : GoString} (h : decodeRune (b0 :: s) = (runeError, 1)) :
    segments (b0 :: s) = ⟨runeError, [b0]⟩ :: segments s := by
  unfold segments
  rw [List.length_cons, segmentsFuel, h]
  rfl

/-- Induction along the runes of a string. -/
theorem rune_induction {P : GoString → Prop} (nil : P [])
    (valid : ∀ r bytes t, Encodes r bytes → P t → P (bytes ++ t))
    (invalid : ∀ b0 s, 0x80 ≤ b0.toNat → decodeRune (b0 :: s) = (runeError, 1) → P s → P (b0 :: s))
    (s : GoString) : P s := by
  induction hlen : s.length using Nat.strongRecOn generalizing s with
  | _ n ih =>
    cases s with
    | nil => exact nil
    | cons b0 s =>
      rcases decodeRune_cases b0 s with ⟨r, bytes, t, h, heq⟩ | ⟨hlead, hdecode⟩
      · obtain ⟨b0', rest, rfl, -, -, -⟩ := h.shape
        rw [heq] at hlen ⊢
        refine valid r _ t h (ih t.length ?_ t rfl)
        simp only [List.length_append, List.length_cons] at hlen
        omega
      · refine invalid b0 s hlead hdecode (ih s.length ?_ s rfl)
        rw [List.length_cons] at hlen
        omega

end Gafam.Go
