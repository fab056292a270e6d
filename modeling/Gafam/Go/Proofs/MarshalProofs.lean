import Gafam.Go.Encoding
import Gafam.Go.Json
import Gafam.Go.Proofs.TextProofs

/-!
# Values that are written and read

A string comes back with every byte that is no UTF-8 replaced, numbers come back as they were, and
arrays and objects come back when their parts do.
-/

namespace Gafam.Go

/-! ## UTF-8 -/

@[simp] theorem reencode_nil : reencode [] = [] := rfl

@[simp] theorem validString_nil : validString [] = true := rfl

theorem reencode_append {r : Nat} {bytes : GoString} (h : Encodes r bytes) (t : GoString) :
    reencode (bytes ++ t) = bytes ++ reencode t := by
  unfold reencode
  rw [segments_append h, List.flatMap_cons, h.encode]

theorem reencode_invalid {b0 : UInt8} {s : GoString} (h : decodeRune (b0 :: s) = (runeError, 1)) :
    reencode (b0 :: s) = encodeRune runeError ++ reencode s := by
  unfold reencode
  rw [segments_invalid h, List.flatMap_cons]

/-- One byte alone is the encoding of an ASCII character. -/
theorem Encodes.not_error {r : Nat} {bytes : GoString} (h : Encodes r bytes) :
    r ≠ runeError ∨ bytes.length ≠ 1 := by
  cases h with
  | one h0 =>
    left
    unfold runeError
    omega
  | two => exact .inr (by simp)
  | three => exact .inr (by simp)
  | four => exact .inr (by simp)

/-- An encoding is not taken for a byte that belongs to none. -/
theorem Encodes.decode_ne {r : Nat} {bytes : GoString} (h : Encodes r bytes) (t : GoString) :
    decodeRune (bytes ++ t) ≠ (runeError, 1) := by
  rw [h.decode]
  intro heq
  obtain ⟨hr, hlen⟩ := Prod.mk.inj heq
  exact h.not_error.elim (absurd hr) (absurd hlen)

theorem validString_append {r : Nat} {bytes : GoString} (h : Encodes r bytes) (t : GoString) :
    validString (bytes ++ t) = validString t := by
  have hok := h.not_error
  unfold validString
  rw [segments_append h, List.all_cons]
  simp [hok]

theorem validString_invalid {b0 : UInt8} {s : GoString} (h : decodeRune (b0 :: s) = (runeError, 1)) :
    validString (b0 :: s) = false := by
  unfold validString
  rw [segments_invalid h, List.all_cons]
  simp

theorem encodes_ascii {c : UInt8} (hc : c.toNat < 0x80) : Encodes c.toNat [c] := .one hc

/-- A valid string is left alone. -/
theorem reencode_valid {s : GoString} (h : validString s = true) : reencode s = s := by
  induction s using rune_induction with
  | nil => rfl
  | valid r bytes t hr ih =>
    rw [validString_append hr] at h
    rw [reencode_append hr, ih h]
  | invalid b0 s hlead hdecode ih =>
    rw [validString_invalid hdecode] at h
    cases h

/-- A string becomes longer when a byte of it is replaced. -/
theorem length_reencode (s : GoString) :
    s.length ≤ (reencode s).length ∧ ((reencode s).length = s.length → validString s = true) := by
  induction s using rune_induction with
  | nil => exact ⟨Nat.le_refl _, fun _ => rfl⟩
  | valid r bytes t hr ih =>
    rw [reencode_append hr, validString_append hr]
    simp only [List.length_append]
    refine ⟨by omega, fun h => ih.2 (by omega)⟩
  | invalid b0 s hlead hdecode ih =>
    have herror : (encodeRune runeError).length = 3 := rfl
    rw [reencode_invalid hdecode]
    simp only [List.length_append, List.length_cons, herror]
    refine ⟨by omega, fun h => ?_⟩
    omega

/-- Valid strings that follow each other. -/
theorem validString_concat {s t : GoString} (hs : validString s = true) :
    validString (s ++ t) = validString t := by
  induction s using rune_induction with
  | nil => rfl
  | valid r bytes s hr ih =>
    rw [validString_append hr] at hs
    rw [List.append_assoc, validString_append hr, ih hs]
  | invalid b0 s hlead hdecode ih =>
    rw [validString_invalid hdecode] at hs
    cases hs

theorem validString_ascii {s : GoString} (hs : ∀ c ∈ s, c.toNat < 0x80) : validString s = true := by
  induction s with
  | nil => rfl
  | cons c s ih =>
    have hc := encodes_ascii (hs c (List.mem_cons_self ..))
    have := validString_append hc s
    rw [List.singleton_append] at this
    rw [this]
    exact ih fun d hd => hs d (List.mem_cons_of_mem _ hd)

theorem runeStart_iff {b : UInt8} : runeStart b = true ↔ ¬ (0x80 ≤ b.toNat ∧ b.toNat < 0xC0) := by
  unfold runeStart
  simp only [UInt8.le_iff_toNat_le, UInt8.lt_iff_toNat_lt]
  simp
  omega

/-- A valid string that is cut, and goes on with ASCII, is valid when the cut is in front of a
character. -/
theorem validString_take {s : GoString} (hs : validString s = true) {n : Nat} (hn : n < s.length)
    {c : UInt8} (hc : c.toNat < 0x80) {t : GoString} (ht : validString t = true) :
    validString (s.take n ++ c :: t) = true ↔ ∀ b, s[n]? = some b → runeStart b = true := by
  have hrest : validString (c :: t) = true := by
    have := validString_append (encodes_ascii hc) t
    rw [List.singleton_append] at this
    rw [this, ht]
  induction s using rune_induction generalizing n with
  | nil => cases hn
  | valid r bytes s hr ih =>
    rw [validString_append hr] at hs
    by_cases hlen : bytes.length ≤ n
    · -- The cut is behind the first character.
      rw [List.take_append, List.take_of_length_le hlen, List.append_assoc, validString_append hr,
        List.getElem?_append_right hlen]
      rw [List.length_append] at hn
      exact ih hs (by omega)
    · obtain ⟨b0, conts, rfl, hstart, hconts, -⟩ := hr.shape
      rw [List.take_append_of_le_length (by omega), List.getElem?_append_left (by omega)]
      cases n with
      | zero =>
        -- The cut is in front of it.
        refine iff_of_true hrest ?_
        intro b hb
        obtain rfl : b0 = b := Option.some.inj hb
        exact runeStart_iff.2 hstart
      | succ n =>
        -- The cut is in the middle of it.
        rw [List.length_cons] at hlen
        have hlt : n < conts.length := by omega
        have hinvalid := validString_invalid (hr.cut hlt hc t)
        have hcont := hconts conts[n] (List.getElem_mem hlt)
        rw [List.take_succ_cons, List.cons_append, hinvalid]
        refine iff_of_false Bool.false_ne_true ?_
        intro h
        exact runeStart_iff.1 (h conts[n] (List.getElem?_eq_getElem hlt)) hcont
  | invalid b0 s hlead hdecode ih =>
    rw [validString_invalid hdecode] at hs
    cases hs

/-! ## Strings -/

theorem unquote_escape {e d : UInt8} (he : e ≠ 0x75) (hd : unescape e = some d) (fuel : Nat)
    (t : GoString) :
    unquote (fuel + 1) (0x5C :: e :: t) = (unquote fuel t).map fun p => (d :: p.1, p.2) := by
  conv => lhs; unfold unquote
  rw [if_neg (by decide), if_pos rfl]
  dsimp only
  rw [if_neg he, hd]

/-- An escape of four digits. -/
theorem unquote_hex {d : GoString} {r : Nat}
    (hdigits : ∀ t, hexRune (d ++ t) = some (r, t)) (hr : isSurrogate r = false) (fuel : Nat)
    (t : GoString) :
    unquote (fuel + 1) (0x5C :: 0x75 :: (d ++ t)) =
      (unquote fuel t).map fun p => (encodeRune r ++ p.1, p.2) := by
  have hrune : unquoteRune (d ++ t) = some (encodeRune r, t) := by
    unfold unquoteRune
    rw [hdigits t]
    dsimp only
    rw [if_neg (by rw [hr]; exact Bool.false_ne_true)]
  conv => lhs; unfold unquote
  rw [if_neg (by decide), if_pos rfl]
  dsimp only
  rw [if_pos rfl, hrune]

/-- An ASCII character is read back. -/
theorem unquote_marshalByte {c : UInt8} (hc : c.toNat < 0x80) (fuel : Nat) (t : GoString) :
    unquote (fuel + 1) (marshalByte c ++ t) = (unquote fuel t).map fun p => (c :: p.1, p.2) := by
  have hhex : ∀ c : UInt8, c.toNat < 0x80 →
      unquote (fuel + 1)
          (str "\\u00" ++ [hexDigit (c.toNat / 16), hexDigit (c.toNat % 16)] ++ t) =
        (unquote fuel t).map fun p => (c :: p.1, p.2) := by
    intro c hc
    have hdigits : ∀ t, hexRune ([0x30, 0x30, hexDigit (c.toNat / 16), hexDigit (c.toNat % 16)] ++ t) =
        some (c.toNat, t) := by
      intro t
      have hvalue : c.toNat / 16 * 16 + c.toNat % 16 = c.toNat := by omega
      have hzero : hexValue 0x30 = some 0 := by decide
      have hhigh := hexValue_digit (n := c.toNat / 16) (by omega)
      have hlow := hexValue_digit (n := c.toNat % 16) (by omega)
      simp [hexRune, hzero, hhigh, hlow, hvalue]
    have hsurrogate : isSurrogate c.toNat = false := by
      unfold isSurrogate
      simp
      omega
    have h := unquote_hex hdigits hsurrogate fuel t
    rw [(encodes_ascii hc).encode] at h
    exact h
  unfold marshalByte
  by_cases hhtml : c = 0x3C ∨ c = 0x3E ∨ c = 0x26
  · rw [if_pos hhtml]
    exact hhex c hc
  rw [if_neg hhtml]
  unfold quoteByte
  by_cases hself : c = 0x22 ∨ c = 0x5C
  · rw [if_pos hself]
    rcases hself with rfl | rfl
    · exact unquote_escape (by decide) (by decide) fuel t
    · exact unquote_escape (by decide) (by decide) fuel t
  rw [if_neg hself]
  by_cases h8 : c = 0x08
  · rw [if_pos h8, h8]
    exact unquote_escape (by decide) (by decide) fuel t
  rw [if_neg h8]
  by_cases h9 : c = 0x09
  · rw [if_pos h9, h9]
    exact unquote_escape (by decide) (by decide) fuel t
  rw [if_neg h9]
  by_cases hA : c = 0x0A
  · rw [if_pos hA, hA]
    exact unquote_escape (by decide) (by decide) fuel t
  rw [if_neg hA]
  by_cases hC : c = 0x0C
  · rw [if_pos hC, hC]
    exact unquote_escape (by decide) (by decide) fuel t
  rw [if_neg hC]
  by_cases hD : c = 0x0D
  · rw [if_pos hD, hD]
    exact unquote_escape (by decide) (by decide) fuel t
  rw [if_neg hD]
  by_cases hcontrol : c < 0x20
  · rw [if_pos hcontrol]
    exact hhex c hc
  rw [if_neg hcontrol]
  obtain ⟨hquote, hescape⟩ := not_or.1 hself
  conv => lhs; unfold unquote
  rw [List.singleton_append]
  dsimp only
  rw [if_neg hquote, if_neg hescape, if_neg hcontrol, if_pos (UInt8.lt_iff_toNat_lt.2 hc)]

/-- So is a rune outside ASCII. -/
theorem unquote_marshalRune {r : Nat} {bytes : GoString} (h : Encodes r bytes) (fuel : Nat)
    (t : GoString) :
    unquote (fuel + 1) (marshalRune ⟨r, bytes⟩ ++ t) =
      (unquote fuel t).map fun p => (bytes ++ p.1, p.2) := by
  have hplain : ∀ {r : Nat} {b0 : UInt8} {rest : GoString}, Encodes r (b0 :: rest) →
      0x80 ≤ b0.toNat → unquote (fuel + 1) (b0 :: rest ++ t) =
        (unquote fuel t).map fun p => (b0 :: rest ++ p.1, p.2) := by
    intro r b0 rest h hb0
    have hdecode := h.decode t
    have hne : ∀ d : UInt8, d.toNat < 0x80 → b0 ≠ d := by
      rintro d hd rfl
      omega
    have hlow : ∀ d : UInt8, d.toNat ≤ 0x80 → ¬ b0 < d := by
      intro d hd hlt
      have := UInt8.lt_iff_toNat_lt.1 hlt
      omega
    rw [List.cons_append] at hdecode ⊢
    conv => lhs; unfold unquote
    rw [if_neg (hne _ (by decide)), if_neg (hne _ (by decide)), if_neg (hlow _ (by decide)),
      if_neg (hlow _ (by decide)), hdecode]
    dsimp only
    rw [List.length_cons, Nat.add_sub_cancel, List.drop_left, h.encode]
  have hseparator : ∀ {n : Nat}, n = 0x2028 ∨ n = 0x2029 →
      unquote (fuel + 1) (str "\\u202" ++ [hexDigit (n % 16)] ++ t) =
        (unquote fuel t).map fun p => (encodeRune n ++ p.1, p.2) := by
    rintro n (rfl | rfl)
    · exact unquote_hex (d := [0x32, 0x30, 0x32, 0x38]) (fun _ => rfl) (by decide) fuel t
    · exact unquote_hex (d := [0x32, 0x30, 0x32, 0x39]) (fun _ => rfl) (by decide) fuel t
  have hencode := h.encode
  obtain ⟨b0, rest, rfl, -, -, hlead⟩ := h.shape
  unfold marshalRune
  cases rest with
  | nil =>
    dsimp only
    cases h with
    | one h0 =>
      rw [if_pos h0]
      exact unquote_marshalByte h0 fuel t
  | cons b1 rest =>
    dsimp only
    by_cases hsep : r = 0x2028 ∨ r = 0x2029
    · rw [if_pos hsep, hseparator hsep, hencode]
    · rw [if_neg hsep]
      exact hplain h (hlead (List.cons_ne_nil _ _))

theorem marshalRune_invalid {b0 : UInt8} (hlead : 0x80 ≤ b0.toNat) :
    marshalRune ⟨runeError, [b0]⟩ = str "\\ufffd" := by
  unfold marshalRune
  dsimp only
  rw [if_neg (by omega)]

/-- A string literal is read to its closing quote. -/
theorem unquote_marshal (s rest : GoString) {fuel : Nat}
    (hfuel : ((segments s).flatMap marshalRune).length < fuel) :
    unquote fuel ((segments s).flatMap marshalRune ++ 0x22 :: rest) = some (reencode s, rest) := by
  induction s using rune_induction generalizing fuel with
  | nil =>
    obtain ⟨fuel, rfl⟩ := Nat.exists_eq_succ_of_ne_zero (Nat.ne_zero_of_lt hfuel)
    rfl
  | valid r bytes t h ih =>
    obtain ⟨fuel, rfl⟩ := Nat.exists_eq_succ_of_ne_zero (Nat.ne_zero_of_lt hfuel)
    rw [segments_append h, List.flatMap_cons] at hfuel ⊢
    have hpos : 0 < (marshalRune ⟨r, bytes⟩).length := by
      refine List.length_pos_iff.2 fun hnil => ?_
      have h0 := unquote_marshalRune h 0 [0x22]
      rw [hnil] at h0
      cases h0
    rw [List.length_append] at hfuel
    rw [List.append_assoc, unquote_marshalRune h, ih (by omega), reencode_append h]
    rfl
  | invalid b0 s hlead hdecode ih =>
    obtain ⟨fuel, rfl⟩ := Nat.exists_eq_succ_of_ne_zero (Nat.ne_zero_of_lt hfuel)
    rw [segments_invalid hdecode, List.flatMap_cons, marshalRune_invalid hlead] at hfuel ⊢
    have hlen : (str "\\ufffd").length = 6 := by decide
    rw [List.length_append, hlen] at hfuel
    have herror := unquote_hex (d := [0x66, 0x66, 0x66, 0x64]) (r := runeError) (fun _ => rfl)
      (by decide) fuel ((segments s).flatMap marshalRune ++ 0x22 :: rest)
    rw [ih (by omega)] at herror
    rw [List.append_assoc, reencode_invalid hdecode]
    exact herror

/-! ## Control characters -/

theorem marshalByte_printable {c : UInt8} (hc : c.toNat < 0x80) : ∀ b ∈ marshalByte c, 0x20 ≤ b.toNat := by
  have hall : ∀ n < 128, (marshalByte (UInt8.ofNat n)).all (fun b => decide (0x20 ≤ b.toNat)) = true := by decide
  have h := hall c.toNat hc
  rw [UInt8.ofNat_toNat] at h
  exact forall_of_all h

theorem marshalRune_printable {r : Nat} {bytes : GoString} (h : Encodes r bytes) :
    ∀ b ∈ marshalRune ⟨r, bytes⟩, 0x20 ≤ b.toNat := by
  obtain ⟨b0, rest, rfl, -, hrest, hlead⟩ := h.shape
  unfold marshalRune
  cases rest with
  | nil =>
    cases h with
    | one h0 =>
      dsimp only
      rw [if_pos h0]
      exact marshalByte_printable h0
  | cons b1 rest =>
    dsimp only
    split_ifs with hsep
    · rcases hsep with rfl | rfl <;> exact forall_of_all (by decide)
    · intro b hb
      rcases List.mem_cons.1 hb with rfl | hb
      · have := hlead (List.cons_ne_nil _ _)
        omega
      · have := hrest b hb
        omega

/-- Nothing that is written of a string is a control character. -/
theorem marshalString_printable (s : GoString) : ∀ b ∈ marshalString s, 0x20 ≤ b.toNat := by
  have hrunes : ∀ b ∈ (segments s).flatMap marshalRune, 0x20 ≤ b.toNat := by
    induction s using rune_induction with
    | nil => simp [segments, segmentsFuel]
    | valid r bytes t h ih =>
      rw [segments_append h, List.flatMap_cons]
      intro b hb
      exact (List.mem_append.1 hb).elim (marshalRune_printable h b) (ih b)
    | invalid b0 s hlead hdecode ih =>
      have herror : ∀ b ∈ str "\\ufffd", 0x20 ≤ b.toNat := forall_of_all (by decide)
      rw [segments_invalid hdecode, List.flatMap_cons, marshalRune_invalid hlead]
      intro b hb
      exact (List.mem_append.1 hb).elim (herror b) (ih b)
  intro b hb
  rcases List.mem_cons.1 hb with rfl | hb
  · decide
  · rcases List.mem_append.1 hb with hb | hb
    · exact hrunes b hb
    · rw [List.mem_singleton.1 hb]
      decide

theorem joinComma_printable {l : List GoString} (h : ∀ s ∈ l, ∀ b ∈ s, 0x20 ≤ b.toNat) :
    ∀ b ∈ joinComma l, 0x20 ≤ b.toNat := by
  induction l with
  | nil => simp [joinComma]
  | cons s l ih =>
    have hs := h s (List.mem_cons_self ..)
    have hl := ih fun t ht => h t (List.mem_cons_of_mem _ ht)
    cases l with
    | nil => exact hs
    | cons t l =>
      intro b hb
      rcases List.mem_append.1 hb with hb | hb
      · exact hs b hb
      · rcases List.mem_cons.1 hb with rfl | hb
        · decide
        · exact hl b hb

theorem marshalObject_printable {members : List (GoString × GoString)}
    (h : ∀ m ∈ members, ∀ b ∈ m.2, 0x20 ≤ b.toNat) : ∀ b ∈ marshalObject members, 0x20 ≤ b.toNat := by
  have hmembers : ∀ s ∈ members.map marshalMember, ∀ b ∈ s, 0x20 ≤ b.toNat := by
    intro s hs b hb
    obtain ⟨m, hm, rfl⟩ := List.mem_map.1 hs
    rcases List.mem_append.1 hb with hb | hb
    · exact marshalString_printable m.1 b hb
    · rcases List.mem_cons.1 hb with rfl | hb
      · decide
      · exact h m hm b hb
  intro b hb
  rcases List.mem_cons.1 hb with rfl | hb
  · decide
  · rcases List.mem_append.1 hb with hb | hb
    · exact joinComma_printable hmembers b hb
    · rw [List.mem_singleton.1 hb]
      decide

/-! ## Values -/

/-- What comes behind a value inside an array or an object. -/
def Delimited (rest : GoString) : Prop := ∃ c t, rest = c :: t ∧ (c = 0x2C ∨ c = 0x5D ∨ c = 0x7D)

/-- The text of this value, which holds at most `k` arrays and objects inside each other. -/
def Parses (k : Nat) (text : GoString) (v : JsonTree) : Prop :=
  ∀ depth fuel rest, depth + k ≤ maxNestingDepth → text.length < fuel → Delimited rest →
    parseValue depth fuel (text ++ rest) = some (v, rest)

theorem parses_string (k : Nat) (s : GoString) : Parses k (marshalString s) (.str (reencode s)) := by
  intro depth fuel rest hdepth hfuel hrest
  obtain ⟨fuel, rfl⟩ := Nat.exists_eq_succ_of_ne_zero (Nat.ne_zero_of_lt hfuel)
  have htext : marshalString s ++ rest =
      0x22 :: ((segments s).flatMap marshalRune ++ 0x22 :: rest) := by
    simp [marshalString]
  have hlen : ((segments s).flatMap marshalRune).length <
      ((segments s).flatMap marshalRune ++ 0x22 :: rest).length + 1 := by
    rw [List.length_append]
    omega
  have hunquote := unquote_marshal s rest hlen
  rw [htext]
  unfold parseValue
  rw [show skipSpace (0x22 :: ((segments s).flatMap marshalRune ++ 0x22 :: rest)) =
    0x22 :: ((segments s).flatMap marshalRune ++ 0x22 :: rest) from rfl]
  dsimp only
  rw [if_pos rfl, hunquote]
  rfl

/-- What follows a number does not go on with it. -/
theorem delimited_bounds {rest : GoString} (h : Delimited rest) :
    ∃ c t, rest = c :: t ∧ isDigit c = false ∧ c ≠ 0x2E ∧ c ≠ 0x65 ∧ c ≠ 0x45 := by
  obtain ⟨c, t, rfl, hc⟩ := h
  refine ⟨c, t, rfl, ?_⟩
  rcases hc with rfl | rfl | rfl <;> decide

theorem scanUnsigned_itoa (n : Nat) {rest : GoString} (h : Delimited rest) :
    scanUnsigned (itoa n ++ rest) = some (itoa n, rest) := by
  obtain ⟨c, t, rfl, hdigit, hdot, he, hE⟩ := delimited_bounds h
  -- The digits end in front of the delimiter.
  have hdigits : scanDigits (itoa n ++ c :: t) = some (itoa n, c :: t) := by
    have hall := fun b hb => List.all_eq_true.1 (all_isDigit_itoa n) b hb
    unfold scanDigits
    rw [List.takeWhile_append_of_pos hall, List.dropWhile_append_of_pos hall,
      List.takeWhile_cons_of_neg (by rw [hdigit]; exact Bool.false_ne_true),
      List.dropWhile_cons_of_neg (by rw [hdigit]; exact Bool.false_ne_true), List.append_nil]
    exact if_neg (itoa_ne_nil n)
  rcases Nat.eq_zero_or_pos n with rfl | hn
  · rw [show itoa ((0 : Nat) : Int) = [0x30] from rfl, List.singleton_append]
    unfold scanUnsigned
    simp [hdot, he, hE]
  · obtain ⟨b, l, hbl, hb⟩ := head_itoa hn
    rw [hbl, List.cons_append] at hdigits
    rw [hbl, List.cons_append]
    unfold scanUnsigned
    simp [hb, hdigits, hdot, he, hE]

/-- A number starts with a digit or a sign. -/
theorem start_itoa (n : Int) :
    ∃ b l, itoa n = b :: l ∧ b.toNat ≤ 57 ∧ (b = 0x2D ∨ 48 ≤ b.toNat) := by
  cases n with
  | ofNat n =>
    cases h : itoa (n : Int) with
    | nil => exact absurd h (itoa_ne_nil n)
    | cons b l =>
      have hb := mem_itoa (n := n) (b := b) (h ▸ List.mem_cons_self ..)
      exact ⟨b, l, rfl, hb.2, .inr hb.1⟩
  | negSucc n => exact ⟨0x2D, _, itoa_negSucc n, by decide, .inl rfl⟩

theorem scanNumber_itoa (n : Int) {rest : GoString} (h : Delimited rest) :
    scanNumber (itoa n ++ rest) = some (itoa n, rest) := by
  cases n with
  | ofNat n =>
    change scanNumber (itoa (n : Int) ++ rest) = some (itoa (n : Int), rest)
    have hscan := scanUnsigned_itoa n h
    cases hcons : itoa (n : Int) with
    | nil => exact absurd hcons (itoa_ne_nil n)
    | cons b l =>
      have hb := mem_itoa (n := n) (b := b) (hcons ▸ List.mem_cons_self ..)
      rw [hcons] at hscan
      unfold scanNumber
      rw [List.cons_append] at hscan ⊢
      split
      · rename_i heq
        rw [(List.cons.inj heq).1] at hb
        exact absurd hb (by decide)
      · exact hscan
  | negSucc n =>
    have hminus : scanNumber (0x2D :: (itoa ((n + 1 : Nat) : Int) ++ rest)) =
        (scanUnsigned (itoa ((n + 1 : Nat) : Int) ++ rest)).map fun p => (0x2D :: p.1, p.2) := rfl
    rw [itoa_negSucc, List.cons_append, hminus, scanUnsigned_itoa (n + 1) h]
    rfl

theorem parses_int (k : Nat) (n : Int) : Parses k (itoa n) (.num (itoa n)) := by
  intro depth fuel rest hdepth hfuel hrest
  obtain ⟨fuel, rfl⟩ := Nat.exists_eq_succ_of_ne_zero (Nat.ne_zero_of_lt hfuel)
  have hscan := scanNumber_itoa n hrest
  obtain ⟨b, l, hbl, hle, hge⟩ := start_itoa n
  have hne : ∀ c : UInt8, c.toNat < 45 ∨ 57 < c.toNat → b ≠ c := by
    rintro c hc rfl
    rcases hge with rfl | hge
    · exact absurd hc (by decide)
    · omega
  rw [hbl, List.cons_append] at hscan ⊢
  have hspace : skipSpace (b :: (l ++ rest)) = b :: (l ++ rest) := by
    unfold skipSpace
    rw [List.dropWhile_cons_of_neg]
    simp [hne 0x20 (by decide), hne 0x09 (by decide), hne 0x0A (by decide), hne 0x0D (by decide)]
  unfold parseValue
  rw [hspace]
  dsimp only
  rw [if_neg (hne _ (by decide)), if_neg (hne _ (by decide)), if_neg (hne _ (by decide)),
    if_neg (hne _ (by decide)), if_neg (hne _ (by decide)), if_neg (hne _ (by decide)), hscan]
  rfl

/-- A value does not start with a closing bracket. -/
theorem parseValue_close {depth fuel : Nat} {s : GoString} {p : JsonTree × GoString}
    (h : parseValue depth fuel s = some p) : expect 0x5D s = none := by
  cases fuel with
  | zero => cases h
  | succ fuel =>
    unfold parseValue at h
    unfold expect
    cases hs : skipSpace s with
    | nil => rfl
    | cons c rest =>
      rw [hs] at h
      dsimp only at h ⊢
      by_cases hc : c = 0x5D
      · subst hc
        cases h
      · exact if_neg hc

/-- The elements of an array. -/
theorem parseElements_join {k depth : Nat} (hdepth : depth + k ≤ maxNestingDepth)
    {l : List (GoString × JsonTree)} (hne : l ≠ []) (hl : ∀ p ∈ l, Parses k p.1 p.2) {fuel : Nat}
    (hfuel : (joinComma (l.map Prod.fst)).length + 1 < fuel) (rest : GoString) :
    parseElements depth fuel (joinComma (l.map Prod.fst) ++ 0x5D :: rest) =
      some (l.map Prod.snd, rest) := by
  induction l generalizing fuel with
  | nil => exact absurd rfl hne
  | cons p l ih =>
    obtain ⟨fuel, rfl⟩ := Nat.exists_eq_succ_of_ne_zero (Nat.ne_zero_of_lt hfuel)
    have hp := hl p (List.mem_cons_self ..)
    unfold parseElements
    cases l with
    | nil =>
      have hv := hp depth fuel (0x5D :: rest) hdepth (Nat.lt_of_succ_lt_succ hfuel)
        ⟨0x5D, rest, rfl, by decide⟩
      rw [show joinComma ([p].map Prod.fst) = p.1 from rfl, hv]
      rfl
    | cons q l =>
      have hjoin : joinComma ((p :: q :: l).map Prod.fst) =
          p.1 ++ 0x2C :: joinComma ((q :: l).map Prod.fst) := rfl
      rw [hjoin, List.length_append, List.length_cons] at hfuel
      have hv := hp depth fuel (0x2C :: (joinComma ((q :: l).map Prod.fst) ++ 0x5D :: rest)) hdepth
        (by omega) ⟨0x2C, _, rfl, by decide⟩
      have hshort : (joinComma ((q :: l).map Prod.fst)).length + 1 < fuel := by omega
      have hrest := ih (List.cons_ne_nil q l) (fun r hr => hl r (List.mem_cons_of_mem _ hr)) hshort
      rw [hjoin, List.append_assoc, List.cons_append, hv]
      simp only [Option.bind_eq_bind, Option.bind_some]
      rw [show expect 0x5D (0x2C :: (joinComma ((q :: l).map Prod.fst) ++ 0x5D :: rest)) = none from rfl,
        show expect 0x2C (0x2C :: (joinComma ((q :: l).map Prod.fst) ++ 0x5D :: rest)) =
          some (joinComma ((q :: l).map Prod.fst) ++ 0x5D :: rest) from rfl]
      simp only [Option.bind_some, hrest]
      rfl

/-- Neither do the elements of an array. -/
theorem parseElements_close {depth fuel : Nat} {s : GoString} {p : List JsonTree × GoString}
    (h : parseElements depth fuel s = some p) : expect 0x5D s = none := by
  cases fuel with
  | zero => cases h
  | succ fuel =>
    unfold parseElements at h
    cases hv : parseValue depth fuel s with
    | none =>
      rw [hv] at h
      cases h
    | some v => exact parseValue_close hv

theorem parses_array {k : Nat} {l : List (GoString × JsonTree)}
    (hl : ∀ p ∈ l, Parses k p.1 p.2) :
    Parses (k + 1) (marshalArray (l.map Prod.fst)) (.arr (l.map Prod.snd)) := by
  intro depth fuel rest hdepth hfuel hrest
  obtain ⟨fuel, rfl⟩ := Nat.exists_eq_succ_of_ne_zero (Nat.ne_zero_of_lt hfuel)
  have htext : marshalArray (l.map Prod.fst) ++ rest =
      0x5B :: (joinComma (l.map Prod.fst) ++ 0x5D :: rest) := by
    simp [marshalArray]
  have hlen : (marshalArray (l.map Prod.fst)).length = (joinComma (l.map Prod.fst)).length + 2 := by
    simp [marshalArray]
  rw [htext]
  unfold parseValue
  rw [show skipSpace (0x5B :: (joinComma (l.map Prod.fst) ++ 0x5D :: rest)) =
    0x5B :: (joinComma (l.map Prod.fst) ++ 0x5D :: rest) from rfl]
  dsimp only
  rw [if_neg (by decide), if_neg (by decide), if_pos rfl, if_neg (by omega)]
  cases l with
  | nil => rfl
  | cons p l =>
    have hdepth' : depth + 1 + k ≤ maxNestingDepth := by omega
    have hshort : (joinComma ((p :: l).map Prod.fst)).length + 1 < fuel := by omega
    have helements := parseElements_join hdepth' (List.cons_ne_nil p l) hl hshort rest
    rw [parseElements_close helements, helements]
    rfl

/-- The members of an object, as `marshalObject` takes them. -/
def written (l : List (GoString × GoString × JsonTree)) : List (GoString × GoString) :=
  l.map fun m => (m.1, m.2.1)

/-- The members that are read. -/
def readBack (l : List (GoString × GoString × JsonTree)) : List (GoString × JsonTree) :=
  l.map fun m => (reencode m.1, m.2.2)

theorem expect_quote (s t : GoString) :
    expect 0x22 (marshalString s ++ t) = some ((segments s).flatMap marshalRune ++ 0x22 :: t) := by
  rw [show marshalString s ++ t = 0x22 :: ((segments s).flatMap marshalRune ++ 0x22 :: t) by
    simp [marshalString]]
  rfl

theorem parseMembers_join {k depth : Nat} (hdepth : depth + k ≤ maxNestingDepth)
    {l : List (GoString × GoString × JsonTree)} (hne : l ≠ [])
    (hl : ∀ m ∈ l, Parses k m.2.1 m.2.2) {fuel : Nat}
    (hfuel : (joinComma ((written l).map marshalMember)).length + 1 < fuel) (rest : GoString) :
    parseMembers depth fuel (joinComma ((written l).map marshalMember) ++ 0x7D :: rest) =
      some (readBack l, rest) := by
  induction l generalizing fuel with
  | nil => exact absurd rfl hne
  | cons m l ih =>
    obtain ⟨fuel, rfl⟩ := Nat.exists_eq_succ_of_ne_zero (Nat.ne_zero_of_lt hfuel)
    have hm := hl m (List.mem_cons_self ..)
    -- A member, in front of a comma or a brace.
    have hone : ∀ t : GoString, (marshalMember (m.1, m.2.1)).length < fuel → Delimited t →
        (∀ rest, expect 0x7D t = some rest →
          parseMembers depth (fuel + 1) (marshalMember (m.1, m.2.1) ++ t) =
            some ([(reencode m.1, m.2.2)], rest)) ∧
        ∀ rest p, expect 0x7D t = none → expect 0x2C t = some rest →
          parseMembers depth fuel rest = some p →
          parseMembers depth (fuel + 1) (marshalMember (m.1, m.2.1) ++ t) =
            some ((reencode m.1, m.2.2) :: p.1, p.2) := by
      intro t hlen ht
      have hlen' : m.2.1.length < fuel := by
        unfold marshalMember at hlen
        simp only [List.length_append, List.length_cons] at hlen
        omega
      have hv := hm depth fuel t hdepth hlen' ht
      have hlong : ((segments m.1).flatMap marshalRune).length <
          ((segments m.1).flatMap marshalRune ++ 0x22 :: 0x3A :: (m.2.1 ++ t)).length + 1 := by
        rw [List.length_append]
        omega
      have hunquote := unquote_marshal m.1 (0x3A :: (m.2.1 ++ t)) hlong
      have hcolon : expect 0x3A (0x3A :: (m.2.1 ++ t)) = some (m.2.1 ++ t) := rfl
      unfold marshalMember
      rw [List.append_assoc, List.cons_append, parseMembers, expect_quote]
      simp only [Option.bind_eq_bind, Option.bind_some, hunquote, hcolon, hv]
      refine ⟨fun rest hclose => ?_, fun rest p hclose hcomma hmembers => ?_⟩
      · simp only [hclose]
      · simp only [hclose, hcomma, Option.bind_some, hmembers]
    cases l with
    | nil =>
      have hlen : (marshalMember (m.1, m.2.1)).length + 1 < fuel + 1 := hfuel
      exact (hone (0x7D :: rest) (by omega) ⟨0x7D, rest, rfl, by decide⟩).1 rest rfl
    | cons m' l =>
      have hjoin : joinComma ((written (m :: m' :: l)).map marshalMember) =
          marshalMember (m.1, m.2.1) ++ 0x2C :: joinComma ((written (m' :: l)).map marshalMember) := rfl
      rw [hjoin, List.length_append, List.length_cons] at hfuel
      have h := (hone (0x2C :: (joinComma ((written (m' :: l)).map marshalMember) ++ 0x7D :: rest))
        (by omega) ⟨0x2C, _, rfl, by decide⟩).2
      have hshort : (joinComma ((written (m' :: l)).map marshalMember)).length + 1 < fuel := by omega
      have hrest := ih (List.cons_ne_nil m' l) (fun r hr => hl r (List.mem_cons_of_mem _ hr)) hshort
      rw [hjoin, List.append_assoc, List.cons_append]
      exact h _ _ rfl rfl hrest

/-- Members start with a quote. -/
theorem parseMembers_close {depth fuel : Nat} {s : GoString}
    {p : List (GoString × JsonTree) × GoString} (h : parseMembers depth fuel s = some p) :
    expect 0x7D s = none := by
  cases fuel with
  | zero => cases h
  | succ fuel =>
    unfold parseMembers at h
    cases hs : expect 0x22 s with
    | none =>
      rw [hs] at h
      cases h
    | some rest =>
      unfold expect at hs ⊢
      cases hskip : skipSpace s with
      | nil => rfl
      | cons c t =>
        rw [hskip] at hs
        dsimp only at hs ⊢
        by_cases hc : c = 0x22
        · exact if_neg (by rw [hc]; decide)
        · rw [if_neg hc] at hs
          cases hs

/-- An object is read whatever follows it. -/
theorem parseValue_object {k : Nat} {l : List (GoString × GoString × JsonTree)}
    (hl : ∀ m ∈ l, Parses k m.2.1 m.2.2) {depth fuel : Nat} (hdepth : depth + (k + 1) ≤ maxNestingDepth)
    (hfuel : (marshalObject (written l)).length < fuel) (rest : GoString) :
    parseValue depth fuel (marshalObject (written l) ++ rest) = some (.obj (readBack l), rest) := by
  obtain ⟨fuel, rfl⟩ := Nat.exists_eq_succ_of_ne_zero (Nat.ne_zero_of_lt hfuel)
  have htext : marshalObject (written l) ++ rest =
      0x7B :: (joinComma ((written l).map marshalMember) ++ 0x7D :: rest) := by
    simp [marshalObject]
  have hlen : (marshalObject (written l)).length =
      (joinComma ((written l).map marshalMember)).length + 2 := by
    simp [marshalObject]
  rw [htext]
  unfold parseValue
  rw [show skipSpace (0x7B :: (joinComma ((written l).map marshalMember) ++ 0x7D :: rest)) =
    0x7B :: (joinComma ((written l).map marshalMember) ++ 0x7D :: rest) from rfl]
  dsimp only
  rw [if_neg (by decide), if_pos rfl, if_neg (by omega)]
  cases l with
  | nil => rfl
  | cons m l =>
    have hdepth' : depth + 1 + k ≤ maxNestingDepth := by omega
    have hshort : (joinComma ((written (m :: l)).map marshalMember)).length + 1 < fuel := by omega
    have hmembers := parseMembers_join hdepth' (List.cons_ne_nil m l) hl hshort rest
    rw [parseMembers_close hmembers, hmembers]
    rfl

theorem parses_object {k : Nat} {l : List (GoString × GoString × JsonTree)}
    (hl : ∀ m ∈ l, Parses k m.2.1 m.2.2) :
    Parses (k + 1) (marshalObject (written l)) (.obj (readBack l)) :=
  fun _ _ rest hdepth hfuel _ => parseValue_object hl hdepth hfuel rest

end Gafam.Go
