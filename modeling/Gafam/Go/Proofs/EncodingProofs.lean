import Gafam.Go.Encoding
import Gafam.Go.Json

/-!
# Values are read back as they were written
-/

namespace Gafam.Go

theorem base64Value_char {n : Nat} (h : n < 64) : base64Value (base64Char n) = some n := by
  have hall : ∀ n, n < 64 → base64Value (base64Char n) = some n := by decide
  exact hall n h

theorem base64Char_ne_pad {n : Nat} (h : n < 64) : base64Char n ≠ base64Pad := by
  have hall : ∀ n, n < 64 → base64Char n ≠ base64Pad := by decide
  exact hall n h

/-- A character that JSON and line breaks leave alone. -/
def isPlain (c : UInt8) : Bool := 0x20 ≤ c && c < 0x80 && c != 0x22 && c != 0x5C

theorem base64Char_plain {n : Nat} (h : n < 64) : isPlain (base64Char n) = true := by
  have hall : ∀ n, n < 64 → isPlain (base64Char n) = true := by decide
  exact hall n h

theorem byte_div_lt (a : UInt8) : a.toNat / 4 < 64 := by
  have := a.toNat_lt
  omega

/-- The first byte of a group. -/
theorem base64Bytes_fst (a : UInt8) {n : Nat} (hn : n < 16) (z w : Nat) :
    (base64Bytes (a.toNat / 4) (a.toNat % 4 * 16 + n) z w).1 = a := by
  have ha := a.toNat_lt
  have h : a.toNat / 4 * 4 + (a.toNat % 4 * 16 + n) / 16 = a.toNat := by omega
  unfold base64Bytes
  rw [h, UInt8.ofNat_toNat]

/-- The second one. -/
theorem base64Bytes_snd (b : UInt8) {k n : Nat} (hn : n < 4) (x w : Nat) :
    (base64Bytes x (k * 16 + b.toNat / 16) (b.toNat % 16 * 4 + n) w).2.1 = b := by
  have hb := b.toNat_lt
  have h : (k * 16 + b.toNat / 16) % 16 * 16 + (b.toNat % 16 * 4 + n) / 4 = b.toNat := by omega
  unfold base64Bytes
  dsimp only
  rw [h, UInt8.ofNat_toNat]

/-- The third one. -/
theorem base64Bytes_thd (c : UInt8) (k x y : Nat) :
    (base64Bytes x y (k * 4 + c.toNat / 64) (c.toNat % 64)).2.2 = c := by
  have hc := c.toNat_lt
  have h : (k * 4 + c.toNat / 64) % 4 * 64 + c.toNat % 64 = c.toNat := by omega
  unfold base64Bytes
  dsimp only
  rw [h, UInt8.ofNat_toNat]

theorem base64Groups_encode (s : GoString) : base64Groups (base64Encode s) = some s := by
  fun_induction base64Encode s with
  | case1 => rfl
  | case2 a =>
    have ha := a.toNat_lt
    have hx := base64Value_char (byte_div_lt a)
    have hy : base64Value (base64Char (a.toNat % 4 * 16)) = some (a.toNat % 4 * 16) :=
      base64Value_char (by omega)
    have h1 : (base64Bytes (a.toNat / 4) (a.toNat % 4 * 16) 0 0).1 = a :=
      base64Bytes_fst a (by omega : 0 < 16) 0 0
    simp [base64Groups, hx, hy, h1]
  | case3 a b =>
    have ha := a.toNat_lt
    have hb := b.toNat_lt
    have hz64 : b.toNat % 16 * 4 < 64 := by omega
    have hx := base64Value_char (byte_div_lt a)
    have hy : base64Value (base64Char (a.toNat % 4 * 16 + b.toNat / 16)) =
        some (a.toNat % 4 * 16 + b.toNat / 16) := base64Value_char (by omega)
    have hz := base64Value_char hz64
    have h1 := base64Bytes_fst a (by omega : b.toNat / 16 < 16) (b.toNat % 16 * 4) 0
    have h2 : (base64Bytes (a.toNat / 4) (a.toNat % 4 * 16 + b.toNat / 16) (b.toNat % 16 * 4) 0).2.1 =
        b := base64Bytes_snd b (by omega : 0 < 4) _ 0
    simp [base64Groups, hx, hy, hz, base64Char_ne_pad hz64, h1, h2]
  | case4 a b c rest ih =>
    have ha := a.toNat_lt
    have hb := b.toNat_lt
    have hc := c.toNat_lt
    have hz64 : b.toNat % 16 * 4 + c.toNat / 64 < 64 := by omega
    have hw64 : c.toNat % 64 < 64 := by omega
    have hx := base64Value_char (byte_div_lt a)
    have hy : base64Value (base64Char (a.toNat % 4 * 16 + b.toNat / 16)) =
        some (a.toNat % 4 * 16 + b.toNat / 16) := base64Value_char (by omega)
    have hz := base64Value_char hz64
    have hw := base64Value_char hw64
    have h1 := base64Bytes_fst a (by omega : b.toNat / 16 < 16) (b.toNat % 16 * 4 + c.toNat / 64)
      (c.toNat % 64)
    have h2 := base64Bytes_snd (k := a.toNat % 4) b (by omega : c.toNat / 64 < 4) (a.toNat / 4)
      (c.toNat % 64)
    have h3 := base64Bytes_thd c (b.toNat % 16) (a.toNat / 4) (a.toNat % 4 * 16 + b.toNat / 16)
    simp [base64Groups, hx, hy, hz, hw, base64Char_ne_pad hz64, base64Char_ne_pad hw64, h1, h2, h3,
      ih]

/-- A property of the alphabet holds of all that base64 writes. -/
theorem base64Encode_forall {p : UInt8 → Prop} (hchar : ∀ n < 64, p (base64Char n)) (hpad : p base64Pad)
    (s : GoString) : ∀ c ∈ base64Encode s, p c := by
  fun_induction base64Encode s with
  | case1 => simp
  | case2 a =>
    have ha := a.toNat_lt
    have hx := hchar _ (byte_div_lt a)
    have hy : p (base64Char (a.toNat % 4 * 16)) := hchar _ (by omega)
    simp [hx, hy, hpad]
  | case3 a b =>
    have ha := a.toNat_lt
    have hb := b.toNat_lt
    have hx := hchar _ (byte_div_lt a)
    have hy : p (base64Char (a.toNat % 4 * 16 + b.toNat / 16)) := hchar _ (by omega)
    have hz : p (base64Char (b.toNat % 16 * 4)) := hchar _ (by omega)
    simp [hx, hy, hz, hpad]
  | case4 a b c rest ih =>
    have ha := a.toNat_lt
    have hb := b.toNat_lt
    have hc := c.toNat_lt
    have hx := hchar _ (byte_div_lt a)
    have hy : p (base64Char (a.toNat % 4 * 16 + b.toNat / 16)) := hchar _ (by omega)
    have hz : p (base64Char (b.toNat % 16 * 4 + c.toNat / 64)) := hchar _ (by omega)
    have hw : p (base64Char (c.toNat % 64)) := hchar _ (by omega)
    simp only [List.mem_cons]
    rintro d (rfl | rfl | rfl | rfl | hd)
    · exact hx
    · exact hy
    · exact hz
    · exact hw
    · exact ih d hd

/-- What base64 writes is plain. -/
theorem base64Encode_plain (s : GoString) : ∀ c ∈ base64Encode s, isPlain c = true :=
  base64Encode_forall (fun _ hn => base64Char_plain hn) (by decide) s

theorem base64Decode_encode (s : GoString) : base64Decode (base64Encode s) = some s := by
  unfold base64Decode
  rw [List.filter_eq_self.2, base64Groups_encode]
  intro c hc
  have hplain := base64Encode_plain s c hc
  have hall : ∀ c : UInt8, isPlain c = true → (c ≠ 0x0A ∧ c ≠ 0x0D) := by
    intro c h
    constructor
    · rintro rfl
      exact absurd h (by decide)
    · rintro rfl
      exact absurd h (by decide)
  exact decide_eq_true (hall c hplain)

example : base64Encode "hi" = str "aGk=" := by decide

/-- Base64 never makes a text shorter. -/
theorem length_le_base64Encode (s : GoString) : s.length ≤ (base64Encode s).length := by
  fun_induction base64Encode s with
  | case1 => exact Nat.le_refl _
  | case2 a => exact Nat.le_of_ble_eq_true rfl
  | case3 a b => exact Nat.le_of_ble_eq_true rfl
  | case4 a b c rest ih =>
    simp only [List.length_cons]
    omega

theorem base64Encode_ne_nil {s : GoString} (h : s ≠ []) : base64Encode s ≠ [] := by
  intro heq
  have hlen := length_le_base64Encode s
  rw [heq] at hlen
  exact h (List.eq_nil_of_length_eq_zero (Nat.le_zero.1 hlen))

/-! ## Base32 -/

theorem base32Value_char {n : Nat} (h : n < 32) : base32Value (base32Char n) = some n := by
  have hall : ∀ n, n < 32 → base32Value (base32Char n) = some n := by decide
  exact hall n h

theorem base32Char_ne_pad {n : Nat} (h : n < 32) : base32Char n ≠ base64Pad := by
  have hall : ∀ n, n < 32 → base32Char n ≠ base64Pad := by decide
  exact hall n h

theorem base32Bits_lt (a b c d e : UInt8) :
    ∀ n ∈ base32Bits a.toNat b.toNat c.toNat d.toNat e.toNat, n < 32 := by
  have ha := a.toNat_lt
  have hb := b.toNat_lt
  have hc := c.toNat_lt
  have hd := d.toNat_lt
  have he := e.toNat_lt
  simp only [base32Bits, List.forall_mem_cons, List.not_mem_nil, false_implies, implies_true, and_true]
  omega

theorem base32Digits_lt (s : GoString) : ∀ n ∈ base32Digits s, n < 32 := by
  fun_induction base32Digits s with
  | case1 => simp
  | case2 a => exact fun n hn => base32Bits_lt a 0 0 0 0 n (List.mem_of_mem_take hn)
  | case3 a b => exact fun n hn => base32Bits_lt a b 0 0 0 n (List.mem_of_mem_take hn)
  | case4 a b c => exact fun n hn => base32Bits_lt a b c 0 0 n (List.mem_of_mem_take hn)
  | case5 a b c d => exact fun n hn => base32Bits_lt a b c d 0 n (List.mem_of_mem_take hn)
  | case6 a b c d e rest ih =>
    intro n hn
    rcases List.mem_append.1 hn with hn | hn
    · exact base32Bits_lt a b c d e n hn
    · exact ih n hn

/-- Characters of the alphabet fill a group. -/
theorem base32Quantum_chars {w : List Nat} (hw : ∀ n ∈ w, n < 32) (v : List Nat) (src : GoString)
    (hlen : v.length + w.length ≤ 8) :
    base32Quantum v (w.map base32Char ++ src) = base32Quantum (v ++ w) src := by
  induction w generalizing v with
  | nil => rw [List.map_nil, List.nil_append, List.append_nil]
  | cons n w ih =>
    have hn := hw n (List.mem_cons_self ..)
    rw [List.length_cons] at hlen
    have hopen : v.length ≠ 8 := by omega
    have hnext := ih (fun m hm => hw m (List.mem_cons_of_mem _ hm)) (v ++ [n])
      (by rw [List.length_append, List.length_singleton]; omega)
    rw [List.map_cons, List.cons_append, base32Quantum, if_neg hopen,
      if_neg fun h => base32Char_ne_pad hn h.1, base32Value_char hn, Option.bind_some, hnext,
      List.append_assoc, List.singleton_append]

theorem base32Quantum_full {v : List Nat} (hv : v.length = 8) (src : GoString) :
    base32Quantum v src = some (v, false, src) := by
  cases src with
  | nil => rw [base32Quantum, if_pos hv]
  | cons c src => rw [base32Quantum, if_pos hv]

/-- The text ends inside of a group. -/
theorem base32Quantum_short {v : List Nat} (hv : v.length < 8) : base32Quantum v [] = none := by
  rw [base32Quantum, if_neg (Nat.ne_of_lt hv)]

/-- The lengths of a last group that is padded. -/
theorem base32Quantum_padded {v : List Nat} (hv : v.length = 2 ∨ v.length = 4 ∨ v.length = 5 ∨ v.length = 7) :
    base32Quantum v (List.replicate (8 - v.length) base64Pad) =
      some (v, true, List.replicate (7 - v.length) base64Pad) := by
  have hopen : v.length ≠ 8 := by omega
  have hpad : base64Pad = base64Pad ∧ 2 ≤ v.length ∧ (List.replicate (7 - v.length) base64Pad).length < 8 := by
    rw [List.length_replicate]
    exact ⟨rfl, by omega, by omega⟩
  have hgood : ¬ ((List.replicate (7 - v.length) base64Pad).length + v.length < 7 ∨
      ((List.replicate (7 - v.length) base64Pad).take (7 - v.length)).any (· != base64Pad) ∨
      v.length = 1 ∨ v.length = 3 ∨ v.length = 6) := by
    have hall : ((List.replicate (7 - v.length) base64Pad).take (7 - v.length)).any (· != base64Pad) = false := by
      rw [List.take_replicate, List.any_replicate, bne_self_eq_false, ite_self]
    rw [hall, List.length_replicate]
    simp only [Bool.false_eq_true, false_or]
    omega
  rw [show 8 - v.length = 7 - v.length + 1 by omega, List.replicate_succ, base32Quantum, if_neg hopen,
    if_pos hpad, if_neg hgood]

/-- Sums of bits that overflow a byte are cut. -/
theorem ofNat_eq_of_mod {n : Nat} {a : UInt8} (h : n % 256 = a.toNat) : UInt8.ofNat n = a := by
  rw [← UInt8.toNat_inj, UInt8.toNat_ofNat', h]

/-- The five bytes of a group. -/
theorem base32Pack_bytes (a b c d e : UInt8) :
    [a.toNat / 8 * 8 + (a.toNat % 8 * 4 + b.toNat / 64) / 4,
      (a.toNat % 8 * 4 + b.toNat / 64) * 64 + b.toNat % 64 / 2 * 2 + (b.toNat % 2 * 16 + c.toNat / 16) / 16,
      (b.toNat % 2 * 16 + c.toNat / 16) * 16 + (c.toNat % 16 * 2 + d.toNat / 128) / 2,
      (c.toNat % 16 * 2 + d.toNat / 128) * 128 + d.toNat % 128 / 4 * 4 + (d.toNat % 4 * 8 + e.toNat / 32) / 8,
      (d.toNat % 4 * 8 + e.toNat / 32) * 32 + e.toNat % 32].map UInt8.ofNat = [a, b, c, d, e] := by
  have ha := a.toNat_lt
  have hb := b.toNat_lt
  have hc := c.toNat_lt
  have hd := d.toNat_lt
  have he := e.toNat_lt
  rw [List.map_cons, List.map_cons, List.map_cons, List.map_cons, List.map_cons, List.map_nil,
    ofNat_eq_of_mod (a := a) (by omega), ofNat_eq_of_mod (a := b) (by omega), ofNat_eq_of_mod (a := c) (by omega),
    ofNat_eq_of_mod (a := d) (by omega), ofNat_eq_of_mod (a := e) (by omega)]

theorem base32Pack_bits (a b c d e : UInt8) :
    base32Pack (base32Bits a.toNat b.toNat c.toNat d.toNat e.toNat) = [a, b, c, d, e] :=
  base32Pack_bytes a b c d e

theorem base32Pack_one (a : UInt8) : base32Pack ((base32Bits a.toNat 0 0 0 0).take 2) = [a] :=
  congrArg (List.take 1) (base32Pack_bytes a 0 0 0 0)

theorem base32Pack_two (a b : UInt8) : base32Pack ((base32Bits a.toNat b.toNat 0 0 0).take 4) = [a, b] :=
  congrArg (List.take 2) (base32Pack_bytes a b 0 0 0)

theorem base32Pack_three (a b c : UInt8) :
    base32Pack ((base32Bits a.toNat b.toNat c.toNat 0 0).take 5) = [a, b, c] :=
  congrArg (List.take 3) (base32Pack_bytes a b c 0 0)

theorem base32Pack_four (a b c d : UInt8) :
    base32Pack ((base32Bits a.toNat b.toNat c.toNat d.toNat 0).take 7) = [a, b, c, d] :=
  congrArg (List.take 4) (base32Pack_bytes a b c d 0)

theorem base32Quanta_succ {src : GoString} (hne : src ≠ []) (fuel : Nat) :
    base32Quanta (fuel + 1) src = (base32Quantum [] src).bind fun q =>
      if q.2.1 then some (base32Pack q.1) else (base32Quanta fuel q.2.2).map (base32Pack q.1 ++ ·) := by
  rw [base32Quanta]
  · cases base32Quantum [] src with
    | none => rfl
    | some q =>
      simp only [Option.bind_eq_bind, Option.bind_some]
      by_cases hend : q.2.1 = true
      · rw [if_pos hend, if_pos hend]
        rfl
      · rw [if_neg hend, if_neg hend]
        cases base32Quanta fuel q.2.2 <;> rfl
  · exact hne

theorem base32Quanta_padded {v : List Nat} (hv : v.length = 2 ∨ v.length = 4 ∨ v.length = 5 ∨ v.length = 7)
    (hlt : ∀ n ∈ v, n < 32) (fuel : Nat) :
    base32Quanta (fuel + 1) (v.map base32Char ++ List.replicate (8 - v.length) base64Pad) =
      some (base32Pack v) := by
  have hne : v.map base32Char ++ List.replicate (8 - v.length) base64Pad ≠ [] := by
    intro h
    have hlen := congrArg List.length h
    rw [List.length_append, List.length_map, List.length_replicate, List.length_nil] at hlen
    omega
  rw [base32Quanta_succ hne, base32Quantum_chars hlt [] _ (by rw [List.length_nil]; omega), List.nil_append,
    base32Quantum_padded hv, Option.bind_some, if_pos rfl]

theorem base32Quanta_short {v : List Nat} (hne : v ≠ []) (hv : v.length < 8) (hlt : ∀ n ∈ v, n < 32)
    (fuel : Nat) : base32Quanta (fuel + 1) (v.map base32Char) = none := by
  have hq := base32Quantum_chars hlt [] [] (by rw [List.length_nil]; omega)
  rw [List.append_nil, List.nil_append, base32Quantum_short hv] at hq
  rw [base32Quanta_succ (mt List.map_eq_nil_iff.1 hne), hq, Option.bind_none]

theorem base32Quanta_full {v : List Nat} (hv : v.length = 8) (hlt : ∀ n ∈ v, n < 32) (fuel : Nat) (src : GoString) :
    base32Quanta (fuel + 1) (v.map base32Char ++ src) = (base32Quanta fuel src).map (base32Pack v ++ ·) := by
  have hne : v.map base32Char ++ src ≠ [] := by
    intro h
    have hlen := congrArg List.length h
    rw [List.length_append, List.length_map, List.length_nil] at hlen
    omega
  rw [base32Quanta_succ hne, base32Quantum_chars hlt [] src (by rw [List.length_nil]; omega), List.nil_append,
    base32Quantum_full hv, Option.bind_some, if_neg Bool.false_ne_true]

theorem base32Lacks_five (n : Nat) : base32Lacks (n + 5) = base32Lacks n := by
  rw [base32Lacks, base32Lacks, Nat.add_mod_right]

theorem base32Encode_five (padded : Bool) (a b c d e : UInt8) (rest : GoString) :
    base32Encode padded (a :: b :: c :: d :: e :: rest) =
      (base32Bits a.toNat b.toNat c.toNat d.toNat e.toNat).map base32Char ++ base32Encode padded rest := by
  have hlacks : base32Lacks (a :: b :: c :: d :: e :: rest).length = base32Lacks rest.length :=
    base32Lacks_five rest.length
  rw [base32Encode, base32Digits, hlacks, List.map_append, List.append_assoc]
  rfl

/-- The last group of a text, if it is not full. -/
theorem base32Quanta_last {padded : Bool} (s : GoString) {v : List Nat} (hdigits : base32Digits s = v)
    (hv : v.length = 2 ∨ v.length = 4 ∨ v.length = 5 ∨ v.length = 7)
    (hlacks : base32Lacks s.length = 8 - v.length) (hpart : s.length % 5 ≠ 0) (hpack : base32Pack v = s)
    {fuel : Nat} (hfuel : (base32Encode padded s).length ≤ fuel) :
    base32Quanta fuel (base32Encode padded s) = if padded = true ∨ s.length % 5 = 0 then some s else none := by
  have hlt : ∀ n ∈ v, n < 32 := hdigits ▸ base32Digits_lt s
  have hlong : 0 < v.length := by omega
  rw [base32Encode, hdigits, List.length_append, List.length_map] at hfuel
  obtain ⟨fuel, rfl⟩ := Nat.exists_eq_succ_of_ne_zero (Nat.ne_of_gt (by omega : 0 < fuel))
  rw [base32Encode, hdigits, hlacks]
  cases padded with
  | true => rw [if_pos rfl, base32Quanta_padded hv hlt, hpack, if_pos (.inl rfl)]
  | false =>
    rw [if_neg Bool.false_ne_true, List.append_nil,
      base32Quanta_short (List.ne_nil_of_length_pos hlong) (by omega) hlt, if_neg]
    rintro (h | h)
    · exact Bool.false_ne_true h
    · exact hpart h

/-- With padding every text is read back. Without padding those are whose last group is full. -/
theorem base32Quanta_encode (padded : Bool) (s : GoString) {fuel : Nat}
    (hfuel : (base32Encode padded s).length ≤ fuel) :
    base32Quanta fuel (base32Encode padded s) = if padded = true ∨ s.length % 5 = 0 then some s else none := by
  fun_induction base32Digits s generalizing fuel with
  | case1 =>
    have hnil : base32Encode padded [] = [] := by cases padded <;> rfl
    rw [hnil, base32Quanta, if_pos (.inr rfl)]
  | case2 a =>
    exact base32Quanta_last [a] rfl (.inl rfl) rfl (by decide : 1 % 5 ≠ 0) (base32Pack_one a) hfuel
  | case3 a b =>
    exact base32Quanta_last [a, b] rfl (.inr (.inl rfl)) rfl (by decide : 2 % 5 ≠ 0) (base32Pack_two a b) hfuel
  | case4 a b c =>
    exact base32Quanta_last [a, b, c] rfl (.inr (.inr (.inl rfl))) rfl (by decide : 3 % 5 ≠ 0) (base32Pack_three a b c) hfuel
  | case5 a b c d =>
    exact base32Quanta_last [a, b, c, d] rfl (.inr (.inr (.inr rfl))) rfl (by decide : 4 % 5 ≠ 0) (base32Pack_four a b c d) hfuel
  | case6 a b c d e rest ih =>
    have hmod : (a :: b :: c :: d :: e :: rest).length % 5 = rest.length % 5 := Nat.add_mod_right rest.length 5
    rw [base32Encode_five, List.length_append] at hfuel
    have hbits : ((base32Bits a.toNat b.toNat c.toNat d.toNat e.toNat).map base32Char).length = 8 := rfl
    obtain ⟨fuel, rfl⟩ := Nat.exists_eq_succ_of_ne_zero (Nat.ne_of_gt (by omega : 0 < fuel))
    rw [base32Encode_five, base32Quanta_full rfl (base32Bits_lt a b c d e), ih (by omega), hmod,
      base32Pack_bits]
    by_cases hread : padded = true ∨ rest.length % 5 = 0
    · rw [if_pos hread, if_pos hread]
      rfl
    · rw [if_neg hread, if_neg hread]
      rfl

/-- The characters of base32. -/
theorem mem_base32Encode {padded : Bool} {s : GoString} {c : UInt8} (h : c ∈ base32Encode padded s) :
    (∃ n < 32, c = base32Char n) ∨ c = base64Pad := by
  rcases List.mem_append.1 h with h | h
  · obtain ⟨n, hn, rfl⟩ := List.mem_map.1 h
    exact .inl ⟨n, base32Digits_lt s n hn, rfl⟩
  · cases padded with
    | true => exact .inr (List.eq_of_mem_replicate h)
    | false => exact absurd h List.not_mem_nil

/-- A property of the alphabet holds of all that base32 writes. -/
theorem base32Encode_forall {p : UInt8 → Prop} (hchar : ∀ n < 32, p (base32Char n)) (hpad : p base64Pad)
    {padded : Bool} {s : GoString} : ∀ c ∈ base32Encode padded s, p c := by
  intro c hc
  rcases mem_base32Encode hc with ⟨n, hn, rfl⟩ | rfl
  · exact hchar n hn
  · exact hpad

theorem base32Decode_encode (padded : Bool) (s : GoString) :
    base32Decode (base32Encode padded s) = if padded = true ∨ s.length % 5 = 0 then some s else none := by
  have hbreak : ∀ c ∈ base32Encode padded s, decide (c ≠ 0x0A ∧ c ≠ 0x0D) = true :=
    base32Encode_forall (by decide) (by decide)
  rw [base32Decode, List.filter_eq_self.2 hbreak]
  exact base32Quanta_encode padded s (Nat.le_refl _)

/-!
## JSON strings

Strings without characters to escape are read back as they are.
-/

/-- The bytes that stand for themselves in a JSON string, and are ASCII. -/
theorem plain_bounds {c : UInt8} (h : isPlain c = true) :
    c ≠ 0x22 ∧ c ≠ 0x5C ∧ ¬ c < 0x20 ∧ c < 0x80 := by
  unfold isPlain at h
  simp only [Bool.and_eq_true, decide_eq_true_eq, bne_iff_ne] at h
  obtain ⟨⟨⟨h1, h2⟩, h3⟩, h4⟩ := h
  exact ⟨h3, h4, UInt8.not_lt.2 h1, h2⟩

/-- A plain string literal is read to its closing quote. -/
theorem unquote_plain {s : GoString} (hs : ∀ c ∈ s, isPlain c = true) (rest : GoString) {fuel : Nat}
    (hfuel : s.length < fuel) : unquote fuel (s ++ 0x22 :: rest) = some (s, rest) := by
  induction s generalizing fuel with
  | nil =>
    obtain ⟨fuel, rfl⟩ := Nat.exists_eq_succ_of_ne_zero (Nat.ne_of_gt hfuel)
    rfl
  | cons c s ih =>
    obtain ⟨fuel, rfl⟩ := Nat.exists_eq_succ_of_ne_zero (Nat.ne_zero_of_lt hfuel)
    obtain ⟨hquote, hescape, hcontrol, hascii⟩ := plain_bounds (hs c (List.mem_cons_self ..))
    have hrest := ih (fun d hd => hs d (List.mem_cons_of_mem _ hd)) (Nat.lt_of_succ_lt_succ hfuel)
    rw [List.cons_append]
    unfold unquote
    rw [if_neg hquote, if_neg hescape, if_neg hcontrol, if_pos hascii, hrest]
    rfl

/-- A plain string is written as it is. -/
theorem quote_plain {s : GoString} (hs : ∀ c ∈ s, isPlain c = true) :
    quote s = 0x22 :: (s ++ [0x22]) := by
  have hbytes : s.flatMap quoteByte = s := by
    induction s with
    | nil => rfl
    | cons c s ih =>
      have hone : quoteByte c = [c] := by
        have hc := hs c (List.mem_cons_self ..)
        obtain ⟨hquote, hescape, hcontrol, -⟩ := plain_bounds hc
        have hne : ∀ d : UInt8, d < 0x20 → c ≠ d := by
          rintro d hd rfl
          exact hcontrol hd
        unfold quoteByte
        rw [if_neg (by simp [hquote, hescape]), if_neg (hne _ (by decide)),
          if_neg (hne _ (by decide)), if_neg (hne _ (by decide)), if_neg (hne _ (by decide)),
          if_neg (hne _ (by decide)), if_neg hcontrol]
      rw [List.flatMap_cons, hone, ih fun d hd => hs d (List.mem_cons_of_mem _ hd)]
      rfl
  unfold quote
  rw [hbytes]

/-- A value that is a plain string. -/
theorem parseValue_quote {s : GoString} (hs : ∀ c ∈ s, isPlain c = true) (rest : GoString)
    (depth fuel : Nat) :
    parseValue depth (fuel + 1) (quote s ++ rest) = some (.str s, rest) := by
  rw [quote_plain hs]
  have hlen : s.length < (s ++ [0x22] ++ rest).length + 1 := by
    simp only [List.length_append]
    omega
  have hunquote := unquote_plain hs rest hlen
  unfold parseValue
  rw [show skipSpace (0x22 :: (s ++ [0x22]) ++ rest) = 0x22 :: (s ++ [0x22] ++ rest) from rfl]
  dsimp only
  rw [if_pos rfl]
  rw [show s ++ 0x22 :: rest = s ++ [0x22] ++ rest by simp] at hunquote
  rw [hunquote]
  rfl

/-- A member of an object with a plain key, and what follows it. -/
theorem parseMembers_quote {key : GoString} (hkey : ∀ c ∈ key, isPlain c = true) {v : JsonTree}
    {text rest : GoString} {depth fuel : Nat}
    (hv : parseValue depth fuel (text ++ rest) = some (v, rest)) :
    parseMembers depth (fuel + 1) (quote key ++ 0x3A :: (text ++ rest)) =
      match expect 0x7D rest with
      | some rest => some ([(key, v)], rest)
      | none => (expect 0x2C rest).bind fun rest =>
          (parseMembers depth fuel rest).bind fun p => some ((key, v) :: p.1, p.2) := by
  rw [quote_plain hkey]
  have hlen : key.length < (key ++ [0x22] ++ 0x3A :: (text ++ rest)).length + 1 := by
    simp only [List.length_append]
    omega
  have hunquote := unquote_plain hkey (0x3A :: (text ++ rest)) hlen
  rw [show key ++ 0x22 :: 0x3A :: (text ++ rest) = key ++ [0x22] ++ 0x3A :: (text ++ rest) by simp]
    at hunquote
  have hopen : expect 0x22 (0x22 :: (key ++ [0x22]) ++ 0x3A :: (text ++ rest)) =
      some (key ++ [0x22] ++ 0x3A :: (text ++ rest)) := rfl
  have hcolon : expect 0x3A (0x3A :: (text ++ rest)) = some (text ++ rest) := rfl
  rw [parseMembers, hopen, Option.bind_eq_bind, Option.bind_some, hunquote, Option.bind_eq_bind,
    Option.bind_some]
  dsimp only
  rw [hcolon, Option.bind_some, hv, Option.bind_eq_bind, Option.bind_some]
  cases expect 0x7D rest <;> rfl

end Gafam.Go
