import Gafam.Go.Proofs.TextProofs
import Gafam.Go.Proofs.TrimProofs
import Gafam.Python.Text
import Mathlib.Data.List.TakeWhile

/-!
# Decoded bytes

An ASCII character breaks off every sequence that is open, so a text can be decoded in front of one and from
there on.
-/

namespace Gafam.Python

open Gafam.Go

/-! ## Open sequences -/

/-- No byte that is still to come is an ASCII character. -/
def Pending.Above (p : Pending) : Prop := ∀ b ∈ p.bounds, 0x80 ≤ b.1

theorem above_idle : Pending.idle.Above := fun _ h => absurd h List.not_mem_nil

theorem above_settle {bits : Nat} {bounds : List (Nat × Nat)} (h : ∀ b ∈ bounds, 0x80 ≤ b.1) :
    (settle bits bounds).2.Above := by
  unfold settle
  split_ifs
  · exact above_idle
  · exact h

theorem above_lead (b : UInt8) : (decodeLead b).2.Above := by
  unfold decodeLead
  dsimp only
  split_ifs
  all_goals first
    | refine above_settle fun bounds hbounds => ?_
      simp only [List.mem_cons, List.not_mem_nil, or_false] at hbounds
      rcases hbounds with rfl | rfl | rfl <;> decide
    | exact above_idle

theorem above_decodeByte {p : Pending} (h : p.Above) (b : UInt8) : (decodeByte p b).2.Above := by
  unfold decodeByte
  rcases hp : p.bounds with _ | ⟨⟨lo, hi⟩, bounds⟩
  · exact above_lead b
  · dsimp only
    split_ifs
    · exact above_settle fun b hb => h b (hp ▸ List.mem_cons_of_mem _ hb)
    · exact above_lead b

/-! ## ASCII characters -/

/-- The character of an ASCII byte. -/
def chr (c : UInt8) : Char := Char.ofNat c.toNat

theorem decodeLead_ascii {c : UInt8} (hc : c.toNat < 0x80) : decodeLead c = ([chr c], .idle) := by
  unfold decodeLead
  dsimp only
  rw [if_pos hc]
  rfl

theorem decodeFrom_ascii {p : Pending} (hp : p.Above) (s : GoString) {c : UInt8} (hc : c.toNat < 0x80)
    (t : GoString) : decodeFrom p (s ++ c :: t) = decodeFrom p s ++ chr c :: decodeReplace t := by
  induction s generalizing p with
  | nil =>
    show (decodeByte p c).1 ++ decodeFrom (decodeByte p c).2 t = (if p.bounds = [] then [] else [replacement]) ++ _
    unfold decodeByte
    rcases hb : p.bounds with _ | ⟨⟨lo, hi⟩, bounds⟩
    · dsimp only
      rw [decodeLead_ascii hc]
      rfl
    · have hlo : 0x80 ≤ lo := hp (lo, hi) (hb ▸ List.mem_cons_self ..)
      have hno : contByte lo hi c = false := by
        unfold contByte
        simp only [Bool.and_eq_false_iff, decide_eq_false_iff_not]
        omega
      dsimp only
      rw [hno, if_neg Bool.false_ne_true, decodeLead_ascii hc]
      rfl
  | cons b s ih =>
    show (decodeByte p b).1 ++ decodeFrom (decodeByte p b).2 (s ++ c :: t) = _
    rw [ih (above_decodeByte hp b), ← List.append_assoc]
    rfl

theorem decodeReplace_cons {c : UInt8} (hc : c.toNat < 0x80) (t : GoString) :
    decodeReplace (c :: t) = chr c :: decodeReplace t := decodeFrom_ascii above_idle [] hc t

/-- A text is decoded in front of an ASCII character, and from there on. -/
theorem decodeReplace_append (s : GoString) {c : UInt8} (hc : c.toNat < 0x80) (t : GoString) :
    decodeReplace (s ++ c :: t) = decodeReplace s ++ decodeReplace (c :: t) := by
  rw [decodeReplace_cons hc]
  exact decodeFrom_ascii above_idle s hc t

theorem decodeReplace_ascii {s : GoString} (hs : ∀ c ∈ s, c.toNat < 0x80) (t : GoString) :
    decodeReplace (s ++ t) = s.map chr ++ decodeReplace t := by
  induction s with
  | nil => rfl
  | cons c s ih =>
    rw [List.cons_append, decodeReplace_cons (hs c (List.mem_cons_self ..)),
      ih fun d hd => hs d (List.mem_cons_of_mem _ hd)]
    rfl

/-! ## Numbers -/

section
variable (D : Decimals)

set_option maxRecDepth 8000 in
theorem chr_digit {c : UInt8} (h : 48 ≤ c.toNat ∧ c.toNat ≤ 57) : D.value (chr c) = some (c.toNat - 48) := by
  have hchr : (chr c).toNat = c.toNat := by
    unfold chr
    exact forall_byte (p := fun c => c.toNat < 128 → (Char.ofNat c.toNat).toNat = c.toNat) (by decide) c
      (by omega)
  rw [D.ascii _ (by omega), hchr, if_pos h]

theorem int_digits {s : GoString} (hs : ∀ c ∈ s, 48 ≤ c.toNat ∧ c.toNat ≤ 57) :
    D.int (s.map chr) = digitsValue s := by
  have hall (n : Nat) : (s.map chr).foldl (fun n c => n * 10 + (D.value c).getD 0) n =
      s.foldl (fun n b => n * 10 + (b.toNat - 0x30)) n := by
    induction s generalizing n with
    | nil => rfl
    | cons c s ih =>
      rw [List.map_cons, List.foldl_cons, List.foldl_cons, chr_digit D (hs c (List.mem_cons_self ..))]
      exact ih (fun d hd => hs d (List.mem_cons_of_mem _ hd)) _
  exact hall 0

/-- A printed number is a text of decimal digits, and `int` reads it back. -/
theorem int_itoa (n : Nat) : D.int ((itoa n).map chr) = n := by
  rw [int_digits D fun c hc => mem_itoa hc, digitsValue_itoa]

theorem isDecimal_itoa (n : Nat) : ∀ c ∈ (itoa n).map chr, D.isDecimal c = true := by
  intro c hc
  obtain ⟨b, hb, rfl⟩ := List.mem_map.1 hc
  unfold Decimals.isDecimal
  rw [chr_digit D (mem_itoa hb)]
  rfl

end

/-! ## Stripped strings -/

theorem length_strip_le (s : PyString) : (strip s).length ≤ s.length := by
  unfold strip
  rw [List.length_reverse]
  exact (List.length_dropWhile_le ..).trans (by
    rw [List.length_reverse]
    exact List.length_dropWhile_le ..)

theorem strip_eq_self {s : PyString} (hhead : ∀ c ∈ s.head?, isspace c = false)
    (hlast : ∀ c ∈ s.getLast?, isspace c = false) : strip s = s := by
  unfold strip
  rw [dropWhile_of_head hhead, dropWhile_of_head (by rw [List.head?_reverse]; exact hlast), List.reverse_reverse]

/-- What is left after stripping ends with no white space. -/
theorem getLast_strip (s : PyString) : ∀ c ∈ (strip s).getLast?, isspace c = false := by
  intro c hc
  unfold strip at hc
  rw [List.getLast?_reverse] at hc
  have := List.head?_dropWhile_not isspace (s.dropWhile isspace).reverse
  rw [hc] at this
  simpa using this

theorem strip_ne_nil {c : Char} {s : PyString} (hc : isspace c = false) : strip (c :: s) ≠ [] := by
  unfold strip
  rw [List.dropWhile_cons, hc, if_neg Bool.false_ne_true, ne_eq, List.reverse_eq_nil_iff, List.dropWhile_eq_nil_iff]
  intro h
  exact absurd (h c (List.mem_reverse.2 (List.mem_cons_self ..))) (by rw [hc]; exact Bool.false_ne_true)

end Gafam.Python
