import Gafam.Relay.Tables
import Mathlib.Data.List.Basic

/-!
# Two normal forms of a number

Numbers are compared by their last nine digits, and a subdomain is named by the national form. Of the ways to write a
French number the second one does not know the prefix `0033`.
-/

namespace Gafam.Relay

open Gafam.Go

/-! ## French numbers -/

/-- The prefix that a French number is written with: `0`, `+33`, `0033` or `33`. -/
inductive PhonePrefix
  | national
  | plus
  | zeros
  | bare
deriving DecidableEq

def PhonePrefix.text : PhonePrefix → GoString
  | .national => str "0"
  | .plus => str "+33"
  | .zeros => str "0033"
  | .bare => str "33"

/-- The nine digits that follow the prefix. -/
structure FrenchNumber where
  digits : GoString
  length_eq : digits.length = 9
  all_digits : ∀ b ∈ digits, isDigit b = true

/-- A text that writes a number: without its separators, which are no digits and no plus sign, it is a prefix and the
nine digits. -/
structure Spelling (n : FrenchNumber) where
  text : GoString
  start : PhonePrefix
  text_eq : (text.filter fun b => isDigit b || b == 0x2B) = start.text ++ n.digits

namespace Spelling

variable {n : FrenchNumber}

theorem phoneDigits_text (s : Spelling n) : phoneDigits s.text = phoneDigits s.start.text ++ n.digits := by
  have hfilter : phoneDigits s.text = phoneDigits (s.text.filter fun b => isDigit b || b == 0x2B) := by
    unfold phoneDigits
    rw [List.filter_filter]
    refine List.filter_congr fun b _ => ?_
    cases isDigit b <;> rfl
  have hdigits : phoneDigits n.digits = n.digits := List.filter_eq_self.2 n.all_digits
  rw [hfilter, s.text_eq]
  unfold phoneDigits at hdigits ⊢
  rw [List.filter_append, hdigits]

theorem lastNine_text (s : Spelling n) : lastNine s.text = n.digits := by
  have hlen := n.length_eq
  unfold lastNine
  rw [s.phoneDigits_text]
  dsimp only
  rw [if_pos (by rw [List.length_append]; omega), List.length_append, hlen, Nat.add_sub_cancel, List.drop_left]

/-- All spellings of a number match each other. -/
theorem phonesMatch_text (s t : Spelling n) : phonesMatch s.text t.text = true := by
  have hne : (n.digits != []) = true := by
    rw [bne_iff_ne]
    intro h
    have hlen := n.length_eq
    rw [h] at hlen
    exact absurd hlen (by decide)
  rw [phonesMatch, s.lastNine_text, t.lastNine_text, hne, beq_self_eq_true]
  rfl

theorem phoneToSubdomain_text (s : Spelling n) :
    phoneToSubdomain s.text = (if s.start = .zeros then str "0033" else str "0") ++ n.digits := by
  have hlen := n.length_eq
  unfold phoneToSubdomain
  rw [s.phoneDigits_text]
  dsimp only
  cases s.start with
  | national => rfl
  | plus =>
    have hlong : 11 ≤ (phoneDigits PhonePrefix.plus.text ++ n.digits).length := by
      rw [List.length_append, hlen]
      decide
    rw [decide_eq_true hlong]
    rfl
  | zeros => rfl
  | bare =>
    have hlong : 11 ≤ (phoneDigits PhonePrefix.bare.text ++ n.digits).length := by
      rw [List.length_append, hlen]
      decide
    rw [decide_eq_true hlong]
    rfl

end Spelling

/-! ## Subdomains -/

theorem phoneDigits_phoneDigits (s : GoString) : phoneDigits (phoneDigits s) = phoneDigits s := by
  unfold phoneDigits
  rw [List.filter_filter]
  simp only [Bool.and_self]

theorem phoneToSubdomain_digits (s : GoString) : phoneDigits (phoneToSubdomain s) = phoneToSubdomain s := by
  unfold phoneToSubdomain
  dsimp only
  split_ifs
  · have hdrop : phoneDigits ((phoneDigits s).drop 2) = (phoneDigits s).drop 2 :=
      List.filter_eq_self.2 fun b hb => List.of_mem_filter (List.mem_of_mem_drop hb)
    have hzero : phoneDigits (str "0") = str "0" := rfl
    unfold phoneDigits at hdrop hzero ⊢
    rw [List.filter_append, hdrop]
    exact congrArg (· ++ _) hzero
  · exact phoneDigits_phoneDigits s

theorem phoneToSubdomain_twice (s : GoString) : phoneToSubdomain (phoneToSubdomain s) = phoneToSubdomain s := by
  have hdigits := phoneToSubdomain_digits s
  have hstarts (t : GoString) : (str "33").isPrefixOf (str "0" ++ t) = false := rfl
  conv_lhs => rw [phoneToSubdomain]
  rw [hdigits, if_neg]
  unfold phoneToSubdomain
  dsimp only
  split_ifs with h
  · rw [hstarts, Bool.false_and]
    exact Bool.false_ne_true
  · exact h

/-- The subdomain of a number is a normal form, and two spellings of a number that match have the same one if and only
if both are written with `0033` or neither is. -/
theorem phones_agree_iff (s : GoString) {n : FrenchNumber} (a b : Spelling n) :
    phoneToSubdomain (phoneToSubdomain s) = phoneToSubdomain s ∧
      ((phonesMatch a.text b.text = true → phoneToSubdomain a.text = phoneToSubdomain b.text) ↔
        (a.start = .zeros ↔ b.start = .zeros)) := by
  refine ⟨phoneToSubdomain_twice s, ?_⟩
  rw [imp_iff_right (a.phonesMatch_text b), a.phoneToSubdomain_text, b.phoneToSubdomain_text,
    List.append_left_inj]
  by_cases ha : a.start = .zeros
  · by_cases hb : b.start = .zeros
    · rw [if_pos ha, if_pos hb]
      exact iff_of_true rfl (iff_of_true ha hb)
    · rw [if_pos ha, if_neg hb]
      exact iff_of_false (by decide) fun h => hb (h.1 ha)
  · by_cases hb : b.start = .zeros
    · rw [if_neg ha, if_pos hb]
      exact iff_of_false (by decide) fun h => ha (h.2 hb)
    · rw [if_neg ha, if_neg hb]
      exact iff_of_true rfl (iff_of_false ha hb)

theorem exampleDigits : ∀ b ∈ str "612345678", isDigit b = true := forall_of_all (by decide)

def exampleNumber : FrenchNumber := ⟨str "612345678", rfl, exampleDigits⟩

/-- `06 12 34 56 78` -/
def exampleNational : Spelling exampleNumber := ⟨str "06 12 34 56 78", .national, by decide⟩

/-- `0033 6 12 34 56 78` -/
def exampleZeros : Spelling exampleNumber := ⟨str "0033 6 12 34 56 78", .zeros, by decide⟩

theorem exampleNumber_subdomains :
    phonesMatch exampleNational.text exampleZeros.text = true ∧
      phoneToSubdomain exampleNational.text = str "0612345678" ∧
      phoneToSubdomain exampleZeros.text = str "0033612345678" ∧
      phoneToSubdomain exampleNational.text ≠ phoneToSubdomain exampleZeros.text := by decide

end Gafam.Relay
