import Mathlib.Algebra.BigOperators.Group.List.Basic
import Mathlib.Algebra.GroupWithZero.Nat
import Mathlib.Tactic.Common

/-!
# Spans that follow each other

Spans of given lengths stand side by side from 0 on; a number lies in one of them, at some place behind its start.
Later numbers lie in later spans, or at a later place of the same one.
-/

namespace Gafam.Lib

/-- The span that the number lies in, and the place in it. -/
def locate : List Nat → Nat → Nat × Nat
  | [], n => (0, n)
  | l :: ls, n =>
    if n < l then (0, n)
    else
      let p := locate ls (n - l)
      (p.1 + 1, p.2)

theorem locate_lt {l n : Nat} (ls : List Nat) (h : n < l) : locate (l :: ls) n = (0, n) := if_pos h

theorem locate_ge {l n : Nat} (ls : List Nat) (h : l ≤ n) :
    locate (l :: ls) n = ((locate ls (n - l)).1 + 1, (locate ls (n - l)).2) := if_neg (Nat.not_lt.2 h)

/-- A number inside the spans lies in one of them. -/
theorem locate_spec {ls : List Nat} {n : Nat} (h : n < ls.sum) :
    ∃ l, ls[(locate ls n).1]? = some l ∧ (locate ls n).2 < l := by
  induction ls generalizing n with
  | nil => cases h
  | cons l ls ih =>
    rw [List.sum_cons] at h
    by_cases hlt : n < l
    · rw [locate_lt ls hlt]
      exact ⟨l, rfl, hlt⟩
    · rw [locate_ge ls (by omega)]
      exact ih (by omega)

theorem locate_fst_lt {ls : List Nat} {n : Nat} (h : n < ls.sum) : (locate ls n).1 < ls.length := by
  obtain ⟨l, hl, -⟩ := locate_spec h
  exact (List.getElem?_eq_some_iff.1 hl).1

/-- The spans in front of the place of a number, and the rest. -/
theorem sum_locate {ls : List Nat} {n : Nat} (h : n < ls.sum) :
    (ls.take (locate ls n).1).sum + (locate ls n).2 = n := by
  induction ls generalizing n with
  | nil => cases h
  | cons l ls ih =>
    rcases Nat.lt_or_ge n l with hlt | hge
    · rw [locate_lt ls hlt]
      simp
    · rw [List.sum_cons] at h
      rw [locate_ge ls hge, List.take_succ_cons, List.sum_cons, Nat.add_assoc, ih (by omega)]
      omega

/-- The order of the numbers is that of their places. -/
theorem locate_mono (ls : List Nat) {n m : Nat} (h : n < m) :
    (locate ls n).1 < (locate ls m).1 ∨ (locate ls n).1 = (locate ls m).1 ∧ (locate ls n).2 < (locate ls m).2 := by
  induction ls generalizing n m with
  | nil => exact .inr ⟨rfl, h⟩
  | cons l ls ih =>
    by_cases hn : n < l
    · rw [locate_lt ls hn]
      by_cases hm : m < l
      · rw [locate_lt ls hm]
        exact .inr ⟨rfl, h⟩
      · rw [locate_ge ls (by omega)]
        exact .inl (Nat.succ_pos _)
    · rw [locate_ge ls (by omega), locate_ge ls (by omega)]
      rcases ih (n := n - l) (m := m - l) (by omega) with hlt | ⟨heq, hlt⟩
      · exact .inl (by simpa using hlt)
      · exact .inr ⟨by simpa using heq, hlt⟩

end Gafam.Lib
