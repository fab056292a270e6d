import Mathlib.Data.List.Perm.Basic

/-!
# Sorting by exchanges

For each place the elements behind it are gone through, and one that comes before the element in the place is exchanged
with it. The elements change places far apart, so the order among equal ones is not kept; only what `before` says of
two elements is known of the result.
-/

namespace Gafam.Lib

variable {α : Type} (before : α → α → Bool)

/-- The inner loop: what ends up in the place that begins with `x`, and what is behind it then. -/
def exchange (x : α) : List α → α × List α
  | [] => (x, [])
  | y :: l =>
    if before y x then ((exchange y l).1, x :: (exchange y l).2) else ((exchange x l).1, y :: (exchange x l).2)

/-- The outer loop over `n` places. -/
def exchanges : Nat → List α → List α
  | n + 1, x :: l => (exchange before x l).1 :: exchanges n (exchange before x l).2
  | _, l => l

/-- All the places. -/
def exchangeSort (l : List α) : List α := exchanges before l.length l

variable {before}

theorem exchange_perm (x : α) (l : List α) :
    ((exchange before x l).1 :: (exchange before x l).2).Perm (x :: l) := by
  induction l generalizing x with
  | nil => exact List.Perm.refl _
  | cons y l ih =>
    unfold exchange
    split
    · exact (List.Perm.swap ..).trans (((ih y).cons x))
    · exact (List.Perm.swap ..).trans (((ih x).cons y).trans (List.Perm.swap ..))

theorem exchanges_perm (n : Nat) (l : List α) : (exchanges before n l).Perm l := by
  induction n generalizing l with
  | zero => exact List.Perm.refl _
  | succ n ih =>
    cases l with
    | nil => exact List.Perm.refl _
    | cons x l => exact ((ih _).cons _).trans (exchange_perm x l)

theorem exchangeSort_perm (l : List α) : (exchangeSort before l).Perm l := exchanges_perm _ _

/-- `before` is a strict weak order. -/
structure Weak (before : α → α → Bool) : Prop where
  asymm : ∀ a b, before a b = true → before b a = false
  trans : ∀ a b c, before b a = false → before c b = false → before c a = false

/-- What is in the place is not after what was there, and nothing behind it comes before it. -/
theorem exchange_le (h : Weak before) (x : α) (l : List α) :
    before x (exchange before x l).1 = false ∧
      ∀ z ∈ (exchange before x l).2, before z (exchange before x l).1 = false := by
  have hself : ∀ a, before a a = false := by
    intro a
    by_contra ha
    rw [Bool.not_eq_false] at ha
    exact Bool.noConfusion (ha.symm.trans (h.asymm a a ha))
  induction l generalizing x with
  | nil => exact ⟨hself x, fun z hz => nomatch hz⟩
  | cons y l ih =>
    unfold exchange
    split
    · rename_i hyx
      obtain ⟨hy, hrest⟩ := ih y
      have hx := h.trans _ _ _ hy (h.asymm _ _ hyx)
      refine ⟨hx, fun z hz => ?_⟩
      rcases List.mem_cons.1 hz with rfl | hz
      · exact hx
      · exact hrest z hz
    · rename_i hyx
      obtain ⟨hx, hrest⟩ := ih x
      refine ⟨hx, fun z hz => ?_⟩
      rcases List.mem_cons.1 hz with rfl | hz
      · exact h.trans _ _ _ hx (Bool.eq_false_iff.2 hyx)
      · exact hrest z hz

/-- **Nothing comes before what stands in front of it.** -/
theorem exchangeSort_sorted (h : Weak before) (l : List α) :
    (exchangeSort before l).Pairwise fun a b => before b a = false := by
  suffices hn : ∀ n (l : List α), l.length ≤ n → (exchanges before n l).Pairwise fun a b => before b a = false from
    hn _ l (Nat.le_refl _)
  intro n
  induction n with
  | zero =>
    intro l hl
    rw [List.length_eq_zero_iff.1 (Nat.le_zero.1 hl)]
    exact .nil
  | succ n ih =>
    intro l hl
    cases l with
    | nil => exact .nil
    | cons x l =>
      have hlen := (@exchange_perm _ before x l).length_eq
      simp only [List.length_cons] at hlen hl
      refine .cons (fun z hz => (exchange_le h x l).2 z ((exchanges_perm n _).mem_iff.1 hz)) (ih _ (by omega))

end Gafam.Lib
