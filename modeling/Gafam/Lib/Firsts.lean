import Mathlib.Data.List.Nodup

/-!
# The first element of each key

A loop over a list that keeps a set of the keys it has seen, and skips the elements whose key is in it.
-/

namespace Gafam.Lib

variable {α β : Type} [DecidableEq β] (key : α → β)

/-- The elements that come first with their key, without those whose key is in `seen`. -/
def firsts (seen : List β) : List α → List α
  | [] => []
  | x :: l => if key x ∈ seen then firsts seen l else x :: firsts (key x :: seen) l

variable {key} {seen seen' : List β} {l : List α}

theorem firsts_cons_of_mem {x : α} (h : key x ∈ seen) : firsts key seen (x :: l) = firsts key seen l := if_pos h

theorem firsts_cons_of_not_mem {x : α} (h : key x ∉ seen) :
    firsts key seen (x :: l) = x :: firsts key (key x :: seen) l := if_neg h

/-- Only the set of the keys matters. -/
theorem firsts_congr (h : ∀ k, k ∈ seen ↔ k ∈ seen') (l : List α) : firsts key seen l = firsts key seen' l := by
  induction l generalizing seen seen' with
  | nil => rfl
  | cons x l ih =>
    by_cases hx : key x ∈ seen
    · rw [firsts_cons_of_mem hx, firsts_cons_of_mem ((h _).1 hx), ih h]
    · rw [firsts_cons_of_not_mem hx, firsts_cons_of_not_mem fun hx' => hx ((h _).2 hx')]
      refine congrArg (x :: ·) (ih fun k => ?_)
      rw [List.mem_cons, List.mem_cons, h k]

theorem firsts_sublist (seen : List β) (l : List α) : (firsts key seen l).Sublist l := by
  induction l generalizing seen with
  | nil => exact List.Sublist.refl _
  | cons x l ih =>
    by_cases hx : key x ∈ seen
    · rw [firsts_cons_of_mem hx]
      exact (ih seen).cons x
    · rw [firsts_cons_of_not_mem hx]
      exact (ih _).cons_cons x

theorem key_not_mem_of_mem_firsts {x : α} (h : x ∈ firsts key seen l) : key x ∉ seen := by
  induction l generalizing seen with
  | nil => cases h
  | cons y l ih =>
    by_cases hy : key y ∈ seen
    · rw [firsts_cons_of_mem hy] at h
      exact ih h
    · rw [firsts_cons_of_not_mem hy] at h
      rcases List.mem_cons.1 h with rfl | h
      · exact hy
      · exact fun hx => ih h (List.mem_cons_of_mem _ hx)

/-- No key comes twice. -/
theorem nodup_map_firsts (seen : List β) (l : List α) : ((firsts key seen l).map key).Nodup := by
  induction l generalizing seen with
  | nil => exact List.nodup_nil
  | cons x l ih =>
    by_cases hx : key x ∈ seen
    · rw [firsts_cons_of_mem hx]
      exact ih seen
    · rw [firsts_cons_of_not_mem hx, List.map_cons, List.nodup_cons]
      refine ⟨fun hmem => ?_, ih _⟩
      obtain ⟨y, hy, hyx⟩ := List.mem_map.1 hmem
      exact key_not_mem_of_mem_firsts hy (hyx ▸ List.mem_cons_self ..)

/-- Every key that has not been seen comes once. -/
theorem exists_mem_firsts {x : α} (hx : x ∈ l) (hseen : key x ∉ seen) : ∃ y ∈ firsts key seen l, key y = key x := by
  induction l generalizing seen with
  | nil => cases hx
  | cons z l ih =>
    by_cases hz : key z ∈ seen
    · rw [firsts_cons_of_mem hz]
      rcases List.mem_cons.1 hx with rfl | hx
      · exact absurd hz hseen
      · exact ih hx hseen
    · rw [firsts_cons_of_not_mem hz]
      by_cases hzx : key z = key x
      · exact ⟨z, List.mem_cons_self .., hzx⟩
      · have hx' : x ∈ l := (List.mem_cons.1 hx).resolve_left fun h => hzx (h ▸ rfl)
        obtain ⟨y, hy, hyx⟩ := ih hx' fun h => (List.mem_cons.1 h).elim (fun h => hzx h.symm) hseen
        exact ⟨y, List.mem_cons_of_mem _ hy, hyx⟩

/-- Of the elements with a key of their own, those that meet a condition and have the key of `x` are at most one. -/
theorem countP_of_nodup_map {x : α} {p : α → Bool} (hnd : (l.map key).Nodup) (hx : x ∈ l) :
    l.countP (fun y => p y && decide (key y = key x)) = if p x then 1 else 0 := by
  induction l with
  | nil => cases hx
  | cons y l ih =>
    obtain ⟨hy, hnd⟩ := List.nodup_cons.1 hnd
    rw [List.countP_cons]
    rcases List.mem_cons.1 hx with rfl | hx
    · have hzero : l.countP (fun y => p y && decide (key y = key x)) = 0 := by
        refine List.countP_eq_zero.2 fun z hz hp => hy ?_
        rw [Bool.and_eq_true, decide_eq_true_eq] at hp
        exact hp.2 ▸ List.mem_map_of_mem hz
      rw [hzero, Nat.zero_add, decide_eq_true rfl, Bool.and_true]
    · have hne : key y ≠ key x := fun heq => hy (heq ▸ List.mem_map_of_mem hx)
      rw [ih hnd hx, decide_eq_false hne, Bool.and_false]
      rfl

end Gafam.Lib
