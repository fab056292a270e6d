import Mathlib.Data.List.Induction
import Mathlib.Tactic.Common

/-!
# Decoders of a stream

A decoder reads one item off the front of a buffer, or reports that the buffer does not hold a whole
item yet. A stream that arrives in chunks is decoded by appending every chunk to what is left over and
taking items as long as there are any. What comes out does not depend on how the stream was cut.
-/

namespace Gafam.Lib

variable {α β : Type}

/-- A decoder takes at least one element for an item, and what arrives later does not change an item
that is already complete. -/
structure Decoder (β α : Type) where
  next : List β → Option (α × List β)
  shrinks : ∀ {b a r}, next b = some (a, r) → r.length < b.length
  stable : ∀ {b a r} (c : List β), next b = some (a, r) → next (b ++ c) = some (a, r ++ c)

namespace Decoder

variable (d : Decoder β α)

/-- The items at the front of a buffer, and the rest that does not hold a whole one. -/
def drain (b : List β) : List α × List β :=
  match h : d.next b with
  | some (a, r) => (a :: (drain r).1, (drain r).2)
  | none => ([], b)
termination_by b.length
decreasing_by all_goals exact d.shrinks h

theorem drain_none {b : List β} (h : d.next b = none) : d.drain b = ([], b) := by
  unfold drain
  split
  · next h' => rw [h] at h'; cases h'
  · rfl

theorem drain_some {b r : List β} {a : α} (h : d.next b = some (a, r)) :
    d.drain b = (a :: (d.drain r).1, (d.drain r).2) := by
  rw [drain]
  split
  · next h' =>
    rw [h] at h'
    cases h'
    rfl
  · next h' => rw [h] at h'; cases h'

/-- Buffers are drained item by item. -/
theorem drain_induction {P : List β → Prop} (hnone : ∀ b, d.next b = none → P b)
    (hsome : ∀ b a r, d.next b = some (a, r) → P r → P b) (b : List β) : P b := by
  induction hn : b.length using Nat.strongRecOn generalizing b with
  | ind n ih =>
    cases h : d.next b with
    | none => exact hnone b h
    | some p => exact hsome b p.1 p.2 h (ih _ (hn ▸ d.shrinks h) p.2 rfl)

/-- What is left when a buffer has been drained does not hold a whole item. -/
theorem next_drain (b : List β) : d.next (d.drain b).2 = none := by
  induction b using d.drain_induction with
  | hnone b h => rw [d.drain_none h]; exact h
  | hsome b a r h ih => rw [d.drain_some h]; exact ih

/-- A buffer that grows after it was drained. -/
theorem drain_append (b c : List β) :
    d.drain (b ++ c) =
      ((d.drain b).1 ++ (d.drain ((d.drain b).2 ++ c)).1, (d.drain ((d.drain b).2 ++ c)).2) := by
  induction b using d.drain_induction with
  | hnone b h => rw [d.drain_none h, List.nil_append]
  | hsome b a r h ih => rw [d.drain_some h, d.drain_some (d.stable c h), ih, List.cons_append]

/-- A chunk arrives: the items so far and the buffer. -/
def feed (s : List α × List β) (chunk : List β) : List α × List β :=
  (s.1 ++ (d.drain (s.2 ++ chunk)).1, (d.drain (s.2 ++ chunk)).2)

/-- The chunks of a stream, fed one after the other. -/
def feedAll (chunks : List (List β)) : List α × List β := chunks.foldl d.feed ([], [])

/-- The cuts of a stream do not matter. -/
theorem feedAll_eq (chunks : List (List β)) (h : d.next [] = none) :
    d.feedAll chunks = d.drain chunks.flatten := by
  induction chunks using List.reverseRecOn with
  | nil => rw [feedAll, List.foldl_nil, List.flatten_nil, d.drain_none h]
  | append_singleton chunks chunk ih =>
    rw [feedAll, List.foldl_append, List.foldl_cons, List.foldl_nil, ← feedAll, ih,
      List.flatten_append, List.flatten_singleton, d.drain_append]
    rfl

/-! ## Streams of written items -/

section Written

variable {γ : Type} {d} {enc : γ → List β} {val : γ → α}

/-- A piece of an item that is read whole is not read. -/
theorem next_cut {x : γ} (hwhole : ∀ rest, d.next (enc x ++ rest) = some (val x, rest)) {b : List β}
    (hb : b <+: enc x) (hlt : b.length < (enc x).length) : d.next b = none := by
  by_contra hne
  obtain ⟨⟨a, r⟩, hsome⟩ := Option.ne_none_iff_exists'.1 hne
  obtain ⟨c, hc⟩ := hb
  have hlong := d.stable c hsome
  have hfull := hwhole []
  rw [List.append_nil, ← hc, hlong] at hfull
  have hnil : c = [] := (List.append_eq_nil_iff.1 (Prod.mk.inj (Option.some.inj hfull)).2).2
  rw [← hc, hnil, List.append_nil] at hlt
  exact Nat.lt_irrefl _ hlt

/-- Items at the front of a buffer are taken one after the other. -/
theorem drain_flatMap {xs : List γ}
    (hwhole : ∀ x ∈ xs, ∀ rest, d.next (enc x ++ rest) = some (val x, rest)) (rest : List β) :
    d.drain (xs.flatMap enc ++ rest) = (xs.map val ++ (d.drain rest).1, (d.drain rest).2) := by
  induction xs with
  | nil => rfl
  | cons x xs ih =>
    have hx := hwhole x (List.mem_cons_self ..) (xs.flatMap enc ++ rest)
    rw [List.flatMap_cons, List.append_assoc, d.drain_some hx,
      ih fun y hy => hwhole y (List.mem_cons_of_mem _ hy)]
    rfl

variable (enc) in
/-- The items that lie whole within the first `n` elements. -/
def whole : Nat → List γ → List γ
  | _, [] => []
  | n, x :: xs => if (enc x).length ≤ n then x :: whole (n - (enc x).length) xs else []

theorem whole_prefix (n : Nat) (xs : List γ) : whole enc n xs <+: xs := by
  induction xs generalizing n with
  | nil => exact List.prefix_rfl
  | cons x xs ih =>
    unfold whole
    split_ifs
    · exact (List.prefix_cons_inj x).2 (ih _)
    · exact List.nil_prefix

/-- The first elements of a stream of items: what is taken are the items that lie whole within them. -/
theorem drain_take {xs : List γ}
    (hwhole : ∀ x ∈ xs, ∀ rest, d.next (enc x ++ rest) = some (val x, rest)) (hnil : d.next [] = none)
    (n : Nat) : (d.drain ((xs.flatMap enc).take n)).1 = (whole enc n xs).map val := by
  induction xs generalizing n with
  | nil => rw [List.flatMap_nil, List.take_nil, d.drain_none hnil]; rfl
  | cons x xs ih =>
    have hx := hwhole x (List.mem_cons_self ..)
    rw [List.flatMap_cons]
    unfold whole
    split_ifs with hle
    · rw [List.take_append, List.take_of_length_le hle, d.drain_some (hx _),
        ih fun y hy => hwhole y (List.mem_cons_of_mem _ hy)]
      rfl
    · have hcut : (enc x ++ xs.flatMap enc).take n = (enc x).take n :=
        List.take_append_of_le_length (by omega)
      have hnone : d.next ((enc x).take n) = none := by
        apply next_cut hx (List.take_prefix ..)
        rw [List.length_take]
        omega
      rw [hcut, d.drain_none hnone]
      rfl

/-- A part of a stream of items consists of whole items and a piece of the next one. -/
theorem prefix_flatMap {xs : List γ} {b : List β} (h : b <+: xs.flatMap enc) :
    ∃ n rest, b = (xs.take n).flatMap enc ++ rest ∧
      ((xs.drop n = [] ∧ rest = []) ∨
        ∃ x, xs[n]? = some x ∧ rest <+: enc x ∧ rest.length < (enc x).length) := by
  induction xs generalizing b with
  | nil => exact ⟨0, b, rfl, .inl ⟨rfl, List.prefix_nil.1 h⟩⟩
  | cons x xs ih =>
    rw [List.flatMap_cons] at h
    rcases Nat.lt_or_ge b.length (enc x).length with hlt | hge
    · refine ⟨0, b, rfl, .inr ⟨x, rfl, ?_, hlt⟩⟩
      exact List.prefix_of_prefix_length_le h (List.prefix_append ..) (Nat.le_of_lt hlt)
    · obtain ⟨t, rfl⟩ := List.prefix_of_prefix_length_le (List.prefix_append ..) h hge
      obtain ⟨n, rest, rfl, hrest⟩ := ih ((List.prefix_append_right_inj _).1 h)
      refine ⟨n + 1, rest, ?_, by simpa using hrest⟩
      rw [List.take_succ_cons, List.flatMap_cons, List.append_assoc]

end Written

end Decoder

end Gafam.Lib
