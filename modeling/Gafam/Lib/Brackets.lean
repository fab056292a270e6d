import Mathlib.Data.List.Basic
import Mathlib.Tactic.Common

/-!
# Where a bracket closes

A reader that counts brackets and leaves out what stands in quotes finds the end of a group. The texts it
reads through are those whose brackets match outside the quotes.
-/

namespace Gafam.Lib

/-- The marks of a language with brackets and quoted texts. In a quoted text the escape takes the meaning off
the next character. -/
structure Marks (α : Type) where
  opening : α
  closing : α
  quote : α
  escape : α
  quote_ne_escape : quote ≠ escape
  opening_ne_quote : opening ≠ quote
  closing_ne_quote : closing ≠ quote
  closing_ne_opening : closing ≠ opening

section

variable {α : Type} (m : Marks α)

/-- What may stand between two quotes. -/
inductive Quoted : List α → Prop
  | nil : Quoted []
  | plain {c : α} {t : List α} (hq : c ≠ m.quote) (he : c ≠ m.escape) (h : Quoted t) : Quoted (c :: t)
  | escaped {t : List α} (c : α) (h : Quoted t) : Quoted (m.escape :: c :: t)

/-- A text whose brackets match. -/
inductive Balanced : List α → Prop
  | nil : Balanced []
  | plain {c : α} {t : List α} (ho : c ≠ m.opening) (hc : c ≠ m.closing) (hq : c ≠ m.quote)
    (h : Balanced t) : Balanced (c :: t)
  | quoted {t u : List α} (ht : Quoted m t) (hu : Balanced u) : Balanced (m.quote :: (t ++ m.quote :: u))
  | group {t u : List α} (ht : Balanced t) (hu : Balanced u) :
    Balanced (m.opening :: (t ++ m.closing :: u))

/-- Where a reader stands: outside the quotes, in a quoted text, behind an escape. -/
inductive Stand
  | code
  | text
  | escape

variable [DecidableEq α]

/-- The text up to the bracket that closes the group around it, `d` groups being open inside of that. -/
def untilClosed : Nat → Stand → List α → Option (List α)
  | _, _, [] => none
  | d, .escape, c :: s => (untilClosed d .text s).map (c :: ·)
  | d, .text, c :: s =>
    (untilClosed d (if c = m.escape then .escape else if c = m.quote then .code else .text) s).map (c :: ·)
  | d, .code, c :: s =>
    if c = m.quote then (untilClosed d .text s).map (c :: ·)
    else if c = m.opening then (untilClosed (d + 1) .code s).map (c :: ·)
    else if c = m.closing then
      if d = 0 then some [c] else (untilClosed (d - 1) .code s).map (c :: ·)
    else (untilClosed d .code s).map (c :: ·)

end

variable {α : Type} {m : Marks α}

theorem Balanced.append {t u : List α} (ht : Balanced m t) (hu : Balanced m u) : Balanced m (t ++ u) := by
  induction ht with
  | nil => exact hu
  | plain ho hc hq _ ih => exact .plain ho hc hq ih
  | quoted ht _ ih =>
    rw [List.cons_append, List.append_assoc, List.cons_append]
    exact .quoted ht ih
  | group ht _ _ ih =>
    rw [List.cons_append, List.append_assoc, List.cons_append]
    exact .group ht ih

/-- A text without marks. -/
theorem balanced_of_plain {t : List α} (h : ∀ c ∈ t, c ≠ m.opening ∧ c ≠ m.closing ∧ c ≠ m.quote) :
    Balanced m t := by
  induction t with
  | nil => exact .nil
  | cons c t ih =>
    obtain ⟨ho, hc, hq⟩ := h c (List.mem_cons_self ..)
    exact .plain ho hc hq (ih fun c hc => h c (List.mem_cons_of_mem _ hc))

theorem Quoted.append {t u : List α} (ht : Quoted m t) (hu : Quoted m u) : Quoted m (t ++ u) := by
  induction ht with
  | nil => exact hu
  | plain hq he _ ih => exact .plain hq he ih
  | escaped c _ ih => exact .escaped c ih

theorem quoted_of_plain {t : List α} (h : ∀ c ∈ t, c ≠ m.quote ∧ c ≠ m.escape) : Quoted m t := by
  induction t with
  | nil => exact .nil
  | cons c t ih =>
    obtain ⟨hq, he⟩ := h c (List.mem_cons_self ..)
    exact .plain hq he (ih fun c hc => h c (List.mem_cons_of_mem _ hc))

variable [DecidableEq α]

/-- The reader goes through a quoted text to its end. -/
theorem untilClosed_quoted {t : List α} (ht : Quoted m t) (d : Nat) (s : List α) :
    untilClosed m d .text (t ++ m.quote :: s) =
      (untilClosed m d .code s).map fun r => t ++ m.quote :: r := by
  induction ht with
  | nil =>
    rw [List.nil_append, untilClosed, if_neg m.quote_ne_escape, if_pos rfl]
    rfl
  | plain hq he _ ih =>
    rw [List.cons_append, untilClosed, if_neg he, if_neg hq, ih, Option.map_map]
    rfl
  | escaped c _ ih =>
    rw [List.cons_append, List.cons_append, untilClosed, if_pos rfl, untilClosed, ih, Option.map_map,
      Option.map_map]
    rfl

/-- The reader goes through a balanced text, and stands as before. -/
theorem untilClosed_balanced {t : List α} (ht : Balanced m t) (d : Nat) (s : List α) :
    untilClosed m d .code (t ++ s) = (untilClosed m d .code s).map fun r => t ++ r := by
  induction ht generalizing d s with
  | nil => simp
  | plain ho hc hq _ ih =>
    rw [List.cons_append, untilClosed, if_neg hq, if_neg ho, if_neg hc, ih, Option.map_map]
    rfl
  | quoted ht _ ih =>
    rw [List.cons_append, List.append_assoc, List.cons_append, untilClosed, if_pos rfl,
      untilClosed_quoted ht, ih, Option.map_map, Option.map_map]
    simp only [Function.comp_def, List.cons_append, List.append_assoc]
  | group _ _ iht ihu =>
    rw [List.cons_append, List.append_assoc, List.cons_append, untilClosed, if_neg m.opening_ne_quote,
      if_pos rfl, iht, untilClosed, if_neg m.closing_ne_quote, if_neg m.closing_ne_opening, if_pos rfl,
      if_neg (Nat.succ_ne_zero d), Nat.add_sub_cancel, ihu, Option.map_map, Option.map_map, Option.map_map]
    simp only [Function.comp_def, List.cons_append, List.append_assoc]

/-- It stops at the bracket that closes its group. -/
theorem untilClosed_group {t : List α} (ht : Balanced m t) (s : List α) :
    untilClosed m 0 .code (t ++ m.closing :: s) = some (t ++ [m.closing]) := by
  rw [untilClosed_balanced ht, untilClosed, if_neg m.closing_ne_quote, if_neg m.closing_ne_opening,
    if_pos rfl, if_pos rfl]
  rfl

/-- What is read ends with a closing bracket, and is where the text starts. -/
theorem untilClosed_eq_some {d : Nat} {w : Stand} {s t : List α} (h : untilClosed m d w s = some t) :
    t <+: s ∧ ∃ u, t = u ++ [m.closing] := by
  have longer {d : Nat} {w : Stand} {c : α} {s t : List α}
      (ih : ∀ {t}, untilClosed m d w s = some t → t <+: s ∧ ∃ u, t = u ++ [m.closing])
      (h : (untilClosed m d w s).map (c :: ·) = some t) : t <+: c :: s ∧ ∃ u, t = u ++ [m.closing] := by
    obtain ⟨r, hr, rfl⟩ := Option.map_eq_some_iff.1 h
    obtain ⟨hr, u, rfl⟩ := ih hr
    exact ⟨(List.cons_prefix_cons).2 ⟨rfl, hr⟩, c :: u, rfl⟩
  induction s generalizing d w t with
  | nil => cases w <;> exact nomatch h
  | cons c s ih =>
    cases w with
    | escape => exact longer ih h
    | text => exact longer ih h
    | code =>
      rw [untilClosed] at h
      split_ifs at h with hq ho hc hd
      · exact longer ih h
      · exact longer ih h
      · cases h
        exact ⟨⟨s, rfl⟩, [], by rw [hc]; rfl⟩
      · exact longer ih h
      · exact longer ih h

end Gafam.Lib
