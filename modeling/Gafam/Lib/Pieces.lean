import Mathlib.Data.List.Infix
import Mathlib.Tactic.Common

/-!
# Texts with references in them

A template is a text some of whose parts are references, and filling it in puts a value in the place of each.
Whether the text that comes out is a template again depends on the values and on what stands next to them.
-/

namespace Gafam.Lib

variable {α : Type}

/-- A part of a template: a character that stands for itself, or a reference with the value that takes its
place. -/
inductive Fragment (α : Type)
  | lit (c : α)
  | quoted (ref value : List α)

/-- What the template has in this place. -/
def Fragment.source : Fragment α → List α
  | lit c => [c]
  | quoted ref _ => ref

/-- What comes out in this place. -/
def Fragment.text : Fragment α → List α
  | lit c => [c]
  | quoted _ value => value

def sourceOf (ps : List (Fragment α)) : List α := ps.flatMap Fragment.source

def textOf (ps : List (Fragment α)) : List α := ps.flatMap Fragment.text

/-- The pieces of a template, where `T r v` says that the reference `r` has the value `v`: every reference is
taken up as such. -/
inductive Parsed (T : List α → List α → Prop) : List (Fragment α) → Prop
  | nil : Parsed T []
  | lit {c : α} {ps : List (Fragment α)} (h : ∀ r v, T r v → ¬r <+: c :: sourceOf ps) (hps : Parsed T ps) :
    Parsed T (.lit c :: ps)
  | quoted {r v : List α} {ps : List (Fragment α)} (h : T r v) (hps : Parsed T ps) : Parsed T (.quoted r v :: ps)

/-- No value that is put in has a reference in it, and none makes one with the text in front of it or behind
it. -/
structure Quiet (T : List α → List α → Prop) (ps : List (Fragment α)) : Prop where
  inside : ∀ ref value, .quoted ref value ∈ ps → ∀ r v, T r v → ¬r <:+: value
  front : ∀ before ref value after, ps = before ++ .quoted ref value :: after →
    ∀ a b v, a ≠ [] → b ≠ [] → a <:+ textOf before → b <+: value ++ textOf after → ¬T (a ++ b) v
  behind : ∀ before ref value after, ps = before ++ .quoted ref value :: after →
    ∀ a b v, a ≠ [] → b ≠ [] → a <:+ textOf before ++ value → b <+: textOf after → ¬T (a ++ b) v

/-- No value has its own reference in it. -/
def NoSelf (T : List α → List α → Prop) : Prop := ∀ r v, T r v → ¬r <:+: v

@[simp] theorem sourceOf_cons (p : Fragment α) (ps : List (Fragment α)) :
    sourceOf (p :: ps) = p.source ++ sourceOf ps := rfl

@[simp] theorem textOf_cons (p : Fragment α) (ps : List (Fragment α)) : textOf (p :: ps) = p.text ++ textOf ps := rfl

theorem textOf_append (ps qs : List (Fragment α)) : textOf (ps ++ qs) = textOf ps ++ textOf qs :=
  List.flatMap_append

theorem sourceOf_append (ps qs : List (Fragment α)) : sourceOf (ps ++ qs) = sourceOf ps ++ sourceOf qs :=
  List.flatMap_append

/-- Characters up to the next value. -/
theorem exists_lits (ps : List (Fragment α)) :
    ∃ (cs : List α) (rest : List (Fragment α)), ps = cs.map Fragment.lit ++ rest ∧
      (rest = [] ∨ ∃ ref value after, rest = .quoted ref value :: after) := by
  induction ps with
  | nil => exact ⟨[], [], rfl, .inl rfl⟩
  | cons p ps ih =>
    cases p with
    | lit c =>
      obtain ⟨cs, rest, rfl, hrest⟩ := ih
      exact ⟨c :: cs, rest, rfl, hrest⟩
    | quoted ref value => exact ⟨[], _, rfl, .inr ⟨ref, value, ps, rfl⟩⟩

@[simp] theorem textOf_lits (cs : List α) : textOf (cs.map Fragment.lit) = cs := by
  induction cs with
  | nil => rfl
  | cons c cs ih => exact congrArg (c :: ·) ih

@[simp] theorem sourceOf_lits (cs : List α) : sourceOf (cs.map Fragment.lit) = cs := by
  induction cs with
  | nil => rfl
  | cons c cs ih => exact congrArg (c :: ·) ih

/-- The piece in which a part of the text starts. -/
theorem exists_piece {ps : List (Fragment α)} {x y : List α} (h : textOf ps = x ++ y) (hy : y ≠ []) :
    ∃ before p after x' y', ps = before ++ p :: after ∧ p.text = x' ++ y' ∧ y' ≠ [] ∧
      x = textOf before ++ x' ∧ y = y' ++ textOf after := by
  induction ps generalizing x with
  | nil => exact absurd (List.append_eq_nil_iff.1 h.symm).2 hy
  | cons p ps ih =>
    rw [textOf_cons] at h
    rcases List.append_eq_append_iff.1 h with ⟨z, rfl, hps⟩ | ⟨z, hp, rfl⟩
    · obtain ⟨before, q, after, x', y', rfl, hq, hy', rfl, rfl⟩ := ih hps
      exact ⟨p :: before, q, after, x', y', rfl, hq, hy', (List.append_assoc ..).symm, rfl⟩
    · cases z with
      | nil =>
        rw [List.append_nil] at hp
        obtain ⟨before, q, after, x', y', rfl, hq, hy', hx, hy''⟩ := ih (x := []) rfl
        refine ⟨p :: before, q, after, x', y', rfl, hq, hy', ?_, hy''⟩
        rw [textOf_cons, List.append_assoc, ← hx, List.append_nil, hp]
      | cons c z => exact ⟨[], p, ps, x, c :: z, rfl, hp, List.cons_ne_nil _ _, rfl, rfl⟩

section

variable {T : List α → List α → Prop} {ps : List (Fragment α)}

theorem Parsed.of_append {before after : List (Fragment α)} (h : Parsed T (before ++ after)) : Parsed T after := by
  induction before with
  | nil => exact h
  | cons p before ih =>
    cases h with
    | lit _ h => exact ih h
    | quoted _ h => exact ih h

/-- Characters where no reference starts, in front of other pieces. -/
theorem Parsed.lits {cs : List α} (hps : Parsed T ps)
    (h : ∀ c x, c :: x <:+ cs → ∀ r v, T r v → ¬r <+: c :: (x ++ sourceOf ps)) :
    Parsed T (cs.map Fragment.lit ++ ps) := by
  induction cs with
  | nil => exact hps
  | cons c cs ih =>
    refine .lit (fun r v hr => ?_) (ih fun d x hx => h d x (hx.trans (List.suffix_cons ..)))
    have hsource : sourceOf (cs.map Fragment.lit ++ ps) = cs ++ sourceOf ps := by
      rw [sourceOf_append, sourceOf_lits]
    exact hsource ▸ h c cs List.suffix_rfl r v hr

/-- The text that comes out has no reference in it exactly if the values are quiet. -/
theorem quiet_iff (hp : Parsed T ps) (hne : ∀ v, ¬T [] v) :
    Quiet T ps ↔ ∀ r v, T r v → ¬r <:+: textOf ps := by
  constructor
  · rintro hq r v hr ⟨x, y, hxy⟩
    have hr0 : r ≠ [] := by
      rintro rfl
      exact hne v hr
    rw [List.append_assoc] at hxy
    obtain ⟨before, p, after, x', y', rfl, hp', hy', rfl, hry⟩ :=
      exists_piece hxy.symm (List.append_ne_nil_of_left_ne_nil hr0 y)
    cases p with
    | quoted ref value =>
      obtain rfl : value = x' ++ y' := hp'
      rcases List.append_eq_append_iff.1 hry with ⟨z, rfl, -⟩ | ⟨z, rfl, hz⟩
      · refine hq.inside ref _ (List.mem_append_right _ (List.mem_cons_self ..)) r v hr ?_
        exact ⟨x', z, List.append_assoc ..⟩
      · by_cases hz0 : z = []
        · subst hz0
          rw [List.append_nil] at hr
          refine hq.inside ref _ (List.mem_append_right _ (List.mem_cons_self ..)) y' v hr ?_
          exact ⟨x', [], by simp⟩
        · refine hq.behind before ref _ after rfl y' z v hy' hz0 ?_ ⟨y, hz.symm⟩ hr
          exact ⟨textOf before ++ x', by simp⟩
    | lit c =>
      -- the reference starts with a character of the template, so it reaches into a value
      obtain ⟨rfl, rfl⟩ : x' = [] ∧ y' = [c] := by
        cases x' with
        | nil => exact ⟨rfl, hp'.symm⟩
        | cons d x' =>
          have hnil := (List.cons.inj hp').2
          exact absurd (List.append_eq_nil_iff.1 hnil.symm).2 hy'
      obtain ⟨cs, rest, rfl, hrest⟩ := exists_lits after
      have hparsed := hp.of_append
      have hnot : ¬r <+: c :: cs := by
        intro hpre
        cases hparsed with
        | lit h _ =>
          refine h r v hr (hpre.trans ?_)
          rw [sourceOf_append, sourceOf_lits]
          exact ⟨sourceOf rest, by simp⟩
      rw [textOf_append, textOf_lits, List.singleton_append] at hry
      have hsplit : r ++ y = (c :: cs) ++ textOf rest := hry
      rcases List.append_eq_append_iff.1 hsplit with ⟨z, hz, -⟩ | ⟨z, rfl, hz⟩
      · exact hnot ⟨z, hz.symm⟩
      · have hz0 : z ≠ [] := by
          rintro rfl
          exact hnot ⟨[], by simp⟩
        rcases hrest with rfl | ⟨ref, value, after, rfl⟩
        · exact hz0 (List.append_eq_nil_iff.1 hz.symm).1
        · refine hq.front (before ++ .lit c :: cs.map Fragment.lit) ref value after (by simp) (c :: cs) z v
            (List.cons_ne_nil _ _) hz0 ?_ ⟨y, hz.symm⟩ hr
          rw [textOf_append, textOf_cons, textOf_lits]
          exact ⟨textOf before, rfl⟩
  · intro h
    refine ⟨fun ref value hmem r v hr hin => ?_, ?_, ?_⟩
    · obtain ⟨before, after, rfl⟩ := List.append_of_mem hmem
      refine h r v hr (hin.trans ?_)
      rw [textOf_append, textOf_cons]
      exact ⟨textOf before, textOf after, by simp [Fragment.text]⟩
    · rintro before ref value after rfl a b v - - ⟨x, hx⟩ ⟨y, hy⟩ hr
      refine h _ v hr ⟨x, y, ?_⟩
      calc x ++ (a ++ b) ++ y = (x ++ a) ++ (b ++ y) := by simp
        _ = _ := by rw [hx, hy, textOf_append]; rfl
    · rintro before ref value after rfl a b v - - ⟨x, hx⟩ ⟨y, hy⟩ hr
      refine h _ v hr ⟨x, y, ?_⟩
      calc x ++ (a ++ b) ++ y = (x ++ a) ++ (b ++ y) := by simp
        _ = _ := by rw [hx, hy, textOf_append, List.append_assoc]; rfl

/-- A text without references comes out as it is. -/
theorem textOf_of_quiet (hp : Parsed T ps) (h : ∀ r v, T r v → ¬r <:+: sourceOf ps) : textOf ps = sourceOf ps := by
  induction hp with
  | nil => rfl
  | lit _ _ ih =>
    refine congrArg (_ :: ·) (ih fun r v hr hin => h r v hr (hin.trans ?_))
    exact (List.suffix_cons ..).isInfix
  | quoted hr _ _ => exact absurd ((List.prefix_append ..).isInfix) (h _ _ hr)

/-- If what has come out so far is short of `x`, and what is to come makes up for it, there is nothing to
make up for, unless a value has its own reference in it. -/
theorem lits_of_catches_up (hp : Parsed T ps) (hself : NoSelf T) {x : List α} (h : x ++ sourceOf ps = textOf ps) :
    x = [] ∧ ∃ cs : List α, ps = cs.map Fragment.lit := by
  induction hp generalizing x with
  | nil =>
    refine ⟨?_, [], rfl⟩
    exact (List.append_eq_nil_iff.1 h).1
  | @lit c ps _ _ ih =>
    rw [sourceOf_cons, textOf_cons] at h
    cases x with
    | nil =>
      obtain ⟨-, cs, rfl⟩ := ih (x := []) (List.append_cancel_left h)
      exact ⟨rfl, c :: cs, rfl⟩
    | cons d x =>
      have h' : (x ++ [c]) ++ sourceOf ps = textOf ps := by
        have := (List.cons.inj h).2
        simpa [Fragment.source] using this
      exact absurd (List.append_eq_nil_iff.1 (ih h').1).2 (List.cons_ne_nil _ _)
  | @quoted r v ps hr _ ih =>
    rw [sourceOf_cons, textOf_cons, ← List.append_assoc] at h
    rcases List.append_eq_append_iff.1 h with ⟨z, hz, -⟩ | ⟨z, hz, hrest⟩
    · exact absurd ⟨x, z, hz.symm⟩ (hself r v hr)
    · obtain ⟨rfl, -⟩ := ih hrest.symm
      exact absurd ⟨x, [], by simpa [Fragment.source, Fragment.text] using hz⟩ (hself r v hr)

/-- A text that comes out as it is has no reference in it, unless a value has its own reference in it. -/
theorem quiet_of_textOf (hp : Parsed T ps) (hself : NoSelf T) (hne : ∀ v, ¬T [] v)
    (h : textOf ps = sourceOf ps) : ∀ r v, T r v → ¬r <:+: sourceOf ps := by
  obtain ⟨-, cs, rfl⟩ := lits_of_catches_up (x := []) hp hself h.symm
  have hquiet : Quiet T (cs.map Fragment.lit) := by
    have hno : ∀ ref value, Fragment.quoted ref value ∉ cs.map Fragment.lit := by
      intro ref value hmem
      obtain ⟨c, -, hc⟩ := List.mem_map.1 hmem
      cases hc
    have hno' : ∀ before ref value after, cs.map Fragment.lit ≠ before ++ Fragment.quoted ref value :: after :=
      fun before ref value after heq =>
        hno ref value (heq ▸ List.mem_append_right _ (List.mem_cons_self ..))
    exact ⟨fun ref value hmem => absurd hmem (hno ref value), fun before ref value after heq =>
      absurd heq (hno' before ref value after), fun before ref value after heq =>
      absurd heq (hno' before ref value after)⟩
  rw [← h]
  exact (quiet_iff hp hne).1 hquiet

end

/-- Filling in a text that came out of a template. -/
theorem again_iff {T : List α → List α → Prop} {ps qs : List (Fragment α)} (hne : ∀ v, ¬T [] v)
    (hp : Parsed T ps) (hq : Parsed T qs) (h : sourceOf qs = textOf ps) :
    (Quiet T ps → textOf qs = textOf ps) ∧ (NoSelf T → (textOf qs = textOf ps ↔ Quiet T ps)) := by
  have hquiet : Quiet T ps → textOf qs = textOf ps := by
    intro hps
    rw [← h]
    refine textOf_of_quiet hq ?_
    rw [h]
    exact (quiet_iff hp hne).1 hps
  refine ⟨hquiet, fun hself => ⟨fun heq => ?_, hquiet⟩⟩
  refine (quiet_iff hp hne).2 ?_
  rw [← h]
  exact quiet_of_textOf hq hself hne (heq.trans h.symm)

end Gafam.Lib
