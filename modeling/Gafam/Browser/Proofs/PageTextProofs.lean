import Gafam.Browser.PageText
import Mathlib.Data.List.DropRight

/-!
# Which pages come out well

The text of a page is cut at the characters of its words. Between two of them stands what the extractor makes of
the pieces between, tidied up by itself. So a page without list items comes out well exactly if, between any two
characters, something comes out where something separates them.
-/

namespace Gafam.Browser.PageText

open Gafam.Python

/-! ## Tidying up -/

theorem isspace_of_blank {c : Char} (h : isBlank c = true) : isspace c = true := by
  unfold isBlank at h
  rcases of_decide_eq_true h with rfl | rfl <;> decide

theorem isspace_break : isspace '\n' = true := by decide

theorem dropTrailing_cons (c : Char) (s : PyString) : dropTrailing (c :: s) =
    if isBlank c ∧ (s.dropWhile isBlank).head? = some '\n' then dropTrailing s else c :: dropTrailing s := rfl

theorem joinBreaks_nil (n : Nat) : joinBreaks n [] = [] := by
  unfold joinBreaks
  rfl

theorem joinBreaks_cons (n : Nat) (c : Char) (s : PyString) : joinBreaks n (c :: s) =
    if c = '\n' then (if 2 ≤ n then joinBreaks (n + 1) s else c :: joinBreaks (n + 1) s)
    else c :: joinBreaks 0 s := by
  rw [joinBreaks]

theorem head?_dropWhile_append (p : Char → Bool) (x y : PyString) {c : Char} (hc : p c = false) {b : Char}
    (hb : c ≠ b) :
    ((x ++ c :: y).dropWhile p).head? = some b ↔ (x.dropWhile p).head? = some b := by
  induction x with
  | nil => simp [hc, hb]
  | cons a x ih =>
    rw [List.cons_append, List.dropWhile_cons, List.dropWhile_cons]
    split_ifs
    · exact ih
    · rfl

/-- A character of a word cuts a text in two. -/
theorem dropTrailing_append_cons (x y : PyString) {c : Char} (hc : isspace c = false) :
    dropTrailing (x ++ c :: y) = dropTrailing x ++ c :: dropTrailing y := by
  have hblank : isBlank c = false := by
    rw [← Bool.not_eq_true]
    intro h
    rw [isspace_of_blank h] at hc
    cases hc
  have hbreak : c ≠ '\n' := by
    rintro rfl
    rw [isspace_break] at hc
    cases hc
  induction x with
  | nil =>
    rw [List.nil_append, dropTrailing_cons, hblank, if_neg (fun h => Bool.false_ne_true h.1)]
    rfl
  | cons a x ih =>
    rw [List.cons_append, dropTrailing_cons, dropTrailing_cons]
    simp only [head?_dropWhile_append isBlank x y hblank hbreak]
    split_ifs
    · exact ih
    · rw [ih]
      rfl

theorem joinBreaks_append_cons (n : Nat) (x y : PyString) {c : Char} (hc : isspace c = false) :
    joinBreaks n (x ++ c :: y) = joinBreaks n x ++ c :: joinBreaks 0 y := by
  have hbreak : c ≠ '\n' := by
    rintro rfl
    rw [isspace_break] at hc
    cases hc
  induction x generalizing n with
  | nil =>
    rw [List.nil_append, joinBreaks_cons, if_neg hbreak, joinBreaks_nil]
    rfl
  | cons a x ih =>
    rw [List.cons_append, joinBreaks_cons, joinBreaks_cons]
    split_ifs
    · exact ih _
    · rw [ih]
      rfl
    · rw [ih]
      rfl

/-- What `text` does before it strips. -/
def tidy (s : PyString) : PyString := joinBreaks 0 (dropTrailing s)

theorem tidy_append_cons (x y : PyString) {c : Char} (hc : isspace c = false) :
    tidy (x ++ c :: y) = tidy x ++ c :: tidy y := by
  unfold tidy
  rw [dropTrailing_append_cons x y hc, joinBreaks_append_cons 0 _ _ hc]

theorem dropTrailing_sublist (s : PyString) : (dropTrailing s).Sublist s := by
  induction s with
  | nil => exact List.Sublist.slnil
  | cons c s ih =>
    rw [dropTrailing_cons]
    split_ifs
    · exact ih.cons c
    · exact ih.cons_cons c

theorem joinBreaks_sublist (n : Nat) (s : PyString) : (joinBreaks n s).Sublist s := by
  induction s generalizing n with
  | nil =>
    rw [joinBreaks_nil]
  | cons c s ih =>
    rw [joinBreaks_cons]
    split_ifs
    · exact (ih _).cons c
    · exact (ih _).cons_cons c
    · exact (ih _).cons_cons c

theorem tidy_sublist (s : PyString) : (tidy s).Sublist s := (joinBreaks_sublist ..).trans (dropTrailing_sublist s)

/-- A text has white space in it. -/
def Spaced (s : PyString) : Prop := ∃ c ∈ s, isspace c = true

/-- Where white space is dropped, a line break follows. -/
theorem Spaced.dropTrailing {s : PyString} (h : Spaced s) : Spaced (dropTrailing s) := by
  induction s with
  | nil => exact h
  | cons c s ih =>
    rw [dropTrailing_cons]
    split_ifs with hdrop
    · refine ih ⟨'\n', (List.dropWhile_suffix _).subset (List.mem_of_head? hdrop.2), isspace_break⟩
    · obtain ⟨b, hb, hspace⟩ := h
      rcases List.mem_cons.1 hb with rfl | hb
      · exact ⟨b, List.mem_cons_self .., hspace⟩
      · obtain ⟨b', hb', hspace'⟩ := ih ⟨b, hb, hspace⟩
        exact ⟨b', List.mem_cons_of_mem _ hb', hspace'⟩

theorem Spaced.joinBreaks {s : PyString} (h : Spaced s) : Spaced (joinBreaks 0 s) := by
  induction s with
  | nil => exact h
  | cons c s ih =>
    by_cases hc : isspace c = true
    · refine ⟨c, ?_, hc⟩
      rw [joinBreaks_cons, if_neg (Nat.not_le.2 Nat.two_pos)]
      split_ifs <;> exact List.mem_cons_self ..
    · obtain ⟨b, hb, hspace⟩ := h
      have hbreak : c ≠ '\n' := by
        rintro rfl
        exact hc isspace_break
      rcases List.mem_cons.1 hb with rfl | hb
      · exact absurd hspace hc
      · obtain ⟨b', hb', hspace'⟩ := ih ⟨b, hb, hspace⟩
        refine ⟨b', ?_, hspace'⟩
        rw [joinBreaks_cons, if_neg hbreak]
        exact List.mem_cons_of_mem _ hb'

theorem Spaced.tidy {s : PyString} (h : Spaced s) : Spaced (tidy s) := h.dropTrailing.joinBreaks

theorem dropTrailing_ne_nil {s : PyString} (h : s ≠ []) : dropTrailing s ≠ [] := by
  induction s with
  | nil => exact absurd rfl h
  | cons c s ih =>
    rw [dropTrailing_cons]
    split_ifs with hdrop
    · refine ih ?_
      rintro rfl
      cases hdrop.2
    · exact List.cons_ne_nil _ _

theorem tidy_eq_nil {s : PyString} (h : tidy s = []) : s = [] := by
  by_contra hne
  have hdrop := dropTrailing_ne_nil hne
  unfold tidy at h
  rcases hs : dropTrailing s with _ | ⟨c, t⟩
  · exact hdrop hs
  · rw [hs] at h
    rw [joinBreaks_cons, if_neg (Nat.not_le.2 Nat.two_pos)] at h
    split_ifs at h

/-! ## Characters and what stands between them -/

/-- Characters, each with the pieces that follow it up to the next one. -/
abbrev Cut := List (Char × List Piece)

/-- The pieces of a cut. -/
def cutPieces (cs : Cut) : List Piece := cs.flatMap fun p => .own p.1 :: p.2

/-- What the extractor puts in the place of pieces. -/
def emitAll (ps : List Piece) : PyString := ps.flatMap Piece.emit

/-- Every list of pieces is cut by its characters. -/
theorem exists_cut (ps : List Piece) : ∃ s₀ : List Piece, ∃ cs : Cut, ps = s₀ ++ cutPieces cs ∧
    (∀ p ∈ s₀, p.silent = true) ∧ ∀ e ∈ cs, ∀ p ∈ e.2, p.silent = true := by
  induction ps with
  | nil => exact ⟨[], [], rfl, fun p hp => absurd hp List.not_mem_nil, fun e he => absurd he List.not_mem_nil⟩
  | cons p ps ih =>
    obtain ⟨s₀, cs, rfl, hs₀, hcs⟩ := ih
    have hsilent : p.silent = true → ∀ p' ∈ p :: s₀, p'.silent = true := by
      intro hp p' hp'
      rcases List.mem_cons.1 hp' with rfl | hp'
      · exact hp
      · exact hs₀ p' hp'
    cases p with
    | own c =>
      refine ⟨[], (c, s₀) :: cs, rfl, fun p hp => absurd hp List.not_mem_nil, fun e he => ?_⟩
      rcases List.mem_cons.1 he with rfl | he
      · exact hs₀
      · exact hcs e he
    | blank | block | image => exact ⟨_ :: s₀, cs, rfl, hsilent rfl, hcs⟩

theorem emitAll_append (ps qs : List Piece) : emitAll (ps ++ qs) = emitAll ps ++ emitAll qs :=
  List.flatMap_append

/-- The end of a text: behind each character the tidied pieces, and no white space behind the last one. -/
def laid : Cut → PyString
  | [] => []
  | [(c, s)] => c :: (tidy (emitAll s)).rdropWhile isspace
  | (c, s) :: cs => c :: (tidy (emitAll s) ++ laid cs)

theorem laid_cons {c : Char} {s : List Piece} {cs : Cut} (h : cs ≠ []) :
    laid ((c, s) :: cs) = c :: (tidy (emitAll s) ++ laid cs) := by
  cases cs with
  | nil => exact absurd rfl h
  | cons e cs => rfl

theorem emitAll_pieces (c : Char) (s : List Piece) (cs : Cut) :
    emitAll (cutPieces ((c, s) :: cs)) = c :: (emitAll s ++ emitAll (cutPieces cs)) := by
  show emitAll ((.own c :: s) ++ cutPieces cs) = _
  rw [emitAll_append]
  rfl

theorem rdropWhile_append_cons (p : Char → Bool) (x y : PyString) {c : Char} (hc : p c = false) :
    (x ++ c :: y).rdropWhile p = x ++ c :: y.rdropWhile p := by
  unfold List.rdropWhile
  rw [List.reverse_append, List.reverse_cons, List.append_assoc, List.singleton_append]
  induction y.reverse with
  | nil => simp [hc]
  | cons a y ih =>
    rw [List.cons_append, List.dropWhile_cons, List.dropWhile_cons]
    split_ifs
    · exact ih
    · simp

theorem rdropWhile_own {c : Char} (hc : isspace c = false) (y : PyString) :
    (c :: y).rdropWhile isspace = c :: y.rdropWhile isspace := rdropWhile_append_cons isspace [] y hc

theorem tidy_own {c : Char} (hc : isspace c = false) (y : PyString) : tidy (c :: y) = c :: tidy y :=
  tidy_append_cons [] y hc

/-- Stripped at the end, the tidied pieces of a cut are laid. -/
theorem rdropWhile_tidy {cs : Cut} (hown : ∀ e ∈ cs, isspace e.1 = false) :
    (tidy (emitAll (cutPieces cs))).rdropWhile isspace = laid cs := by
  induction cs with
  | nil => rfl
  | cons e cs ih =>
    obtain ⟨c, s⟩ := e
    have hc : isspace c = false := hown (c, s) (List.mem_cons_self ..)
    have hrest := ih fun e he => hown e (List.mem_cons_of_mem _ he)
    rw [emitAll_pieces, tidy_own hc, rdropWhile_own hc]
    cases cs with
    | nil =>
      have hempty : emitAll (cutPieces []) = [] := rfl
      rw [hempty, List.append_nil]
      rfl
    | cons e cs =>
      obtain ⟨c', s'⟩ := e
      have hc' : isspace c' = false := hown (c', s') (List.mem_cons_of_mem _ (List.mem_cons_self ..))
      rw [emitAll_pieces, tidy_own hc', rdropWhile_own hc'] at hrest
      have hne : (c', s') :: cs ≠ [] := List.cons_ne_nil _ _
      rw [laid_cons hne, ← hrest, emitAll_pieces, tidy_append_cons _ _ hc', rdropWhile_append_cons _ _ _ hc']

theorem dropWhile_append_own (x y : PyString) {c : Char} (hc : isspace c = false) :
    (x ++ c :: y).dropWhile isspace = x.dropWhile isspace ++ c :: y := by
  induction x with
  | nil =>
    rw [List.nil_append, List.dropWhile_cons, hc]
    rfl
  | cons a x ih =>
    rw [List.cons_append, List.dropWhile_cons, List.dropWhile_cons]
    split_ifs
    · exact ih
    · rfl

/-- The text of pieces with a character among them. -/
theorem strip_tidy {s₀ : List Piece} {cs : Cut} (hne : cs ≠ []) (hown : ∀ e ∈ cs, isspace e.1 = false) :
    strip (tidy (emitAll (s₀ ++ cutPieces cs))) = (tidy (emitAll s₀)).dropWhile isspace ++ laid cs := by
  have hlaid := rdropWhile_tidy hown
  cases cs with
  | nil => exact absurd rfl hne
  | cons e cs =>
    obtain ⟨c, s⟩ := e
    have hc : isspace c = false := hown (c, s) (List.mem_cons_self ..)
    rw [emitAll_pieces, tidy_own hc, rdropWhile_own hc] at hlaid
    rw [← hlaid, emitAll_append, emitAll_pieces, tidy_append_cons _ _ hc]
    exact (congrArg (List.rdropWhile isspace) (dropWhile_append_own _ _ hc)).trans
      (rdropWhile_append_cons isspace _ _ hc)

/-! ## Words of a cut -/

def Piece.glyphs : Piece → List Glyph
  | own c => [.char c]
  | blank c _ => [.char c]
  | block _ item => if item then [.item] else [.block]
  | image _ => []

def Piece.isItem : Piece → Bool
  | block _ item => item
  | _ => false

/-- Characters of words are no white space, and the blanks are. -/
def Piece.Fits : Piece → Prop
  | own c => isspace c = false
  | blank c _ => isspace c = true
  | _ => True

theorem separates_of_isItem {p : Piece} (h : p.isItem = true) : p.separates = true := by
  cases p with
  | block => rfl
  | _ => cases h

/-- The words of a cut. -/
def cutWords : Bool → Cut → List Word
  | _, [] => []
  | item, (c, s) :: cs =>
    if s.any Piece.separates then ⟨item, [c]⟩ :: cutWords (s.any Piece.isItem) cs
    else joinHead item c (cutWords item cs)

theorem cutWords_cons (item : Bool) (c : Char) (s : List Piece) (cs : Cut) : cutWords item ((c, s) :: cs) =
    if s.any Piece.separates then ⟨item, [c]⟩ :: cutWords (s.any Piece.isItem) cs
    else joinHead item c (cutWords item cs) := by
  rw [cutWords]

theorem words_silent {s : List Piece} (hs : ∀ p ∈ s, p.silent = true) (hfits : ∀ p ∈ s, p.Fits) (item : Bool)
    (g : List Glyph) :
    words item (s.flatMap Piece.glyphs ++ g) = words (item || s.any Piece.isItem) g := by
  induction s generalizing item with
  | nil =>
    rw [List.any_nil, Bool.or_false]
    rfl
  | cons p s ih =>
    have hrest := ih (fun p hp => hs p (List.mem_cons_of_mem _ hp)) fun p hp => hfits p (List.mem_cons_of_mem _ hp)
    have hp := hs p (List.mem_cons_self ..)
    have hfit := hfits p (List.mem_cons_self ..)
    rw [List.flatMap_cons, List.append_assoc, List.any_cons, ← Bool.or_assoc]
    cases p with
    | own c => cases hp
    | blank c kept =>
      have hspace : isspace c = true := hfit
      rw [← hrest]
      show words item (.char c :: _) = _
      rw [words, if_pos hspace]
      exact congrArg (words · _) (Bool.or_false item).symm
    | block part b =>
      rw [← hrest]
      cases b with
      | true =>
        show words item (.item :: _) = _
        rw [words]
        exact congrArg (words · _) (Bool.or_true item).symm
      | false =>
        show words item (.block :: _) = _
        rw [words]
        exact congrArg (words · _) (Bool.or_false item).symm
    | image part =>
      rw [← hrest]
      exact congrArg (words · _) (Bool.or_false item).symm

/-- A run of characters goes on behind pieces that separate nothing. -/
theorem goesOn_silent {s : List Piece} (hs : ∀ p ∈ s, p.silent = true) (hfits : ∀ p ∈ s, p.Fits) (g : List Glyph) :
    goesOn (s.flatMap Piece.glyphs ++ g) = (!s.any Piece.separates && goesOn g) := by
  induction s with
  | nil => rfl
  | cons p s ih =>
    have hrest := ih (fun p hp => hs p (List.mem_cons_of_mem _ hp)) fun p hp => hfits p (List.mem_cons_of_mem _ hp)
    have hp := hs p (List.mem_cons_self ..)
    have hfit := hfits p (List.mem_cons_self ..)
    rw [List.flatMap_cons, List.append_assoc, List.any_cons]
    cases p with
    | own c => cases hp
    | blank c kept =>
      have hspace : isspace c = true := hfit
      show (!isspace c) = _
      rw [hspace]
      rfl
    | block part b => cases b <;> rfl
    | image part => exact hrest

theorem words_cut {cs : Cut} (hs : ∀ e ∈ cs, ∀ p ∈ e.2, p.silent = true)
    (hfits : ∀ p ∈ cutPieces cs, p.Fits) (item : Bool) :
    words item ((cutPieces cs).flatMap Piece.glyphs) = cutWords item cs := by
  induction cs generalizing item with
  | nil => rfl
  | cons e cs ih =>
    obtain ⟨c, s⟩ := e
    have hsilent : ∀ p ∈ s, p.silent = true := hs (c, s) (List.mem_cons_self ..)
    have hmem : ∀ p ∈ s, p ∈ cutPieces ((c, s) :: cs) :=
      fun p hp => List.mem_append_left _ (List.mem_cons_of_mem _ hp)
    have hrest := ih (fun e he => hs e (List.mem_cons_of_mem _ he))
      fun p hp => hfits p (List.mem_append_right _ hp)
    have hc : isspace c = false := hfits (.own c) (List.mem_append_left _ (List.mem_cons_self ..))
    have hglyphs : (cutPieces ((c, s) :: cs)).flatMap Piece.glyphs =
        .char c :: (s.flatMap Piece.glyphs ++ (cutPieces cs).flatMap Piece.glyphs) := by
      show ((.own c :: s) ++ cutPieces cs).flatMap Piece.glyphs = _
      rw [List.flatMap_append]
      rfl
    have hfit := fun p hp => hfits p (hmem p hp)
    rw [hglyphs, words, hc, if_neg Bool.false_ne_true, goesOn_silent hsilent hfit, words_silent hsilent hfit,
      words_silent hsilent hfit, hrest, hrest, cutWords_cons]
    by_cases hsep : s.any Piece.separates = true
    · rw [hsep, if_pos rfl, Bool.not_true, Bool.false_and, if_neg Bool.false_ne_true, Bool.false_or]
    · have hitem : s.any Piece.isItem = false := by
        rw [← Bool.not_eq_true]
        intro h
        obtain ⟨p, hp, hitem⟩ := List.any_eq_true.1 h
        exact hsep (List.any_eq_true.2 ⟨p, hp, separates_of_isItem hitem⟩)
      rw [if_neg hsep, Bool.not_eq_true] at *
      rw [hsep, hitem, Bool.or_false, Bool.not_false, Bool.true_and]
      cases cs with
      | nil => rfl
      | cons e cs =>
        obtain ⟨c', s'⟩ := e
        have hc' : isspace c' = false := hfits (.own c') (List.mem_append_right _ (List.mem_cons_self ..))
        have hon : goesOn ((cutPieces ((c', s') :: cs)).flatMap Piece.glyphs) = true := by
          show (!isspace c') = true
          rw [hc']
          rfl
        rw [hon, if_pos rfl]

/-! ## Separation in a cut -/

/-- Silent pieces stand in front of the character. -/
theorem append_own_eq {before s₀ rest ps : List Piece} {c : Char} (hs₀ : ∀ p ∈ s₀, p.silent = true)
    (h : before ++ .own c :: rest = s₀ ++ ps) : ∃ b, before = s₀ ++ b ∧ b ++ .own c :: rest = ps := by
  induction s₀ generalizing before with
  | nil => exact ⟨before, rfl, h⟩
  | cons p s₀ ih =>
    cases before with
    | nil =>
      obtain ⟨rfl, -⟩ := List.cons.inj h
      cases hs₀ (.own c) (List.mem_cons_self ..)
    | cons q before =>
      obtain ⟨rfl, htail⟩ := List.cons.inj h
      obtain ⟨b, rfl, hb⟩ := ih (fun p hp => hs₀ p (List.mem_cons_of_mem _ hp)) htail
      exact ⟨b, rfl, hb⟩

theorem cutPieces_cons (c : Char) (s : List Piece) (cs : Cut) :
    cutPieces ((c, s) :: cs) = .own c :: (s ++ cutPieces cs) := rfl

theorem cutPieces_append (cs cs' : Cut) : cutPieces (cs ++ cs') = cutPieces cs ++ cutPieces cs' :=
  List.flatMap_append

/-- A character of the pieces is one of the cut. -/
theorem own_cut {s₀ before rest : List Piece} {cs : Cut} {c : Char} (hs₀ : ∀ p ∈ s₀, p.silent = true)
    (hcs : ∀ e ∈ cs, ∀ p ∈ e.2, p.silent = true) (h : before ++ .own c :: rest = s₀ ++ cutPieces cs) :
    ∃ cs₁ s cs₂, cs = cs₁ ++ (c, s) :: cs₂ ∧ rest = s ++ cutPieces cs₂ := by
  induction cs generalizing s₀ before with
  | nil =>
    obtain ⟨b, -, hb⟩ := append_own_eq hs₀ h
    have hne : b ++ .own c :: rest ≠ [] := List.append_ne_nil_of_right_ne_nil _ (List.cons_ne_nil _ _)
    exact absurd hb hne
  | cons e cs ih =>
    obtain ⟨d, s⟩ := e
    obtain ⟨b, -, hb⟩ := append_own_eq hs₀ h
    rw [cutPieces_cons] at hb
    cases b with
    | nil =>
      obtain ⟨hcd, hrest⟩ := List.cons.inj hb
      cases hcd
      exact ⟨[], s, cs, rfl, hrest⟩
    | cons q b =>
      obtain ⟨-, hb⟩ := List.cons.inj hb
      obtain ⟨cs₁, s', cs₂, rfl, hrest⟩ := ih (hcs (d, s) (List.mem_cons_self ..))
        (fun e he => hcs e (List.mem_cons_of_mem _ he)) hb
      exact ⟨(d, s) :: cs₁, s', cs₂, rfl, hrest⟩

/-- A property of what stands between two characters. -/
def Between (Q : List Piece → Prop) (cs : Cut) : Prop :=
  ∀ cs₁ c s e cs₂, cs = cs₁ ++ (c, s) :: e :: cs₂ → Q s

theorem Between.tail {Q : List Piece → Prop} {e : Char × List Piece} {cs : Cut} (h : Between Q (e :: cs)) :
    Between Q cs := by
  rintro cs₁ c s e' cs₂ rfl
  exact h (e :: cs₁) c s e' cs₂ rfl

theorem between_cons {Q : List Piece → Prop} {c : Char} {s : List Piece} {e : Char × List Piece} {cs : Cut}
    (hs : Q s) (h : Between Q (e :: cs)) : Between Q ((c, s) :: e :: cs) := by
  intro cs₁ c' s' e' cs₂ heq
  cases cs₁ with
  | nil =>
    obtain ⟨hhead, -⟩ := List.cons.inj heq
    cases hhead
    exact hs
  | cons e₁ cs₁ =>
    obtain ⟨-, htail⟩ := List.cons.inj heq
    exact h cs₁ c' s' e' cs₂ htail

/-- Something comes out of the pieces exactly if something separates there. -/
def Told (s : List Piece) : Prop := (∃ p ∈ s, p.separates = true) ↔ ∃ p ∈ s, p.emit ≠ []

theorem separated_cut {s₀ : List Piece} {cs : Cut} (hs₀ : ∀ p ∈ s₀, p.silent = true)
    (hcs : ∀ e ∈ cs, ∀ p ∈ e.2, p.silent = true) : Separated (s₀ ++ cutPieces cs) ↔ Between Told cs := by
  constructor
  · rintro h cs₁ c s ⟨c', s'⟩ cs₂ rfl
    refine h (s₀ ++ cutPieces cs₁) c s c' (s' ++ cutPieces cs₂) ?_ (hcs (c, s) ?_)
    · rw [cutPieces_append, cutPieces_cons, cutPieces_cons, List.append_assoc]
    · exact List.mem_append_right _ (List.mem_cons_self ..)
  · intro h before c between c' after heq hbetween
    obtain ⟨cs₁, s, cs₂, rfl, hrest⟩ := own_cut hs₀ hcs heq.symm
    have hs := hcs (c, s) (List.mem_append_right _ (List.mem_cons_self ..))
    obtain ⟨b, rfl, hb⟩ := append_own_eq hs hrest
    -- what is between them holds no character
    cases cs₂ with
    | nil =>
      have hne : b ++ .own c' :: after ≠ [] := List.append_ne_nil_of_right_ne_nil _ (List.cons_ne_nil _ _)
      exact absurd hb hne
    | cons e cs₂ =>
      obtain ⟨d, s'⟩ := e
      rw [cutPieces_cons] at hb
      cases b with
      | nil =>
        rw [List.append_nil]
        exact h cs₁ c s (d, s') cs₂ rfl
      | cons q b =>
        obtain ⟨rfl, -⟩ := List.cons.inj hb
        cases hbetween (.own d) (List.mem_append_right _ (List.mem_cons_self ..))

theorem emitAll_eq_nil {s : List Piece} : emitAll s = [] ↔ ¬∃ p ∈ s, p.emit ≠ [] := by
  unfold emitAll
  rw [List.flatMap_eq_nil_iff]
  push Not
  rfl

/-! ## Clean pages -/

/-- What a piece emits between words has white space in it. -/
def EmitsSpace (p : Piece) : Prop := p.silent = true → p.emit ≠ [] → Spaced p.emit

theorem spaced_emitAll {s : List Piece} (hsilent : ∀ p ∈ s, p.silent = true) (hspace : ∀ p ∈ s, EmitsSpace p)
    (h : ∃ p ∈ s, p.emit ≠ []) : Spaced (emitAll s) := by
  obtain ⟨p, hp, hne⟩ := h
  obtain ⟨c, hc, hsp⟩ := hspace p hp (hsilent p hp) hne
  exact ⟨c, List.mem_flatMap.2 ⟨p, hp, hc⟩, hsp⟩

/-- The words of a cut stand in what is laid. -/
theorem reads_laid {cs : Cut} (hne : cs ≠ []) (hsilent : ∀ e ∈ cs, ∀ p ∈ e.2, p.silent = true)
    (hspace : ∀ p ∈ cutPieces cs, EmitsSpace p) (hitems : ∀ e ∈ cs, ∀ p ∈ e.2, p.isItem = false)
    (hsep : Between Told cs) (item : Bool) :
    ∃ t ws rest, cutWords item cs = ⟨item, t⟩ :: ws ∧ laid cs = t ++ rest ∧ Reads false ws rest := by
  induction cs generalizing item with
  | nil => exact absurd rfl hne
  | cons e cs ih =>
    obtain ⟨c, s⟩ := e
    rw [cutWords_cons]
    cases cs with
    | nil =>
      refine ⟨[c], [], (tidy (emitAll s)).rdropWhile isspace, ?_, rfl, .none⟩
      split_ifs <;> rfl
    | cons e cs =>
      have hne' : e :: cs ≠ [] := List.cons_ne_nil _ _
      have hs := hsilent (c, s) (List.mem_cons_self ..)
      have ih := ih hne' (fun e he => hsilent e (List.mem_cons_of_mem _ he))
        (fun p hp => hspace p (List.mem_cons_of_mem _ (List.mem_append_right _ hp)))
        (fun e he => hitems e (List.mem_cons_of_mem _ he)) hsep.tail
      have hhead : Told s := hsep [] c s e cs rfl
      unfold Told at hhead
      rw [laid_cons hne']
      by_cases hany : s.any Piece.separates = true
      · have hitem : s.any Piece.isItem = false := by
          rw [List.any_eq_false]
          exact fun p hp => Bool.eq_false_iff.1 (hitems (c, s) (List.mem_cons_self ..) p hp)
        have hspaced : Spaced (tidy (emitAll s)) := by
          refine (spaced_emitAll hs (fun p hp => hspace p ?_) (hhead.1 (List.any_eq_true.1 hany))).tidy
          exact List.mem_cons_of_mem _ (List.mem_append_left _ hp)
        obtain ⟨t, ws, rest, hwords, hlaid, hreads⟩ := ih false
        rw [if_pos hany, hitem, hwords, hlaid]
        exact ⟨[c], _, _, rfl, rfl, .word (fun _ => hspaced) (fun h => nomatch h) hreads⟩
      · have hempty : emitAll s = [] := by
          rw [emitAll_eq_nil, ← hhead]
          exact fun h => hany (List.any_eq_true.2 h)
        obtain ⟨t, ws, rest, hwords, hlaid, hreads⟩ := ih item
        rw [if_neg hany, hwords, hlaid, hempty]
        exact ⟨c :: t, ws, rest, rfl, rfl, hreads⟩

/-! ## Pages whose text can be read back -/

section Reading

-- the characters of the page
variable {O : Char → Bool}

/-- The characters of the words. -/
def total (ws : List Word) : Nat := (ws.map fun w => w.text.length).sum

theorem total_cons (w : Word) (ws : List Word) : total (w :: ws) = w.text.length + total ws := by
  unfold total
  rw [List.map_cons, List.sum_cons]

/-- The first word of a cut begins with its first character. -/
theorem cutWords_first (item : Bool) (c : Char) (s : List Piece) (cs : Cut) :
    ∃ t ws, cutWords item ((c, s) :: cs) = ⟨item, c :: t⟩ :: ws := by
  rw [cutWords_cons]
  split_ifs
  · exact ⟨[], _, rfl⟩
  · cases cutWords item cs with
    | nil => exact ⟨[], [], rfl⟩
    | cons w ws => exact ⟨w.text, ws, rfl⟩

theorem total_cutWords (item : Bool) (cs : Cut) : total (cutWords item cs) = cs.length := by
  induction cs generalizing item with
  | nil => rfl
  | cons e cs ih =>
    obtain ⟨c, s⟩ := e
    rw [cutWords_cons, List.length_cons]
    split_ifs
    · rw [total_cons, ih, List.length_singleton, Nat.add_comm]
    · have hrest := ih item
      cases hw : cutWords item cs with
      | nil =>
        rw [hw] at hrest
        show total [⟨item, [c]⟩] = _
        rw [← hrest]
        rfl
      | cons w ws =>
        rw [hw, total_cons] at hrest
        show total (⟨item, c :: w.text⟩ :: ws) = _
        rw [total_cons, List.length_cons, ← hrest]
        omega

theorem mem_cutWords {item : Bool} {cs : Cut} (hO : ∀ e ∈ cs, O e.1 = true) :
    ∀ w ∈ cutWords item cs, ∀ c ∈ w.text, O c = true := by
  induction cs generalizing item with
  | nil => exact fun w hw => absurd hw List.not_mem_nil
  | cons e cs ih =>
    obtain ⟨c, s⟩ := e
    have hc : O c = true := hO (c, s) (List.mem_cons_self ..)
    have ih := fun item => @ih item fun e he => hO e (List.mem_cons_of_mem _ he)
    have hown : ∀ c' ∈ [c], O c' = true := by
      intro c' hc'
      rw [List.mem_singleton.1 hc']
      exact hc
    rw [cutWords_cons]
    intro w hw
    split_ifs at hw
    · rcases List.mem_cons.1 hw with rfl | hw
      · exact hown
      · exact ih _ w hw
    · cases hws : cutWords item cs with
      | nil =>
        rw [hws] at hw
        rw [List.mem_singleton.1 hw]
        exact hown
      | cons w' ws =>
        have hrest := ih item
        rw [hws] at hw hrest
        rcases List.mem_cons.1 hw with rfl | hw
        · intro c' hc'
          rcases List.mem_cons.1 hc' with rfl | hc'
          · exact hc
          · exact hrest w' (List.mem_cons_self ..) c' hc'
        · exact hrest w (List.mem_cons_of_mem _ hw)

/-- List items need a dash. -/
theorem Reads.dash_mem {first : Bool} {ws : List Word} {out : PyString} (h : Reads first ws out) :
    ∀ w ∈ ws, w.item = true → '-' ∈ out := by
  induction h with
  | none => exact fun w hw => absurd hw List.not_mem_nil
  | @word first before w ws rest _ hitem _ ih =>
    intro w' hw' hbullet
    rcases List.mem_cons.1 hw' with rfl | hw'
    · obtain ⟨a, l, rfl, -, hdash⟩ := hitem hbullet
      rw [List.append_assoc]
      exact List.mem_append_right _ (hdash.subset (List.mem_cons_self ..))
    · exact List.mem_append_right _ (List.mem_append_right _ (ih w' hw' hbullet))

/-- Two words need white space. -/
theorem Reads.spaced {first : Bool} {w w' : Word} {ws : List Word} {out : PyString}
    (h : Reads first (w :: w' :: ws) out) : Spaced out := by
  cases h with
  | word _ _ hrest =>
    cases hrest with
    | word hgap _ _ =>
      obtain ⟨c, hc, hspace⟩ := hgap rfl
      exact ⟨c, List.mem_append_right _ (List.mem_append_right _ (List.mem_append_left _ hc)), hspace⟩

/-- There is room for the words in the text. -/
theorem Reads.total_le {first : Bool} {ws : List Word} {out : PyString} (h : Reads first ws out)
    (hws : ∀ w ∈ ws, ∀ c ∈ w.text, O c = true) : total ws ≤ out.countP O := by
  induction h with
  | none => exact Nat.zero_le _
  | @word first before w ws rest _ _ _ ih =>
    have hrest := ih fun w hw => hws w (List.mem_cons_of_mem _ hw)
    have hword : w.text.countP O = w.text.length :=
      List.countP_eq_length.2 (hws w (List.mem_cons_self ..))
    rw [total_cons, List.countP_append, List.countP_append, hword]
    omega

theorem countP_laid {cs : Cut} (hO : ∀ e ∈ cs, O e.1 = true)
    (hE : ∀ e ∈ cs, ∀ c ∈ emitAll e.2, O c = false) : (laid cs).countP O = cs.length := by
  induction cs with
  | nil => rfl
  | cons e cs ih =>
    obtain ⟨c, s⟩ := e
    have hc : O c = true := hO (c, s) (List.mem_cons_self ..)
    have hs : ∀ {l : PyString}, l.Sublist (emitAll s) → l.countP O = 0 := by
      intro l hl
      rw [List.countP_eq_zero]
      intro c' hc'
      rw [hE (c, s) (List.mem_cons_self ..) c' (hl.subset hc')]
      exact Bool.false_ne_true
    cases cs with
    | nil =>
      show (c :: _).countP O = 1
      rw [List.countP_cons, hc, if_pos rfl, hs]
      exact (List.rdropWhile_prefix _ _).sublist.trans (tidy_sublist _)
    | cons e cs =>
      have hrest := ih (fun e he => hO e (List.mem_cons_of_mem _ he)) fun e he => hE e (List.mem_cons_of_mem _ he)
      rw [laid_cons (List.cons_ne_nil _ _), List.countP_cons, hc, if_pos rfl, List.countP_append,
        hs (tidy_sublist _), hrest]
      show 0 + (e :: cs).length + 1 = (e :: cs).length + 1
      rw [Nat.zero_add]

/-- What stands in front of the first character of the page. -/
theorem front_unique {x x' y y' : PyString} {c c' : Char} (hx : ∀ a ∈ x, O a = false) (hx' : ∀ a ∈ x', O a = false)
    (hc : O c = true) (hc' : O c' = true) (h : x ++ c :: y = x' ++ c' :: y') : x = x' ∧ c :: y = c' :: y' := by
  induction x generalizing x' with
  | nil =>
    cases x' with
    | nil => exact ⟨rfl, h⟩
    | cons a x' =>
      obtain ⟨rfl, -⟩ := List.cons.inj h
      rw [hx' c (List.mem_cons_self ..)] at hc
      cases hc
  | cons a x ih =>
    cases x' with
    | nil =>
      obtain ⟨rfl, -⟩ := List.cons.inj h
      rw [hx a (List.mem_cons_self ..)] at hc'
      cases hc'
    | cons a' x' =>
      obtain ⟨rfl, htail⟩ := List.cons.inj h
      obtain ⟨rfl, heq⟩ := ih (fun b hb => hx b (List.mem_cons_of_mem _ hb))
        (fun b hb => hx' b (List.mem_cons_of_mem _ hb)) htail
      exact ⟨rfl, heq⟩

/-- A bullet needs a dash. -/
theorem not_bullet {first : Bool} {before after : PyString} (hbefore : '-' ∉ before)
    (hafter : after.head? ≠ some '-') : ¬Bullet first before after := by
  rintro ⟨a, l, rfl, -, hbullet⟩
  cases l with
  | nil =>
    obtain ⟨rest, hrest⟩ := hbullet
    rw [List.nil_append] at hrest
    rw [← hrest] at hafter
    exact hafter rfl
  | cons x l =>
    obtain ⟨rest, hrest⟩ := hbullet
    obtain ⟨hx, -⟩ := List.cons.inj hrest
    exact hbefore (List.mem_append_right _ (by rw [← hx]; exact List.mem_cons_self ..))

/-- The pieces between the characters add no characters of the page, and no dashes. -/
structure ApartCut (O : Char → Bool) (cs : Cut) : Prop where
  own : ∀ e ∈ cs, O e.1 = true
  added : ∀ e ∈ cs, ∀ c ∈ emitAll e.2, O c = false ∧ c ≠ '-'

theorem ApartCut.tail {e : Char × List Piece} {cs : Cut} (h : ApartCut O (e :: cs)) : ApartCut O cs :=
  ⟨fun e he => h.own e (List.mem_cons_of_mem _ he), fun e he => h.added e (List.mem_cons_of_mem _ he)⟩

theorem ApartCut.count {cs : Cut} (h : ApartCut O cs) : (laid cs).countP O = cs.length :=
  countP_laid h.own fun e he c hc => (h.added e he c hc).1

theorem laid_first (c : Char) (s : List Piece) (cs : Cut) : ∃ y, laid ((c, s) :: cs) = c :: y := by
  cases cs with
  | nil => exact ⟨_, rfl⟩
  | cons e cs => exact ⟨_, rfl⟩

/-- Words that are read are read where they stand. -/
theorem reads_first {first item : Bool} {cs : Cut} {g : PyString} (hne : cs ≠ []) (ha : ApartCut O cs)
    (hg : ∀ c ∈ g, O c = false ∧ c ≠ '-')
    (hitems : ∀ w ∈ cutWords item cs, w.item = true → w.text.head? ≠ some '-')
    (h : Reads first (cutWords item cs) (g ++ laid cs)) :
    (first = false → Spaced g) ∧ item = false ∧
      ∃ t ws rest, cutWords item cs = ⟨item, t⟩ :: ws ∧ laid cs = t ++ rest ∧ Reads false ws rest := by
  have htotal := total_cutWords item cs
  have hown := @mem_cutWords _ item _ ha.own
  have hcount := ha.count
  cases cs with
  | nil => exact absurd rfl hne
  | cons e cs =>
    obtain ⟨c, s⟩ := e
    have hc : O c = true := ha.own (c, s) (List.mem_cons_self ..)
    obtain ⟨t, ws, hcut⟩ := cutWords_first item c s cs
    obtain ⟨y, hy⟩ := laid_first c s cs
    rw [hcut] at htotal hown hitems h ⊢
    rw [hy] at hcount h ⊢
    generalize hout : g ++ c :: y = out at h
    cases h with
    | @word _ before _ _ rest hgap hitem hrest =>
      have hroom := hrest.total_le fun w hw => hown w (List.mem_cons_of_mem _ hw)
      have hword : (c :: t).countP O = (c :: t).length :=
        List.countP_eq_length.2 (hown ⟨item, c :: t⟩ (List.mem_cons_self ..))
      have hgO : g.countP O = 0 := by
        rw [List.countP_eq_zero]
        intro a ha'
        rw [(hg a ha').1]
        exact Bool.false_ne_true
      have hbefore : ∀ a ∈ before, O a = false := by
        have hzero : before.countP O = 0 := by
          have heq := congrArg (List.countP O) hout
          rw [List.countP_append, hcount, hgO, List.countP_append, List.countP_append, hword] at heq
          rw [total_cons] at htotal
          dsimp only at htotal
          omega
        intro a ha'
        exact Bool.eq_false_iff.2 (List.countP_eq_zero.1 hzero a ha')
      obtain ⟨rfl, hrest'⟩ := front_unique (fun a ha' => (hg a ha').1) hbefore hc hc hout
      refine ⟨hgap, ?_, c :: t, ws, rest, rfl, hrest', hrest⟩
      rw [← Bool.not_eq_true]
      intro hi
      refine not_bullet (fun hmem => (hg _ hmem).2 rfl) ?_ (hitem hi)
      exact hitems ⟨item, c :: t⟩ (List.mem_cons_self ..) hi

/-- Where the words are read, everything between characters comes out as it should. -/
theorem told_of_reads {cs : Cut} (hne : cs ≠ []) (ha : ApartCut O cs) {item : Bool} {t : PyString} {ws : List Word}
    {rest : PyString} (hcut : cutWords item cs = ⟨item, t⟩ :: ws)
    (hitems : ∀ w ∈ ws, w.item = true → w.text.head? ≠ some '-') (hlaid : laid cs = t ++ rest)
    (h : Reads false ws rest) : Between (fun s => Told s ∧ ∀ p ∈ s, p.isItem = false) cs := by
  induction cs generalizing item t ws rest with
  | nil => exact absurd rfl hne
  | cons e cs ih =>
    obtain ⟨c, s⟩ := e
    cases cs with
    | nil =>
      intro cs₁ c' s' e' cs₂ heq
      have hlen := congrArg List.length heq
      rw [List.length_append, List.length_cons, List.length_cons, List.length_cons, List.length_nil] at hlen
      omega
    | cons e cs =>
      obtain ⟨c', s'⟩ := e
      have hne' : (c', s') :: cs ≠ [] := List.cons_ne_nil _ _
      have hs : ∀ a ∈ tidy (emitAll s), O a = false ∧ a ≠ '-' :=
        fun a ha' => ha.added (c, s) (List.mem_cons_self ..) a ((tidy_sublist _).subset ha')
      have hc' : O c' = true := ha.own (c', s') (List.mem_cons_of_mem _ (List.mem_cons_self ..))
      rw [laid_cons hne'] at hlaid
      rw [cutWords_cons] at hcut
      by_cases hany : s.any Piece.separates = true
      · rw [if_pos hany] at hcut
        obtain ⟨hword, rfl⟩ := List.cons.inj hcut
        obtain ⟨-, rfl⟩ := Word.mk.inj hword
        obtain ⟨-, hout⟩ := List.cons.inj hlaid
        change tidy (emitAll s) ++ laid ((c', s') :: cs) = rest at hout
        subst hout
        obtain ⟨hspaced, hitem, t', ws', rest', hcut', hlaid', hrest⟩ := reads_first hne' ha.tail hs hitems h
        rw [hcut'] at hitems
        refine between_cons ⟨iff_of_true (List.any_eq_true.1 hany) ?_, fun p hp => ?_⟩
          (ih hne' ha.tail hcut' (fun w hw => hitems w (List.mem_cons_of_mem _ hw)) hlaid' hrest)
        · by_contra hnone
          rw [emitAll_eq_nil.2 hnone] at hspaced
          obtain ⟨a, hmem, -⟩ := hspaced rfl
          exact absurd hmem List.not_mem_nil
        · exact Bool.eq_false_iff.2 (List.any_eq_false.1 hitem p hp)
      · rw [if_neg hany] at hcut
        obtain ⟨t', ws', hcut'⟩ := cutWords_first item c' s' cs
        rw [hcut'] at hcut
        obtain ⟨hword, rfl⟩ := List.cons.inj hcut
        obtain ⟨-, rfl⟩ := Word.mk.inj hword
        obtain ⟨-, hout⟩ := List.cons.inj hlaid
        change tidy (emitAll s) ++ laid ((c', s') :: cs) = [] ++ c' :: (t' ++ rest) at hout
        obtain ⟨y, hy⟩ := laid_first c' s' cs
        rw [hy] at hout
        have hnil : ∀ a ∈ ([] : PyString), O a = false := fun a ha' => absurd ha' List.not_mem_nil
        obtain ⟨hempty, hrest⟩ := front_unique (fun a ha' => (hs a ha').1) hnil hc' hc' hout
        have hnone : ¬∃ p ∈ s, p.emit ≠ [] := emitAll_eq_nil.1 (tidy_eq_nil hempty)
        have hnosep : ¬∃ p ∈ s, p.separates = true := fun h => hany (List.any_eq_true.2 h)
        refine between_cons ⟨iff_of_false hnosep hnone, fun p hp => ?_⟩
          (ih hne' ha.tail hcut' hitems (hy.trans hrest) h)
        rw [← Bool.not_eq_true]
        exact fun hitem => hnosep ⟨p, hp, separates_of_isItem hitem⟩

end Reading

/-! ## Feeding a document -/

theorem feed_cons {x x' : Extractor} {e : Event} (h : handle x e = some x') (es : List Event) :
    feed x (e :: es) = feed x' es := by
  rw [feed, h]

theorem void_not_skip : ∀ t ∈ voidTags, t ∉ skipTags := by decide

theorem void_not_title : ∀ t ∈ voidTags, t ≠ "title" := by decide

/-- In a skipped element nothing happens. -/
theorem feed_skipped (d : Doc) {x : Extractor} (h : x.skipDepth ≠ 0) (es : List Event) :
    feed x (d.events ++ es) = feed x es := by
  induction d generalizing x es with
  | nil => rfl
  | data s rest ih =>
    have hdata : handle x (.data s) = some x := congrArg some (if_pos h)
    exact (feed_cons hdata _).trans (ih h es)
  | void tag attrs rest ih =>
    have hstart : handle x (.start tag attrs) = some x := by
      show handleStarttag x tag attrs = _
      unfold handleStarttag
      rw [if_neg (void_not_skip tag tag.2), if_pos h]
    exact (feed_cons hstart _).trans (ih h es)
  | elem tag attrs inside rest hinside hrest =>
    show feed x (.start tag attrs :: (inside.events ++ .stop tag :: rest.events) ++ es) = _
    rw [List.cons_append, List.append_assoc, List.cons_append]
    by_cases hskip : tag ∈ skipTags
    · have hstart : handle x (.start tag attrs) = some { x with skipDepth := x.skipDepth + 1 } := if_pos hskip
      have hstop : handle { x with skipDepth := x.skipDepth + 1 } (.stop tag) = some x := by
        show some (handleEndtag _ tag) = _
        unfold handleEndtag
        rw [if_pos hskip]
        rfl
      rw [feed_cons hstart, hinside (Nat.succ_ne_zero _), feed_cons hstop, hrest h]
    · have hstart : handle x (.start tag attrs) = some x := by
        show handleStarttag x tag attrs = _
        unfold handleStarttag
        rw [if_neg hskip, if_pos h]
      have hstop : handle x (.stop tag) = some x := by
        show some (handleEndtag x tag) = _
        unfold handleEndtag
        rw [if_neg hskip, if_pos h]
      rw [feed_cons hstart, hinside h, feed_cons hstop, hrest h]

/-- A skipped element. -/
theorem feed_skip {tag : String} (hskip : tag ∈ skipTags) (attrs : Attrs) (inside : Doc) (x : Extractor)
    (es : List Event) : feed x (.start tag attrs :: (inside.events ++ .stop tag :: es)) = feed x es := by
  have hstart : handle x (.start tag attrs) = some { x with skipDepth := x.skipDepth + 1 } := if_pos hskip
  have hstop : handle { x with skipDepth := x.skipDepth + 1 } (.stop tag) = some x := by
    show some (handleEndtag _ tag) = _
    unfold handleEndtag
    rw [if_pos hskip]
    rfl
  rw [feed_cons hstart, feed_skipped inside (Nat.succ_ne_zero _), feed_cons hstop]

/-- A tag that neither breaks a line nor is an image adds nothing. -/
theorem start_quiet {x : Extractor} {tag : String} (hx : x.skipDepth = 0) (hskip : tag ∉ skipTags)
    (htitle : tag ≠ "title") (hbreaks : breaks tag = false) (himg : tag ≠ "img") (attrs : Attrs) :
    ∃ href, handleStarttag x tag attrs = some { x with curHref := href } := by
  obtain ⟨hheading, hblock⟩ := not_or.1 (of_decide_eq_false hbreaks)
  rw [Option.not_isSome_iff_eq_none] at hheading
  have hli : tag ≠ "li" := by
    rintro rfl
    exact hblock (by decide)
  unfold handleStarttag
  rw [if_neg hskip, if_neg (not_not.2 hx), if_neg htitle, hheading]
  dsimp only
  rw [if_neg hblock, if_neg hli]
  by_cases ha : tag = "a"
  · rw [if_pos ha]
    exact ⟨_, rfl⟩
  · rw [if_neg ha, if_neg himg]
    exact ⟨_, rfl⟩

theorem stop_quiet {x : Extractor} {tag : String} (hx : x.skipDepth = 0) (hskip : tag ∉ skipTags)
    (htitle : tag ≠ "title") (hbreaks : breaks tag = false) :
    ∃ href, handleEndtag x tag = { x with curHref := href } := by
  obtain ⟨hheading, hblock⟩ := not_or.1 (of_decide_eq_false hbreaks)
  rw [Option.not_isSome_iff_eq_none] at hheading
  unfold handleEndtag
  rw [if_neg hskip, if_neg (not_not.2 hx), if_neg htitle, hheading]
  dsimp only
  rw [if_neg hblock]
  by_cases ha : tag = "a"
  · rw [if_pos ha]
    exact ⟨_, rfl⟩
  · rw [if_neg ha]
    exact ⟨_, rfl⟩

/-- The texts in a title only make it longer. -/
theorem feed_quiet (d : Doc) (hd : d.Quiet) {x : Extractor} (hx : x.skipDepth = 0) (htitle : x.inTitle = true)
    (es : List Event) : ∃ x', feed x (d.events ++ es) = feed x' es ∧ x'.skipDepth = 0 ∧ x'.inTitle = true ∧
      x'.parts = x.parts := by
  induction d generalizing x es with
  | nil => exact ⟨x, rfl, hx, htitle, rfl⟩
  | data s rest ih =>
    have hdata : handle x (.data s) = some { x with title := x.title ++ strip s } := by
      show some (handleData x s) = _
      unfold handleData
      rw [if_neg (not_not.2 hx), if_pos htitle]
    obtain ⟨x', hfeed, hx', htitle', hparts⟩ := @ih hd { x with title := x.title ++ strip s } hx htitle es
    exact ⟨x', (feed_cons hdata _).trans hfeed, hx', htitle', hparts⟩
  | void tag attrs rest ih =>
    obtain ⟨hbreaks, himg, hrest⟩ := hd
    obtain ⟨href, hstart⟩ := start_quiet hx (void_not_skip tag tag.2) (void_not_title tag tag.2) hbreaks himg attrs
    have hstart : handle x (.start tag attrs) = some { x with curHref := href } := hstart
    obtain ⟨x', hfeed, hx', htitle', hparts⟩ := @ih hrest { x with curHref := href } hx htitle es
    exact ⟨x', (feed_cons hstart _).trans hfeed, hx', htitle', hparts⟩
  | elem tag attrs inside rest hinside ih =>
    obtain ⟨htag, hrest⟩ := hd
    have hassoc : Doc.events (.elem tag attrs inside rest) ++ es =
        .start tag attrs :: (inside.events ++ .stop tag :: (rest.events ++ es)) := by
      show .start tag attrs :: (inside.events ++ .stop tag :: rest.events) ++ es = _
      rw [List.cons_append, List.append_assoc, List.cons_append]
    rw [hassoc]
    by_cases hskip : tag ∈ skipTags
    · rw [feed_skip hskip]
      exact ih hrest hx htitle es
    · obtain ⟨hbreaks, himg, hno, hquiet⟩ := htag.resolve_left hskip
      obtain ⟨href, hstart⟩ := start_quiet hx hskip hno hbreaks himg attrs
      have hstart : handle x (.start tag attrs) = some { x with curHref := href } := hstart
      rw [feed_cons hstart]
      obtain ⟨x₁, hfeed₁, hx₁, htitle₁, hparts₁⟩ :=
        @hinside hquiet { x with curHref := href } hx htitle (.stop tag :: (rest.events ++ es))
      obtain ⟨href', hstop⟩ := @stop_quiet x₁ tag hx₁ hskip hno hbreaks
      have hstop : handle x₁ (.stop tag) = some { x₁ with curHref := href' } := congrArg some hstop
      obtain ⟨x₂, hfeed₂, hx₂, htitle₂, hparts₂⟩ := @ih hrest { x₁ with curHref := href' } hx₁ htitle₁ es
      refine ⟨x₂, ?_, hx₂, htitle₂, hparts₂.trans hparts₁⟩
      rw [hfeed₁, feed_cons hstop, hfeed₂]

/-! ## The text of a document -/

theorem strip_eq_nil {s : PyString} : strip s = [] ↔ ∀ c ∈ s, isspace c = true := by
  unfold strip
  rw [List.reverse_eq_nil_iff, List.dropWhile_eq_nil_iff]
  constructor
  · intro h
    rw [← List.dropWhile_eq_nil_iff]
    by_contra hne
    have hspace := h _ (List.mem_reverse.2 (List.head_mem hne))
    rw [List.head_dropWhile_not isspace hne] at hspace
    cases hspace
  · intro h c hc
    exact h c ((List.dropWhile_suffix _).subset (List.mem_reverse.1 hc))

theorem squeeze_spaces {s : PyString} (h : ∀ c ∈ s, isspace c = true) :
    ∀ behind, ∀ c ∈ squeeze behind s, isspace c = true := by
  induction s with
  | nil => exact fun _ c hc => absurd hc List.not_mem_nil
  | cons c s ih =>
    have ih := ih fun c hc => h c (List.mem_cons_of_mem _ hc)
    intro behind
    rw [squeeze, if_pos (h c (List.mem_cons_self ..))]
    split_ifs
    · exact ih true
    · intro c' hc'
      rcases List.mem_cons.1 hc' with rfl | hc'
      · decide
      · exact ih true c' hc'

theorem mem_squeeze {c : Char} {s : PyString} (hc : c ∈ s) (hown : isspace c = false) :
    ∀ behind, c ∈ squeeze behind s := by
  induction s with
  | nil => exact absurd hc List.not_mem_nil
  | cons c' s ih =>
    intro behind
    rw [squeeze]
    rcases List.mem_cons.1 hc with rfl | hc
    · rw [hown, if_neg Bool.false_ne_true]
      exact List.mem_cons_self ..
    · split_ifs
      · exact ih hc true
      · exact List.mem_cons_of_mem _ (ih hc true)
      · exact List.mem_cons_of_mem _ (ih hc false)

theorem emitAll_kept (behind : Bool) (s : PyString) : emitAll (dataPieces true behind s) = squeeze behind s := by
  induction s generalizing behind with
  | nil => rfl
  | cons c s ih =>
    rw [dataPieces, squeeze]
    by_cases hc : isspace c = true
    · rw [if_pos hc, if_pos hc, ← ih]
      cases behind <;> rfl
    · rw [if_neg hc, if_neg hc, ← ih]
      rfl

theorem emitAll_dropped {s : PyString} (h : ∀ c ∈ s, isspace c = true) (behind : Bool) :
    emitAll (dataPieces false behind s) = [] := by
  induction s generalizing behind with
  | nil => rfl
  | cons c s ih =>
    rw [dataPieces, if_pos (h c (List.mem_cons_self ..))]
    exact ih (fun c hc => h c (List.mem_cons_of_mem _ hc)) true

/-- Tags add to the text. -/
structure Extractor.Open (x : Extractor) : Prop where
  shown : x.skipDepth = 0
  body : x.inTitle = false

theorem flatten_append (x : Extractor) (part : PyString) :
    (x.append part).parts.flatten = x.parts.flatten ++ part := by
  unfold Extractor.append
  rw [List.flatten_append, List.flatten_singleton]

theorem data_open {x : Extractor} (hx : x.Open) (s : PyString) :
    ∃ x', handle x (.data s) = some x' ∧ x'.Open ∧
      x'.parts.flatten = x.parts.flatten ++ emitAll (dataPieces (s.any fun c => !isspace c) false s) := by
  show ∃ x', some (handleData x s) = some x' ∧ _
  unfold handleData
  rw [if_neg (not_not.2 hx.shown), hx.body, if_neg Bool.false_ne_true]
  dsimp only
  by_cases hany : (s.any fun c => !isspace c) = true
  · obtain ⟨c, hc, hown⟩ := List.any_eq_true.1 hany
    rw [Bool.not_eq_true'] at hown
    have hne : strip (squeeze false s) ≠ [] := by
      intro h
      rw [strip_eq_nil.1 h c (mem_squeeze hc hown false)] at hown
      cases hown
    rw [if_neg hne, hany, emitAll_kept, ← flatten_append]
    split
    · split_ifs
      · exact ⟨_, rfl, ⟨hx.shown, hx.body⟩, rfl⟩
      · exact ⟨_, rfl, ⟨hx.shown, hx.body⟩, rfl⟩
    · exact ⟨_, rfl, ⟨hx.shown, hx.body⟩, rfl⟩
  · have hspace : ∀ c ∈ s, isspace c = true := by
      intro c hc
      have := List.any_eq_false.1 (Bool.not_eq_true _ ▸ hany) c hc
      rwa [Bool.not_eq_true', Bool.not_eq_false] at this
    rw [if_pos (strip_eq_nil.2 (squeeze_spaces hspace false)), Bool.eq_false_iff.2 hany, emitAll_dropped hspace,
      List.append_nil]
    exact ⟨x, rfl, hx, rfl⟩

section Pieces

variable {extra : String → Bool}

/-- An element that one takes for a block emits nothing by that. -/
theorem emitAll_extra (tag : String) : emitAll (if extra tag then [.block [] false] else []) = [] := by
  split_ifs <;> rfl

theorem start_open {x : Extractor} (hx : x.Open) {tag : String} (hskip : tag ∉ skipTags) (htitle : tag ≠ "title")
    {attrs : Attrs} (himg : tag = "img" → imagePart attrs ≠ none) (item : Bool) :
    ∃ x', handle x (.start tag attrs) = some x' ∧ x'.Open ∧
      x'.parts.flatten = x.parts.flatten ++ emitAll (startPieces extra tag attrs item) := by
  show ∃ x', handleStarttag x tag attrs = some x' ∧ _
  unfold handleStarttag startPieces
  rw [if_neg hskip, if_neg (not_not.2 hx.shown), if_neg htitle]
  cases headings.lookup tag with
  | some n =>
    refine ⟨_, rfl, ⟨hx.shown, hx.body⟩, ?_⟩
    rw [flatten_append]
    exact congrArg (_ ++ ·) (List.append_nil _).symm
  | none =>
    dsimp only
    by_cases hblock : tag ∈ blockTags
    · rw [if_pos hblock, if_pos hblock]
      exact ⟨_, rfl, ⟨hx.shown, hx.body⟩, flatten_append ..⟩
    · have hli : tag ≠ "li" := by
        rintro rfl
        exact hblock (by decide)
      rw [if_neg hblock, if_neg hblock, if_neg hli, emitAll_append, emitAll_extra, List.nil_append]
      by_cases ha : tag = "a"
      · have hno : tag ≠ "img" := by
          rintro rfl
          exact absurd ha (by decide)
        rw [if_pos ha, if_neg hno]
        exact ⟨_, rfl, ⟨hx.shown, hx.body⟩, (List.append_nil _).symm⟩
      rw [if_neg ha]
      by_cases hi : tag = "img"
      · obtain ⟨part, hpart⟩ := Option.ne_none_iff_exists'.1 (himg hi)
        rw [if_pos hi, if_pos hi, hpart, Option.map_some]
        refine ⟨_, rfl, ?_, ?_⟩
        · split_ifs
          · exact hx
          · exact ⟨hx.shown, hx.body⟩
        · have hemit : emitAll [.image part] = part := List.append_nil _
          split_ifs with hempty
          · rw [hempty]
            exact (List.append_nil _).symm
          · exact (flatten_append ..).trans (congrArg (_ ++ ·) hemit.symm)
      · rw [if_neg hi, if_neg hi]
        exact ⟨_, rfl, hx, (List.append_nil _).symm⟩

theorem stop_open {x : Extractor} (hx : x.Open) {tag : String} (hskip : tag ∉ skipTags) (htitle : tag ≠ "title") :
    ∃ x', handle x (.stop tag) = some x' ∧ x'.Open ∧
      x'.parts.flatten = x.parts.flatten ++ emitAll (stopPieces extra tag) := by
  show ∃ x', some (handleEndtag x tag) = some x' ∧ _
  have hbreak : emitAll [.block (py "\n") false] = py "\n" := rfl
  unfold handleEndtag stopPieces breaks
  rw [if_neg hskip, if_neg (not_not.2 hx.shown), if_neg htitle]
  cases hheading : headings.lookup tag with
  | some n =>
    have hbreaks : decide ((some n).isSome = true ∨ tag ∈ blockTags) = true := decide_eq_true (.inl rfl)
    rw [if_pos hbreaks, hbreak, ← flatten_append]
    exact ⟨_, rfl, ⟨hx.shown, hx.body⟩, rfl⟩
  | none =>
    dsimp only
    by_cases hblock : tag ∈ blockTags
    · rw [if_pos hblock, if_pos (decide_eq_true (.inr hblock)), hbreak, ← flatten_append]
      exact ⟨_, rfl, ⟨hx.shown, hx.body⟩, rfl⟩
    · have hbreaks : decide ((none : Option Nat).isSome = true ∨ tag ∈ blockTags) ≠ true := by
        intro h
        exact (of_decide_eq_true h).elim Bool.false_ne_true hblock
      rw [if_neg hblock, if_neg hbreaks, emitAll_extra, List.append_nil]
      by_cases ha : tag = "a"
      · rw [if_pos ha]
        exact ⟨_, rfl, ⟨hx.shown, hx.body⟩, rfl⟩
      · rw [if_neg ha]
        exact ⟨_, rfl, hx, rfl⟩

/-- The extractor puts its pieces in the place of a document. -/
theorem feed_pieces (d : Doc) (hd : d.Tame) {x : Extractor} (hx : x.Open) (es : List Event) :
    ∃ x', feed x (d.events ++ es) = feed x' es ∧ x'.Open ∧
      x'.parts.flatten = x.parts.flatten ++ emitAll (d.pieces extra) := by
  induction d generalizing x es with
  | nil => exact ⟨x, rfl, hx, (List.append_nil _).symm⟩
  | data s rest ih =>
    obtain ⟨x₁, hdata, hx₁, hparts₁⟩ := data_open hx s
    obtain ⟨x₂, hfeed, hx₂, hparts₂⟩ := ih hd hx₁ es
    refine ⟨x₂, (feed_cons hdata _).trans hfeed, hx₂, ?_⟩
    rw [hparts₂, hparts₁, Doc.pieces, emitAll_append, List.append_assoc]
  | void tag attrs rest ih =>
    obtain ⟨himg, hrest⟩ := hd
    obtain ⟨x₁, hstart, hx₁, hparts₁⟩ :=
      start_open hx (void_not_skip tag tag.2) (void_not_title tag tag.2) himg false
    obtain ⟨x₂, hfeed, hx₂, hparts₂⟩ := ih hrest hx₁ es
    refine ⟨x₂, (feed_cons hstart _).trans hfeed, hx₂, ?_⟩
    rw [hparts₂, hparts₁, Doc.pieces, emitAll_append, List.append_assoc]
  | elem tag attrs inside rest hinside ih =>
    obtain ⟨htag, hrest⟩ := hd
    have hassoc : Doc.events (.elem tag attrs inside rest) ++ es =
        .start tag attrs :: (inside.events ++ .stop tag :: (rest.events ++ es)) := by
      show .start tag attrs :: (inside.events ++ .stop tag :: rest.events) ++ es = _
      rw [List.cons_append, List.append_assoc, List.cons_append]
    rw [hassoc, Doc.pieces]
    by_cases hskip : tag ∈ skipTags
    · rw [feed_skip hskip, if_pos (.inl hskip)]
      exact ih hrest hx es
    by_cases htitle : tag = "title"
    · have hquiet : inside.Quiet := by
        rcases htag with h | ⟨-, h⟩ | ⟨h, -⟩
        · exact absurd h hskip
        · exact h
        · exact absurd htitle h
      have hstart : handle x (.start tag attrs) = some { x with inTitle := true } := by
        show handleStarttag x tag attrs = _
        unfold handleStarttag
        rw [if_neg hskip, if_neg (not_not.2 hx.shown), if_pos htitle]
      obtain ⟨x₁, hfeed₁, hx₁, -, hparts₁⟩ :=
        @feed_quiet inside hquiet { x with inTitle := true } hx.shown rfl (.stop tag :: (rest.events ++ es))
      have hstop : handle x₁ (.stop tag) = some { x₁ with inTitle := false } := by
        show some (handleEndtag x₁ tag) = _
        unfold handleEndtag
        rw [if_neg hskip, if_neg (not_not.2 hx₁), if_pos htitle]
      obtain ⟨x₂, hfeed₂, hx₂, hparts₂⟩ := @ih hrest { x₁ with inTitle := false } ⟨hx₁, rfl⟩ es
      refine ⟨x₂, ?_, hx₂, ?_⟩
      · rw [feed_cons hstart, hfeed₁, feed_cons hstop, hfeed₂]
      · rw [if_pos (.inr htitle), hparts₂]
        exact congrArg (fun ps => ps.flatten ++ _) hparts₁
    · obtain ⟨himg, hinner⟩ : (tag = "img" → imagePart attrs ≠ none) ∧ inside.Tame := by
        rcases htag with h | ⟨h, -⟩ | ⟨-, h⟩
        · exact absurd h hskip
        · exact absurd h htitle
        · exact h
      rw [if_neg (not_or.2 ⟨hskip, htitle⟩)]
      obtain ⟨x₁, hstart, hx₁, hparts₁⟩ :=
        @start_open extra x hx tag hskip htitle attrs himg (tag = "li" ∧ words false (inside.glyphs extra) ≠ [])
      obtain ⟨x₂, hfeed₂, hx₂, hparts₂⟩ := hinside hinner hx₁ (.stop tag :: (rest.events ++ es))
      obtain ⟨x₃, hstop, hx₃, hparts₃⟩ := @stop_open extra x₂ hx₂ tag hskip htitle
      obtain ⟨x₄, hfeed₄, hx₄, hparts₄⟩ := ih hrest hx₃ es
      refine ⟨x₄, ?_, hx₄, ?_⟩
      · rw [feed_cons hstart, hfeed₂, feed_cons hstop, hfeed₄]
      · rw [hparts₄, hparts₃, hparts₂, hparts₁, emitAll_append, emitAll_append, emitAll_append]
        simp only [List.append_assoc]

end Pieces

/-! ## The pieces of a document -/

theorem emitsSpace_blank (c : Char) (kept : Bool) : EmitsSpace (.blank c kept) := by
  intro _ hne
  cases kept with
  | false => exact absurd rfl hne
  | true => exact ⟨' ', List.mem_cons_self .., by decide⟩

theorem dataPieces_spec {kept behind : Bool} {s : PyString} :
    ∀ p ∈ dataPieces kept behind s, p.Fits ∧ EmitsSpace p ∧ p.isItem = false := by
  induction s generalizing behind with
  | nil => exact fun p hp => absurd hp List.not_mem_nil
  | cons c s ih =>
    rw [dataPieces]
    intro p hp
    split_ifs at hp with hc
    · rcases List.mem_cons.1 hp with rfl | hp
      · exact ⟨hc, emitsSpace_blank c _, rfl⟩
      · exact ih p hp
    · rcases List.mem_cons.1 hp with rfl | hp
      · exact ⟨Bool.eq_false_iff.2 hc, fun h => absurd h Bool.false_ne_true, rfl⟩
      · exact ih p hp

theorem dataPieces_glyphs (kept behind : Bool) (s : PyString) :
    (dataPieces kept behind s).flatMap Piece.glyphs = s.map .char := by
  induction s generalizing behind with
  | nil => rfl
  | cons c s ih =>
    rw [dataPieces]
    split_ifs
    · rw [List.flatMap_cons, ih]
      rfl
    · rw [List.flatMap_cons, ih]
      rfl

theorem emitsSpace_break (item : Bool) : EmitsSpace (.block (py "\n") item) :=
  fun _ _ => ⟨'\n', List.mem_cons_self .., isspace_break⟩

theorem emitsSpace_extra : EmitsSpace (.block [] false) := fun _ h => absurd rfl h

/-- An image comes out with a space in it, if it comes out. -/
theorem emitsSpace_image (attrs : Attrs) : EmitsSpace (.image ((imagePart attrs).getD [])) := by
  unfold imagePart
  cases ((getAttr attrs "alt").getD (some [])).map strip with
  | none => exact fun _ hne => absurd rfl hne
  | some alt =>
    rw [Option.map_some, Option.getD_some]
    split_ifs
    · exact fun _ hne => absurd rfl hne
    · exact fun _ _ => ⟨' ', List.mem_append_left _ (List.mem_append_left _ (by decide)), by decide⟩

section Facts

variable {extra : String → Bool}

theorem extraPieces_spec (tag : String) :
    ∀ p ∈ (if extra tag then [Piece.block [] false] else []), p.Fits ∧ EmitsSpace p ∧ p.isItem = false := by
  split_ifs
  · intro p hp
    rw [List.mem_singleton.1 hp]
    exact ⟨trivial, emitsSpace_extra, rfl⟩
  · exact fun p hp => absurd hp List.not_mem_nil

theorem startPieces_spec (tag : String) (attrs : Attrs) (item : Bool) :
    ∀ p ∈ startPieces extra tag attrs item, p.Fits ∧ EmitsSpace p ∧ (p.isItem = true → item = true) := by
  unfold startPieces
  cases headings.lookup tag with
  | some n =>
    intro p hp
    rw [List.mem_singleton.1 hp]
    refine ⟨trivial, fun _ _ => ?_, fun h => absurd h Bool.false_ne_true⟩
    exact ⟨'\n', List.mem_append_left _ (List.mem_append_left _ (List.mem_cons_self ..)), isspace_break⟩
  | none =>
    dsimp only
    intro p hp
    by_cases hblock : tag ∈ blockTags
    · rw [if_pos hblock] at hp
      rw [List.mem_singleton.1 hp]
      exact ⟨trivial, emitsSpace_break item, id⟩
    rw [if_neg hblock] at hp
    rcases List.mem_append.1 hp with hp | hp
    · obtain ⟨hfit, hspace, hitem⟩ := extraPieces_spec tag p hp
      exact ⟨hfit, hspace, fun h => absurd (hitem.symm.trans h) Bool.false_ne_true⟩
    · by_cases himg : tag = "img"
      · rw [if_pos himg] at hp
        rw [List.mem_singleton.1 hp]
        exact ⟨trivial, emitsSpace_image attrs, fun h => absurd h Bool.false_ne_true⟩
      · rw [if_neg himg] at hp
        exact absurd hp List.not_mem_nil

theorem stopPieces_spec (tag : String) :
    ∀ p ∈ stopPieces extra tag, p.Fits ∧ EmitsSpace p ∧ p.isItem = false := by
  unfold stopPieces
  by_cases hbreaks : breaks tag = true
  · rw [if_pos hbreaks]
    intro p hp
    rw [List.mem_singleton.1 hp]
    exact ⟨trivial, emitsSpace_break false, rfl⟩
  · rw [if_neg hbreaks]
    exact extraPieces_spec tag

theorem stopPieces_glyphs (tag : String) : (stopPieces extra tag).flatMap Piece.glyphs = edge extra tag := by
  unfold stopPieces edge
  by_cases hbreaks : breaks tag = true
  · rw [if_pos hbreaks, if_pos (.inl hbreaks)]
    rfl
  · rw [if_neg hbreaks]
    by_cases hextra : extra tag = true
    · rw [if_pos hextra, if_pos (.inr hextra)]
      rfl
    · rw [if_neg hextra, if_neg (not_or.2 ⟨hbreaks, hextra⟩)]
      rfl

theorem startPieces_glyphs (tag : String) (attrs : Attrs) :
    (startPieces extra tag attrs false).flatMap Piece.glyphs = edge extra tag := by
  unfold startPieces edge breaks
  cases headings.lookup tag with
  | some n =>
    have hbreaks : decide ((some n).isSome = true ∨ tag ∈ blockTags) = true := decide_eq_true (.inl rfl)
    dsimp only
    rw [if_pos (Or.inl hbreaks)]
    rfl
  | none =>
    dsimp only
    by_cases hblock : tag ∈ blockTags
    · have hbreaks : decide ((none : Option Nat).isSome = true ∨ tag ∈ blockTags) = true :=
        decide_eq_true (.inr hblock)
      rw [if_pos hblock, if_pos (Or.inl hbreaks)]
      rfl
    · have hbreaks : decide ((none : Option Nat).isSome = true ∨ tag ∈ blockTags) ≠ true := by
        intro h
        exact (of_decide_eq_true h).elim Bool.false_ne_true hblock
      have himage : (if tag = "img" then [Piece.image ((imagePart attrs).getD [])] else []).flatMap Piece.glyphs =
          [] := by
        split_ifs <;> rfl
      rw [if_neg hblock, List.flatMap_append, himage, List.append_nil]
      by_cases hextra : extra tag = true
      · rw [if_pos hextra, if_pos (.inr hextra)]
        rfl
      · rw [if_neg hextra, if_neg (not_or.2 ⟨hbreaks, hextra⟩)]
        rfl

theorem startPieces_item (attrs : Attrs) :
    (startPieces extra "li" attrs true).flatMap Piece.glyphs = [.item] := by
  unfold startPieces
  have hheading : headings.lookup "li" = none := by decide
  have hblock : "li" ∈ blockTags := by decide
  rw [hheading]
  dsimp only
  rw [if_pos hblock]
  rfl

theorem pieces_glyphs (d : Doc) : (d.pieces extra).flatMap Piece.glyphs = d.glyphs extra := by
  induction d with
  | nil => rfl
  | data s rest ih => rw [Doc.pieces, Doc.glyphs, List.flatMap_append, dataPieces_glyphs, ih]
  | void tag attrs rest ih =>
    rw [Doc.pieces, Doc.glyphs, List.flatMap_append, ih, startPieces_glyphs]
  | elem tag attrs inside rest hinside ih =>
    rw [Doc.pieces, Doc.glyphs]
    by_cases hout : tag ∈ skipTags ∨ tag = "title"
    · rw [if_pos hout, if_pos hout, ih]
    · rw [if_neg hout, if_neg hout, List.flatMap_append, List.flatMap_append, List.flatMap_append, ih, hinside,
        stopPieces_glyphs]
      congr 1
      by_cases hitem : tag = "li" ∧ words false (inside.glyphs extra) ≠ []
      · rw [if_pos hitem, decide_eq_true hitem, hitem.1, startPieces_item]
      · rw [if_neg hitem, decide_eq_false hitem, startPieces_glyphs]

theorem pieces_spec (d : Doc) : ∀ p ∈ d.pieces extra, p.Fits ∧ EmitsSpace p := by
  induction d with
  | nil => exact fun p hp => absurd hp List.not_mem_nil
  | data s rest ih =>
    intro p hp
    rcases List.mem_append.1 hp with hp | hp
    · exact ⟨(dataPieces_spec p hp).1, (dataPieces_spec p hp).2.1⟩
    · exact ih p hp
  | void tag attrs rest ih =>
    intro p hp
    rcases List.mem_append.1 hp with hp | hp
    · exact ⟨(startPieces_spec _ _ _ p hp).1, (startPieces_spec _ _ _ p hp).2.1⟩
    · exact ih p hp
  | elem tag attrs inside rest hinside ih =>
    intro p hp
    rw [Doc.pieces] at hp
    split_ifs at hp
    · exact ih p hp
    · rcases List.mem_append.1 hp with hp | hp
      · exact ⟨(startPieces_spec _ _ _ p hp).1, (startPieces_spec _ _ _ p hp).2.1⟩
      rcases List.mem_append.1 hp with hp | hp
      · exact hinside p hp
      rcases List.mem_append.1 hp with hp | hp
      · exact ⟨(stopPieces_spec _ p hp).1, (stopPieces_spec _ p hp).2.1⟩
      · exact ih p hp

/-- Behind the beginning of a list item comes a character. -/
def Followed : List Piece → Prop
  | [] => True
  | p :: ps => (p.isItem = true → ∃ q ∈ ps, q.silent = false) ∧ Followed ps

theorem followed_of_none {ps : List Piece} (h : ∀ p ∈ ps, p.isItem = false) : Followed ps := by
  induction ps with
  | nil => trivial
  | cons p ps ih =>
    refine ⟨fun hitem => ?_, ih fun p hp => h p (List.mem_cons_of_mem _ hp)⟩
    rw [h p (List.mem_cons_self ..)] at hitem
    cases hitem

theorem followed_append {ps qs : List Piece} (hqs : Followed qs)
    (h : Followed ps ∨ ∃ q ∈ qs, q.silent = false) : Followed (ps ++ qs) := by
  induction ps with
  | nil => exact hqs
  | cons p ps ih =>
    rcases h with h | hq
    · refine ⟨fun hitem => ?_, ih (.inl h.2)⟩
      obtain ⟨q, hq, hown⟩ := h.1 hitem
      exact ⟨q, List.mem_append_left _ hq, hown⟩
    · obtain ⟨q, hq', hown⟩ := hq
      exact ⟨fun _ => ⟨q, List.mem_append_right _ hq', hown⟩, ih (.inr ⟨q, hq', hown⟩)⟩

theorem followed_right {ps qs : List Piece} (h : Followed (ps ++ qs)) : Followed qs := by
  induction ps with
  | nil => exact h
  | cons p ps ih => exact ih h.2

theorem not_item_of_followed {ps : List Piece} (h : Followed ps) (hs : ∀ p ∈ ps, p.silent = true) :
    ∀ p ∈ ps, p.isItem = false := by
  induction ps with
  | nil => exact fun p hp => absurd hp List.not_mem_nil
  | cons p ps ih =>
    have hrest := fun p hp => hs p (List.mem_cons_of_mem _ hp)
    intro p' hp'
    rcases List.mem_cons.1 hp' with rfl | hp'
    · by_contra hitem
      obtain ⟨q, hq, hown⟩ := h.1 ((Bool.not_eq_false _).mp hitem)
      rw [hrest q hq] at hown
      cases hown
    · exact ih h.2 hrest p' hp'

/-- Words have characters. -/
theorem exists_own {d : Doc} (h : words false (d.glyphs extra) ≠ []) : ∃ q ∈ d.pieces extra, q.silent = false := by
  by_contra hnone
  push Not at hnone
  have hsilent : ∀ p ∈ d.pieces extra, p.silent = true := fun p hp => (Bool.not_eq_false _).mp (hnone p hp)
  have hwords := words_silent hsilent (fun p hp => (pieces_spec d p hp).1) false []
  rw [List.append_nil, pieces_glyphs] at hwords
  exact h hwords

theorem pieces_followed (d : Doc) : Followed (d.pieces extra) := by
  induction d with
  | nil => trivial
  | data s rest ih => exact followed_append ih (.inl (followed_of_none fun p hp => (dataPieces_spec p hp).2.2))
  | void tag attrs rest ih =>
    refine followed_append ih (.inl (followed_of_none fun p hp => ?_))
    rw [← Bool.not_eq_true]
    exact fun h => Bool.false_ne_true ((startPieces_spec _ _ _ p hp).2.2 h)
  | elem tag attrs inside rest hinside ih =>
    rw [Doc.pieces]
    split_ifs
    · exact ih
    · have hstop : Followed (stopPieces extra tag ++ rest.pieces extra) :=
        followed_append ih (.inl (followed_of_none fun p hp => (stopPieces_spec _ p hp).2.2))
      refine followed_append (followed_append hstop (.inl hinside)) ?_
      by_cases hwords : words false (inside.glyphs extra) = []
      · refine .inl (followed_of_none fun p hp => ?_)
        rw [← Bool.not_eq_true]
        intro h
        exact (of_decide_eq_true ((startPieces_spec _ _ _ p hp).2.2 h)).2 hwords
      · obtain ⟨q, hq, hown⟩ := exists_own hwords
        exact .inr ⟨q, List.mem_append_left _ hq, hown⟩

theorem noItems_iff (d : Doc) : .item ∉ d.glyphs extra ↔ ∀ p ∈ d.pieces extra, p.isItem = false := by
  rw [← pieces_glyphs, List.mem_flatMap]
  push Not
  refine forall₂_congr fun p _ => ?_
  cases p with
  | block part item =>
    cases item with
    | true =>
      refine iff_of_false (fun h => h (List.mem_singleton_self _)) fun h => ?_
      cases h
    | false =>
      refine iff_of_true (fun h => ?_) rfl
      cases List.mem_singleton.1 h
  | own c | blank c kept =>
    refine iff_of_true (fun h => ?_) rfl
    cases List.mem_singleton.1 h
  | image part => exact iff_of_true List.not_mem_nil rfl

end Facts

/-! ## Which pages show their words -/

theorem pageText_eq {extra : String → Bool} {d : Doc} (hd : d.Tame) :
    pageText d = strip (tidy (emitAll (d.pieces extra))) := by
  obtain ⟨x, hfeed, -, hparts⟩ := @feed_pieces extra d hd .init ⟨rfl, rfl⟩ []
  rw [List.append_nil] at hfeed
  unfold pageText
  rw [hfeed]
  exact congrArg (fun s => strip (tidy s)) hparts

section Shown

variable {extra : String → Bool} {d : Doc}

/-- A document cut at its characters. -/
structure CutOf (extra : String → Bool) (d : Doc) (s₀ : List Piece) (cs : Cut) : Prop where
  eq : d.pieces extra = s₀ ++ cutPieces cs
  front : ∀ p ∈ s₀, p.silent = true
  between : ∀ e ∈ cs, ∀ p ∈ e.2, p.silent = true

namespace CutOf

variable {s₀ : List Piece} {cs : Cut}

theorem mem_front (h : CutOf extra d s₀ cs) {p : Piece} (hp : p ∈ s₀) : p ∈ d.pieces extra := by
  rw [h.eq]
  exact List.mem_append_left _ hp

theorem mem_cut (h : CutOf extra d s₀ cs) {p : Piece} (hp : p ∈ cutPieces cs) : p ∈ d.pieces extra := by
  rw [h.eq]
  exact List.mem_append_right _ hp

theorem mem_own (h : CutOf extra d s₀ cs) {e : Char × List Piece} (he : e ∈ cs) : .own e.1 ∈ d.pieces extra :=
  h.mem_cut (List.mem_flatMap.2 ⟨e, he, List.mem_cons_self ..⟩)

theorem mem_between (h : CutOf extra d s₀ cs) {e : Char × List Piece} (he : e ∈ cs) {p : Piece} (hp : p ∈ e.2) :
    p ∈ d.pieces extra := h.mem_cut (List.mem_flatMap.2 ⟨e, he, List.mem_cons_of_mem _ hp⟩)

theorem fits_own (h : CutOf extra d s₀ cs) : ∀ e ∈ cs, isspace e.1 = false :=
  fun _ he => (pieces_spec d _ (h.mem_own he)).1

theorem words_eq (h : CutOf extra d s₀ cs) :
    words false (d.glyphs extra) = cutWords (s₀.any Piece.isItem) cs := by
  rw [← pieces_glyphs, h.eq, List.flatMap_append,
    words_silent h.front fun p hp => (pieces_spec d p (h.mem_front hp)).1,
    words_cut h.between fun p hp => (pieces_spec d p (h.mem_cut hp)).1, Bool.false_or]

theorem text_eq (h : CutOf extra d s₀ cs) (hd : d.Tame) (hne : cs ≠ []) :
    pageText d = (tidy (emitAll s₀)).dropWhile isspace ++ laid cs := by
  rw [pageText_eq hd, h.eq, strip_tidy hne h.fits_own]

/-- A document without words has no list items with words. -/
theorem not_item_of_nil (h : CutOf extra d s₀ []) : ∀ p ∈ d.pieces extra, p.isItem = false := by
  have heq : d.pieces extra = s₀ := h.eq.trans (List.append_nil _)
  have hfollowed := @pieces_followed extra d
  rw [heq] at hfollowed ⊢
  exact not_item_of_followed hfollowed h.front

/-- The list items are in front of the characters, and between them. -/
theorem not_item (h : CutOf extra d s₀ cs) (hfront : ∀ p ∈ s₀, p.isItem = false)
    (hbetween : Between (fun s => ∀ p ∈ s, p.isItem = false) cs) : ∀ p ∈ d.pieces extra, p.isItem = false := by
  have hfollowed := @pieces_followed extra d
  rw [h.eq] at hfollowed ⊢
  intro p hp
  rcases List.mem_append.1 hp with hp | hp
  · exact hfront p hp
  · obtain ⟨⟨c, s⟩, he, hmem⟩ := List.mem_flatMap.1 hp
    rcases List.mem_cons.1 hmem with rfl | hmem
    · rfl
    obtain ⟨cs₁, cs₂, rfl⟩ := List.append_of_mem he
    cases cs₂ with
    | cons e cs₂ => exact hbetween cs₁ c s e cs₂ rfl p hmem
    | nil =>
      -- nothing that follows a list item is behind the last character
      have hlast : Followed s := by
        rw [cutPieces_append, cutPieces_cons] at hfollowed
        have hright := (followed_right (followed_right hfollowed)).2
        rwa [show cutPieces [] = [] from rfl, List.append_nil] at hright
      exact not_item_of_followed hlast (h.between (c, s) he) p hmem

end CutOf

theorem exists_cutOf (extra : String → Bool) (d : Doc) : ∃ s₀ cs, CutOf extra d s₀ cs := by
  obtain ⟨s₀, cs, heq, hfront, hbetween⟩ := exists_cut (d.pieces extra)
  exact ⟨s₀, cs, heq, hfront, hbetween⟩

/-- Nothing that separates words is lost, and there are no list items: the page shows its words. -/
theorem shown_of_clean (h : Clean extra d) : Shown extra d := by
  obtain ⟨s₀, cs, hcut⟩ := exists_cutOf extra d
  have hitem := (noItems_iff d).1 h.noItems
  have hfront : s₀.any Piece.isItem = false := by
    rw [List.any_eq_false]
    exact fun p hp => Bool.eq_false_iff.1 (hitem p (hcut.mem_front hp))
  unfold Shown
  rw [hcut.words_eq, hfront]
  by_cases hne : cs = []
  · subst hne
    exact .none
  have hseparated := h.separated
  rw [hcut.eq, separated_cut hcut.front hcut.between] at hseparated
  obtain ⟨t, ws, rest, hwords, hlaid, hreads⟩ := reads_laid hne hcut.between
    (fun p hp => (pieces_spec d p (hcut.mem_cut hp)).2) (fun e he p hp => hitem p (hcut.mem_between he hp))
    hseparated false
  rw [hwords, hcut.text_eq h.tame hne, hlaid]
  exact .word (fun h => absurd h.symm Bool.false_ne_true) (fun h => absurd h Bool.false_ne_true) hreads

/-- Where the additions of the extractor can be told from the page, nothing else does. -/
theorem clean_of_shown (ha : Apart extra d) (h : Shown extra d) : Clean extra d := by
  obtain ⟨s₀, cs, hcut⟩ := exists_cutOf extra d
  by_cases hne : cs = []
  · subst hne
    refine ⟨ha.tame, (noItems_iff d).2 hcut.not_item_of_nil, ?_⟩
    rw [hcut.eq, separated_cut hcut.front hcut.between]
    intro cs₁ c s e cs₂ heq
    exact absurd heq.symm (List.append_ne_nil_of_right_ne_nil _ (List.cons_ne_nil _ _))
  -- the characters of the page
  have hO : ∀ c, decide (c ∈ cs.map Prod.fst) = true → .own c ∈ d.pieces extra := by
    intro c hc
    obtain ⟨e, he, rfl⟩ := List.mem_map.1 (of_decide_eq_true hc)
    exact hcut.mem_own he
  have hadded : ∀ s : List Piece, (∀ p ∈ s, p ∈ d.pieces extra ∧ p.silent = true) →
      ∀ c ∈ emitAll s, decide (c ∈ cs.map Prod.fst) = false ∧ c ≠ '-' := by
    intro s hs c hc
    obtain ⟨p, hp, hc⟩ := List.mem_flatMap.1 hc
    obtain ⟨hdash, hown⟩ := ha.added p (hs p hp).1 (hs p hp).2
    refine ⟨?_, ?_⟩
    · rw [← Bool.not_eq_true]
      exact fun hmem => hown c (hO c hmem) hc
    · rintro rfl
      exact hdash hc
  have hapart : ApartCut (fun c => decide (c ∈ cs.map Prod.fst)) cs :=
    ⟨fun e he => decide_eq_true (List.mem_map_of_mem he),
      fun e he => hadded e.2 fun p hp => ⟨hcut.mem_between he hp, hcut.between e he p hp⟩⟩
  have hfront := hadded s₀ fun p hp => ⟨hcut.mem_front hp, hcut.front p hp⟩
  have hitems := ha.items
  unfold Shown at h
  rw [hcut.text_eq ha.tame hne] at h
  rw [hcut.words_eq] at h hitems
  obtain ⟨-, hitem, t, ws, rest, hwords, hlaid, hreads⟩ := reads_first hne hapart
    (fun c hc => hfront c ((tidy_sublist _).subset ((List.dropWhile_suffix _).subset hc))) hitems h
  rw [hwords] at hitems
  have htold := told_of_reads hne hapart hwords (fun w hw => hitems w (List.mem_cons_of_mem _ hw)) hlaid hreads
  refine ⟨ha.tame, (noItems_iff d).2 (hcut.not_item ?_ ?_), ?_⟩
  · exact fun p hp => Bool.eq_false_iff.2 (List.any_eq_false.1 hitem p hp)
  · exact fun cs₁ c s e cs₂ heq => (htold cs₁ c s e cs₂ heq).2
  · rw [hcut.eq, separated_cut hcut.front hcut.between]
    exact fun cs₁ c s e cs₂ heq => (htold cs₁ c s e cs₂ heq).1

end Shown

/-- A page shows its words if it is clean, and only then where what is added can be told from them. -/
theorem shown_iff_clean (extra : String → Bool) (d : Doc) :
    (Clean extra d → Shown extra d) ∧ (Apart extra d → (Shown extra d ↔ Clean extra d)) :=
  ⟨shown_of_clean, fun ha => ⟨clean_of_shown ha, shown_of_clean⟩⟩

/-- `<p>a b</p>c` -/
def paragraph : Doc := .elem "p" [] (.data (py "a b") .nil) (.data (py "c") .nil)

theorem paragraph_pieces : paragraph.pieces (fun _ => false) =
    [.block (py "\n") false] ++ cutPieces [('a', [.blank ' ' true]), ('b', [.block (py "\n") false]), ('c', [])] :=
  rfl

theorem paragraph_clean : Clean (fun _ => false) paragraph := by
  refine ⟨⟨.inr (.inr ⟨by decide, fun h => absurd h (by decide), trivial⟩), trivial⟩, by decide, ?_⟩
  rw [paragraph_pieces, separated_cut (by decide) (by decide)]
  refine between_cons (iff_of_true ⟨_, List.mem_cons_self .., rfl⟩ ⟨_, List.mem_cons_self .., by decide⟩) ?_
  refine between_cons (iff_of_true ⟨_, List.mem_cons_self .., rfl⟩ ⟨_, List.mem_cons_self .., by decide⟩) ?_
  intro cs₁ c s e cs₂ heq
  have hlen := congrArg List.length heq
  rw [List.length_append, List.length_cons, List.length_cons, List.length_cons, List.length_nil] at hlen
  omega

theorem paragraph_shown : Clean (fun _ => false) paragraph ∧ Shown (fun _ => false) paragraph :=
  ⟨paragraph_clean, (shown_iff_clean (fun _ => false) paragraph).1 paragraph_clean⟩

/-- `<ul><li>milk</li></ul>` -/
def milk : Doc := .elem "ul" [] (.elem "li" [] (.data (py "milk") .nil) .nil) .nil

/-- `<b>foo</b> <i>bar</i>` -/
def foobar : Doc :=
  .elem "b" [] (.data (py "foo") .nil) (.data (py " ") (.elem "i" [] (.data (py "bar") .nil) .nil))

/-- The text of a list item has no bullet, and a space between two elements is lost. -/
theorem milk_foobar_not_shown : ¬Shown (fun _ => false) milk ∧ ¬Shown (fun _ => false) foobar := by
  refine ⟨fun h => ?_, fun h => ?_⟩
  · have hread : Reads true [⟨true, py "milk"⟩] (py "milk") := h
    exact absurd (hread.dash_mem _ (List.mem_cons_self ..) rfl) (by decide)
  · have hread : Reads true [⟨false, py "foo"⟩, ⟨false, py "bar"⟩] (py "foobar") := h
    obtain ⟨c, hc, hspace⟩ := hread.spaced
    have hnone : (py "foobar").all (fun c => !isspace c) = true := rfl
    have hc' := List.all_eq_true.1 hnone c hc
    rw [hspace] at hc'
    cases hc'

end Gafam.Browser.PageText
