import Gafam.Frontend.BrowserPage
import Gafam.Go.Proofs.WordsProofs
import Gafam.Js.Proofs.TextProofs

/-!
# Reads that are decoded one by one

A decoder that is made anew for each read is one that is made anew at the marks. A character that no mark stands in comes
out as it is, but for U+FEFF at a mark; of one with a mark in it, the bytes in front of the first mark give one
replacement character, and those behind it one each.
-/

namespace Gafam.Frontend

open Gafam.Go Gafam.Js

/-! ## Marks -/

/-- A decoder that is made anew at every mark. -/
def renewed (s : Utf8State) (seen : Bool) : List (Bool × UInt8) → List Nat
  | [] => s.flush
  | (true, b) :: rest =>
    s.flush ++ (skipBom false (utf8Step .start b).2 ++
      renewed (utf8Step .start b).1 (!(utf8Step .start b).2.isEmpty) rest)
  | (false, b) :: rest =>
    skipBom seen (utf8Step s b).2 ++ renewed (utf8Step s b).1 (seen || !(utf8Step s b).2.isEmpty) rest

theorem skipBom_nil (seen : Bool) : skipBom seen [] = [] := by cases seen <;> rfl

theorem skipBom_flush (seen : Bool) (s : Utf8State) : skipBom seen s.flush = s.flush := by
  unfold Utf8State.flush
  split_ifs
  · exact skipBom_nil seen
  · cases seen <;> rfl

theorem isEmpty_append (l k : List Nat) : (l ++ k).isEmpty = (l.isEmpty && k.isEmpty) := by cases l <;> rfl

/-- In front of the next mark the decoder is one. -/
theorem renewed_run (s : Utf8State) (seen : Bool) (t : GoString) (rest : List (Bool × UInt8)) :
    renewed s seen (t.map (false, ·) ++ rest) =
      skipBom seen (utf8Run s t).2 ++ renewed (utf8Run s t).1 (seen || !(utf8Run s t).2.isEmpty) rest := by
  induction t generalizing s seen with
  | nil =>
    show renewed s seen rest = skipBom seen [] ++ renewed s (seen || !true) rest
    rw [skipBom_nil, Bool.not_true, Bool.or_false, List.nil_append]
  | cons b t ih =>
    rw [List.map_cons, List.cons_append, renewed, ih, utf8Run_cons, skipBom_append, isEmpty_append,
      Bool.not_and, Bool.or_assoc, List.append_assoc]

theorem renewed_mark_run (s : Utf8State) (seen : Bool) (b : UInt8) (t : GoString) (rest : List (Bool × UInt8)) :
    renewed s seen ((true, b) :: (t.map (false, ·) ++ rest)) =
      s.flush ++ (skipBom false (utf8Run .start (b :: t)).2 ++
        renewed (utf8Run .start (b :: t)).1 (!(utf8Run .start (b :: t)).2.isEmpty) rest) := by
  have hrun := renewed_run .start false (b :: t) rest
  rw [Bool.false_or] at hrun
  rw [← hrun]
  rfl

/-- The reads, each decoded by itself. -/
theorem renewed_marked (s : Utf8State) (seen : Bool) (reads : List GoString) :
    renewed s seen (marked reads) = s.flush ++ reads.flatMap fun p => skipBom false (codePoints p) := by
  induction reads generalizing s seen with
  | nil => exact (List.append_nil _).symm
  | cons read reads ih =>
    cases read with
    | nil => exact ih s seen
    | cons b t =>
      rw [marked, renewed_mark_run, ih, List.flatMap_cons, codePoints, skipBom_append, skipBom_flush, List.append_assoc]

theorem marked_bytes (reads : List GoString) : (marked reads).map Prod.snd = reads.flatten := by
  induction reads with
  | nil => rfl
  | cons read reads ih =>
    cases read with
    | nil => exact ih
    | cons b t =>
      have hrest : (t.map ((false, ·) : UInt8 → Bool × UInt8)).map Prod.snd = t := by
        rw [List.map_map]
        exact List.map_id t
      rw [marked, List.map_cons, List.map_append, hrest, ih]
      rfl

/-- The first byte of all is marked. -/
theorem marked_head (reads : List GoString) : ∀ m ∈ ((marked reads).map Prod.fst).head?, m = true := by
  induction reads with
  | nil => exact fun m hm => absurd hm (Option.not_mem_none m)
  | cons read reads ih =>
    cases read with
    | nil => exact ih
    | cons b t =>
      rintro m ⟨⟩
      rfl

/-! ## The encoding of a character -/

theorem leadByte_two {b : UInt8} (h : 0xC2 ≤ b.toNat ∧ b.toNat ≤ 0xDF) :
    ∃ s : Utf8State, leadByte b = (s, []) ∧ s.codePoint = b.toNat - 0xC0 ∧ s.missing = 1 ∧ s.lower = 0x80 ∧
      s.upper = 0xBF := by
  unfold leadByte
  dsimp only
  rw [if_neg (by omega), dif_pos h]
  exact ⟨_, rfl, rfl, rfl, rfl, rfl⟩

theorem leadByte_three {b : UInt8} (h : 0xE0 ≤ b.toNat ∧ b.toNat ≤ 0xEF) :
    ∃ s : Utf8State, leadByte b = (s, []) ∧ s.codePoint = b.toNat - 0xE0 ∧ s.missing = 2 ∧
      s.lower = (if b.toNat = 0xE0 then 0xA0 else 0x80) ∧ s.upper = if b.toNat = 0xED then 0x9F else 0xBF := by
  unfold leadByte
  dsimp only
  rw [if_neg (by omega), dif_neg (by omega), dif_pos h]
  exact ⟨_, rfl, rfl, rfl, rfl, rfl⟩

theorem leadByte_four {b : UInt8} (h : 0xF0 ≤ b.toNat ∧ b.toNat ≤ 0xF4) :
    ∃ s : Utf8State, leadByte b = (s, []) ∧ s.codePoint = b.toNat - 0xF0 ∧ s.missing = 3 ∧
      s.lower = (if b.toNat = 0xF0 then 0x90 else 0x80) ∧ s.upper = if b.toNat = 0xF4 then 0x8F else 0xBF := by
  unfold leadByte
  dsimp only
  rw [if_neg (by omega), dif_neg (by omega), dif_neg (by omega), dif_pos h]
  exact ⟨_, rfl, rfl, rfl, rfl, rfl⟩

theorem utf8Step_lead {b : UInt8} : utf8Step .start b = leadByte b := rfl

/-- A byte that continues a character, and the last one of it. -/
theorem utf8Step_more {s : Utf8State} {b : UInt8} (hm : 1 < s.missing) (hb : s.lower ≤ b.toNat ∧ b.toNat ≤ s.upper) :
    ∃ s' : Utf8State, utf8Step s b = (s', []) ∧ s'.codePoint = s.codePoint * 64 + payload b ∧
      s'.missing = s.missing - 1 ∧ s'.lower = 0x80 ∧ s'.upper = 0xBF := by
  unfold utf8Step
  rw [if_neg (by omega), dif_pos hb, dif_pos hm]
  exact ⟨_, rfl, rfl, rfl, rfl, rfl⟩

theorem utf8Step_last {s : Utf8State} {b : UInt8} (hm : s.missing = 1) (hb : s.lower ≤ b.toNat ∧ b.toNat ≤ s.upper) :
    utf8Step s b = (.start, [s.codePoint * 64 + payload b]) := by
  unfold utf8Step
  rw [if_neg (by omega), dif_pos hb, dif_neg (by omega)]
  rfl

theorem utf8Run_encodes {r : Nat} {bytes : GoString} (h : Encodes r bytes) : utf8Run .start bytes = (.start, [r]) := by
  cases h with
  | one h0 => rw [utf8Run_cons, utf8Step_lead, leadByte_ascii h0]; rfl
  | two h0 h1 =>
    obtain ⟨s, hlead, hcode, hm, hlo, hhi⟩ := leadByte_two h0
    have hb1 := contByte_bounds h1
    rw [utf8Run_cons, utf8Step_lead, hlead, utf8Run_cons, utf8Step_last hm (by rw [hlo, hhi]; exact hb1), hcode]
    rfl
  | @three b0 b1 b2 h0 h1 h2 =>
    obtain ⟨s, hlead, hcode, hm, hlo, hhi⟩ := leadByte_three h0
    unfold second3 at h1
    have hb1 := contByte_bounds h1
    simp only [beq_iff_eq] at hb1
    obtain ⟨s', hmore, hcode', hm', hlo', hhi'⟩ := utf8Step_more (s := s) (b := b1) (by omega) (by rw [hlo, hhi]; exact hb1)
    have hlast := utf8Step_last (s := s') (b := b2) (by omega) (by rw [hlo', hhi']; exact contByte_bounds h2)
    rw [utf8Run_cons, utf8Step_lead, hlead, utf8Run_cons, hmore, utf8Run_cons, hlast, hcode', hcode, Nat.add_mul,
      Nat.mul_assoc]
    rfl
  | @four b0 b1 b2 b3 h0 h1 h2 h3 =>
    obtain ⟨s, hlead, hcode, hm, hlo, hhi⟩ := leadByte_four h0
    unfold second4 at h1
    have hb1 := contByte_bounds h1
    simp only [beq_iff_eq] at hb1
    obtain ⟨s', hmore, hcode', hm', hlo', hhi'⟩ := utf8Step_more (s := s) (b := b1) (by omega) (by rw [hlo, hhi]; exact hb1)
    obtain ⟨s'', hmore', hcode'', hm'', hlo'', hhi''⟩ :=
      utf8Step_more (s := s') (b := b2) (by omega) (by rw [hlo', hhi']; exact contByte_bounds h2)
    have hlast := utf8Step_last (s := s'') (b := b3) (by omega) (by rw [hlo'', hhi'']; exact contByte_bounds h3)
    rw [utf8Run_cons, utf8Step_lead, hlead, utf8Run_cons, hmore, utf8Run_cons, hmore', utf8Run_cons, hlast, hcode'',
      hcode', hcode]
    simp only [Nat.add_mul, Nat.mul_assoc]
    rfl

/-- The first bytes of an encoding, without the last ones, leave the character open. -/
theorem utf8Run_open {r : Nat} {pre post : GoString} {c : UInt8} (h : Encodes r (pre ++ c :: post)) (hpre : pre ≠ []) :
    (utf8Run .start pre).2 = [] ∧ (utf8Run .start pre).1.flush = [runeError] := by
  have hrun := utf8Run_encodes h
  rw [utf8Run_append] at hrun
  obtain ⟨hstate, hpoints⟩ := Prod.mk.inj hrun
  have hnil : (utf8Run .start pre).2 = [] := by
    by_contra hne
    have hlen := congrArg List.length hpoints
    have hpos := List.length_pos_iff.2 hne
    rw [List.length_append, List.length_singleton] at hlen
    have hrest : (utf8Run (utf8Run .start pre).1 (c :: post)).2 = [] := List.eq_nil_of_length_eq_zero (by omega)
    have hopen := utf8Run_silent (.inr (List.cons_ne_nil c post)) hrest
    rw [hstate] at hopen
    exact hopen rfl
  refine ⟨hnil, ?_⟩
  rw [Utf8State.flush, if_neg (utf8Run_silent (.inr hpre) hnil)]

/-- A byte from inside a character is no character. -/
theorem utf8Step_inside {b : UInt8} (h : runeStart b = false) : utf8Step .start b = (.start, [runeError]) := by
  have hb : 0x80 ≤ b.toNat ∧ b.toNat < 0xC0 := by
    by_contra hno
    rw [runeStart_iff.2 hno] at h
    cases h
  rw [utf8Step_lead, leadByte]
  rw [if_neg (by omega), dif_neg (by omega), dif_neg (by omega), dif_neg (by omega)]

theorem renewed_inside {l : List (Bool × UInt8)} (h : ∀ p ∈ l, runeStart p.2 = false) (rest : List (Bool × UInt8)) :
    renewed .start true (l ++ rest) = List.replicate l.length runeError ++ renewed .start true rest := by
  induction l with
  | nil => rfl
  | cons p l ih =>
    obtain ⟨m, b⟩ := p
    obtain ⟨hb, hl⟩ := List.forall_mem_cons.1 h
    cases m with
    | true =>
      rw [List.cons_append, renewed, utf8Step_inside hb, List.length_cons, List.replicate_succ, List.cons_append, ← ih hl]
      rfl
    | false =>
      rw [List.cons_append, renewed, utf8Step_inside hb, List.length_cons, List.replicate_succ, List.cons_append, ← ih hl]
      rfl

/-! ## Characters -/

theorem unmarked {l : List (Bool × UInt8)} (h : (l.map Prod.fst).any id = false) :
    l = (l.map Prod.snd).map (false, ·) := by
  induction l with
  | nil => rfl
  | cons p l ih =>
    obtain ⟨m, b⟩ := p
    rw [List.map_cons, List.any_cons, Bool.or_eq_false_iff] at h
    rw [List.map_cons, List.map_cons, ← ih h.2, show m = false from h.1]

theorem first_mark {l : List (Bool × UInt8)} (h : (l.map Prod.fst).any id = true) :
    ∃ (pre : GoString) (c : UInt8) (post : List (Bool × UInt8)), l = pre.map (false, ·) ++ (true, c) :: post := by
  induction l with
  | nil => cases h
  | cons p l ih =>
    obtain ⟨m, b⟩ := p
    cases m with
    | true => exact ⟨[], b, l, rfl⟩
    | false =>
      obtain ⟨pre, c, post, rfl⟩ := ih h
      exact ⟨b :: pre, c, post, rfl⟩

namespace Cell

/-- What the decoders of the reads make of the character. -/
def points (c : Cell) : List Nat :=
  if c.cut then List.replicate (1 + (c.marks.tail.dropWhile (! ·)).length) runeError
  else if c.starts && c.char.rune == 0xFEFF then [] else [c.char.rune]

def read (c : Cell) : JsString := c.points.flatMap utf16

/-- The cell is one of a character. -/
structure Fits (c : Cell) : Prop where
  encodes : Encodes c.char.rune c.char.bytes
  marks_length : c.marks.length = c.char.bytes.length
  starts_first : c.first = true → c.starts = true

end Cell

theorem skipBom_one (seen : Bool) (r : Nat) : skipBom seen [r] = if !seen && r == 0xFEFF then [] else [r] := by
  cases seen with
  | true => rfl
  | false =>
    by_cases hr : r = 0xFEFF
    · subst hr
      rfl
    · have hbeq : (r == 0xFEFF) = false := beq_false_of_ne hr
      rw [hbeq]
      unfold skipBom
      split
      · rename_i heq
        exact absurd (List.cons.inj heq).1 hr
      · rfl

/-- One character, after which the decoder stands between two. -/
theorem renewed_char {r : Nat} {bytes : GoString} (h : Encodes r bytes) {l : List (Bool × UInt8)}
    (hl : l.map Prod.snd = bytes) (first : Bool) (rest : List (Bool × UInt8)) :
    renewed .start true (l ++ rest) =
      (Cell.mk ⟨r, bytes⟩ first (l.map Prod.fst)).points ++ renewed .start true rest := by
  obtain ⟨b0, conts, rfl, -, hconts, -⟩ := h.shape
  obtain ⟨⟨m, b⟩, l', rfl, rfl, rfl⟩ := List.map_eq_cons_iff.1 hl
  by_cases hcut : (l'.map Prod.fst).any id = true
  · -- the bytes in front of the first mark leave the character open
    obtain ⟨pre, c, post, rfl⟩ := first_mark hcut
    have hmap : (pre.map ((false, ·) : UInt8 → Bool × UInt8)).map Prod.snd = pre := by
      rw [List.map_map]
      exact List.map_id pre
    rw [List.map_append, hmap, List.map_cons, ← List.cons_append] at h
    obtain ⟨hnil, hflush⟩ := utf8Run_open h (List.cons_ne_nil b pre)
    have hinside : ∀ p ∈ post, runeStart p.2 = false := by
      intro p hp
      refine Bool.eq_false_iff.2 fun hstart => runeStart_iff.1 hstart (hconts p.2 ?_)
      exact List.mem_map_of_mem (List.mem_append_right _ (List.mem_cons_of_mem _ hp))
    have hc : runeStart c = false := by
      refine Bool.eq_false_iff.2 fun hstart => runeStart_iff.1 hstart (hconts c ?_)
      exact List.mem_map.2 ⟨(true, c), List.mem_append_right _ List.mem_cons_self, rfl⟩
    have hbehind (s : Utf8State) (seen : Bool) : renewed s seen ((true, c) :: (post ++ rest)) =
        s.flush ++ (runeError :: (List.replicate post.length runeError ++ renewed .start true rest)) := by
      rw [renewed, utf8Step_inside hc, ← renewed_inside hinside]
      rfl
    have hfront : renewed .start true ((m, b) :: (pre.map (false, ·) ++ (true, c) :: post) ++ rest) =
        runeError :: runeError :: (List.replicate post.length runeError ++ renewed .start true rest) := by
      rw [List.cons_append, List.append_assoc, List.cons_append]
      cases m with
      | true =>
        rw [renewed_mark_run, hnil, hbehind, hflush]
        rfl
      | false =>
        have hrun := renewed_run .start true (b :: pre) ((true, c) :: (post ++ rest))
        rw [hnil, hbehind, hflush] at hrun
        exact hrun
    have hmarks : ((pre.map ((false, ·) : UInt8 → Bool × UInt8) ++ (true, c) :: post).map Prod.fst).dropWhile (! ·) =
        true :: post.map Prod.fst := by
      rw [List.map_append, List.map_map, List.dropWhile_append_of_pos]
      · rfl
      · intro a ha
        obtain ⟨x, -, rfl⟩ := List.mem_map.1 ha
        rfl
    have hpoints : (Cell.mk ⟨r, (m, b).2 :: (pre.map (false, ·) ++ (true, c) :: post).map Prod.snd⟩ first
        (((m, b) :: (pre.map (false, ·) ++ (true, c) :: post)).map Prod.fst)).points =
        List.replicate (1 + (((pre.map ((false, ·) : UInt8 → Bool × UInt8) ++ (true, c) :: post).map Prod.fst).dropWhile
          (! ·)).length) runeError := if_pos hcut
    rw [hfront, hpoints, hmarks, List.length_cons, List.length_map, Nat.add_comm 1, List.replicate_succ,
      List.replicate_succ]
    rfl
  · -- the character is read as a whole
    have hno := Bool.eq_false_iff.2 hcut
    have hrun := utf8Run_encodes h
    have hpoints : (Cell.mk ⟨r, (m, b).2 :: l'.map Prod.snd⟩ first (((m, b) :: l').map Prod.fst)).points =
        if m && r == 0xFEFF then [] else [r] := if_neg hcut
    rw [hpoints, unmarked hno]
    cases m with
    | true =>
      rw [List.cons_append, renewed_mark_run, hrun, skipBom_one]
      rfl
    | false =>
      have hwhole := renewed_run .start true (b :: l'.map Prod.snd) rest
      rw [hrun] at hwhole
      exact hwhole

theorem renewed_cells {body : GoString} (hvalid : validString body = true) (first : Bool) {l : List (Bool × UInt8)}
    (hl : l.map Prod.snd = body) :
    renewed .start true l = (cellsFrom first (segments body) (l.map Prod.fst)).flatMap Cell.points := by
  induction body using rune_induction generalizing l first with
  | nil =>
    obtain rfl := List.map_eq_nil_iff.1 hl
    rfl
  | valid r bytes t h ih =>
    rw [validString_append h] at hvalid
    obtain ⟨l₁, l₂, rfl, hl₁, hl₂⟩ := List.map_eq_append_iff.1 hl
    have hlen : (l₁.map Prod.fst).length = bytes.length := by rw [← hl₁, List.length_map, List.length_map]
    rw [segments_append h, cellsFrom, List.flatMap_cons, List.map_append, renewed_char h hl₁ first,
      ih hvalid false hl₂]
    dsimp only
    rw [List.take_left' hlen, List.drop_left' hlen]
  | invalid b0 s _ hdecode _ =>
    rw [validString_invalid hdecode] at hvalid
    cases hvalid

theorem fits_cellsFrom {body : GoString} (hvalid : validString body = true) {first : Bool} {marks : List Bool}
    (hlen : marks.length = body.length) (hhead : first = true → ∀ m ∈ marks.head?, m = true) :
    ∀ c ∈ cellsFrom first (segments body) marks, c.Fits := by
  induction body using rune_induction generalizing marks first with
  | nil => exact fun c hc => absurd hc List.not_mem_nil
  | valid r bytes t h ih =>
    rw [validString_append h] at hvalid
    rw [List.length_append] at hlen
    rw [segments_append h, cellsFrom, List.forall_mem_cons]
    dsimp only
    constructor
    · refine ⟨h, ?_, fun hfirst => ?_⟩
      · dsimp only
        rw [List.length_take]
        omega
      · have hpos := List.length_pos_iff.2 h.ne_nil
        obtain ⟨m, marks, rfl⟩ := List.exists_cons_of_length_pos (l := marks) (by omega)
        obtain ⟨n, hn⟩ := Nat.exists_eq_succ_of_ne_zero (Nat.ne_of_gt hpos)
        show ((m :: marks).take bytes.length).headD false = true
        rw [hn]
        exact hhead hfirst m rfl
    · refine ih hvalid ?_ fun hno => absurd hno Bool.false_ne_true
      rw [List.length_drop]
      omega
  | invalid b0 s _ hdecode _ =>
    rw [validString_invalid hdecode] at hvalid
    cases hvalid

/-! ## Pages -/

section

variable {reads : List GoString} (hvalid : validString reads.flatten = true)
include hvalid

theorem fits_pageCells : ∀ c ∈ pageCells reads, c.Fits :=
  fits_cellsFrom hvalid (by rw [List.length_map, ← marked_bytes, List.length_map]) fun _ => marked_head reads

/-- What the proxy reads. -/
theorem flatMap_textDecode : reads.flatMap textDecode = (pageCells reads).flatMap Cell.read := by
  have hpoints := renewed_marked .start true reads
  rw [renewed_cells hvalid true (marked_bytes reads)] at hpoints
  have hread : (pageCells reads).flatMap Cell.read = ((pageCells reads).flatMap Cell.points).flatMap utf16 :=
    List.flatMap_assoc.symm
  rw [hread, pageCells, hpoints]
  exact List.flatMap_assoc.symm

omit hvalid in
theorem codePoints_valid {body : GoString} (hvalid : validString body = true) :
    codePoints body = (segments body).map Segment.rune := by
  have hrun : utf8Run .start body = (.start, (segments body).map Segment.rune) := by
    induction body using rune_induction with
    | nil => rfl
    | valid r bytes t h ih =>
      rw [validString_append h] at hvalid
      rw [utf8Run_append, utf8Run_encodes h, ih hvalid, segments_append h]
      rfl
    | invalid b0 s _ hdecode _ =>
      rw [validString_invalid hdecode] at hvalid
      cases hvalid
  rw [codePoints, hrun]
  exact List.append_nil _

omit hvalid in
theorem whole_cellsFrom (first : Bool) (l : List Segment) (marks : List Bool) :
    (cellsFrom first l marks).flatMap Cell.whole = (skipBom (!first) (l.map Segment.rune)).flatMap utf16 := by
  induction l generalizing first marks with
  | nil => rw [List.map_nil, skipBom_nil]; rfl
  | cons s l ih =>
    have hone : skipBom (!first) ((s :: l).map Segment.rune) = skipBom (!first) [s.rune] ++ l.map Segment.rune := by
      rw [List.map_cons, ← List.singleton_append, skipBom_append]
      show _ ++ skipBom ((!first) || true) _ = _
      rw [Bool.or_true]
      rfl
    rw [hone, cellsFrom, List.flatMap_cons, ih, List.flatMap_append, skipBom_one, Bool.not_not, Cell.whole]
    refine congrArg (· ++ _) ?_
    dsimp only
    split_ifs
    · rfl
    · exact (List.append_nil _).symm

/-- What there is to read. -/
theorem textDecode_pageCells : textDecode reads.flatten = (pageCells reads).flatMap Cell.whole := by
  rw [textDecode, codePoints_valid hvalid, pageCells, whole_cellsFrom]
  rfl

end

end Gafam.Frontend
