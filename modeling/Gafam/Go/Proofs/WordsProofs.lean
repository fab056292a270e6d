import Gafam.Go.Proofs.TrimProofs

/-!
# Words, and the white space around a text

The runes of two texts put together are those of the one and those of the other if a character starts where they meet.
So a text is read word by word, and white space at its ends may be taken away before or after it is put together. Only
a text that begins inside a character can behave otherwise. A word is found in a text of code points where these are.
-/

namespace Gafam.Go

/-! ## Where a character starts -/

/-- The text does not begin inside a character. -/
def Starts (s : GoString) : Prop := ∀ b ∈ s.head?, runeStart b = true

theorem Encodes.starts {r : Nat} {bytes : GoString} (h : Encodes r bytes) (t : GoString) : Starts (bytes ++ t) := by
  obtain ⟨b0, rest, rfl, hstart, -, -⟩ := h.shape
  rintro b ⟨⟩
  exact runeStart_iff.2 hstart

theorem Encodes.ne_nil {r : Nat} {bytes : GoString} (h : Encodes r bytes) : bytes ≠ [] := by
  obtain ⟨b0, rest, rfl, -⟩ := h.shape
  exact List.cons_ne_nil _ _

/-- A text that starts with a character does not begin inside one. -/
theorem Encodes.ne_inside {r : Nat} {bytes : GoString} (h : Encodes r bytes) {b : UInt8} (hb : runeStart b = false)
    {t u : GoString} : bytes ++ t ≠ b :: u := by
  intro heq
  have hstart := h.starts t b (heq ▸ rfl)
  rw [hb] at hstart
  cases hstart

/-- A byte that starts no encoding starts none when another text follows. -/
theorem decodeRune_append {b0 : UInt8} {s t : GoString} (ht : Starts t)
    (h : decodeRune (b0 :: s) = (runeError, 1)) : decodeRune (b0 :: (s ++ t)) = (runeError, 1) := by
  rcases decodeRune_cases b0 (s ++ t) with ⟨r, bytes, rest, henc, heq⟩ | ⟨-, hdecode⟩
  · obtain ⟨b0', conts, rfl, -, hconts, -⟩ := henc.shape
    rw [List.cons_append, List.cons.injEq] at heq
    obtain ⟨rfl, heq⟩ := heq
    rcases List.append_eq_append_iff.1 heq with ⟨extra, hconts', hrest⟩ | ⟨extra, hs, -⟩
    · -- the encoding reaches into the text behind, which begins with none of its bytes
      rcases extra with _ | ⟨b, extra⟩
      · rw [List.append_nil] at hconts'
        have hdecode := henc.decode_ne []
        rw [List.append_nil, hconts'] at hdecode
        exact absurd h hdecode
      · have hb := hconts b (by rw [hconts']; simp)
        have hstart := ht b (by rw [hrest]; rfl)
        exact absurd hb (runeStart_iff.1 hstart)
    · have hdecode := henc.decode_ne extra
      rw [List.cons_append, ← hs] at hdecode
      exact absurd h hdecode
  · exact hdecode

theorem segments_starts {t : GoString} (ht : Starts t) (s : GoString) :
    segments (s ++ t) = segments s ++ segments t := by
  induction s using rune_induction with
  | nil => rfl
  | valid r bytes s h ih => rw [List.append_assoc, segments_append h, segments_append h, ih, List.cons_append]
  | invalid b0 s _ h ih =>
    rw [List.cons_append, segments_invalid (decodeRune_append ht h), segments_invalid h, ih, List.cons_append]

theorem starts_ascii {c : UInt8} (hc : c.toNat < 0x80) (s : GoString) : Starts (c :: s) := by
  rintro b ⟨⟩
  exact runeStart_iff.2 (by omega)

/-! ## White space -/

theorem blank_nil : Blank [] := fun _ h => absurd h List.not_mem_nil

theorem blank_encodes {r : Nat} {bytes : GoString} (h : Encodes r bytes) (t : GoString) :
    Blank (bytes ++ t) ↔ isSpace r = true ∧ Blank t := by
  unfold Blank
  rw [segments_append h]
  exact List.forall_mem_cons

theorem not_blank_invalid {b0 : UInt8} {s : GoString} (h : decodeRune (b0 :: s) = (runeError, 1)) :
    ¬Blank (b0 :: s) := by
  intro hblank
  have hspace := hblank ⟨runeError, [b0]⟩ (segments_invalid h ▸ List.mem_cons_self ..)
  exact absurd (show isSpace runeError = true from hspace) (by decide)

theorem Blank.starts {s : GoString} (h : Blank s) : Starts s := by
  induction s using rune_induction with
  | nil => exact fun b hb => absurd hb nofun
  | valid r bytes t henc _ => exact henc.starts t
  | invalid b0 s _ hdecode _ => exact absurd h (not_blank_invalid hdecode)

theorem Blank.valid {s : GoString} (h : Blank s) : validString s = true := by
  induction s using rune_induction with
  | nil => rfl
  | valid r bytes t henc ih =>
    rw [validString_append henc]
    exact ih ((blank_encodes henc t).1 h).2
  | invalid b0 s _ hdecode _ => exact absurd h (not_blank_invalid hdecode)

theorem Blank.append {s t : GoString} (hs : Blank s) (ht : Blank t) : Blank (s ++ t) := by
  unfold Blank
  rw [segments_concat hs.valid]
  exact List.forall_mem_append.2 ⟨hs, ht⟩

/-- A text that begins inside a character, with a byte that belongs to none. -/
theorem decodeRune_inside {b0 : UInt8} (h : runeStart b0 = false) (s : GoString) :
    decodeRune (b0 :: s) = (runeError, 1) := by
  rcases decodeRune_cases b0 s with ⟨r, bytes, t, henc, heq⟩ | ⟨-, hdecode⟩
  · exact absurd heq.symm (henc.ne_inside h)
  · exact hdecode

/-! ## The runes that trimming leaves -/

/-- The runes without the white space at their end. -/
def trimEnd : List Segment → List Segment
  | [] => []
  | r :: rs => if trimEnd rs = [] ∧ isSpace r.rune = true then [] else r :: trimEnd rs

theorem trimEnd_eq (l : List Segment) : (l.reverse.dropWhile fun r => isSpace r.rune).reverse = trimEnd l := by
  induction l with
  | nil => rfl
  | cons r rs ih =>
    rw [trimEnd, ← ih, List.reverse_cons, List.dropWhile_append]
    by_cases hnone : rs.reverse.dropWhile (fun r => isSpace r.rune) = []
    · rw [hnone]
      cases hr : isSpace r.rune
      · simp [hr]
      · simp [hr]
    · rw [if_neg (by simpa using hnone), if_neg (by simp [hnone])]
      simp

theorem trimSpace_eq (s : GoString) :
    trimSpace s = joinSegments (trimEnd ((segments s).dropWhile fun r => isSpace r.rune)) :=
  congrArg joinSegments (trimEnd_eq _)

theorem trimEnd_eq_nil_iff {l : List Segment} : trimEnd l = [] ↔ ∀ r ∈ l, isSpace r.rune = true := by
  induction l with
  | nil => exact iff_of_true rfl fun _ h => absurd h List.not_mem_nil
  | cons r rs ih =>
    rw [trimEnd, List.forall_mem_cons, ← ih]
    split_ifs with h
    · exact iff_of_true rfl ⟨h.2, h.1⟩
    · exact iff_of_false id fun hand => h ⟨hand.2, hand.1⟩

theorem trimEnd_append_blank {l k : List Segment} (hk : ∀ r ∈ k, isSpace r.rune = true) :
    trimEnd (l ++ k) = trimEnd l := by
  induction l with
  | nil => exact trimEnd_eq_nil_iff.2 hk
  | cons r rs ih => rw [List.cons_append, trimEnd, trimEnd, ih]

/-- What stays of a list of runes stays of it behind other runes. -/
theorem trimEnd_sublist (l k : List Segment) : (trimEnd k).Sublist (trimEnd (l ++ k)) := by
  induction l with
  | nil => exact List.Sublist.refl _
  | cons r rs ih =>
    rw [List.cons_append, trimEnd]
    split_ifs with h
    · exact h.1 ▸ ih
    · exact ih.cons r

/-- The runes, with the white space that trimming takes from their end. -/
theorem trimEnd_append (l : List Segment) : ∃ back, l = trimEnd l ++ back ∧ ∀ r ∈ back, isSpace r.rune = true := by
  induction l with
  | nil => exact ⟨[], rfl, fun _ h => absurd h List.not_mem_nil⟩
  | cons r rs ih =>
    obtain ⟨back, heq, hback⟩ := ih
    rw [trimEnd]
    split_ifs with h
    · refine ⟨r :: rs, rfl, List.forall_mem_cons.2 ⟨h.2, trimEnd_eq_nil_iff.1 h.1⟩⟩
    · exact ⟨back, congrArg (r :: ·) heq, hback⟩

theorem joinSegments_cons (r : Segment) (l : List Segment) :
    joinSegments (r :: l) = r.bytes ++ joinSegments l := List.flatMap_cons

theorem length_joinSegments_le {l k : List Segment} (h : l.Sublist k) :
    (joinSegments l).length ≤ (joinSegments k).length := by
  induction h with
  | slnil => exact Nat.le_refl _
  | cons r _ ih =>
    rw [joinSegments_cons, List.length_append]
    exact Nat.le_add_left_of_le ih
  | cons_cons r _ ih =>
    rw [joinSegments_cons, joinSegments_cons, List.length_append, List.length_append]
    exact Nat.add_le_add_left ih _

/-! ## Trimming a text that is put together -/

theorem trimSpace_blank_append {s : GoString} (hs : Blank s) (t : GoString) : trimSpace (s ++ t) = trimSpace t := by
  rw [trimSpace_eq, trimSpace_eq, segments_concat hs.valid]
  congr 2
  exact List.dropWhile_append_of_pos hs

theorem trimSpace_append_blank {t : GoString} (ht : Blank t) (s : GoString) : trimSpace (s ++ t) = trimSpace s := by
  rw [trimSpace_eq, trimSpace_eq, segments_starts ht.starts, List.dropWhile_append]
  split_ifs with hall
  · rw [List.isEmpty_iff.1 hall]
    have hnil : (segments t ++ []).dropWhile (fun r => isSpace r.rune) = [].dropWhile fun r => isSpace (Segment.rune r) :=
      List.dropWhile_append_of_pos ht
    rw [List.append_nil] at hnil
    rw [hnil]
    rfl
  · rw [trimEnd_append_blank ht]

/-- In front of a rune that is no white space nothing is taken away. -/
theorem trimSpace_of_head {s : GoString} (h : ∀ r ∈ (segments s).head?, isSpace r.rune = false) :
    trimSpace s = joinSegments (trimEnd (segments s)) := by
  rw [trimSpace_eq, dropWhile_of_head h]

theorem trimEnd_cons {r : Segment} (hr : isSpace r.rune = false) (l : List Segment) :
    trimEnd (r :: l) = r :: trimEnd l := by
  rw [trimEnd, if_neg]
  rintro ⟨-, h⟩
  exact absurd (h.symm.trans hr) (by decide)

theorem trimSpace_encodes {r : Nat} {bytes : GoString} (h : Encodes r bytes) (hr : isSpace r = false) (t : GoString) :
    trimSpace (bytes ++ t) = bytes ++ joinSegments (trimEnd (segments t)) := by
  have hhead : ∀ x ∈ (segments (bytes ++ t)).head?, isSpace x.rune = false := by
    rw [segments_append h, List.head?_cons]
    intro x hx
    rw [← Option.mem_some.1 hx]
    exact hr
  rw [trimSpace_of_head hhead, segments_append h, trimEnd_cons (r := ⟨r, bytes⟩) hr, joinSegments_cons]

theorem trimSpace_invalid {b0 : UInt8} {s : GoString} (h : decodeRune (b0 :: s) = (runeError, 1)) :
    trimSpace (b0 :: s) = b0 :: joinSegments (trimEnd (segments s)) := by
  have herror : isSpace runeError = false := by decide
  have hhead : ∀ x ∈ (segments (b0 :: s)).head?, isSpace x.rune = false := by
    rw [segments_invalid h, List.head?_cons]
    intro x hx
    rw [← Option.mem_some.1 hx]
    exact herror
  rw [trimSpace_of_head hhead, segments_invalid h, trimEnd_cons (r := ⟨runeError, [b0]⟩) herror, joinSegments_cons]
  rfl

theorem length_trimSpace_le (s : GoString) : (trimSpace s).length ≤ (joinSegments (trimEnd (segments s))).length := by
  rw [trimSpace_eq]
  refine length_joinSegments_le ?_
  have h := trimEnd_sublist ((segments s).takeWhile fun r => isSpace r.rune)
    ((segments s).dropWhile fun r => isSpace r.rune)
  rwa [List.takeWhile_append_dropWhile] at h

theorem length_trimSpace_le_self (s : GoString) : (trimSpace s).length ≤ s.length := by
  refine Nat.le_trans (length_trimSpace_le s) ?_
  obtain ⟨back, heq, -⟩ := trimEnd_append (segments s)
  have hsub : (trimEnd (segments s)).Sublist (segments s) := by
    rw [heq]
    nth_rewrite 1 [← heq]
    exact List.sublist_append_left _ _
  have hle := length_joinSegments_le hsub
  rwa [joinSegments_segments] at hle

/-- Behind another text at least as much is left. -/
theorem length_trimSpace_append {t : GoString} (ht : Starts t) (s : GoString) :
    (trimSpace t).length ≤ (joinSegments (trimEnd (segments (s ++ t)))).length := by
  rw [segments_starts ht]
  exact Nat.le_trans (length_trimSpace_le t) (length_joinSegments_le (trimEnd_sublist _ _))

/-- A text, and the white space at its end. -/
theorem exists_trimEnd (s : GoString) : ∃ w, s = joinSegments (trimEnd (segments s)) ++ w ∧ Blank w := by
  obtain ⟨back, heq, hback⟩ := trimEnd_append (segments s)
  refine ⟨joinSegments back, ?_, ?_⟩
  · rw [← joinSegments_append, ← heq, joinSegments_segments]
  · unfold Blank
    rw [(segments_split heq).2]
    exact hback

/-- The bytes of a character that is cut are no white space. -/
theorem trimEnd_inside {l : GoString} (hl : ∀ b ∈ l, runeStart b = false) (t : GoString) :
    joinSegments (trimEnd (segments (l ++ t))) = l ++ joinSegments (trimEnd (segments t)) := by
  induction l with
  | nil => rfl
  | cons b l ih =>
    have hb := decodeRune_inside (hl b (List.mem_cons_self ..)) (l ++ t)
    have herror : isSpace runeError = false := by decide
    rw [List.cons_append, segments_invalid hb, trimEnd_cons (r := ⟨runeError, [b]⟩) herror, joinSegments_cons,
      ih fun c hc => hl c (List.mem_cons_of_mem _ hc)]
    rfl

theorem not_starts {s : GoString} (h : ¬Starts s) : ∃ b s', s = b :: s' ∧ runeStart b = false := by
  rcases s with _ | ⟨b, s⟩
  · exact absurd (fun b hb => absurd hb nofun) h
  · refine ⟨b, s, rfl, ?_⟩
    by_contra hb
    refine h ?_
    rintro c ⟨⟩
    exact Bool.not_eq_false _ ▸ hb

/-- A text that begins inside a character is trimmed at its end only. -/
theorem trimSpace_inside {c : UInt8} (hc : runeStart c = false) (y : GoString) :
    trimSpace (c :: y) = joinSegments (trimEnd (segments (c :: y))) := by
  rw [trimSpace_invalid (decodeRune_inside hc y)]
  exact (trimEnd_inside (l := [c]) (by simpa using hc) y).symm

/-- A character that reaches into the text behind changes what trimming leaves of it. -/
theorem trimSpace_reached_ne {b0 c : UInt8} {s y bytes t : GoString} {r : Nat}
    (hdecode : decodeRune (b0 :: s) = (runeError, 1)) (hc : runeStart c = false) (henc : Encodes r bytes)
    (heq : b0 :: (s ++ c :: y) = bytes ++ t) : trimSpace (b0 :: s ++ c :: y) ≠ trimSpace (c :: y) := by
  intro h
  rw [← List.cons_append] at heq
  rcases List.append_eq_append_iff.1 heq with ⟨extra, hbytes, hextra⟩ | ⟨extra, hs, -⟩
  case inr =>
    rw [hs] at hdecode
    exact henc.decode_ne extra hdecode
  have hconts : ∀ b ∈ extra, runeStart b = false := by
    obtain ⟨b0', conts, rfl, -, hconts, -⟩ := henc.shape
    rw [List.cons_append, List.cons.injEq] at hbytes
    intro b hb
    have hin := hconts b (hbytes.2 ▸ List.mem_append_right _ hb)
    exact Bool.eq_false_iff.2 fun hstart => runeStart_iff.1 hstart hin
  rw [heq] at h
  cases hr : isSpace r with
  | true =>
    have hblank : Blank bytes := by
      rw [← List.append_nil bytes, blank_encodes henc]
      exact ⟨hr, blank_nil⟩
    rw [trimSpace_blank_append hblank, trimSpace_inside hc, hextra, trimEnd_inside hconts] at h
    have hle := length_trimSpace_le t
    have hpos : 0 < extra.length := by
      refine List.length_pos_of_ne_nil fun hnil => ?_
      have hdecode' := henc.decode_ne []
      rw [List.append_nil, hbytes, hnil, List.append_nil] at hdecode'
      exact hdecode' hdecode
    rw [h, List.length_append] at hle
    omega
  | false =>
    rw [trimSpace_encodes henc hr, trimSpace_invalid (decodeRune_inside hc y)] at h
    exact henc.ne_inside hc h

/-- If no character reaches into the text behind, what is left of that text is the end of a character in front of it. -/
theorem cutsSpace_of_trimSpace {b0 c : UInt8} {s y : GoString}
    (hwhole : decodeRune (b0 :: (s ++ c :: y)) = (runeError, 1)) (hc : runeStart c = false)
    (h : trimSpace (b0 :: s ++ c :: y) = trimSpace (c :: y)) : CutsSpace (b0 :: s) (c :: y) := by
  rw [List.cons_append, trimSpace_invalid hwhole] at h
  obtain ⟨d, hd, hdblank⟩ := exists_trimEnd (c :: y)
  rw [← trimSpace_inside hc] at hd
  generalize hk : trimSpace (c :: y) = k at h hd
  have hedge : trimSpace k = k := by
    rw [← hk]
    exact trimSpace_of_noEdgeSpace (noEdgeSpace_trimSpace _)
  have hends : joinSegments (trimEnd (segments (s ++ c :: y))) = joinSegments (trimEnd (segments (s ++ k))) := by
    rw [hd, ← List.append_assoc, segments_starts hdblank.starts, trimEnd_append_blank hdblank]
  rw [hends] at h
  obtain ⟨w, hw, hwblank⟩ := exists_trimEnd (s ++ k)
  generalize joinSegments (trimEnd (segments (s ++ k))) = u at h hw
  have hlen := congrArg List.length hw
  have hlenk := congrArg List.length h
  simp only [List.length_append, List.length_cons] at hlen hlenk
  rcases List.append_eq_append_iff.1 hw with ⟨w', hu, hkw⟩ | ⟨w', hs, hwk⟩
  · -- the white space would stand at the end of what is trimmed
    have hshort := length_trimSpace_le_self w'
    rw [← trimSpace_append_blank hwblank, ← hkw, hedge] at hshort
    have hk' := congrArg List.length hkw
    rw [List.length_append] at hk'
    omega
  · refine ⟨[], k, w', d, ?_, hd, blank_nil, hwk ▸ hwblank, hdblank, ?_⟩
    · rw [List.nil_append, ← h, hs]
      rfl
    · rw [← hk, trimSpace_invalid (decodeRune_inside hc y)]
      exact not_blank_invalid (decodeRune_inside hc _)

/-- The front of a text may go without a change of what trimming leaves exactly if it is white space, or if what stays
of a white-space character that is cut is the text itself. -/
theorem trimSpace_append_eq_iff (x y : GoString) :
    trimSpace (x ++ y) = trimSpace y ↔ Blank x ∨ CutsSpace x y := by
  constructor
  · induction x using rune_induction with
    | nil => exact fun _ => .inl blank_nil
    | valid r bytes t henc ih =>
      intro h
      rw [List.append_assoc] at h
      cases hr : isSpace r with
      | true =>
        have hbytes : Blank bytes := by
          rw [← List.append_nil bytes, blank_encodes henc]
          exact ⟨hr, blank_nil⟩
        rw [trimSpace_blank_append hbytes] at h
        rcases ih h with ht | ⟨a, left, w, d, rfl, hy, ha, hrest⟩
        · exact .inl (hbytes.append ht)
        · refine .inr ⟨bytes ++ a, left, w, d, ?_, hy, hbytes.append ha, hrest⟩
          simp only [List.append_assoc]
      | false =>
        rw [trimSpace_encodes henc hr] at h
        by_cases hy : Starts y
        · -- more is left than the text behind has
          have hle := length_trimSpace_append hy t
          have hpos := List.length_pos_of_ne_nil henc.ne_nil
          rw [← h, List.length_append] at hle
          omega
        · obtain ⟨b, y, rfl, hb⟩ := not_starts hy
          rw [trimSpace_invalid (decodeRune_inside hb y)] at h
          exact absurd h (henc.ne_inside hb)
    | invalid b0 s hlead hdecode ih =>
      intro h
      clear ih
      refine .inr ?_
      by_cases hy : Starts y
      · rw [List.cons_append, trimSpace_invalid (decodeRune_append hy hdecode)] at h
        have hle := length_trimSpace_append hy s
        rw [← h, List.length_cons] at hle
        omega
      obtain ⟨c, y', rfl, hc⟩ := not_starts hy
      rcases decodeRune_cases b0 (s ++ c :: y') with ⟨r, bytes, t, henc, heq⟩ | ⟨-, hwhole⟩
      · exact absurd h (trimSpace_reached_ne hdecode hc henc heq)
      · exact cutsSpace_of_trimSpace hwhole hc h
  · rintro (hx | ⟨a, left, w, d, rfl, rfl, ha, hw, hd, -⟩)
    · exact trimSpace_blank_append hx y
    · calc trimSpace (a ++ left ++ w ++ (left ++ d))
          = trimSpace (a ++ (left ++ ((w ++ left) ++ d))) := by simp only [List.append_assoc]
        _ = trimSpace left := by rw [trimSpace_blank_append ha, trimSpace_append_blank (hw.append hd)]
        _ = trimSpace (left ++ d) := (trimSpace_append_blank hd left).symm

/-! ## Words -/

theorem fieldsAux_noSpace {l : List Segment} (hl : ∀ r ∈ l, isSpace r.rune = false) (k : List Segment) (cur : GoString) :
    fieldsAux (l ++ k) cur = fieldsAux k (cur ++ joinSegments l) := by
  induction l generalizing cur with
  | nil =>
    rw [List.nil_append]
    exact congrArg (fieldsAux k) (List.append_nil cur).symm
  | cons r rs ih =>
    obtain ⟨hr, hrs⟩ := List.forall_mem_cons.1 hl
    rw [List.cons_append, fieldsAux, hr, if_neg Bool.false_ne_true, ih hrs, joinSegments_cons, List.append_assoc]

/-- The words of a text: those in front of a space, and those behind it. -/
theorem fields_append_space {w : GoString} (hw : NoSpace w) (t : GoString) :
    fields (w ++ 0x20 :: t) = (if w = [] then [] else [w]) ++ fields t := by
  have hspace : (0x20 : UInt8).toNat < 0x80 := by decide
  unfold fields
  rw [segments_starts (starts_ascii hspace t), segments_cons hspace, fieldsAux_noSpace hw, List.nil_append,
    joinSegments_segments, fieldsAux, if_pos (by decide)]
  split_ifs <;> rfl

theorem fields_noSpace {w : GoString} (hw : NoSpace w) : fields w = if w = [] then [] else [w] := by
  have h := fieldsAux_noSpace hw [] []
  rw [List.append_nil, List.nil_append, joinSegments_segments] at h
  exact h

theorem noSpace_ascii {s : GoString} (h : ∀ b ∈ s, b.toNat < 0x80 ∧ isSpace b.toNat = false) : NoSpace s := by
  induction s with
  | nil => exact fun _ hr => absurd hr List.not_mem_nil
  | cons b s ih =>
    obtain ⟨hb, hs⟩ := List.forall_mem_cons.1 h
    unfold NoSpace
    rw [segments_cons hb.1]
    exact List.forall_mem_cons.2 ⟨hb.2, ih hs⟩

/-- No byte of such a text is a space. -/
theorem NoSpace.notMem {s : GoString} (h : NoSpace s) : 0x20 ∉ s := by
  intro hmem
  obtain ⟨a, b, rfl⟩ := List.append_of_mem hmem
  have hspace : (0x20 : UInt8).toNat < 0x80 := by decide
  unfold NoSpace at h
  rw [segments_starts (starts_ascii hspace b), segments_cons hspace] at h
  have hsp := h ⟨_, [0x20]⟩ (List.mem_append_right _ (List.mem_cons_self ..))
  exact absurd (show isSpace 0x20 = false from hsp) (by decide)

theorem NoSpace.noEdgeSpace {s : GoString} (h : NoSpace s) : NoEdgeSpace s :=
  ⟨fun r hr => h r (List.mem_of_mem_head? hr), fun r hr => h r (List.mem_of_mem_getLast? hr)⟩

theorem splitByte_sep (sep : UInt8) (s : GoString) : splitByte sep (sep :: s) = [] :: splitByte sep s := if_pos rfl

/-- The parts on both sides of a separator. -/
theorem splitByte_concat (sep : UInt8) (s t : GoString) :
    splitByte sep (s ++ sep :: t) = splitByte sep s ++ splitByte sep t := by
  induction s with
  | nil => exact splitByte_sep sep t
  | cons c s ih =>
    rw [List.cons_append]
    by_cases hc : c = sep
    · rw [hc, splitByte_sep, splitByte_sep, ih, List.cons_append]
    · obtain ⟨p, ps, hs⟩ := List.exists_cons_of_ne_nil (splitByte_ne_nil sep s)
      rw [hs, List.cons_append] at ih
      rw [splitByte_cons_ne hc ih, splitByte_cons_ne hc hs, List.cons_append]

/-- A word between two separators stands among the parts, neither first nor last. -/
theorem splitByte_of_infix {sep : UInt8} {w s : GoString} (hw : sep ∉ w) (h : sep :: (w ++ [sep]) <:+: s) :
    ∃ p ps q qs, splitByte sep s = (p :: ps) ++ w :: q :: qs := by
  obtain ⟨a, b, rfl⟩ := h
  obtain ⟨p, ps, ha⟩ := List.exists_cons_of_ne_nil (splitByte_ne_nil sep a)
  obtain ⟨q, qs, hb⟩ := List.exists_cons_of_ne_nil (splitByte_ne_nil sep b)
  refine ⟨p, ps, q, qs, ?_⟩
  rw [List.append_assoc, List.cons_append, List.append_assoc, splitByte_concat, List.singleton_append,
    splitByte_append hw, ha, hb]

theorem splitN_found {sep s t : GoString} (h : index sep (s ++ sep ++ t) = some s.length) (n : Nat) :
    splitN sep (n + 2) (s ++ sep ++ t) = s :: splitN sep (n + 1) t := by
  have hdrop : (s ++ sep ++ t).drop (s.length + sep.length) = t := by
    rw [List.append_assoc, ← List.drop_drop, List.drop_left, List.drop_left]
  have htake : (s ++ sep ++ t).take s.length = s := by
    rw [List.append_assoc, List.take_left]
  conv_lhs => unfold splitN
  rw [h]
  dsimp only
  rw [htake, hdrop]

theorem splitN_none {sep s : GoString} (h : index sep s = none) (n : Nat) : splitN sep (n + 1) s = [s] := by
  cases n with
  | zero => rfl
  | succ n =>
    unfold splitN
    rw [h]

/-! ## Code points that have an encoding -/

/-- Neither a surrogate nor too large. -/
def Scalar (r : Nat) : Prop := r < 0xD800 ∨ 0xDFFF < r ∧ r < 0x110000

theorem Encodes.scalar {r : Nat} {bytes : GoString} (h : Encodes r bytes) : Scalar r := by
  unfold Scalar
  cases h with
  | one h0 => omega
  | two h0 h1 =>
    have hb1 := contByte_bounds h1
    rw [payload_eq hb1]
    omega
  | three h0 h1 h2 =>
    have hb1 := second3_bounds h1
    have hb2 := contByte_bounds h2
    rw [payload_eq ⟨hb1.1, hb1.2.1⟩, payload_eq hb2]
    omega
  | four h0 h1 h2 h3 =>
    have hb1 := second4_bounds h1
    have hb2 := contByte_bounds h2
    have hb3 := contByte_bounds h3
    rw [payload_eq ⟨hb1.1, hb1.2.1⟩, payload_eq hb2, payload_eq hb3]
    omega

theorem toNat_ofNat_small {n : Nat} (h : n < 256) : (UInt8.ofNat n).toNat = n := by
  rw [UInt8.toNat_ofNat']
  exact Nat.mod_eq_of_lt h

theorem contByte_ofNat {lo hi n : Nat} (h : lo ≤ n ∧ n ≤ hi) (hn : n < 256) :
    contByte lo hi (UInt8.ofNat n) = true := by
  unfold contByte
  rw [toNat_ofNat_small hn]
  simpa using h

theorem Scalar.encodes {r : Nat} (h : Scalar r) : Encodes r (encodeRune r) := by
  unfold Scalar at h
  unfold encodeRune
  split_ifs with h1 h2 h3
  · have henc := @Encodes.one (UInt8.ofNat r) (by rw [toNat_ofNat_small (by omega)]; exact h1)
    rwa [toNat_ofNat_small (by omega)] at henc
  · have h0 : (UInt8.ofNat (0xC0 + r / 64)).toNat = 0xC0 + r / 64 := toNat_ofNat_small (by omega)
    have hc : (UInt8.ofNat (0x80 + r % 64)).toNat = 0x80 + r % 64 := toNat_ofNat_small (by omega)
    have henc := @Encodes.two (UInt8.ofNat (0xC0 + r / 64)) (UInt8.ofNat (0x80 + r % 64)) (by omega)
      (contByte_ofNat (by omega) (by omega))
    have hr : ((UInt8.ofNat (0xC0 + r / 64)).toNat - 0xC0) * 64 + payload (UInt8.ofNat (0x80 + r % 64)) = r := by
      unfold payload
      omega
    rwa [hr] at henc
  · have h0 : (UInt8.ofNat (0xE0 + r / 4096)).toNat = 0xE0 + r / 4096 := toNat_ofNat_small (by omega)
    have hb1 : (UInt8.ofNat (0x80 + r / 64 % 64)).toNat = 0x80 + r / 64 % 64 := toNat_ofNat_small (by omega)
    have hb2 : (UInt8.ofNat (0x80 + r % 64)).toNat = 0x80 + r % 64 := toNat_ofNat_small (by omega)
    have hsecond : second3 (UInt8.ofNat (0xE0 + r / 4096)) (UInt8.ofNat (0x80 + r / 64 % 64)) = true := by
      unfold second3
      refine contByte_ofNat ?_ (by omega)
      rw [h0]
      simp only [beq_iff_eq]
      split_ifs <;> omega
    have henc := Encodes.three (by omega) hsecond (contByte_ofNat (n := 0x80 + r % 64) (by omega) (by omega))
    have hr : ((UInt8.ofNat (0xE0 + r / 4096)).toNat - 0xE0) * 4096 + payload (UInt8.ofNat (0x80 + r / 64 % 64)) * 64 +
        payload (UInt8.ofNat (0x80 + r % 64)) = r := by
      unfold payload
      omega
    rwa [hr] at henc
  · have h0 : (UInt8.ofNat (0xF0 + r / 262144)).toNat = 0xF0 + r / 262144 := toNat_ofNat_small (by omega)
    have hb1 : (UInt8.ofNat (0x80 + r / 4096 % 64)).toNat = 0x80 + r / 4096 % 64 := toNat_ofNat_small (by omega)
    have hb2 : (UInt8.ofNat (0x80 + r / 64 % 64)).toNat = 0x80 + r / 64 % 64 := toNat_ofNat_small (by omega)
    have hb3 : (UInt8.ofNat (0x80 + r % 64)).toNat = 0x80 + r % 64 := toNat_ofNat_small (by omega)
    have hsecond : second4 (UInt8.ofNat (0xF0 + r / 262144)) (UInt8.ofNat (0x80 + r / 4096 % 64)) = true := by
      unfold second4
      refine contByte_ofNat ?_ (by omega)
      rw [h0]
      simp only [beq_iff_eq]
      split_ifs <;> omega
    have henc := Encodes.four (by omega) hsecond (contByte_ofNat (n := 0x80 + r / 64 % 64) (by omega) (by omega))
      (contByte_ofNat (n := 0x80 + r % 64) (by omega) (by omega))
    have hr : ((UInt8.ofNat (0xF0 + r / 262144)).toNat - 0xF0) * 262144 +
        payload (UInt8.ofNat (0x80 + r / 4096 % 64)) * 4096 + payload (UInt8.ofNat (0x80 + r / 64 % 64)) * 64 +
        payload (UInt8.ofNat (0x80 + r % 64)) = r := by
      unfold payload
      omega
    rwa [hr] at henc

/-- The lower-case forms of a run have encodings too. -/
def CaseRange.Sound (c : CaseRange) : Prop :=
  0 ≤ c.lo + c.delta ∧ (c.hi + c.delta < 0xD800 ∨ 0xDFFF < c.lo + c.delta ∧ c.hi + c.delta < 0x110000)

instance (c : CaseRange) : Decidable c.Sound := by unfold CaseRange.Sound; infer_instance

theorem lowerRanges_sound : ∀ c ∈ lowerRanges, c.Sound := forall_of_all (by decide)

theorem Scalar.toLowerRune {r : Nat} (h : Scalar r) : Scalar (toLowerRune r) := by
  unfold Go.toLowerRune
  split_ifs with h1 h2
  · unfold Scalar
    obtain ⟨-, hhi⟩ := (Bool.and_eq_true _ _).mp h2
    omega
  · exact h
  · cases hfind : lowerRanges.find? (·.covers r) with
    | none => exact h
    | some c =>
      have hcovers := List.find?_some hfind
      obtain ⟨hlo, hdelta⟩ := lowerRanges_sound c (List.mem_of_find?_eq_some hfind)
      unfold CaseRange.covers at hcovers
      simp only [Bool.and_eq_true, decide_eq_true_eq] at hcovers
      unfold Scalar
      dsimp only
      omega

theorem scalar_segments {s : GoString} : ∀ r ∈ segments s, Scalar r.rune := by
  induction s using rune_induction with
  | nil => exact fun _ hr => absurd hr List.not_mem_nil
  | valid r bytes t h ih =>
    rw [segments_append h]
    exact List.forall_mem_cons.2 ⟨h.scalar, ih⟩
  | invalid b0 s _ h ih =>
    rw [segments_invalid h]
    have herror : Scalar runeError := by
      unfold Scalar
      decide
    exact List.forall_mem_cons.2 ⟨herror, ih⟩

/-! ## A word in a text of such code points -/

theorem starts_flatMap {l : List Nat} (hl : ∀ r ∈ l, Scalar r) : Starts (l.flatMap encodeRune) := by
  rcases l with _ | ⟨r, l⟩
  · exact fun b hb => absurd hb nofun
  · rw [List.flatMap_cons]
    exact (hl r (List.mem_cons_self ..)).encodes.starts _

theorem flatMap_encode_eq_nil {l : List Nat} : l.flatMap encodeRune = [] ↔ l = [] := by
  cases l with
  | nil => exact iff_of_true rfl rfl
  | cons r l =>
    rw [List.flatMap_cons]
    exact iff_of_false (fun h => encodeRune_ne_nil r (List.append_eq_nil_iff.1 h).1) (List.cons_ne_nil r l)

theorem prefix_flatMap_iff {w l : List Nat} (hw : ∀ r ∈ w, Scalar r) (hl : ∀ r ∈ l, Scalar r) :
    w.flatMap encodeRune <+: l.flatMap encodeRune ↔ w <+: l := by
  induction w generalizing l with
  | nil => exact iff_of_true List.nil_prefix List.nil_prefix
  | cons x w ih =>
    obtain ⟨hx, hw'⟩ := List.forall_mem_cons.1 hw
    rcases l with _ | ⟨r, l⟩
    · refine iff_of_false (fun h => ?_) (fun h => List.cons_ne_nil _ _ (List.prefix_nil.1 h))
      exact List.cons_ne_nil x w (flatMap_encode_eq_nil.1 (List.prefix_nil.1 h))
    · obtain ⟨hr, hl'⟩ := List.forall_mem_cons.1 hl
      rw [List.flatMap_cons, List.flatMap_cons]
      constructor
      · rintro ⟨t, ht⟩
        rw [List.append_assoc] at ht
        -- both texts start with the same code point
        have hdecode := congrArg decodeRune ht
        rw [hx.encodes.decode, hr.encodes.decode] at hdecode
        obtain rfl := (Prod.mk.inj hdecode).1
        have hrest := List.append_cancel_left ht
        exact List.cons_prefix_cons.2 ⟨rfl, (ih hw' hl').1 ⟨t, hrest⟩⟩
      · intro h
        obtain ⟨rfl, htail⟩ := List.cons_prefix_cons.1 h
        exact (List.prefix_append_right_inj _).2 ((ih hw' hl').2 htail)

/-- A word is not found inside a character. -/
theorem index_inside {sub conts : GoString} (hsub : sub ≠ []) (hstart : Starts sub)
    (hconts : ∀ b ∈ conts, runeStart b = false) (t : GoString) :
    index sub (conts ++ t) = (index sub t).map (· + conts.length) := by
  induction conts with
  | nil => exact (Option.map_id' (x := index sub t)).symm
  | cons b conts ih =>
    obtain ⟨hb, hconts⟩ := List.forall_mem_cons.1 hconts
    have hno : sub.isPrefixOf (b :: (conts ++ t)) = false := by
      obtain ⟨c, sub', rfl⟩ := List.exists_cons_of_ne_nil hsub
      refine Bool.eq_false_iff.2 fun h => ?_
      obtain ⟨rfl, -⟩ := List.cons_prefix_cons.1 (List.isPrefixOf_iff_prefix.1 h)
      have hc := hstart c rfl
      rw [hb] at hc
      cases hc
    rw [List.cons_append, index, hno, if_neg Bool.false_ne_true, ih hconts, Option.map_map]
    congr 1

end Gafam.Go
