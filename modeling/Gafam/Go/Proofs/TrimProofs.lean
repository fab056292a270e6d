import Gafam.Go.Net
import Gafam.Go.Proofs.MarshalProofs
import Gafam.Go.Proofs.NetProofs
import Gafam.Go.Proofs.TextProofs

/-!
# Trimmed strings, and strings that are cut at a byte

What `strings.TrimSpace` returns starts and ends with no white space, so trimming it again changes nothing.
The parts of `strings.Split` hold no separator, and the parts of texts without one are these texts.
-/

namespace Gafam.Go

/-! ## Parts of a list of runes -/

theorem joinSegments_append (l k : List Segment) :
    joinSegments (l ++ k) = joinSegments l ++ joinSegments k := by
  unfold joinSegments
  exact List.flatMap_append

theorem joinSegments_segments (s : GoString) : joinSegments (segments s) = s := by
  induction s using rune_induction with
  | nil => rfl
  | valid r bytes t h ih =>
    rw [segments_append h]
    exact congrArg (bytes ++ ·) ih
  | invalid b0 s _ h ih =>
    rw [segments_invalid h]
    exact congrArg (b0 :: ·) ih

/-- A byte that starts no encoding in a string starts none in the beginning of that string. -/
theorem decodeRune_start {b0 : UInt8} {a b : GoString} (h : decodeRune (b0 :: (a ++ b)) = (runeError, 1)) :
    decodeRune (b0 :: a) = (runeError, 1) := by
  rcases decodeRune_cases b0 a with ⟨r, bytes, t, henc, heq⟩ | ⟨_, hdecode⟩
  · have hwhole : b0 :: (a ++ b) = bytes ++ (t ++ b) := by
      rw [← List.cons_append, heq, List.append_assoc]
    rw [hwhole] at h
    exact absurd h (henc.decode_ne _)
  · exact hdecode

/-- The first runes of a string are the runes of its beginning, the others those of its end. -/
theorem segments_split {s : GoString} {l k : List Segment} (h : segments s = l ++ k) :
    segments (joinSegments l) = l ∧ segments (joinSegments k) = k := by
  induction s using rune_induction generalizing l with
  | nil =>
    obtain ⟨rfl, rfl⟩ := List.append_eq_nil_iff.1 h.symm
    exact ⟨rfl, rfl⟩
  | valid r bytes t henc ih =>
    cases l with
    | nil =>
      rw [List.nil_append] at h
      rw [← h, joinSegments_segments]
      exact ⟨rfl, rfl⟩
    | cons x l =>
      rw [segments_append henc, List.cons_append, List.cons.injEq] at h
      obtain ⟨rfl, h⟩ := h
      refine ⟨?_, (ih h).2⟩
      rw [show joinSegments (⟨r, bytes⟩ :: l) = bytes ++ joinSegments l from rfl, segments_append henc,
        (ih h).1]
  | invalid b0 s _ hdecode ih =>
    cases l with
    | nil =>
      rw [List.nil_append] at h
      rw [← h, joinSegments_segments]
      exact ⟨rfl, rfl⟩
    | cons x l =>
      rw [segments_invalid hdecode, List.cons_append, List.cons.injEq] at h
      obtain ⟨rfl, h⟩ := h
      have hs : joinSegments l ++ joinSegments k = s := by
        rw [← joinSegments_append, ← h, joinSegments_segments]
      refine ⟨?_, (ih h).2⟩
      rw [← hs] at hdecode
      rw [show joinSegments (⟨runeError, [b0]⟩ :: l) = b0 :: joinSegments l from rfl,
        segments_invalid (decodeRune_start hdecode), (ih h).1]

/-- The runes of a valid string stay together. -/
theorem segments_concat {s : GoString} (hs : validString s = true) (t : GoString) :
    segments (s ++ t) = segments s ++ segments t := by
  induction s using rune_induction with
  | nil => rfl
  | valid r bytes s h ih =>
    rw [validString_append h] at hs
    rw [List.append_assoc, segments_append h, segments_append h, ih hs, List.cons_append]
  | invalid b0 s _ h ih =>
    rw [validString_invalid h] at hs
    cases hs

theorem segments_eq_nil {s : GoString} : segments s = [] ↔ s = [] := by
  refine ⟨fun h => ?_, fun h => h ▸ rfl⟩
  rw [← joinSegments_segments s, h]
  rfl

/-! ## Trimming -/

/-- White space does not stand at either end. -/
def NoEdgeSpace (s : GoString) : Prop :=
  (∀ r ∈ (segments s).head?, isSpace r.rune = false) ∧
    ∀ r ∈ (segments s).getLast?, isSpace r.rune = false

theorem dropWhile_of_head {α : Type} {p : α → Bool} {l : List α} (h : ∀ a ∈ l.head?, p a = false) :
    l.dropWhile p = l := by
  cases l with
  | nil => rfl
  | cons a l => rw [List.dropWhile_cons, h a rfl, if_neg Bool.false_ne_true]

theorem trimSpace_of_noEdgeSpace {s : GoString} (h : NoEdgeSpace s) : trimSpace s = s := by
  unfold trimSpace
  dsimp only
  rw [dropWhile_of_head h.1, dropWhile_of_head (by rw [List.head?_reverse]; exact h.2), List.reverse_reverse,
    joinSegments_segments]

/-- The runes that are left after trimming, with what goes in front of them and behind. -/
theorem segments_trimSpace (s : GoString) :
    ∃ front back, segments s = front ++ segments (trimSpace s) ++ back ∧ NoEdgeSpace (trimSpace s) := by
  let space : Segment → Bool := fun r => isSpace r.rune
  let rest := (segments s).dropWhile space
  let kept := (rest.reverse.dropWhile space).reverse
  have hfront : segments s = (segments s).takeWhile space ++ rest := List.takeWhile_append_dropWhile.symm
  have hback : rest = kept ++ (rest.reverse.takeWhile space).reverse := by
    rw [← List.reverse_append, List.takeWhile_append_dropWhile, List.reverse_reverse]
  have hkept : segments (trimSpace s) = kept :=
    (segments_split (s := joinSegments rest) (by rw [(segments_split hfront).2]; exact hback)).1
  refine ⟨(segments s).takeWhile space, (rest.reverse.takeWhile space).reverse, ?_, ?_, ?_⟩
  · rw [hkept, List.append_assoc, ← hback]
    exact hfront
  · rw [hkept]
    intro r hr
    have hne : kept ≠ [] := fun h => by rw [h] at hr; cases hr
    -- The first rune that is kept is the first one that the scan from the front stopped at.
    have hhead : rest.head? = some r := by
      rw [hback, List.head?_append_of_ne_nil _ hne]
      exact hr
    have := List.head?_dropWhile_not space (segments s)
    rw [show (segments s).dropWhile space = rest from rfl, hhead] at this
    simpa [space] using this
  · rw [hkept]
    intro r hr
    rw [List.getLast?_reverse] at hr
    have := List.head?_dropWhile_not space rest.reverse
    rw [hr] at this
    simpa [space] using this

theorem noEdgeSpace_trimSpace (s : GoString) : NoEdgeSpace (trimSpace s) :=
  (segments_trimSpace s).elim fun _ h => h.elim fun _ h => h.2

theorem trimSpace_eq_self_iff {s : GoString} : trimSpace s = s ↔ NoEdgeSpace s :=
  ⟨fun h => h ▸ noEdgeSpace_trimSpace s, trimSpace_of_noEdgeSpace⟩

/-- Trimming takes bytes away and adds none. -/
theorem mem_of_mem_trimSpace {s : GoString} {b : UInt8} (h : b ∈ trimSpace s) : b ∈ s := by
  obtain ⟨front, back, hs, -⟩ := segments_trimSpace s
  rw [← joinSegments_segments s, hs, joinSegments_append, joinSegments_append, joinSegments_segments]
  exact List.mem_append_left _ (List.mem_append_right _ h)

/-- A space in front of a string goes away. -/
theorem trimSpace_space (s : GoString) : trimSpace (0x20 :: s) = trimSpace s := by
  unfold trimSpace
  rw [segments_cons (by decide)]
  rfl

/-- Between a text without white space in front and one without white space behind, there may be anything. -/
theorem noEdgeSpace_append {s m t : GoString} (hs : NoEdgeSpace s) (hsne : s ≠ []) (hsv : validString s = true)
    (hmv : validString m = true) (ht : NoEdgeSpace t) (htne : t ≠ []) : NoEdgeSpace (s ++ (m ++ t)) := by
  unfold NoEdgeSpace
  rw [segments_concat hsv, segments_concat hmv, List.head?_append_of_ne_nil _ (segments_eq_nil.not.2 hsne),
    ← List.append_assoc, List.getLast?_append_of_ne_nil _ (segments_eq_nil.not.2 htne)]
  exact ⟨hs.1, ht.2⟩

/-! ## Replaced bytes -/

theorem encodes_runeError : Encodes runeError (encodeRune runeError) :=
  @Encodes.three 0xEF 0xBF 0xBD (by decide) (by decide) (by decide)

theorem validString_reencode (s : GoString) : validString (reencode s) = true := by
  induction s using rune_induction with
  | nil => rfl
  | valid r bytes t h ih => rw [reencode_append h, validString_append h, ih]
  | invalid b0 s _ h ih => rw [reencode_invalid h, validString_append encodes_runeError, ih]

/-- The runes stay what they are. -/
theorem runes_reencode (s : GoString) :
    (segments (reencode s)).map Segment.rune = (segments s).map Segment.rune := by
  induction s using rune_induction with
  | nil => rfl
  | valid r bytes t h ih =>
    rw [reencode_append h, segments_append h, segments_append h, List.map_cons, List.map_cons, ih]
  | invalid b0 s _ h ih =>
    rw [reencode_invalid h, segments_append encodes_runeError, segments_invalid h, List.map_cons, List.map_cons,
      ih]

theorem noEdgeSpace_iff {s : GoString} : NoEdgeSpace s ↔
    (∀ r ∈ ((segments s).map Segment.rune).head?, isSpace r = false) ∧
      ∀ r ∈ ((segments s).map Segment.rune).getLast?, isSpace r = false := by
  unfold NoEdgeSpace
  simp

theorem noEdgeSpace_reencode {s : GoString} (h : NoEdgeSpace s) : NoEdgeSpace (reencode s) := by
  rw [noEdgeSpace_iff, runes_reencode]
  exact noEdgeSpace_iff.1 h

theorem reencode_ne_nil {s : GoString} (h : s ≠ []) : reencode s ≠ [] := by
  intro hr
  have hlen := (length_reencode s).1
  rw [hr] at hlen
  exact h (List.length_eq_zero_iff.1 (Nat.le_zero.1 hlen))

/-- No ASCII character is added. -/
theorem mem_of_mem_reencode {s : GoString} {b : UInt8} (hb : b.toNat < 0x80) (h : b ∈ reencode s) : b ∈ s := by
  induction s using rune_induction with
  | nil => exact h
  | valid r bytes t henc ih =>
    rw [reencode_append henc] at h
    exact (List.mem_append.1 h).elim (List.mem_append_left _) fun h => List.mem_append_right _ (ih h)
  | invalid b0 s _ hdecode ih =>
    rw [reencode_invalid hdecode] at h
    refine List.mem_cons_of_mem _ (ih ((List.mem_append.1 h).resolve_left fun h => ?_))
    have hno : ∀ c ∈ encodeRune runeError, 0x80 ≤ c.toNat := forall_of_all (by decide)
    exact absurd (hno b h) (Nat.not_le.2 hb)

/-! ## Cut strings -/

theorem notMem_of_mem_splitByte {sep : UInt8} {s p : GoString} (h : p ∈ splitByte sep s) : sep ∉ p := by
  induction s generalizing p with
  | nil =>
    rw [List.mem_singleton.1 h]
    exact List.not_mem_nil
  | cons c s ih =>
    by_cases hc : c = sep
    · unfold splitByte at h
      rw [if_pos hc] at h
      rcases List.mem_cons.1 h with rfl | h
      · exact List.not_mem_nil
      · exact ih h
    · obtain ⟨q, ps, hs⟩ := List.exists_cons_of_ne_nil (splitByte_ne_nil sep s)
      rw [splitByte_cons_ne hc hs] at h
      rw [hs] at ih
      rcases List.mem_cons.1 h with rfl | h
      · exact List.not_mem_cons_of_ne_of_not_mem (Ne.symm hc) (ih (List.mem_cons_self ..))
      · exact ih (List.mem_cons_of_mem _ h)

theorem splitByte_of_notMem {sep : UInt8} {s : GoString} (h : sep ∉ s) : splitByte sep s = [s] := by
  induction s with
  | nil => rfl
  | cons c s ih =>
    obtain ⟨hc, hs⟩ := not_or.1 (List.mem_cons.not.1 h)
    exact splitByte_cons_ne (Ne.symm hc) (ih hs)

theorem splitByte_append {sep : UInt8} {s : GoString} (h : sep ∉ s) (t : GoString) :
    splitByte sep (s ++ sep :: t) = s :: splitByte sep t := by
  induction s with
  | nil =>
    rw [List.nil_append]
    conv_lhs => unfold splitByte
    rw [if_pos rfl]
  | cons c s ih =>
    obtain ⟨hc, hs⟩ := not_or.1 (List.mem_cons.not.1 h)
    exact splitByte_cons_ne (Ne.symm hc) (ih hs)

/-- A string with one part only holds no separator. -/
theorem notMem_of_length_splitByte {sep : UInt8} {s : GoString} (h : (splitByte sep s).length = 1) : sep ∉ s := by
  induction s with
  | nil => exact List.not_mem_nil
  | cons c s ih =>
    obtain ⟨q, ps, hs⟩ := List.exists_cons_of_ne_nil (splitByte_ne_nil sep s)
    by_cases hc : c = sep
    · unfold splitByte at h
      rw [if_pos hc, hs] at h
      simp at h
    · rw [splitByte_cons_ne hc hs] at h
      rw [hs] at ih
      exact List.not_mem_cons_of_ne_of_not_mem (Ne.symm hc) (ih h)

theorem mem_of_mem_part {sep b : UInt8} {s p : GoString} (hp : p ∈ splitByte sep s) (hb : b ∈ p) : b ∈ s := by
  induction s generalizing p with
  | nil => exact List.mem_singleton.1 hp ▸ hb
  | cons c s ih =>
    obtain ⟨q, ps, hs⟩ := List.exists_cons_of_ne_nil (splitByte_ne_nil sep s)
    by_cases hc : c = sep
    · unfold splitByte at hp
      rw [if_pos hc] at hp
      rcases List.mem_cons.1 hp with rfl | hp
      · cases hb
      · exact List.mem_cons_of_mem _ (ih hp hb)
    · rw [splitByte_cons_ne hc hs] at hp
      rw [hs] at ih
      rcases List.mem_cons.1 hp with rfl | hp
      · rcases List.mem_cons.1 hb with rfl | hb
        · exact List.mem_cons_self ..
        · exact List.mem_cons_of_mem _ (ih (List.mem_cons_self ..) hb)
      · exact List.mem_cons_of_mem _ (ih (List.mem_cons_of_mem _ hp) hb)

/-- `strings.Contains` for one byte. -/
theorem contains_byte {c : UInt8} {s : GoString} : contains s [c] = true ↔ c ∈ s := by
  unfold contains
  induction s with
  | nil => simp [index]
  | cons d s ih =>
    unfold index
    rw [List.isPrefixOf_cons_cons, List.isPrefixOf_nil_left, Bool.and_true, List.mem_cons]
    by_cases hd : c = d
    · simp [hd]
    · rw [beq_false_of_ne hd, if_neg Bool.false_ne_true, Option.isSome_map, ih]
      exact (or_iff_right hd).symm

end Gafam.Go
