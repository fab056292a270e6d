import Gafam.Frontend.Proofs.InjectProofs
import Gafam.Frontend.Proofs.PageReadsProofs
import Gafam.Frontend.Proofs.TunnelProofs

/-!
# When a page comes out as it is

Characters that are damaged show in the page that comes out, unless all of them are in the tag that is taken out of it.
What is put into a page does not hide them: the characters of ASCII are the same in what is read and in the page, so the
same text before and behind the injection is made of the same characters.
-/

namespace Gafam.Frontend

open Gafam.Go Gafam.Js Gafam.Lib Gafam.Lib.Regex

/-! ## Measures -/

/-- If each part is at most as large and the whole as large, then each part is as large. -/
theorem measure_flatMap {α β : Type} {f g : α → List β} {m : List β → Nat} (hm : ∀ a b, m (a ++ b) = m a + m b)
    {l : List α} (hle : ∀ c ∈ l, m (f c) ≤ m (g c)) :
    m (l.flatMap f) ≤ m (l.flatMap g) ∧
      (m (l.flatMap g) ≤ m (l.flatMap f) → ∀ c ∈ l, m (f c) = m (g c)) := by
  induction l with
  | nil => exact ⟨Nat.le_refl _, fun _ c hc => absurd hc List.not_mem_nil⟩
  | cons c l ih =>
    obtain ⟨hc, hl⟩ := List.forall_mem_cons.1 hle
    obtain ⟨hsum, heq⟩ := ih hl
    simp only [List.flatMap_cons, hm]
    refine ⟨Nat.add_le_add hc hsum, fun h => List.forall_mem_cons.2 ⟨by omega, heq (by omega)⟩⟩

theorem utf16_ne_nil (r : Nat) : utf16 r ≠ [] := by
  unfold utf16
  split_ifs <;> exact List.cons_ne_nil _ _

theorem utf16_runeError : utf16 runeError = [0xFFFD] := rfl

/-- A code unit that is no surrogate is a character of its own. -/
theorem utf16_head {r : Nat} {u : UInt16} {rest : JsString} (h : utf16 r = u :: rest)
    (hu : ¬(0xD800 ≤ u.toNat ∧ u.toNat < 0xDC00)) (hr : r < 0x110000) : utf16 r = [u] := by
  unfold utf16 at h ⊢
  split_ifs at h ⊢ with hsmall
  · obtain ⟨rfl, rfl⟩ := List.cons.inj h
    rfl
  · obtain ⟨rfl, -⟩ := List.cons.inj h
    rw [UInt16.toNat_ofNat_of_lt' (by omega : 0xD800 + (r - 0x10000) / 1024 < 65536)] at hu
    exact absurd (by omega) hu

theorem count_utf16_le (r : Nat) : (utf16 r).count 0xFFFD ≤ 1 := by
  unfold utf16
  split_ifs
  · exact List.count_le_length
  · have hlow : UInt16.ofNat (0xDC00 + (r - 0x10000) % 1024) ≠ 0xFFFD := by
      intro h
      have hnat := congrArg UInt16.toNat h
      rw [UInt16.toNat_ofNat_of_lt' (by omega : 0xDC00 + (r - 0x10000) % 1024 < 65536)] at hnat
      have hval : (0xFFFD : UInt16).toNat = 0xFFFD := rfl
      omega
    rw [List.count_cons, List.count_cons_of_ne hlow, List.count_nil]
    split_ifs <;> decide

/-! ## Characters -/

namespace Cell

variable {c : Cell}

def isAscii (c : Cell) : Bool := decide (c.char.rune < 0x80)

/-- A character of ASCII has one byte. -/
theorem Fits.cut_eq_false (h : c.Fits) (hc : c.isAscii = true) : c.cut = false := by
  have hr : c.char.rune < 0x80 := of_decide_eq_true hc
  have hbytes := h.encodes.encode
  rw [encodeRune, if_pos hr] at hbytes
  have hlen := h.marks_length
  rw [← hbytes, List.length_singleton] at hlen
  obtain ⟨m, hm⟩ := List.length_eq_one_iff.1 hlen
  rw [cut, hm]
  rfl

theorem points_of_uncut (h : c.cut = false) :
    c.points = if c.starts && c.char.rune == 0xFEFF then [] else [c.char.rune] := by
  rw [points, if_neg (Bool.eq_false_iff.1 h)]

theorem read_of_cut (h : c.cut = true) : ∃ n, c.read = List.replicate (n + 2) 0xFFFD := by
  have hne : c.marks.tail.dropWhile (! ·) ≠ [] := by
    intro hnil
    obtain ⟨m, hm, hid⟩ := List.any_eq_true.1 h
    have hno := List.dropWhile_eq_nil_iff.1 hnil m hm
    rw [show m = true from hid] at hno
    cases hno
  obtain ⟨n, hn⟩ := Nat.exists_eq_succ_of_ne_zero (Nat.ne_of_gt (List.length_pos_iff.2 hne))
  refine ⟨n, ?_⟩
  rw [read, points, if_pos h, hn, Nat.add_comm 1, List.flatMap_replicate, utf16_runeError, List.flatten_replicate_singleton]

theorem read_of_lost (h : c.lost = true) : c.read = [] ∧ c.whole = [0xFEFF] := by
  simp only [lost, Bool.and_eq_true, Bool.not_eq_true', beq_iff_eq] at h
  obtain ⟨hcut, hstarts, hfirst, hrune⟩ := h
  rw [read, points_of_uncut hcut, hstarts, whole, hfirst, hrune]
  exact ⟨rfl, rfl⟩

/-- A character that is not damaged is read as it is. -/
theorem Fits.read_eq (h : c.Fits) (hd : c.damaged = false) : c.read = c.whole := by
  obtain ⟨hcut, hlost⟩ := Bool.or_eq_false_iff.1 hd
  rw [read, points_of_uncut hcut, whole]
  by_cases hrune : (c.char.rune == 0xFEFF) = true
  · rw [lost, hcut, hrune, Bool.and_true, Bool.not_false, Bool.true_and] at hlost
    rw [hrune, Bool.and_true, Bool.and_true]
    cases hfirst : c.first with
    | true =>
      rw [h.starts_first hfirst]
      rfl
    | false =>
      rw [hfirst, Bool.not_false, Bool.and_true] at hlost
      rw [hlost]
      exact List.append_nil _
  · rw [Bool.eq_false_iff.2 hrune, Bool.and_false, Bool.and_false]
    exact List.append_nil _

/-- A character that nothing is read of. -/
theorem lost_of_read (hfirst : c.first = false) (hread : c.read = []) : c.lost = true := by
  by_cases hcut : c.cut = true
  · obtain ⟨n, hn⟩ := read_of_cut hcut
    rw [hread] at hn
    cases hn
  · have hno := Bool.eq_false_iff.2 hcut
    rw [read, points_of_uncut hno] at hread
    split_ifs at hread with hbom
    · obtain ⟨hstarts, hrune⟩ := Bool.and_eq_true_iff.1 hbom
      rw [lost, hno, hstarts, hfirst, hrune]
      rfl
    · rw [List.flatMap_cons] at hread
      exact absurd (List.append_eq_nil_iff.1 hread).1 (utf16_ne_nil _)

theorem whole_ne_nil (hfirst : c.first = false) : c.whole ≠ [] := by
  rw [whole, hfirst, Bool.false_and]
  exact utf16_ne_nil _

theorem count_whole_le (c : Cell) : c.whole.count 0xFFFD ≤ 1 := by
  unfold whole
  split_ifs
  · decide
  · exact count_utf16_le _

/-- Replacement characters are added, never taken away. -/
theorem Fits.count_le (h : c.Fits) : c.whole.count 0xFFFD ≤ c.read.count 0xFFFD := by
  by_cases hd : c.damaged = false
  · exact Nat.le_of_eq (congrArg _ (h.read_eq hd).symm)
  · rcases Bool.or_eq_true_iff.1 (Bool.not_eq_false _ ▸ hd) with hcut | hlost
    · obtain ⟨n, hn⟩ := read_of_cut hcut
      rw [hn, List.count_replicate_self]
      exact Nat.le_trans c.count_whole_le (by omega)
    · rw [(read_of_lost hlost).1, (read_of_lost hlost).2]
      decide

theorem Fits.cut_of_count (_ : c.Fits) (heq : c.whole.count 0xFFFD = c.read.count 0xFFFD) : c.cut = false := by
  by_contra hcut
  obtain ⟨n, hn⟩ := read_of_cut (Bool.not_eq_false _ ▸ hcut)
  have hle := c.count_whole_le
  rw [heq, hn, List.count_replicate_self] at hle
  omega

theorem Fits.length_le (h : c.Fits) (hcut : c.cut = false) : c.read.length ≤ c.whole.length := by
  by_cases hlost : c.lost = true
  · rw [(read_of_lost hlost).1]
    exact Nat.zero_le _
  · exact Nat.le_of_eq (congrArg _ (h.read_eq (Bool.or_eq_false_iff.2 ⟨hcut, Bool.eq_false_iff.2 hlost⟩)))

theorem lost_of_length (heq : c.read.length = c.whole.length) : c.lost = false := by
  by_contra hlost
  have h := read_of_lost (Bool.not_eq_false _ ▸ hlost)
  rw [h.1, h.2] at heq
  cases heq

end Cell

/-- Texts that are read as they are have no damaged character. -/
theorem undamaged_of_eq {l : List Cell} (hl : ∀ c ∈ l, c.Fits) (h : l.flatMap Cell.read = wholeText l) :
    ∀ c ∈ l, c.damaged = false := by
  have hcut : ∀ c ∈ l, c.cut = false := by
    have hcount := (measure_flatMap (m := List.count 0xFFFD) (fun _ _ => List.count_append)
      fun c hc => (hl c hc).count_le).2 (Nat.le_of_eq (congrArg _ h))
    exact fun c hc => (hl c hc).cut_of_count (hcount c hc)
  have hlength := (measure_flatMap (m := List.length) (fun _ _ => List.length_append)
    fun c hc => (hl c hc).length_le (hcut c hc)).2 (Nat.le_of_eq (congrArg _ h.symm))
  exact fun c hc => Bool.or_eq_false_iff.2 ⟨hcut c hc, Cell.lost_of_length (hlength c hc)⟩

theorem eq_of_undamaged {l : List Cell} (hl : ∀ c ∈ l, c.Fits) (h : ∀ c ∈ l, c.damaged = false) :
    l.flatMap Cell.read = wholeText l := List.flatMap_congr fun c hc => (hl c hc).read_eq (h c hc)

/-! ## The characters of ASCII -/

/-- An image of the characters in which those of ASCII stand as they are, and no others do. -/
def Image (f : Cell → JsString) : Prop :=
  ∀ c : Cell, c.Fits → (c.isAscii = true → f c = [UInt16.ofNat c.char.rune] ∧ isAsciiUnit (UInt16.ofNat c.char.rune) = true) ∧
    (c.isAscii = false → ∀ u ∈ f c, isAsciiUnit u = false)

theorem isAsciiUnit_ofNat {r : Nat} (hr : r < 0x80) : isAsciiUnit (UInt16.ofNat r) = true := by
  rw [isAsciiUnit_iff, UInt16.toNat_ofNat_of_lt' (Nat.lt_trans hr (by decide))]
  exact hr

theorem utf16_small {r : Nat} (hr : r < 0x80) : utf16 r = [UInt16.ofNat r] := if_pos (Nat.lt_trans hr (by decide))

theorem utf16_large {r : Nat} (hr : 0x80 ≤ r) (hlt : r < 0x110000) : ∀ u ∈ utf16 r, isAsciiUnit u = false :=
  fun u hu => Bool.eq_false_iff.2 fun h => utf16_wide ⟨hr, hlt⟩ u hu (of_decide_eq_true h)

theorem Cell.Fits.rune_lt {c : Cell} (h : c.Fits) : c.char.rune < 0x110000 := by
  have hscalar := h.encodes.scalar
  unfold Scalar at hscalar
  omega

theorem image_whole : Image Cell.whole := by
  intro c h
  constructor
  · intro hc
    have hr : c.char.rune < 0x80 := of_decide_eq_true hc
    have hne : (c.char.rune == 0xFEFF) = false := beq_false_of_ne (by omega)
    rw [Cell.whole, hne, Bool.and_false]
    exact ⟨utf16_small hr, isAsciiUnit_ofNat hr⟩
  · intro hc u hu
    have hr : 0x80 ≤ c.char.rune := Nat.le_of_not_lt (of_decide_eq_false hc)
    unfold Cell.whole at hu
    split_ifs at hu
    · exact absurd hu List.not_mem_nil
    · exact utf16_large hr h.rune_lt u hu

theorem image_read : Image Cell.read := by
  intro c h
  by_cases hd : c.damaged = false
  · rw [h.read_eq hd]
    exact image_whole c h
  · rcases Bool.or_eq_true_iff.1 (Bool.not_eq_false _ ▸ hd) with hcut | hlost
    · refine ⟨fun hc => ?_, fun _ u hu => ?_⟩
      · rw [h.cut_eq_false hc] at hcut
        cases hcut
      · obtain ⟨n, hn⟩ := Cell.read_of_cut hcut
        rw [hn] at hu
        rw [List.eq_of_mem_replicate hu]
        rfl
    · refine ⟨fun hc => ?_, fun _ u hu => ?_⟩
      · have hwhole := (image_whole c h).1 hc
        rw [(Cell.read_of_lost hlost).2] at hwhole
        have hwide := hwhole.2
        rw [← (List.cons.inj hwhole.1).1] at hwide
        exact absurd hwide (by decide)
      · rw [(Cell.read_of_lost hlost).1] at hu
        exact absurd hu List.not_mem_nil

theorem image_ascii {c : Cell} (h : c.Fits) (hc : c.isAscii = true) : c.read = c.whole :=
  ((image_read c h).1 hc).1.trans ((image_whole c h).1 hc).1.symm

section

variable {f : Cell → JsString} (hf : Image f)
include hf

theorem Image.countP {l : List Cell} (hl : ∀ c ∈ l, c.Fits) :
    (l.flatMap f).countP isAsciiUnit = l.countP Cell.isAscii := by
  induction l with
  | nil => rfl
  | cons c l ih =>
    obtain ⟨hc, hl⟩ := List.forall_mem_cons.1 hl
    rw [List.flatMap_cons, List.countP_append, ih hl]
    cases hascii : c.isAscii with
    | true =>
      obtain ⟨heq, hunit⟩ := (hf c hc).1 hascii
      rw [heq, List.countP_cons_of_pos hascii, List.countP_cons_of_pos hunit, List.countP_nil, Nat.add_comm]
    | false =>
      have hnone : (f c).countP isAsciiUnit = 0 :=
        List.countP_eq_zero.2 fun u hu => Bool.eq_false_iff.1 ((hf c hc).2 hascii u hu)
      rw [hnone, Nat.zero_add, List.countP_cons_of_neg (Bool.eq_false_iff.1 hascii)]

theorem Image.filter {l : List Cell} (hl : ∀ c ∈ l, c.Fits) :
    (l.flatMap f).filter isAsciiUnit = (l.filter Cell.isAscii).map fun c => UInt16.ofNat c.char.rune := by
  induction l with
  | nil => rfl
  | cons c l ih =>
    obtain ⟨hc, hl⟩ := List.forall_mem_cons.1 hl
    rw [List.flatMap_cons, List.filter_append, ih hl]
    cases hascii : c.isAscii with
    | true =>
      obtain ⟨heq, hunit⟩ := (hf c hc).1 hascii
      rw [heq, List.filter_cons_of_pos hunit, List.filter_cons_of_pos hascii]
      rfl
    | false =>
      have hnone : (f c).filter isAsciiUnit = [] :=
        List.filter_eq_nil_iff.2 fun u hu => Bool.eq_false_iff.1 ((hf c hc).2 hascii u hu)
      rw [hnone, List.filter_cons_of_neg (Bool.eq_false_iff.1 hascii), List.nil_append]

/-- A unit of ASCII is a character. -/
theorem Image.split {l : List Cell} (hl : ∀ c ∈ l, c.Fits) {p rest : JsString} {u : UInt16} (hu : isAsciiUnit u = true)
    (h : l.flatMap f = p ++ u :: rest) :
    ∃ x c y, l = x ++ c :: y ∧ c.isAscii = true ∧ f c = [u] ∧ x.flatMap f = p ∧ y.flatMap f = rest := by
  induction l generalizing p with
  | nil => exact absurd h.symm (List.append_ne_nil_of_right_ne_nil p (List.cons_ne_nil u rest))
  | cons c l ih =>
    obtain ⟨hc, hl⟩ := List.forall_mem_cons.1 hl
    rw [List.flatMap_cons] at h
    cases hascii : c.isAscii with
    | true =>
      have heq := ((hf c hc).1 hascii).1
      rw [heq, List.singleton_append] at h
      rcases p with _ | ⟨a, p⟩
      · obtain ⟨hau, hrest⟩ := List.cons.inj h
        exact ⟨[], c, l, rfl, hascii, by rw [heq, hau], rfl, hrest⟩
      · obtain ⟨hau, hrest⟩ := List.cons.inj h
        obtain ⟨x, k, y, rfl, hk, hfk, hx, hy⟩ := ih hl hrest
        exact ⟨c :: x, k, y, rfl, hk, hfk, by rw [List.flatMap_cons, heq, hau, hx]; rfl, hy⟩
    | false =>
      have hwide := (hf c hc).2 hascii
      rcases List.append_eq_append_iff.1 h with ⟨w, rfl, hw⟩ | ⟨w, hfc, hw⟩
      · obtain ⟨x, k, y, rfl, hk, hfk, hx, hy⟩ := ih hl hw
        exact ⟨c :: x, k, y, rfl, hk, hfk, by rw [List.flatMap_cons, hx], hy⟩
      · rcases w with _ | ⟨a, w⟩
        · obtain ⟨x, k, y, rfl, hk, hfk, hx, hy⟩ := ih (p := []) hl hw.symm
          refine ⟨c :: x, k, y, rfl, hk, hfk, ?_, hy⟩
          rw [List.flatMap_cons, hx, List.append_nil, hfc, List.append_nil]
        · obtain ⟨rfl, -⟩ := List.cons.inj hw
          have hno := hwide u (hfc ▸ List.mem_append_right p List.mem_cons_self)
          rw [hu] at hno
          cases hno

end

/-- Two images that are cut at the same character of ASCII. -/
theorem split_same {f g : Cell → JsString} (hf : Image f) (hg : Image g) {l : List Cell} (hl : ∀ c ∈ l, c.Fits)
    {p q a b : JsString} {u v : UInt16} (hu : isAsciiUnit u = true) (hv : isAsciiUnit v = true)
    (hA : l.flatMap f = p ++ u :: a) (hB : l.flatMap g = q ++ v :: b)
    (hcount : p.countP isAsciiUnit = q.countP isAsciiUnit) :
    ∃ x c y, l = x ++ c :: y ∧ f c = [u] ∧ g c = [v] ∧ x.flatMap f = p ∧ x.flatMap g = q ∧ y.flatMap f = a ∧
      y.flatMap g = b := by
  obtain ⟨x, c, y, rfl, hc, hfc, rfl, rfl⟩ := hf.split hl hu hA
  obtain ⟨x', c', y', hl', hc', hgc', rfl, rfl⟩ := hg.split hl hv hB
  have hfront {z : List Cell} {s : List Cell} (hs : x ++ c :: y = z ++ s) : ∀ k ∈ z, k.Fits :=
    fun k hk => hl k (hs ▸ List.mem_append_left s hk)
  rw [hf.countP (hfront rfl), hg.countP (hfront hl')] at hcount
  obtain ⟨rfl, hrest⟩ := prefix_unique hc hc' hl' hcount
  obtain ⟨rfl, rfl⟩ := List.cons.inj hrest
  exact ⟨x, c, y, rfl, hfc, hgc', rfl, rfl, rfl, rfl⟩

/-! ## Tags -/

/-- The first characters of a text that begins with ASCII. -/
theorem ascii_front {l : List Cell} (hl : ∀ c ∈ l, c.Fits) (hne : ∀ c ∈ l, c.whole ≠ []) {w rest : JsString}
    (hw : ∀ u ∈ w, isAsciiUnit u = true) (h : wholeText l = w ++ rest) :
    ∃ x y, l = x ++ y ∧ x.length = w.length ∧ x.flatMap Cell.read = w ∧ wholeText y = rest := by
  induction w generalizing l with
  | nil => exact ⟨[], l, rfl, rfl, rfl, h⟩
  | cons u w ih =>
    obtain ⟨hu, hw⟩ := List.forall_mem_cons.1 hw
    cases l with
    | nil => cases h
    | cons c l =>
      obtain ⟨hc, hl⟩ := List.forall_mem_cons.1 hl
      obtain ⟨hcne, hne⟩ := List.forall_mem_cons.1 hne
      rw [wholeText, List.flatMap_cons] at h
      cases hascii : c.isAscii with
      | true =>
        have hwhole := ((image_whole c hc).1 hascii).1
        have hread := ((image_read c hc).1 hascii).1
        rw [hwhole, List.singleton_append, List.cons_append] at h
        obtain ⟨hcu, hrest⟩ := List.cons.inj h
        obtain ⟨x, y, rfl, hlen, hx, hy⟩ := ih hl hne hw hrest
        exact ⟨c :: x, y, rfl, congrArg Nat.succ hlen, by rw [List.flatMap_cons, hread, hcu, hx]; rfl, hy⟩
      | false =>
        obtain ⟨v, s, hvs⟩ := List.exists_cons_of_ne_nil hcne
        rw [hvs, List.cons_append, List.cons_append] at h
        obtain ⟨rfl, -⟩ := List.cons.inj h
        have hno := (image_whole c hc).2 hascii v (hvs ▸ List.mem_cons_self)
        rw [hu] at hno
        cases hno

/-- What is read begins with what is read of the first character that is not lost. -/
theorem read_front {l : List Cell} (hfirst : ∀ c ∈ l, c.first = false) {u : UInt16} {rest : JsString}
    (h : l.flatMap Cell.read = u :: rest) :
    ∃ lost c y s, l = lost ++ c :: y ∧ (∀ k ∈ lost, k.lost = true) ∧ c.read = u :: s := by
  induction l with
  | nil => cases h
  | cons c l ih =>
    obtain ⟨hc, hfirst⟩ := List.forall_mem_cons.1 hfirst
    rw [List.flatMap_cons] at h
    rcases hread : c.read with _ | ⟨v, s⟩
    · rw [hread, List.nil_append] at h
      obtain ⟨lost, k, y, s, rfl, hlost, hk⟩ := ih hfirst h
      exact ⟨c :: lost, k, y, s, rfl, List.forall_mem_cons.2 ⟨Cell.lost_of_read hc hread, hlost⟩, hk⟩
    · rw [hread, List.cons_append] at h
      obtain ⟨rfl, -⟩ := List.cons.inj h
      exact ⟨[], c, l, s, rfl, fun k hk => absurd hk List.not_mem_nil, hread⟩

/-- A character of which white space is read. -/
theorem isBlank_of_read {c : Cell} (h : c.Fits) (hfirst : c.first = false) {u : UInt16} {s : JsString}
    (hread : c.read = u :: s) (hu : isTrimSpace u = true) : c.IsBlank := by
  have hcut : c.cut = false := by
    by_contra hcut
    obtain ⟨n, hn⟩ := Cell.read_of_cut (Bool.not_eq_false _ ▸ hcut)
    rw [hread] at hn
    obtain ⟨rfl, -⟩ := List.cons.inj hn
    exact absurd hu (by decide)
  have hlost : c.lost = false := by
    by_contra hlost
    rw [(Cell.read_of_lost (Bool.not_eq_false _ ▸ hlost)).1] at hread
    cases hread
  have hd : c.damaged = false := Bool.or_eq_false_iff.2 ⟨hcut, hlost⟩
  rw [h.read_eq hd, Cell.whole, hfirst, Bool.false_and] at hread
  have hsurrogate : ¬(0xD800 ≤ u.toNat ∧ u.toNat < 0xDC00) := by
    unfold isTrimSpace at hu
    simp only [Bool.or_eq_true, Bool.and_eq_true, decide_eq_true_eq, beq_iff_eq] at hu
    omega
  exact ⟨hd, u, utf16_head hread hsurrogate h.rune_lt, hu⟩

theorem read_of_isBlank {c : Cell} (h : c.Fits) (hfirst : c.first = false) (hc : c.IsBlank) :
    ∃ u, c.read = [u] ∧ isTrimSpace u = true := by
  obtain ⟨hd, u, hu, hspace⟩ := hc
  refine ⟨u, ?_, hspace⟩
  rw [h.read_eq hd, Cell.whole, hfirst, Bool.false_and]
  exact hu

theorem base_ascii {w : JsString} (hw : w.map foldCase = ascii "<base") :
    w.length = 5 ∧ ∀ u ∈ w, isAsciiUnit u = true := by
  constructor
  · rw [← List.length_map, hw]
    rfl
  · intro u hu
    have hmem : foldCase u ∈ ascii "<base" := hw ▸ List.mem_map_of_mem hu
    rw [← isAsciiUnit_fold]
    have hall : ∀ v ∈ ascii "<base", isAsciiUnit v = true := forall_of_all (by decide)
    exact hall _ hmem

/-- A tag of a page whose characters are `c`, `w` and `g`. -/
structure TagCells (c : Cell) (w : List Cell) (g : Cell) : Prop where
  fits : ∀ k ∈ c :: (w ++ [g]), k.Fits
  first : ∀ k ∈ w ++ [g], k.first = false
  opens : c.whole ≠ []
  closes : g.read = [0x3E]
  closes_whole : g.whole = [0x3E]
  tag : IsTag baseOpener 0x3E (wholeText (c :: (w ++ [g])))

/-- What stands in front of the last element, behind another one. -/
theorem last_behind {α : Type} {l front z : List α} {g k : α} (h : l ++ [g] = front ++ k :: z) (hne : g ≠ k) :
    ∃ z', z = z' ++ [g] ∧ l = front ++ k :: z' := by
  rcases List.eq_nil_or_concat z with rfl | ⟨z', g', rfl⟩
  · obtain ⟨-, hlast⟩ := List.append_inj' h rfl
    exact absurd (List.cons.inj hlast).1 hne
  · have hcut : l ++ [g] = (front ++ k :: z') ++ [g'] := by
      rw [h, List.concat_eq_append, List.append_assoc, List.cons_append]
    obtain ⟨hfront, hlast⟩ := List.append_inj' hcut rfl
    exact ⟨z', by rw [(List.cons.inj hlast).1, List.concat_eq_append], hfront⟩

/-- Units of ASCII are not made by damage. -/
theorem mem_whole_of_read {c : Cell} (h : c.Fits) {u : UInt16} (hu : isAsciiUnit u = true) (hmem : u ∈ c.read) :
    u ∈ c.whole := by
  cases hc : c.isAscii with
  | true => exact image_ascii h hc ▸ hmem
  | false =>
    have hno := (image_read c h).2 hc u hmem
    rw [hu] at hno
    cases hno

/-- It is a tag when it is read if and only if white space is read behind `<base`. -/
theorem TagCells.isTag_iff {c g : Cell} {w : List Cell} (h : TagCells c w g) :
    IsTag baseOpener 0x3E ((c :: (w ++ [g])).flatMap Cell.read) ↔ StaysTag (c :: (w ++ [g])) := by
  obtain ⟨m, hm, hclose⟩ := h.tag.closed baseOpener_closed
  obtain ⟨u, v, htag, hu, hv⟩ := h.tag
  obtain ⟨b, s, rfl, hb, hs⟩ := reads_baseOpener.1 hu
  obtain ⟨hlen, hascii⟩ := base_ascii hb
  have hne : ∀ k ∈ c :: (w ++ [g]), k.whole ≠ [] :=
    List.forall_mem_cons.2 ⟨h.opens, fun k hk => Cell.whole_ne_nil (h.first k hk)⟩
  rw [List.append_assoc] at htag
  obtain ⟨x, y, hxy, hx, hread, hy⟩ := ascii_front h.fits hne hascii htag
  have hdrop : (c :: (w ++ [g])).drop 5 = y := by rw [hxy, List.drop_left' (hx.trans hlen)]
  have hyfirst : ∀ k ∈ y, k.first = false := by
    intro k hk
    rw [← hdrop] at hk
    exact h.first k (List.mem_of_mem_drop (i := 4) hk)
  have hyfits : ∀ k ∈ y, k.Fits := fun k hk => h.fits k (hxy ▸ List.mem_append_right x hk)
  have hall : (c :: (w ++ [g])).flatMap Cell.read = b ++ y.flatMap Cell.read := by
    rw [hxy, List.flatMap_append, hread]
  rw [StaysTag, hall, hdrop]
  constructor
  · rintro ⟨u', v', heq, hu', -⟩
    obtain ⟨b', s', rfl, hb', hs'⟩ := reads_baseOpener.1 hu'
    rw [List.append_assoc] at heq
    obtain ⟨-, hrest⟩ := List.append_inj heq (hlen.trans (base_ascii hb').1.symm)
    obtain ⟨lost, k, z, r, rfl, hlost, hk⟩ := read_front hyfirst hrest
    have hmem : k ∈ lost ++ k :: z := List.mem_append_right lost List.mem_cons_self
    exact ⟨lost, k, z, rfl, hlost, isBlank_of_read (hyfits k hmem) (hyfirst k hmem) hk hs'⟩
  · rintro ⟨lost, k, z, rfl, hlost, hk⟩
    have hmem : k ∈ lost ++ k :: z := List.mem_append_right lost List.mem_cons_self
    obtain ⟨s', hs', hspace⟩ := read_of_isBlank (hyfits k hmem) (hyfirst k hmem) hk
    have hlostread : lost.flatMap Cell.read = [] :=
      List.flatMap_eq_nil_iff.2 fun k hk => (Cell.read_of_lost (hlost k hk)).1
    -- the white space is not the end of the tag
    have hkg : g ≠ k := by
      rintro rfl
      rw [h.closes] at hs'
      obtain ⟨rfl, -⟩ := List.cons.inj hs'
      exact absurd hspace (by decide)
    obtain ⟨z, rfl, hfront⟩ : ∃ z', z = z' ++ [g] ∧ c :: w = x ++ lost ++ k :: z' :=
      last_behind (by rw [List.cons_append, hxy, List.append_assoc]) hkg
    have hwhole : wholeText (c :: w) = m := by
      refine (List.append_left_inj [0x3E]).1 ?_
      rw [← hm, wholeText, wholeText, ← List.cons_append, List.flatMap_append, List.flatMap_singleton, h.closes_whole]
    have hnot : 0x3E ∉ z.flatMap Cell.read := by
      intro hmem'
      obtain ⟨e, he, hin⟩ := List.mem_flatMap.1 hmem'
      have hew : e ∈ c :: w := hfront ▸ List.mem_append_right _ (List.mem_cons_of_mem _ he)
      have hfit : e.Fits := h.fits e (by rw [← List.cons_append]; exact List.mem_append_left _ hew)
      exact hclose (hwhole ▸ List.mem_flatMap.2 ⟨e, hew, mem_whole_of_read hfit rfl hin⟩)
    refine ⟨b ++ [s'], z.flatMap Cell.read, ?_, reads_baseOpener.2 ⟨b, s', rfl, hb, hspace⟩, hnot⟩
    rw [List.flatMap_append, hlostread, List.nil_append, List.flatMap_cons, hs', List.flatMap_append,
      List.flatMap_singleton, h.closes]
    simp only [List.append_assoc]

/-! ## Replacements that show what is replaced -/

/-- Only the match itself shows what is matched. -/
theorem text_of_unmatched {items : List ReplaceItem} (h : .matched ∉ items) (p d d' q : JsString) :
    items.flatMap (ReplaceItem.text ⟨p, d, q, []⟩) = items.flatMap (ReplaceItem.text ⟨p, d', q, []⟩) := by
  refine List.flatMap_congr fun item hitem => ?_
  cases item with
  | matched => exact absurd hitem h
  | unit u => rfl
  | before => rfl
  | after => rfl
  | group n => rfl

/-- An address that does not take the tag over is put in for every tag. -/
theorem substitute_eq {template : JsString} (h : .matched ∉ replaceItems 0 .none template) (p d d' q : JsString) :
    substitute 0 ⟨p, d, q, []⟩ template = substitute 0 ⟨p, d', q, []⟩ template := text_of_unmatched h p d d' q

/-- If it does, different tags come out differently. -/
theorem eq_of_substitute {template p d d' q : JsString} (hd : IsTag baseOpener 0x3E d) (hd' : IsTag baseOpener 0x3E d')
    (hmem : .matched ∈ replaceItems 0 .none template)
    (h : substitute 0 ⟨p, d, q, []⟩ template = substitute 0 ⟨p, d', q, []⟩ template) : d = d' := by
  obtain ⟨front, rest, hitems, hfront⟩ := List.eq_append_cons_of_mem hmem
  have hsame := text_of_unmatched hfront p d d' q
  unfold substitute at h
  rw [hitems, List.flatMap_append, List.flatMap_append, hsame] at h
  have hrest := List.append_cancel_left h
  rw [List.flatMap_cons, List.flatMap_cons] at hrest
  obtain ⟨m, rfl, hm⟩ := hd.closed baseOpener_closed
  obtain ⟨m', rfl, hm'⟩ := hd'.closed baseOpener_closed
  have hcut : m ++ 0x3E :: rest.flatMap (ReplaceItem.text ⟨p, m ++ [0x3E], q, []⟩) =
      m' ++ 0x3E :: rest.flatMap (ReplaceItem.text ⟨p, m' ++ [0x3E], q, []⟩) := by
    simpa only [ReplaceItem.text, List.append_assoc, List.singleton_append] using hrest
  rw [(append_close_inj hm hm' hcut).1]

/-! ## What comes out -/

theorem isTag_shape {d : JsString} (h : IsTag baseOpener 0x3E d) :
    ∃ n, d = 0x3C :: (n ++ [0x3E]) ∧ 0x3E ∉ n := by
  obtain ⟨m, rfl, hm⟩ := h.closed baseOpener_closed
  obtain ⟨u, v, heq, hu, -⟩ := h
  obtain ⟨u', rfl, -⟩ := opens_baseOpener u hu
  rcases m with _ | ⟨a, n⟩
  · have hlen := congrArg List.length heq
    simp only [List.length_append, List.length_cons, List.length_nil] at hlen
    omega
  · obtain ⟨rfl, -⟩ := List.cons.inj heq
    exact ⟨n, rfl, fun hmem => hm (List.mem_cons_of_mem _ hmem)⟩

theorem wholeText_append (x y : List Cell) : wholeText (x ++ y) = wholeText x ++ wholeText y := List.flatMap_append

section

variable {l : List Cell} (hl : ∀ c ∈ l, c.Fits) (hfirst : ∀ c ∈ l.tail, c.first = false) {baseHref : JsString}
include hl hfirst

/-- The characters of a tag in the page. -/
theorem tagCells_of_split {x w z : List Cell} {c g : Cell} (heq : l = x ++ c :: (w ++ g :: z)) (hc : c.whole ≠ [])
    (hg : g.read = [0x3E]) (hg' : g.whole = [0x3E]) (htag : IsTag baseOpener 0x3E (wholeText (c :: (w ++ [g])))) :
    TagCells c w g := by
  have hsub : ∀ k ∈ c :: (w ++ [g]), k ∈ l := by
    intro k hk
    have hall : l = x ++ ((c :: (w ++ [g])) ++ z) := by simp [heq]
    exact hall ▸ List.mem_append_right x (List.mem_append_left z hk)
  refine ⟨fun k hk => hl k (hsub k hk), fun k hk => hfirst k ?_, hc, hg, hg', htag⟩
  have htail : w ++ [g] <:+: l.tail := by
    rw [heq]
    cases x with
    | nil => exact ⟨[], z, by simp⟩
    | cons a x => exact ⟨x ++ [c], z, by simp⟩
  exact htail.subset hk

/-- A page that is damaged in the tag only comes out as it is. -/
theorem inject_of_damagedInTag {x t y : List Cell} (heq : l = x ++ (t ++ y)) (h : DamagedInTag x t y)
    (hitems : .matched ∉ replaceItems 0 .none baseHref) :
    injectBaseHref (l.flatMap Cell.read) baseHref = injectBaseHref (wholeText l) baseHref := by
  obtain ⟨u, v, hsource, hfree, hu, hv, htext, -⟩ := (find_tag_eq_some opens_baseOpener).1 h.found
  dsimp only at hsource hfree htext
  have htag : IsTag baseOpener 0x3E (wholeText t) := ⟨u, v, htext, hu, hv⟩
  obtain ⟨n, hn, -⟩ := isTag_shape htag
  have hnil {k : List Cell} (hk : ∀ c ∈ k, c.whole ≠ []) (hwhole : k.flatMap Cell.whole = []) : k = [] := by
    cases k with
    | nil => rfl
    | cons c k => exact absurd (List.flatMap_eq_nil_iff.1 hwhole c List.mem_cons_self) (hk c List.mem_cons_self)
  have ht : ∀ k ∈ t, k.Fits := fun k hk => hl k (heq ▸ List.mem_append_right x (List.mem_append_left y hk))
  obtain ⟨x', c, t', rfl, -, hc, hx', ht'⟩ := image_whole.split ht (p := []) (by decide) hn
  have hne := h.whole_ne
  obtain rfl := hnil (fun c hc => hne c (List.mem_append_left _ hc)) hx'
  obtain ⟨w, g, z, rfl, hascii, hg, hw, hz⟩ := image_whole.split
    (fun k hk => ht k (List.mem_cons_of_mem c hk)) (u := 0x3E) (by decide) ht'
  obtain rfl := hnil (fun k hk => hne k (List.mem_cons_of_mem c (List.mem_append_right w (List.mem_cons_of_mem g hk)))) hz
  have hgread : g.read = [0x3E] :=
    (image_ascii (ht g (List.mem_cons_of_mem c (List.mem_append_right w List.mem_cons_self))) hascii).trans hg
  have hcells : TagCells c w g := by
    refine tagCells_of_split hl hfirst (x := x) (z := y) ?_ (hne c List.mem_cons_self) hgread hg htag
    rw [heq, List.nil_append, List.cons_append, List.append_assoc]
    rfl
  have hread := hcells.isTag_iff.2 h.stays
  have hx : x.flatMap Cell.read = wholeText x := eq_of_undamaged
    (fun k hk => hl k (heq ▸ List.mem_append_left _ hk)) fun k hk => h.intact k (List.mem_append_left y hk)
  have hy : y.flatMap Cell.read = wholeText y := eq_of_undamaged
    (fun k hk => hl k (heq ▸ List.mem_append_right x (List.mem_append_right _ hk)))
    fun k hk => h.intact k (List.mem_append_right x hk)
  have hall : l.flatMap Cell.read = wholeText x ++ ((c :: (w ++ [g])).flatMap Cell.read ++ wholeText y) := by
    rw [heq, List.flatMap_append, List.flatMap_append, hx, hy]
    rfl
  have hwhole : wholeText l = wholeText x ++ (wholeText (c :: (w ++ [g])) ++ wholeText y) := by
    rw [heq, wholeText, List.flatMap_append, List.flatMap_append]
    rfl
  have htag : IsTag baseOpener 0x3E (wholeText (c :: (w ++ [g]))) := htag
  rw [hall, hwhole, inject_tag baseHref hfree hread, inject_tag baseHref hfree htag,
    substitute_eq hitems _ _ (wholeText (c :: (w ++ [g])))]

/-- What is read of a page comes out as the page does if and only if no damage is seen. -/
theorem inject_read_iff : injectBaseHref (l.flatMap Cell.read) baseHref = injectBaseHref (wholeText l) baseHref ↔
    DamageUnseen baseHref l := by
  constructor
  · intro h
    have hmarks : (l.flatMap Cell.read).filter isAsciiUnit = (wholeText l).filter isAsciiUnit :=
      (image_read.filter hl).trans (image_whole.filter hl).symm
    rcases eq_of_inject_eq hmarks h with heq | ⟨p, d, d', q, hA, hB, hfree, hd, hd', hsub⟩
    · exact .inl (undamaged_of_eq hl heq)
    by_cases hitems : .matched ∈ replaceItems 0 .none baseHref
    · obtain rfl := eq_of_substitute hd hd' hitems hsub
      exact .inl (undamaged_of_eq hl (hA.trans hB.symm))
    refine .inr ⟨hitems, ?_⟩
    obtain ⟨n, rfl, hn⟩ := isTag_shape hd
    obtain ⟨n', rfl, hn'⟩ := isTag_shape hd'
    rw [List.cons_append, List.append_assoc] at hA hB
    obtain ⟨x, c, y, rfl, hcread, hc, hxread, hxwhole, hyread, hywhole⟩ :=
      split_same image_read image_whole hl (by decide) (by decide) hA hB rfl
    have hy : ∀ k ∈ y, k.Fits := fun k hk => hl k (List.mem_append_right x (List.mem_cons_of_mem c hk))
    have hcount : n.countP isAsciiUnit = n'.countP isAsciiUnit := by
      have hsame := (image_read.countP hy).trans (image_whole.countP hy).symm
      simp only [hyread, hywhole, List.countP_append] at hsame
      omega
    obtain ⟨w, g, z, rfl, hg, hg', hwread, hwwhole, hzread, hzwhole⟩ :=
      split_same image_read image_whole hy (by decide) (by decide) hyread hywhole hcount
    have hcells : TagCells c w g := by
      refine tagCells_of_split hl hfirst rfl (by rw [hc]; exact List.cons_ne_nil _ _) hg hg' ?_
      rw [wholeText, List.flatMap_cons, List.flatMap_append, List.flatMap_singleton, hc, hwwhole, hg']
      exact hd'
    have hx : ∀ k ∈ x, k.damaged = false :=
      undamaged_of_eq (fun k hk => hl k (List.mem_append_left _ hk)) (hxread.trans hxwhole.symm)
    have hz : ∀ k ∈ z, k.damaged = false :=
      undamaged_of_eq (fun k hk => hy k (List.mem_append_right w (List.mem_cons_of_mem g hk))) (hzread.trans hzwhole.symm)
    refine ⟨x, c :: (w ++ [g]), z, by simp, ⟨?_, ?_, ?_, ?_⟩⟩
    · exact fun k hk => (List.mem_append.1 hk).elim (hx k) (hz k)
    · exact List.forall_mem_cons.2 ⟨hcells.opens, fun k hk => Cell.whole_ne_nil (hcells.first k hk)⟩
    · obtain ⟨u, v, hsource, hu, hv⟩ := hcells.tag
      refine (find_tag_eq_some opens_baseOpener).2 ⟨u, v, ?_, ?_, hu, hv, hsource, rfl⟩
      · rw [wholeText_append, wholeText_append, hsource]
        simp only [List.append_assoc, List.singleton_append]
      · have hfront : wholeText x = p := hxwhole
        exact hfront ▸ hfree
    · refine hcells.isTag_iff.1 ?_
      rw [List.flatMap_cons, List.flatMap_append, List.flatMap_singleton, hcread, hwread, hg]
      exact hd
  · rintro (hall | ⟨hitems, x, t, y, heq, hin⟩)
    · rw [eq_of_undamaged hl hall]
    · exact inject_of_damagedInTag hl hfirst heq hin hitems

end

/-! ## The proxy -/

theorem first_cellsFrom (l : List Segment) (marks : List Bool) : ∀ c ∈ cellsFrom false l marks, c.first = false := by
  induction l generalizing marks with
  | nil => exact fun c hc => absurd hc List.not_mem_nil
  | cons s l ih => exact List.forall_mem_cons.2 ⟨rfl, ih _⟩

theorem first_pageCells (reads : List GoString) : ∀ c ∈ (pageCells reads).tail, c.first = false := by
  unfold pageCells
  cases segments reads.flatten with
  | nil => exact fun c hc => absurd hc List.not_mem_nil
  | cons s l => exact first_cellsFrom l _

theorem flatten_readsBehind (n : Nat) (reads : List GoString) : (readsBehind n reads).flatten = reads.flatten.drop n := by
  induction reads generalizing n with
  | nil => exact (List.drop_nil).symm
  | cons value values ih =>
    rw [readsBehind, List.flatten_cons, List.drop_append]
    split_ifs with hlt
    · rw [ih, List.drop_of_length_le (Nat.le_of_lt hlt), List.nil_append]
    · rw [List.flatten_cons, Nat.sub_eq_zero_of_le (Nat.le_of_not_lt hlt), List.drop_zero]

namespace ServedPage

variable (p : ServedPage)

theorem body_eq : p.bodyReads.flatten = p.body := by
  have hlen : (p.head ++ (crlf ++ crlf)).length = p.head.length + 4 := List.length_append
  rw [bodyReads, flatten_readsBehind, p.reads_eq, ← hlen, List.drop_left]

/-- The answer to the page. -/
theorem answerHead_page {part : GoString} {values : List GoString} :
    (answerHead p.path (some p.baseHref) p.head part values false).bind BrowserReply.html =
      some (injectBaseHref ((part :: values).flatMap textDecode) p.baseHref) := by
  have hgiven : given (some p.baseHref) = some p.baseHref := by
    rw [given, Option.filter_some, if_pos (by simp [p.baseHref_ne])]
  rw [answerHead]
  dsimp only
  rw [p.head_read, Option.bind_some, if_pos p.is_html, hgiven]
  dsimp only
  rw [if_pos ⟨rfl, p.status⟩]
  rfl

/-- The loop reads the head, and goes on with the rest of the read in which it ends. -/
theorem proxyLoop_page {buffer : GoString} {reads : List GoString} (hnone : buffer.length < p.head.length + 4)
    (hall : buffer ++ reads.flatten = p.head ++ (crlf ++ crlf) ++ p.body) :
    (proxyLoop p.path (some p.baseHref) false buffer reads).bind BrowserReply.html =
      some (injectBaseHref ((readsBehind (p.head.length + 4 - buffer.length) reads).flatMap textDecode) p.baseHref) := by
  have hlen : (p.head ++ (crlf ++ crlf)).length = p.head.length + 4 := List.length_append
  induction reads generalizing buffer with
  | nil =>
    have hshort := congrArg List.length hall
    rw [List.flatten_nil, List.append_nil, List.length_append, hlen] at hshort
    omega
  | cons value values ih =>
    rw [List.flatten_cons, ← List.append_assoc] at hall
    have hwhole : findBodyStart (p.head ++ (crlf ++ crlf) ++ p.body) = some (p.head.length + 4) :=
      findBodyStart_append p.head_end p.body
    rw [proxyLoop, readsBehind]
    by_cases hlt : value.length < p.head.length + 4 - buffer.length
    · have hno : findBodyStart (buffer ++ value) = none := by
        by_contra hne
        obtain ⟨n, hn⟩ := Option.ne_none_iff_exists'.1 hne
        have hlong := findBodyStart_append hn values.flatten
        rw [hall, hwhole, Option.some.injEq] at hlong
        have hle := (findBodyStart_le hn).2
        rw [List.length_append] at hle
        omega
      rw [hno, if_pos hlt]
      dsimp only
      rw [ih (by rw [List.length_append]; omega) hall, List.length_append, Nat.sub_sub]
    · have hfront : p.head ++ (crlf ++ crlf) <+: buffer ++ value := by
        refine List.prefix_of_prefix_length_le (hall ▸ List.prefix_append _ p.body) (List.prefix_append _ values.flatten) ?_
        rw [hlen, List.length_append]
        omega
      obtain ⟨part, hpart⟩ := hfront
      have hsome : findBodyStart (buffer ++ value) = some (p.head.length + 4) := by
        rw [← hpart]
        exact findBodyStart_append p.head_end part
      have hhead : (buffer ++ value).take p.head.length = p.head := by
        rw [← hpart, List.append_assoc, List.take_left]
      have hvalue : (buffer ++ value).drop (p.head.length + 4) = value.drop (p.head.length + 4 - buffer.length) := by
        rw [List.drop_append, List.drop_of_length_le (Nat.le_of_lt hnone), List.nil_append]
      rw [hsome, if_neg hlt]
      dsimp only
      rw [Nat.add_sub_cancel, hhead, hvalue]
      exact p.answerHead_page

end ServedPage

/-- The page that the proxy returns is the one of the whole body if and only if no damaged character is seen. -/
theorem proxyToVpc_page_iff (p : ServedPage) (delivered : Nat) (response : Option FetchedPage) :
    (proxyToVpc p.path (some p.baseHref) (.closes delivered p.reads) response).html =
        some (injectBaseHref (textDecode p.body) p.baseHref) ↔
      DamageUnseen p.baseHref (pageCells p.bodyReads) := by
  have hvalid : validString p.bodyReads.flatten = true := p.body_eq ▸ p.valid
  have hloop : (proxyLoop p.path (some p.baseHref) false [] p.reads).bind BrowserReply.html =
      some (injectBaseHref (p.bodyReads.flatMap textDecode) p.baseHref) :=
    p.proxyLoop_page (Nat.succ_pos _) p.reads_eq
  obtain ⟨reply, hreply, hhtml⟩ := Option.bind_eq_some_iff.1 hloop
  have hresult : (proxyToVpc p.path (some p.baseHref) (.closes delivered p.reads) response).html =
      some (injectBaseHref (p.bodyReads.flatMap textDecode) p.baseHref) := by
    rw [proxyToVpc, hreply, Option.getD_some, hhtml]
  rw [hresult, Option.some.injEq, flatMap_textDecode hvalid, ← p.body_eq, textDecode_pageCells hvalid]
  exact inject_read_iff (fits_pageCells hvalid) (first_pageCells _)

/-- The head of a page. -/
def shortHead : GoString := str "HTTP/1.0 200 OK\r\nContent-Type: text/html"

def shortRead : HeadRead := ⟨[(ascii "Content-Type", ascii "text/html")], ascii "text/html"⟩

theorem shortHead_end : findBodyStart (shortHead ++ (crlf ++ crlf)) = some (shortHead.length + 4) := by decide

theorem shortHead_read : readHeaderLines (textDecode shortHead) = some shortRead := by rfl

theorem shortHead_isHtml : isHtml (ascii "/vnc") shortRead.contentType = true := by decide

theorem shortHead_status : TakesStatus (statusCode (textDecode shortHead)) := by decide

/-- A page of one character, which comes in two reads. -/
def cutPage : ServedPage where
  path := ascii "/vnc"
  baseHref := ascii "/"
  head := shortHead
  body := [0xC3, 0xA9]
  reads := [shortHead ++ (crlf ++ crlf) ++ [0xC3], [0xA9]]
  read := shortRead
  baseHref_ne := List.cons_ne_nil _ _
  head_end := shortHead_end
  head_read := shortHead_read
  is_html := shortHead_isHtml
  status := shortHead_status
  valid := rfl
  reads_eq := rfl

/-- The page does not come out as it is: its bytes are read as two replacement characters. -/
theorem cutPage_damaged :
    (proxyToVpc cutPage.path (some cutPage.baseHref) (.closes 0 cutPage.reads) none).html =
        some (injection cutPage.baseHref ++ [0xFFFD, 0xFFFD]) ∧
      (proxyToVpc cutPage.path (some cutPage.baseHref) (.closes 0 cutPage.reads) none).html ≠
        some (injectBaseHref (textDecode cutPage.body) cutPage.baseHref) := by
  have hwhole : injectBaseHref (textDecode cutPage.body) cutPage.baseHref = injection cutPage.baseHref ++ [0xE9] := rfl
  have hread : (proxyToVpc cutPage.path (some cutPage.baseHref) (.closes 0 cutPage.reads) none).html =
      some (injection cutPage.baseHref ++ [0xFFFD, 0xFFFD]) := rfl
  refine ⟨hread, fun h => ?_⟩
  rw [hread, hwhole, Option.some.injEq, List.append_cancel_left_eq] at h
  exact absurd h (by decide)

end Gafam.Frontend
