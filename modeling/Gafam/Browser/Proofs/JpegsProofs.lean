import Gafam.Browser.Jpegs

/-!
# Pictures that are cut

A picture that has been taken is taken from every longer buffer, so that the calls lose pictures only with
what they do not keep: the bytes in which no picture begins. One of these can be the first byte of a start
marker. The picture behind it is then taken too late or not at all, and as no later picture makes up for
its bytes, the frames differ.
-/

namespace Gafam.Browser

open Gafam.Go Gafam.Lib

/-! ## The loop as a decoder -/

/-- The frames of a buffer. -/
def jpegs : Decoder UInt8 GoString where
  next buf := (turn buf).getLeft?
  shrinks := by
    intro buf frame rest h
    exact turn_shrinks (Sum.getLeft?_eq_some_iff.1 h)
  stable := by
    intro buf frame rest more h
    obtain ⟨junk, body, rfl, rfl, hjunk, hbody⟩ := turn_inl (Sum.getLeft?_eq_some_iff.1 h)
    simp only [List.append_assoc]
    rw [turn_frame hjunk hbody]
    rfl

/-- What a call keeps of the bytes that hold no whole picture. -/
def keep (buf : GoString) : GoString := (turn buf).getRight?.getD []

theorem extractJpegs_inr {buf leftover : GoString} (h : turn buf = .inr leftover) :
    extractJpegs buf = ([], leftover) := by
  rw [extractJpegs]
  split
  · next h' => rw [h] at h'; cases h'; rfl
  · next h' => rw [h] at h'; cases h'

theorem extractJpegs_inl {buf frame rest : GoString} (h : turn buf = .inl (frame, rest)) :
    extractJpegs buf = (frame :: (extractJpegs rest).1, (extractJpegs rest).2) := by
  rw [extractJpegs]
  split
  · next h' => rw [h] at h'; cases h'
  · next h' => rw [h] at h'; cases h'; rfl

theorem extractJpegs_eq (buf : GoString) :
    extractJpegs buf = ((jpegs.drain buf).1, keep (jpegs.drain buf).2) := by
  induction buf using jpegs.drain_induction with
  | hnone buf h =>
    obtain ⟨leftover, hturn⟩ : ∃ leftover, turn buf = .inr leftover := by
      cases hturn : turn buf with
      | inl p => rw [show jpegs.next buf = (turn buf).getLeft? from rfl, hturn] at h; cases h
      | inr leftover => exact ⟨leftover, rfl⟩
    rw [extractJpegs_inr hturn, jpegs.drain_none h, keep, hturn]
    rfl
  | hsome buf frame rest h ih =>
    rw [extractJpegs_inl (Sum.getLeft?_eq_some_iff.1 h), jpegs.drain_some h, ih]

/-- A buffer that grows after a call. -/
theorem extractJpegs_append (buf more : GoString) :
    (extractJpegs (buf ++ more)).1 =
      (extractJpegs buf).1 ++ (extractJpegs ((jpegs.drain buf).2 ++ more)).1 := by
  simp only [extractJpegs_eq, jpegs.drain_append buf more]

/-- The frames of a buffer depend on what the first turn finds. -/
theorem extractJpegs_congr {a b : GoString} (h : turn a = turn b) : extractJpegs a = extractJpegs b := by
  cases hb : turn b with
  | inl p => rw [extractJpegs_inl (h.trans hb), extractJpegs_inl hb]
  | inr leftover => rw [extractJpegs_inr (h.trans hb), extractJpegs_inr hb]

/-- Without an end marker there is no frame. -/
theorem frames_of_no_eoi {buf : GoString} (h : ¬ eoi <:+: buf) : (extractJpegs buf).1 = [] := by
  rcases buffer_cases buf with hno | ⟨junk, x, rfl, hjunk, hx⟩ | ⟨junk, body, rest, rfl, -, -⟩
  · rw [extractJpegs_inr (turn_skip hno)]
  · rw [extractJpegs_inr (turn_open hjunk hx)]
  · refine absurd ⟨junk ++ (soi ++ body), rest, ?_⟩ h
    simp only [List.append_assoc]

/-- The frames behind one that is there. -/
theorem frames_frame {junk body : GoString} (hjunk : Junk junk) (hbody : Body body) (rest : GoString) :
    (extractJpegs (junk ++ (soi ++ (body ++ (eoi ++ rest))))).1 =
      (soi ++ (body ++ eoi)) :: (extractJpegs rest).1 := by
  rw [extractJpegs_inl (turn_frame hjunk hbody rest)]

/-! ## Bytes that are not kept -/

/-- The place where two texts meet lies within a start marker. -/
def Straddles (a b : GoString) : Prop := ∃ p q, a = p ++ [0xFF] ∧ b = 0xD8 :: q

theorem Junk.prepend {r junk : GoString} (hjunk : Junk junk) (hr : ¬ soi <:+: r) {x : GoString}
    (hcut : ¬ Straddles r (junk ++ (soi ++ x))) : Junk (r ++ junk) := by
  intro h
  rw [List.append_assoc] at h
  rcases pair_infix_append.1 h with h | h | ⟨p, q, rfl, hq⟩
  · exact hr h
  · exact hjunk h
  · rcases junk with _ | ⟨c, junk⟩
    · exact absurd (List.cons.inj hq).1 (by decide)
    · obtain ⟨rfl, -⟩ := List.cons.inj hq
      exact hcut ⟨p, junk ++ (soi ++ x), rfl, rfl⟩

/-- Bytes in which no picture begins may be left out. -/
theorem turn_append {r c : GoString} (hr : ¬ soi <:+: r) (hcut : ¬ Straddles r c) :
    turn (r ++ c) = turn c := by
  rcases buffer_cases c with hno | ⟨junk, x, rfl, hjunk, hx⟩ | ⟨junk, body, rest, rfl, hjunk, hbody⟩
  · have hboth : ¬ soi <:+: r ++ c := by
      intro h
      rcases pair_infix_append.1 h with h | h | h
      · exact hr h
      · exact hno h
      · exact hcut h
    rw [turn_skip hboth, turn_skip hno]
  · rw [← List.append_assoc, turn_open (hjunk.prepend hr hcut) hx, turn_open hjunk hx]
  · rw [← List.append_assoc, turn_frame (hjunk.prepend hr hcut) hbody, turn_frame hjunk hbody]

theorem junk_nil : Junk [] := fun h => absurd h.length_le (by decide)

/-- What a call keeps. -/
theorem keep_cases {r : GoString} (h : jpegs.next r = none) :
    (¬ soi <:+: r ∧ keep r = []) ∨
      ∃ junk x, r = junk ++ (soi ++ x) ∧ Junk junk ∧ ¬ eoi <:+: x ∧ keep r = soi ++ x := by
  rcases buffer_cases r with hno | ⟨junk, x, rfl, hjunk, hx⟩ | ⟨junk, body, rest, rfl, hjunk, hbody⟩
  · exact .inl ⟨hno, by rw [keep, turn_skip hno]; rfl⟩
  · exact .inr ⟨junk, x, rfl, hjunk, hx, by rw [keep, turn_open hjunk hx]; rfl⟩
  · rw [show jpegs.next _ = (turn _).getLeft? from rfl, turn_frame hjunk hbody] at h
    cases h

theorem keep_suffix {r : GoString} (h : jpegs.next r = none) : keep r <:+ r := by
  rcases keep_cases h with ⟨-, hkeep⟩ | ⟨junk, x, rfl, -, -, hkeep⟩
  · rw [hkeep]
    exact List.nil_suffix
  · rw [hkeep]
    exact List.suffix_append ..

/-- The next call finds the same as if everything had been kept, unless a start marker is cut. -/
theorem extractJpegs_keep {r : GoString} (h : jpegs.next r = none) {c : GoString}
    (hcut : ¬ (¬ soi <:+: r ∧ Straddles r c)) : extractJpegs (keep r ++ c) = extractJpegs (r ++ c) := by
  rcases keep_cases h with ⟨hno, hkeep⟩ | ⟨junk, x, rfl, hjunk, -, hkeep⟩
  · rw [hkeep, List.nil_append]
    exact (extractJpegs_congr (turn_append hno fun hs => hcut ⟨hno, hs⟩)).symm
  · rw [hkeep]
    simp only [List.append_assoc]
    refine extractJpegs_congr ?_
    have hsoi : soi ++ (x ++ c) = [] ++ (soi ++ (x ++ c)) := rfl
    cases hend : index eoi (x ++ c) with
    | none =>
      have hx := (index_eq_none_iff eoi_ne_nil).1 hend
      rw [turn_open hjunk hx, hsoi, turn_open junk_nil hx]
      rfl
    | some i =>
      obtain ⟨body, rest, hxc, -, hbody⟩ := (index_eq_some_iff eoi_ne_nil).1 hend
      rw [hxc, List.append_assoc, turn_frame hjunk hbody, ← turn_frame junk_nil hbody]
      rfl

/-! ## The bytes of the frames -/

/-- The bytes of all frames. -/
def total (frames : List GoString) : Nat := (frames.map List.length).sum

theorem total_cons (f : GoString) (frames : List GoString) : total (f :: frames) = f.length + total frames :=
  List.sum_cons

theorem total_append (l m : List GoString) : total (l ++ m) = total l + total m := by
  rw [total, List.map_append, List.sum_append]
  rfl

theorem length_frame (body : GoString) : (soi ++ (body ++ eoi)).length = body.length + 4 := by
  simp [soi, eoi]

/-- Behind an end marker the frames are the same, whatever stood in front of it. -/
theorem total_body {body : GoString} (hbody : Body body) (rest : GoString) :
    total (extractJpegs (body ++ (eoi ++ rest))).1 ≤ body.length + 2 + total (extractJpegs rest).1 := by
  by_cases hsoi : soi <:+: body
  · have hsome : index soi body ≠ none := fun h => (index_eq_none_iff soi_ne_nil).1 h hsoi
    obtain ⟨i, hi⟩ := Option.ne_none_iff_exists'.1 hsome
    obtain ⟨junk, x, rfl, -, hjunk⟩ := (index_eq_some_iff soi_ne_nil).1 hi
    have hx : Body x := by
      intro h
      refine hbody (h.trans ?_)
      rw [List.append_assoc]
      exact (List.suffix_append ..).isInfix
    simp only [List.append_assoc]
    rw [frames_frame hjunk hx, total_cons, length_frame]
    simp only [List.length_append, soi, List.length_cons, List.length_nil]
    omega
  · have hno : ¬ soi <:+: body ++ eoi := by
      intro h
      rcases pair_infix_append.1 h with h | h | ⟨p, q, -, hq⟩
      · exact hsoi h
      · exact absurd h (by decide)
      · exact absurd (List.cons.inj hq).1 (by decide)
    have hcut : ¬ Straddles (body ++ eoi) rest := by
      rintro ⟨p, q, hp, -⟩
      obtain ⟨-, hlast⟩ := List.append_inj' (show (body ++ [0xFF]) ++ [0xD9] = p ++ [0xFF] by
        rw [← hp, List.append_assoc]; rfl) rfl
      exact absurd hlast (by decide)
    rw [← List.append_assoc, extractJpegs_congr (turn_append hno hcut)]
    omega

/-- No end marker begins with the second byte of a start marker. -/
theorem eoi_infix_cons {s : GoString} (h : eoi <:+: 0xD8 :: s) : eoi <:+: s := by
  rcases List.infix_cons_iff.1 h with h | h
  · exact absurd (pair_prefix_cons.1 h).1 (by decide)
  · exact h

/-- A byte more in front does not make the frames fewer. -/
theorem total_byte (x : UInt8) (b : GoString) : total (extractJpegs b).1 ≤ total (extractJpegs (x :: b)).1 := by
  by_cases hsoi : soi <+: x :: b
  · obtain ⟨rfl, b, rfl⟩ := pair_prefix_cons.1 hsoi
    cases hend : index eoi b with
    | none =>
      have hno := (index_eq_none_iff eoi_ne_nil).1 hend
      rw [frames_of_no_eoi fun h => hno (eoi_infix_cons h)]
      exact Nat.zero_le _
    | some i =>
      obtain ⟨body, rest, rfl, -, hbody⟩ := (index_eq_some_iff eoi_ne_nil).1 hend
      have hlong : Body (0xD8 :: body) := fun h => hbody (eoi_infix_cons h)
      have hle := total_body hlong rest
      have hframe := frames_frame junk_nil hbody rest
      rw [List.append_assoc,
        show (0xFF : UInt8) :: 0xD8 :: (body ++ (eoi ++ rest)) =
          [] ++ (soi ++ (body ++ (eoi ++ rest))) from rfl,
        hframe, total_cons, length_frame]
      refine Nat.le_trans hle ?_
      rw [List.length_cons]
      omega
  · have hx : ¬ soi <:+: [x] := fun h => absurd h.length_le (by simp [soi])
    have hcut : ¬ Straddles [x] b := by
      rintro ⟨p, q, hp, rfl⟩
      obtain ⟨-, hx'⟩ := List.append_inj' (show [] ++ [x] = p ++ [0xFF] from hp) rfl
      rw [List.head_eq_of_cons_eq hx'] at hsoi
      exact hsoi ⟨q, rfl⟩
    exact Nat.le_of_eq (congrArg (fun r => total r.1) (extractJpegs_congr (turn_append hx hcut)).symm)

theorem total_suffix {a b : GoString} (h : a <:+ b) :
    total (extractJpegs a).1 ≤ total (extractJpegs b).1 := by
  obtain ⟨t, rfl⟩ := h
  induction t with
  | nil => exact Nat.le_refl _
  | cons x t ih => exact Nat.le_trans ih (total_byte x (t ++ a))

/-! ## The loop -/

theorem streamLoop_cons (buf : GoString) (chunk : Chunk) (chunks : List Chunk) :
    streamLoop buf (chunk :: chunks) = (extractJpegs (buf ++ chunk.val)).1 ++
      streamLoop (keep (jpegs.drain (buf ++ chunk.val)).2) chunks := by
  rw [streamLoop, extractJpegs_eq]

theorem bytes_cons (chunk : Chunk) (chunks : List Chunk) :
    bytes (chunk :: chunks) = chunk.val ++ bytes chunks := rfl

theorem bytes_append (cs ds : List Chunk) : bytes (cs ++ ds) = bytes cs ++ bytes ds := by
  rw [bytes, List.map_append, List.flatten_append]
  rfl

/-- What a call leaves unread stands at the end of what it was given, behind an end marker. -/
theorem drain_split (buf : GoString) :
    ∃ done, buf = done ++ (jpegs.drain buf).2 ∧ (done = [] ∨ ∃ d, done = d ++ eoi) := by
  induction buf using jpegs.drain_induction with
  | hnone buf h => exact ⟨[], by rw [jpegs.drain_none h]; rfl, .inl rfl⟩
  | hsome buf frame rest h ih =>
    obtain ⟨junk, body, rfl, -⟩ := turn_inl (Sum.getLeft?_eq_some_iff.1 h)
    obtain ⟨done, hrest, hdone⟩ := ih
    rw [jpegs.drain_some h]
    rcases hdone with rfl | ⟨d, rfl⟩
    · refine ⟨junk ++ (soi ++ (body ++ eoi)), ?_, .inr ⟨junk ++ (soi ++ body), ?_⟩⟩
      · simp only [List.append_assoc, List.nil_append] at hrest ⊢
        rw [← hrest]
      · simp only [List.append_assoc]
    · refine ⟨junk ++ (soi ++ (body ++ (eoi ++ (d ++ eoi)))), ?_,
        .inr ⟨junk ++ (soi ++ (body ++ (eoi ++ d))), ?_⟩⟩
      · simp only [List.append_assoc] at hrest ⊢
        rw [← hrest]
      · simp only [List.append_assoc]

/-- The calls find no more than one call on everything. -/
theorem total_streamLoop (buf : GoString) (chunks : List Chunk) :
    total (streamLoop buf chunks) ≤ total (extractJpegs (buf ++ bytes chunks)).1 := by
  induction chunks generalizing buf with
  | nil => exact Nat.zero_le _
  | cons chunk chunks ih =>
    rw [streamLoop_cons, bytes_cons, ← List.append_assoc, extractJpegs_append (buf ++ chunk.val),
      total_append, total_append]
    obtain ⟨t, ht⟩ := keep_suffix (jpegs.next_drain (buf ++ chunk.val))
    have hle := total_suffix (a := keep (jpegs.drain (buf ++ chunk.val)).2 ++ bytes chunks)
      (b := (jpegs.drain (buf ++ chunk.val)).2 ++ bytes chunks) ⟨t, by rw [← List.append_assoc, ht]⟩
    have hrest := ih (keep (jpegs.drain (buf ++ chunk.val)).2)
    omega

/-- Without an end marker the calls find nothing. -/
theorem streamLoop_of_no_eoi {buf : GoString} {chunks : List Chunk} (h : ¬ eoi <:+: buf ++ bytes chunks) :
    streamLoop buf chunks = [] := by
  induction chunks generalizing buf with
  | nil => rfl
  | cons chunk chunks ih =>
    rw [bytes_cons, ← List.append_assoc] at h
    have hfirst : ¬ eoi <:+: buf ++ chunk.val := fun hi => h (hi.trans (List.prefix_append ..).isInfix)
    rw [streamLoop_cons, frames_of_no_eoi hfirst, List.nil_append]
    refine ih fun hi => h (hi.trans ?_)
    obtain ⟨done, hdone, -⟩ := drain_split (buf ++ chunk.val)
    obtain ⟨t, ht⟩ := keep_suffix (jpegs.next_drain (buf ++ chunk.val))
    refine List.IsSuffix.isInfix ⟨done ++ t, ?_⟩
    rw [List.append_assoc, ← List.append_assoc t, ht, ← List.append_assoc, ← hdone]

/-- Whether a cut matters is seen from what the last call left unread. -/
theorem cutsMarker_iff (before behind : GoString) :
    CutsMarker before behind ↔ ¬ soi <:+: (jpegs.drain before).2 ∧
      ∃ p q, (jpegs.drain before).2 = p ++ [0xFF] ∧ behind = 0xD8 :: q ∧ eoi <:+: q := by
  obtain ⟨done, hdone, hend⟩ := drain_split before
  have hnext := jpegs.next_drain before
  generalize (jpegs.drain before).2 = r at hdone hnext
  subst hdone
  constructor
  · rintro ⟨p, q, hp, rfl, hclosed, hq⟩
    rcases List.eq_nil_or_concat r with rfl | ⟨r, last, rfl⟩
    · rcases hend with rfl | ⟨d, rfl⟩
      · exact absurd hp (by simp)
      · obtain ⟨-, hlast⟩ := List.append_inj' (show (d ++ [0xFF]) ++ [0xD9] = p ++ [0xFF] by
          rw [← hp, List.append_nil, List.append_assoc]; rfl) rfl
        exact absurd hlast (by decide)
    · rw [List.concat_eq_append, ← List.append_assoc] at hp
      obtain ⟨rfl, hlast⟩ := List.append_inj' hp rfl
      cases hlast
      refine ⟨fun hsoi => ?_, r, q, List.concat_eq_append .., rfl, hq⟩
      rcases keep_cases hnext with ⟨hno, -⟩ | ⟨junk, x, hr, -, hx, -⟩
      · exact hno hsoi
      · rw [List.concat_eq_append] at hr
        rcases List.eq_nil_or_concat x with rfl | ⟨x, last, rfl⟩
        · obtain ⟨-, hlast⟩ := List.append_inj' (show r ++ [0xFF] = (junk ++ [0xFF]) ++ [0xD8] by
            rw [hr, List.append_assoc]; rfl) rfl
          exact absurd hlast (by decide)
        · rw [List.concat_eq_append] at hr hx
          obtain ⟨rfl, hlast⟩ := List.append_inj' (show r ++ [0xFF] = (junk ++ (soi ++ x)) ++ [last] by
            rw [hr]; simp only [List.append_assoc]) rfl
          have hin := hclosed (done ++ junk) x (by simp only [List.append_assoc])
          exact hx (hin.trans (List.prefix_append ..).isInfix)
  · rintro ⟨hno, p, q, rfl, rfl, hq⟩
    refine ⟨done ++ p, q, (List.append_assoc ..).symm, rfl, fun a b hab => ?_, hq⟩
    have hnop : ∀ t, p ≠ t ++ (soi ++ b) := by
      rintro t rfl
      exact hno ⟨t, b ++ [0xFF], by simp only [List.append_assoc]⟩
    rcases List.append_eq_append_iff.1 hab with ⟨t, -, hp⟩ | ⟨t, rfl, hp⟩
    · exact absurd hp (hnop t)
    -- the marker begins in what has been taken, which ends with an end marker
    · rcases hend with hnil | ⟨d, hd⟩
      · obtain ⟨rfl, rfl⟩ := List.append_eq_nil_iff.1 hnil
        exact absurd hp.symm (hnop [])
      · have hdone : eoi <:+ a ++ t := ⟨d, hd.symm⟩
        rcases t with _ | ⟨t₁, _ | ⟨t₂, t⟩⟩
        · exact absurd hp.symm (hnop [])
        · obtain ⟨-, hlast⟩ := List.append_inj' (show a ++ [t₁] = (d ++ [0xFF]) ++ [0xD9] by
            rw [hd, List.append_assoc]; rfl) rfl
          have hfirst := List.head_eq_of_cons_eq hp
          rw [← hfirst] at hlast
          exact absurd hlast (by decide)
        · have hb : b = t ++ p := (List.cons.inj (List.cons.inj hp).2).2
          have ht : t₁ :: t₂ :: t = soi ++ t := by
            rw [← List.head_eq_of_cons_eq hp, ← List.head_eq_of_cons_eq (List.cons.inj hp).2]
            rfl
          have hlast : eoi <:+ t₁ :: t₂ :: t :=
            List.suffix_of_suffix_length_le hdone (List.suffix_append ..) (by simp [eoi])
          rw [ht] at hlast
          rw [hb]
          rcases pair_infix_append.1 hlast.isInfix with h | h | ⟨x, y, hx, -⟩
          · exact absurd h (by decide)
          · exact h.trans (List.prefix_append ..).isInfix
          · obtain ⟨-, hx⟩ := List.append_inj' (show [0xFF] ++ [0xD8] = x ++ [0xFF] from hx) rfl
            exact absurd hx (by decide)

/-- A start marker is cut: the frames of the calls have fewer bytes. -/
theorem total_cut {buf behind : GoString} {p q : GoString} (hno : ¬ soi <:+: buf) (hbuf : buf = p ++ [0xFF])
    (hbehind : behind = 0xD8 :: q) (hq : eoi <:+: q) :
    total (extractJpegs behind).1 < total (extractJpegs (buf ++ behind)).1 := by
  subst hbuf hbehind
  have hsome : index eoi q ≠ none := fun h => (index_eq_none_iff eoi_ne_nil).1 h hq
  obtain ⟨i, hi⟩ := Option.ne_none_iff_exists'.1 hsome
  obtain ⟨body, rest, rfl, -, hbody⟩ := (index_eq_some_iff eoi_ne_nil).1 hi
  have hlong : Body (0xD8 :: body) := fun h => hbody (eoi_infix_cons h)
  have hle := total_body hlong rest
  have hframe := @frames_frame p body hno hbody rest
  have hjoin : p ++ [0xFF] ++ 0xD8 :: (body ++ eoi ++ rest) = p ++ (soi ++ (body ++ (eoi ++ rest))) := by
    simp [soi]
  rw [hjoin, hframe, total_cons, length_frame, List.append_assoc]
  refine Nat.lt_of_le_of_lt hle ?_
  rw [List.length_cons]
  omega

/-- A start marker is cut, and no end marker comes: there are no frames. -/
theorem frames_cut {buf behind : GoString} (hno : ¬ soi <:+: buf) {p q : GoString} (hbuf : buf = p ++ [0xFF])
    (hbehind : behind = 0xD8 :: q) (hq : ¬ eoi <:+: q) : (extractJpegs (buf ++ behind)).1 = [] := by
  subst hbuf hbehind
  have hjoin : p ++ [0xFF] ++ 0xD8 :: q = p ++ (soi ++ q) := by simp [soi]
  rw [hjoin, extractJpegs_inr (@turn_open p q hno hq)]

/-- From any place of the stream on, the calls find what one call finds exactly if no later cut matters. -/
theorem streamLoop_iff (before : GoString) (chunks : List Chunk) :
    streamLoop (keep (jpegs.drain before).2) chunks =
        (extractJpegs ((jpegs.drain before).2 ++ bytes chunks)).1 ↔
      ∀ cs ds, chunks = cs ++ ds → ¬ CutsMarker (before ++ bytes cs) (bytes ds) := by
  induction chunks generalizing before with
  | nil =>
    have hnone : (extractJpegs ((jpegs.drain before).2 ++ bytes [])).1 = [] := by
      rw [extractJpegs_eq, show bytes [] = [] from rfl, List.append_nil,
        jpegs.drain_none (jpegs.next_drain before)]
    refine iff_of_true hnone.symm ?_
    rintro cs ds hnil ⟨p, q, -, hbehind, -⟩
    obtain ⟨rfl, rfl⟩ := List.append_eq_nil_iff.1 hnil.symm
    cases hbehind
  | cons chunk chunks ih =>
    have hnext := jpegs.next_drain before
    by_cases hcut : CutsMarker before (bytes (chunk :: chunks))
    · have hfirst : ¬ ∀ cs ds, chunk :: chunks = cs ++ ds → ¬ CutsMarker (before ++ bytes cs) (bytes ds) :=
        fun h => h [] _ rfl (by rwa [show bytes [] = [] from rfl, List.append_nil])
      refine iff_of_false (fun h => ?_) hfirst
      obtain ⟨hno, p, q, hbuf, hbehind, hq⟩ := (cutsMarker_iff _ _).1 hcut
      have hlt := total_cut hno hbuf hbehind hq
      have hle := total_streamLoop (keep (jpegs.drain before).2) (chunk :: chunks)
      rcases keep_cases hnext with ⟨-, hkeep⟩ | ⟨junk, x, hr, -⟩
      · rw [h, hkeep, List.nil_append] at hle
        omega
      · exact hno (hr ▸ ⟨junk, x, List.append_assoc ..⟩)
    by_cases hst : ¬ soi <:+: (jpegs.drain before).2 ∧
        Straddles (jpegs.drain before).2 (bytes (chunk :: chunks))
    · obtain ⟨hno, p, q, hbuf, hbehind⟩ := hst
      have hq : ¬ eoi <:+: q := fun hq => hcut ((cutsMarker_iff _ _).2 ⟨hno, p, q, hbuf, hbehind, hq⟩)
      have hrest : ¬ eoi <:+: bytes (chunk :: chunks) := by
        rw [hbehind]
        intro h
        rcases List.infix_cons_iff.1 h with h | h
        · exact absurd (pair_prefix_cons.1 h).1 (by decide)
        · exact hq h
      refine iff_of_true ?_ fun cs ds hsplit hcds => ?_
      · rcases keep_cases hnext with ⟨-, hkeep⟩ | ⟨junk, x, hr, -⟩
        · rw [frames_cut hno hbuf hbehind hq, hkeep, streamLoop_of_no_eoi (by rwa [List.nil_append])]
        · exact absurd ⟨junk, x, (List.append_assoc ..).trans hr.symm⟩ hno
      · obtain ⟨p', q', -, hds, -, hq'⟩ := hcds
        refine hrest (hq'.trans ?_)
        rw [hsplit, bytes_append, hds]
        exact List.IsSuffix.isInfix ⟨bytes cs ++ [0xD8], by simp⟩
    · have hst' : ¬ (¬ soi <:+: (jpegs.drain before).2 ∧ Straddles (jpegs.drain before).2 chunk.val) := by
        rintro ⟨hno, p, q, hbuf, hc⟩
        exact hst ⟨hno, p, q ++ bytes chunks, hbuf, by rw [bytes_cons, hc]; rfl⟩
      have hsame := extractJpegs_keep hnext hst'
      have hdrain : (jpegs.drain (before ++ chunk.val)).2 =
          (jpegs.drain ((jpegs.drain before).2 ++ chunk.val)).2 := by
        rw [jpegs.drain_append]
      have hloop : streamLoop (keep (jpegs.drain before).2) (chunk :: chunks) =
          (extractJpegs ((jpegs.drain before).2 ++ chunk.val)).1 ++
            streamLoop (keep (jpegs.drain (before ++ chunk.val)).2) chunks := by
        rw [streamLoop, hsame, hdrain, extractJpegs_eq]
      rw [hloop, bytes_cons, ← List.append_assoc, extractJpegs_append ((jpegs.drain before).2 ++ chunk.val),
        List.append_cancel_left_eq, ← hdrain, ih]
      constructor
      · intro h cs ds hsplit
        rcases cs with _ | ⟨c, cs⟩
        · rw [← (show chunk :: chunks = ds from hsplit), show bytes [] = [] from rfl, List.append_nil]
          exact hcut
        · obtain ⟨rfl, hrest⟩ := List.cons.inj hsplit
          rw [bytes_cons, ← List.append_assoc]
          exact h cs ds hrest
      · intro h cs ds hsplit
        have hlater := h (chunk :: cs) ds (by rw [hsplit]; rfl)
        rwa [bytes_cons, ← List.append_assoc] at hlater

/-- The frames of all calls are those of one call on the whole stream exactly if no start marker of a
picture is cut. -/
theorem framesOfChunks_iff (chunks : List Chunk) :
    streamLoop [] chunks = (extractJpegs (bytes chunks)).1 ↔
      ∀ cs ds, chunks = cs ++ ds → ¬ CutsMarker (bytes cs) (bytes ds) := by
  have hnil : jpegs.drain [] = ([], []) := jpegs.drain_none rfl
  have h := streamLoop_iff [] chunks
  rw [hnil] at h
  exact h

/-- A picture whose first byte is the last one of a chunk. -/
theorem framesOfChunks_cut :
    ¬ ∀ chunks : List Chunk, streamLoop [] chunks = (extractJpegs (bytes chunks)).1 := by
  intro h
  have hcut := h [⟨[0xFF], by decide⟩, ⟨[0xD8, 0x01, 0xFF, 0xD9], by decide⟩]
  have hfirst : turn ([] ++ [0xFF]) = .inr [] := rfl
  have hsecond : turn ([] ++ [0xD8, 0x01, 0xFF, 0xD9]) = .inr [] := rfl
  have hwhole : turn [0xFF, 0xD8, 0x01, 0xFF, 0xD9] = .inl ([0xFF, 0xD8, 0x01, 0xFF, 0xD9], []) := rfl
  have hnone : streamLoop [] [⟨[0xFF], by decide⟩, ⟨[0xD8, 0x01, 0xFF, 0xD9], by decide⟩] = [] := by
    rw [streamLoop, streamLoop, streamLoop, extractJpegs_inr hfirst, extractJpegs_inr hsecond]
    rfl
  exact List.cons_ne_nil _ _ ((congrArg Prod.fst (extractJpegs_inl hwhole)).symm.trans (hcut.symm.trans hnone))

end Gafam.Browser
