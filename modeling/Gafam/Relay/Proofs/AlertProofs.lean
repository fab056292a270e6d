import Gafam.Go.Proofs.TextProofs
import Gafam.Go.Proofs.WordsProofs
import Gafam.Relay.Proofs.EmergencyProofs

/-!
# The text of an alert

What a node writes into a relay message and what the next node reads out of it, and the free text behind a trigger
code.
-/

namespace Gafam.Relay

open Gafam.Go Gafam.Lib

/-! ## Writing an alert and reading it -/

theorem replaceByte_of_notMem {old new : UInt8} {s : GoString} (h : old ∉ s) : replaceByte old new s = s := by
  unfold replaceByte
  conv_rhs => rw [← List.map_id s]
  refine List.map_congr_left fun b hb => if_neg ?_
  rintro rfl
  exact h hb

theorem noEdgeSpace_sanitize (s : GoString) : NoEdgeSpace (sanitize911Text s) := noEdgeSpace_trimSpace _

/-- The separator does not come up in a field. -/
theorem bar_notMem_sanitize (s : GoString) : 0x7C ∉ sanitize911Text s := by
  intro h
  obtain ⟨b, -, hb⟩ := List.mem_map.1 (mem_of_mem_trimSpace h)
  split_ifs at hb with hbar
  · exact absurd hb (by decide)
  · exact hbar hb

theorem isDigit_bounds {b : UInt8} (h : isDigit b = true) : 48 ≤ b.toNat ∧ b.toNat ≤ 57 := by
  obtain ⟨hlo, hhi⟩ := (Bool.and_eq_true _ _).mp h
  exact ⟨UInt8.le_iff_toNat_le.1 (of_decide_eq_true hlo), UInt8.le_iff_toNat_le.1 (of_decide_eq_true hhi)⟩

theorem noSpace_digits {s : GoString} (h : ∀ b ∈ s, 48 ≤ b.toNat ∧ b.toNat ≤ 57) : NoSpace s := by
  refine noSpace_ascii fun b hb => ?_
  obtain ⟨hlo, hhi⟩ := h b hb
  refine ⟨by omega, ?_⟩
  unfold isSpace
  simp only [Bool.or_eq_false_iff, Bool.and_eq_false_iff, decide_eq_false_iff_not, beq_eq_false_iff_ne]
  omega

theorem digits_phoneDigits (s : GoString) : ∀ b ∈ phoneDigits s, 48 ≤ b.toNat ∧ b.toNat ≤ 57 :=
  fun _ hb => isDigit_bounds (List.mem_filter.1 hb).2

/-- A number of digits is left as it is. -/
theorem sanitize_digits {s : GoString} (h : ∀ b ∈ s, 48 ≤ b.toNat ∧ b.toNat ≤ 57) : sanitize911Text s = s := by
  have hother {c : UInt8} (hc : c.toNat < 48 ∨ 57 < c.toNat) : c ∉ s := fun hmem => by
    have := h c hmem
    omega
  unfold sanitize911Text
  rw [replaceByte_of_notMem (hother (c := 0x0D) (by decide)), replaceByte_of_notMem (hother (c := 0x0A) (by decide)),
    replaceByte_of_notMem (hother (c := 0x7C) (by decide))]
  exact trimSpace_of_noEdgeSpace (noSpace_digits h).noEdgeSpace

/-- The part of an alert in front of the first separator. -/
def alertHead (id : GoString) (hop : Int) (phone : GoString) : GoString :=
  gafam911Prefix ++ 0x20 :: (id ++ 0x20 :: (itoa hop ++ 0x20 :: phone))

theorem str_bar : str " | " = [0x20, 0x7C, 0x20] := by decide

theorem build911RelayBody_eq (id : GoString) (hop : Int) (phone name message : GoString) :
    build911RelayBody id hop phone name message =
      alertHead id hop (sanitize911Text phone) ++ " | " ++
        (sanitize911Text name ++ " | " ++ sanitize911Text message) := by
  unfold build911RelayBody alertHead
  rw [show str " " = [0x20] from by decide]
  simp only [List.append_assoc, List.cons_append, List.nil_append]

section Head

variable {id phone : GoString} {hop : Int} (hid : NoSpace id) (hhop : 1 ≤ hop)
  (hphone : ∀ b ∈ phone, 48 ≤ b.toNat ∧ b.toNat ≤ 57)

include hhop in
theorem digits_itoa_hop : ∀ b ∈ itoa hop, 48 ≤ b.toNat ∧ b.toNat ≤ 57 := by
  intro b hb
  obtain ⟨n, rfl⟩ := Int.eq_ofNat_of_zero_le (Int.le_trans (by decide) hhop)
  exact mem_itoa hb

theorem noSpace_prefix : NoSpace gafam911Prefix := noSpace_ascii (forall_of_all (by decide))

include hid hhop hphone

/-- What the next node takes for the head, if that is what it gets. -/
theorem parse911Head_alertHead (hint : hop < 2 ^ 63) :
    parse911Head (alertHead id hop phone) = if id ≠ [] ∧ phone ≠ [] then some (id, hop, phone) else none := by
  have hhopDigits := digits_itoa_hop hhop
  have hhopNe : itoa hop ≠ [] := by
    obtain ⟨n, rfl⟩ := Int.eq_ofNat_of_zero_le (Int.le_trans (by decide) hhop)
    exact itoa_ne_nil n
  have hatoi : atoi (itoa hop) = some hop := atoi_itoa (by omega) hint
  have hfields : fields (alertHead id hop phone) =
      gafam911Prefix :: ((if id = [] then [] else [id]) ++ itoa hop :: if phone = [] then [] else [phone]) := by
    unfold alertHead
    rw [fields_append_space noSpace_prefix, fields_append_space hid, fields_append_space (noSpace_digits hhopDigits),
      fields_noSpace (noSpace_digits hphone), if_neg (by decide), if_neg hhopNe]
    rfl
  unfold parse911Head
  rw [hfields]
  by_cases hidNil : id = []
  · rw [if_pos hidNil, if_neg (c := id ≠ [] ∧ phone ≠ []) fun h => h.1 hidNil]
    by_cases hphoneNil : phone = []
    · rw [if_pos hphoneNil]
      rfl
    · rw [if_neg hphoneNil]
      rfl
  by_cases hphoneNil : phone = []
  · rw [if_neg hidNil, if_pos hphoneNil, if_neg (c := id ≠ [] ∧ phone ≠ []) fun h => h.2 hphoneNil]
    rfl
  rw [if_neg hidNil, if_neg hphoneNil, if_pos ⟨hidNil, hphoneNil⟩]
  show (if equalFoldAscii gafam911Prefix gafam911Prefix then _ else _) = _
  rw [if_pos (by decide), hatoi]
  exact if_neg (Int.not_lt.2 hhop)

/-- Only an id that is the bar itself makes a separator in the head. -/
theorem index_alertHead (hbar : id ≠ [0x7C]) (rest : GoString) :
    index " | " (alertHead id hop phone ++ " | " ++ rest) = some (alertHead id hop phone).length := by
  refine (index_eq_some_iff (by decide)).2 ⟨_, rest, rfl, rfl, fun hinfix => ?_⟩
  rw [str_bar] at hinfix
  have hparts : splitByte 0x20 (alertHead id hop phone ++ [0x20, 0x7C, 0x20].dropLast) =
      [gafam911Prefix, id, itoa hop, phone, [0x7C]] := by
    unfold alertHead
    simp only [List.append_assoc, List.cons_append, List.dropLast]
    rw [splitByte_append noSpace_prefix.notMem, splitByte_append hid.notMem,
      splitByte_append (noSpace_digits (digits_itoa_hop hhop)).notMem,
      splitByte_append (noSpace_digits hphone).notMem, splitByte_of_notMem (by decide)]
  obtain ⟨p, ps, q, qs, hsplit⟩ := splitByte_of_infix (w := [0x7C]) (by decide) hinfix
  rw [hparts, List.cons_append, List.cons.injEq] at hsplit
  have hnot {s : GoString} (hs : ∀ b ∈ s, 48 ≤ b.toNat ∧ b.toNat ≤ 57) : s ≠ [0x7C] := by
    rintro rfl
    exact absurd (hs 0x7C (List.mem_singleton_self _)) (by decide)
  rcases ps with _ | ⟨p1, _ | ⟨p2, _ | ⟨p3, ps⟩⟩⟩
  · exact hbar (List.cons.inj hsplit.2).1
  · exact hnot (digits_itoa_hop hhop) (List.cons.inj (List.cons.inj hsplit.2).2).1
  · exact hnot hphone (List.cons.inj (List.cons.inj (List.cons.inj hsplit.2).2).2).1
  · have hlen := congrArg List.length hsplit.2
    simp only [List.length_cons, List.length_append, List.length_nil] at hlen
    omega

end Head

/-- A field without a bar holds no separator, not even with the beginning of the next one. -/
theorem no_separator {s : GoString} (h : 0x7C ∉ s) : ¬str " | " <:+: s ++ [0x20, 0x7C] := by
  rw [str_bar]
  rintro ⟨a, b, heq⟩
  rcases List.eq_nil_or_concat b with rfl | ⟨b, c, rfl⟩
  · have hlast := congrArg List.getLast? heq
    rw [List.append_nil, List.getLast?_append, List.getLast?_append] at hlast
    exact absurd (show some (0x20 : UInt8) = some 0x7C from hlast) (by decide)
  · have heq' : a ++ [0x20, 0x7C, 0x20] ++ b ++ [c] = (s ++ [0x20]) ++ [0x7C] := by
      simpa only [List.concat_eq_append, List.append_assoc, List.cons_append, List.nil_append] using heq
    have hfront := (List.append_inj' heq' rfl).1
    have hmem : 0x7C ∈ s ++ [0x20] := by
      rw [← hfront]
      simp
    rcases List.mem_append.1 hmem with hmem | hmem
    · exact h hmem
    · exact absurd hmem (by decide)

theorem index_field {s : GoString} (h : 0x7C ∉ s) (t : GoString) : index " | " (s ++ " | " ++ t) = some s.length :=
  (index_eq_some_iff (by decide)).2 ⟨s, t, rfl, rfl, str_bar ▸ str_bar ▸ no_separator h⟩

/-- A line that begins with a letter and ends with a field is not trimmed. -/
theorem noEdgeSpace_line {c : UInt8} (hc : c.toNat < 0x80) (hspace : isSpace c.toNat = false) (u : GoString)
    {m : GoString} (hm : NoEdgeSpace m) (hne : m ≠ []) : NoEdgeSpace (c :: (u ++ 0x20 :: m)) := by
  have hascii : (0x20 : UInt8).toNat < 0x80 := by decide
  unfold NoEdgeSpace
  rw [segments_cons hc, segments_starts (starts_ascii hascii m), segments_cons hascii]
  refine ⟨?_, ?_⟩
  · rintro r ⟨⟩
    exact hspace
  · rw [← List.cons_append, List.append_cons, List.getLast?_append_of_ne_nil _ (segments_eq_nil.not.2 hne)]
    exact hm.2

/-- What stands behind the head of an alert when its body has been trimmed: an empty message takes the space of the
second separator with it. -/
def alertTail (name message : GoString) : GoString :=
  name ++ 0x20 :: 0x7C :: if message = [] then [] else 0x20 :: message

theorem trimSpace_alert (c : UInt8) (hc : c.toNat < 0x80) (hspace : isSpace c.toNat = false) (u name : GoString)
    {message : GoString} (hm : NoEdgeSpace message) :
    trimSpace (c :: u ++ " | " ++ (name ++ " | " ++ message)) = c :: u ++ " | " ++ alertTail name message := by
  unfold alertTail
  by_cases hnil : message = []
  · have hblank : Blank [0x20] := by
      unfold Blank
      exact forall_of_all (by decide)
    have hsplit : c :: u ++ str " | " ++ (name ++ str " | " ++ message) =
        c :: ((u ++ str " | " ++ name) ++ 0x20 :: [0x7C]) ++ [0x20] := by
      rw [hnil, str_bar]
      simp only [List.append_assoc, List.cons_append, List.nil_append, List.append_nil]
    have hbar : NoEdgeSpace [0x7C] := (noSpace_ascii (forall_of_all (by decide))).noEdgeSpace
    rw [hsplit, trimSpace_append_blank hblank, trimSpace_of_noEdgeSpace (noEdgeSpace_line hc hspace _ hbar (by decide)),
      if_pos hnil]
    simp only [List.append_assoc, List.cons_append]
  · have hsplit : c :: u ++ str " | " ++ (name ++ str " | " ++ message) =
        c :: ((u ++ str " | " ++ name ++ [0x20, 0x7C]) ++ 0x20 :: message) := by
      rw [str_bar]
      simp only [List.append_assoc, List.cons_append, List.nil_append]
    rw [hsplit, trimSpace_of_noEdgeSpace (noEdgeSpace_line hc hspace _ hm hnil), if_neg hnil]
    simp only [List.append_assoc, List.cons_append, List.nil_append]

/-- The two fields that are found behind the head. -/
theorem splitN_alertTail {name : GoString} (hname : 0x7C ∉ name) (message : GoString) :
    splitN " | " 2 (alertTail name message) =
      if message = [] then [name ++ [0x20, 0x7C]] else [name, message] := by
  unfold alertTail
  by_cases hnil : message = []
  · rw [if_pos hnil, if_pos hnil]
    exact splitN_none ((index_eq_none_iff (by decide)).2 (no_separator hname)) 1
  · rw [if_neg hnil, if_neg hnil]
    have hsplit : name ++ 0x20 :: 0x7C :: 0x20 :: message = name ++ str " | " ++ message := by
      rw [str_bar]
      simp only [List.append_assoc, List.cons_append, List.nil_append]
    rw [hsplit]
    exact splitN_found (index_field hname message) 0

theorem alertHead_cons (id : GoString) (hop : Int) (phone : GoString) :
    ∃ u, alertHead id hop phone = 0x47 :: u := ⟨_, rfl⟩

theorem parse911Relay_alert {head : GoString} (hhead : ∃ u, head = 0x47 :: u) (name : GoString) {message : GoString}
    (hm : NoEdgeSpace message) {h : GoString} {t : GoString} (ht : head ++ " | " ++ alertTail name message = h ++ " | " ++ t)
    (hindex : index " | " (h ++ " | " ++ t) = some h.length) :
    parse911Relay (head ++ " | " ++ (name ++ " | " ++ message)) =
      (parse911Head h).bind fun (id, hop, phone) =>
        (splitN " | " 2 t).head?.map fun field =>
          { alertID := id, origPhone := phone, origName := field, message := (splitN " | " 2 t).tail.headD [],
            hop := hop } := by
  obtain ⟨u, rfl⟩ := hhead
  unfold parse911Relay
  rw [trimSpace_alert 0x47 (by decide) (by decide) u name hm, ht, splitN_found hindex 1]
  cases splitN " | " (1 + 1) t with
  | nil =>
    dsimp only
    cases parse911Head h <;> rfl
  | cons field rest =>
    dsimp only
    cases parse911Head h <;> rfl

/-- An alert is read as it was written exactly if it has an id (not the bar alone), a number and a message. -/
theorem parse911Relay_build_iff {id : GoString} (hid : NoSpace id) {hop : Int} (hhop : 1 ≤ hop) (hint : hop < 2 ^ 63)
    (phone name message : GoString) :
    parse911Relay (build911RelayBody id hop (phoneDigits phone) name message) =
        some { alertID := id, origPhone := phoneDigits phone, origName := sanitize911Text name,
               message := sanitize911Text message, hop := hop } ↔
      id ≠ [] ∧ id ≠ "|" ∧ phoneDigits phone ≠ [] ∧ sanitize911Text message ≠ [] := by
  have hdigits := digits_phoneDigits phone
  have hname := bar_notMem_sanitize name
  have hm := noEdgeSpace_sanitize message
  rw [build911RelayBody_eq, sanitize_digits hdigits]
  generalize phoneDigits phone = number at hdigits ⊢
  generalize sanitize911Text name = name at hname ⊢
  generalize sanitize911Text message = message at hm ⊢
  by_cases hbar : id = [0x7C]
  · -- the bar between two spaces is taken for the separator
    have ht : alertHead id hop number ++ str " | " ++ alertTail name message =
        gafam911Prefix ++ str " | " ++ (itoa hop ++ 0x20 :: number ++ str " | " ++ alertTail name message) := by
      unfold alertHead
      rw [hbar, str_bar]
      simp only [List.append_assoc, List.cons_append, List.nil_append]
    rw [parse911Relay_alert (alertHead_cons id hop number) name hm ht (index_field (by decide) _)]
    refine iff_of_false ?_ fun h => h.2.1 hbar
    rw [show parse911Head gafam911Prefix = none from by decide]
    nofun
  · rw [parse911Relay_alert (alertHead_cons id hop number) name hm rfl (index_alertHead hid hhop hdigits hbar _),
      parse911Head_alertHead hid hhop hdigits hint, splitN_alertTail hname]
    by_cases hhead : id ≠ [] ∧ number ≠ []
    · rw [if_pos hhead]
      by_cases hnil : message = []
      · rw [if_pos hnil]
        refine iff_of_false (fun h => ?_) fun h => h.2.2.2 hnil
        have hlen := congrArg (fun a : Alert => a.origName.length) (Option.some.inj h)
        simp only [List.length_append, List.length_cons, List.length_nil] at hlen
        omega
      · rw [if_neg hnil]
        exact iff_of_true rfl ⟨hhead.1, hbar, hhead.2, hnil⟩
    · rw [if_neg hhead]
      refine iff_of_false nofun fun h => hhead ⟨h.1, h.2.2.1⟩

theorem parse911Relay_build_help :
    parse911Relay (build911RelayBody "1700-ab" 1 (phoneDigits "06 12 34 56 78") "Alice | Bob" "help") =
      some { alertID := "1700-ab", origPhone := phoneDigits "06 12 34 56 78", origName := sanitize911Text "Alice | Bob",
             message := sanitize911Text "help", hop := 1 } :=
  (parse911Relay_build_iff (noSpace_ascii (forall_of_all (by decide))) (by decide) (by decide) _ _ _).2
    ⟨by decide, by decide, by decide, by decide⟩

/-- The alert of a node without a number of its own is none for the next node. -/
theorem parse911Relay_build_noPhone :
    parse911Relay (build911RelayBody "1700-ab" 1 (phoneDigits []) "Admin GAFAM" "help") = none := by
  decide

/-! ## The text behind a trigger code -/

/-- The byte at which a word is found is that of the rune at which it is found. -/
theorem index_flatMap {w l : List Nat} (hw : ∀ r ∈ w, Scalar r) (hl : ∀ r ∈ l, Scalar r) :
    index (w.flatMap encodeRune) (l.flatMap encodeRune) =
      (findRunes w l).map fun n => ((l.take n).flatMap encodeRune).length := by
  induction l with
  | nil =>
    rw [List.flatMap_nil, index, findRunes]
    by_cases hnil : w = []
    · rw [if_pos (flatMap_encode_eq_nil.2 hnil), if_pos hnil]
      rfl
    · rw [if_neg (flatMap_encode_eq_nil.not.2 hnil), if_neg hnil]
      rfl
  | cons r l ih =>
    obtain ⟨hr, hl'⟩ := List.forall_mem_cons.1 hl
    have hstarts := prefix_flatMap_iff hw hl
    obtain ⟨b0, conts, hbytes, -, hconts, -⟩ := hr.encodes.shape
    have hinside : ∀ b ∈ conts, runeStart b = false := fun b hb =>
      Bool.eq_false_iff.2 fun h => runeStart_iff.1 h (hconts b hb)
    rw [findRunes]
    rw [List.flatMap_cons, hbytes, List.cons_append] at hstarts ⊢
    rw [index]
    by_cases hfound : w <+: r :: l
    · rw [if_pos (List.isPrefixOf_iff_prefix.2 (hstarts.2 hfound)), if_pos (List.isPrefixOf_iff_prefix.2 hfound)]
      rfl
    · have hne : w.flatMap encodeRune ≠ [] := by
        rw [Ne, flatMap_encode_eq_nil]
        rintro rfl
        exact hfound List.nil_prefix
      rw [if_neg fun h => hfound (hstarts.1 (List.isPrefixOf_iff_prefix.1 h)),
        if_neg fun h => hfound (List.isPrefixOf_iff_prefix.1 h), index_inside hne (starts_flatMap hw) hinside, ih hl',
        Option.map_map, Option.map_map, Option.map_map]
      congr 1
      funext n
      simp only [Function.comp_apply, List.take_succ_cons, List.flatMap_cons, List.length_append, hbytes,
        List.length_cons]
      omega

theorem toLower_eq (s : GoString) : toLower s = (lowerRunes s).flatMap encodeRune := by
  unfold toLower lowerRunes
  rw [List.flatMap_map]

theorem scalar_lowerRunes (s : GoString) : ∀ r ∈ lowerRunes s, Scalar r := by
  intro r hr
  obtain ⟨x, hx, rfl⟩ := List.mem_map.1 hr
  exact (scalar_segments x hx).toLowerRune

/-- The place of the code in the lower-cased body. -/
theorem index_toLower (body code : GoString) :
    index (toLower code) (toLower body) =
      (codePlace body code).map fun n => (((lowerRunes body).take n).flatMap encodeRune).length := by
  rw [toLower_eq, toLower_eq]
  exact index_flatMap (scalar_lowerRunes code) (scalar_lowerRunes body)

/-- The same place in the body. -/
theorem drop_textStart (body code : GoString) (n : Nat) :
    body.drop (textStart body code n) = joinSegments ((segments body).drop (n + (segments code).length)) := by
  have hsplit : joinSegments ((segments body).take (n + (segments code).length)) ++
      joinSegments ((segments body).drop (n + (segments code).length)) = body := by
    rw [← joinSegments_append, List.take_append_drop, joinSegments_segments]
  have hdrop : ∀ k, body.drop k = (joinSegments ((segments body).take (n + (segments code).length)) ++
      joinSegments ((segments body).drop (n + (segments code).length))).drop k := fun k => by rw [hsplit]
  rw [hdrop]
  exact List.drop_left

/-- A text that is cut at two places. -/
theorem trimSpace_drop_eq_iff (s : GoString) (a b : Nat) :
    trimSpace (s.drop a) = trimSpace (s.drop b) ↔
      Blank (between s a b) ∨ CutsSpace (between s a b) (s.drop (max a b)) := by
  have hcut {a b : Nat} (h : a ≤ b) : trimSpace (s.drop a) = trimSpace (s.drop b) ↔
      Blank ((s.drop a).take (b - a)) ∨ CutsSpace ((s.drop a).take (b - a)) (s.drop b) := by
    have hdrop : s.drop b = (s.drop a).drop (b - a) := by
      rw [List.drop_drop]
      congr 1
      omega
    have hfront := trimSpace_append_eq_iff ((s.drop a).take (b - a)) (s.drop b)
    rw [hdrop, List.take_append_drop] at hfront
    rw [hdrop]
    exact hfront
  unfold between
  rcases Nat.le_total a b with h | h
  · rw [Nat.min_eq_left h, Nat.max_eq_right h]
    exact hcut h
  · rw [Nat.min_eq_right h, Nat.max_eq_left h, eq_comm]
    exact hcut h

/-- The text behind the code is returned exactly if the slice begins at it, up to white space. -/
theorem messageAfterCode_iff {body code : GoString} (h : contains (toLower body) (toLower code) = true) :
    (messageAfterCode body code).isSome ∧ messageAfterCode body code = textAfterCode body code ↔
      SlicesText body code := by
  unfold contains at h
  unfold messageAfterCode textAfterCode SlicesText
  rw [index_toLower] at h ⊢
  cases hplace : codePlace body code with
  | none =>
    rw [hplace] at h
    cases h
  | some n =>
    have hstart : (((lowerRunes body).take n).flatMap encodeRune).length + code.length = sliceStart body code n := rfl
    dsimp only [Option.map_some]
    rw [hstart, ← drop_textStart]
    simp only [Option.mem_def, Option.some.injEq, forall_eq']
    by_cases hin : sliceStart body code n ≤ body.length
    · rw [if_pos hin, Option.isSome_some, and_iff_right rfl, and_iff_right hin, Option.some.injEq]
      exact trimSpace_drop_eq_iff _ _ _
    · rw [if_neg hin]
      exact iff_of_false (fun hand => absurd hand.1 Bool.false_ne_true) fun hand => hin hand.1

theorem messageAfterCode_help :
    (messageAfterCode "Au secours ! 911 chez Bob" "911").isSome ∧
      messageAfterCode "Au secours ! 911 chez Bob" "911" = textAfterCode "Au secours ! 911 chez Bob" "911" := by
  refine (messageAfterCode_iff (by decide)).2 fun n hn => ?_
  rw [show codePlace "Au secours ! 911 chez Bob" "911" = some 13 from by decide, Option.mem_some] at hn
  subst hn
  refine ⟨by decide, .inl ?_⟩
  rw [show between "Au secours ! 911 chez Bob" (sliceStart "Au secours ! 911 chez Bob" "911" 13)
    (textStart "Au secours ! 911 chez Bob" "911" 13) = [] from by decide]
  exact blank_nil

/-- In lower case this capital takes a byte more, and the slice begins behind the body. -/
theorem messageAfterCode_panics :
    contains (toLower "Ⱥ 911") (toLower "911") = true ∧ messageAfterCode "Ⱥ 911" "911" = none := by
  decide

end Gafam.Relay
