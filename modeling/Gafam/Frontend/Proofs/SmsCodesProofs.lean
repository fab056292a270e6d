import Gafam.Frontend.SmsCodes
import Gafam.Relay.Proofs.SmsCodesProofs

/-!
# Two searches for codes

Both searches pass the same times to `add`. They see the same words where the capitals of the text have the same
words, and the same numbers where these hold no white space that only one of them knows. What is left are the
differences of the two programs themselves.
-/

namespace Gafam.Frontend.SmsCodes

open Gafam.Go (forall_of_all)
open Gafam.Lib Gafam.Lib.Regex Gafam.Relay

/-! ## The digits of a number -/

section
variable {space : Char → Bool} {b x : List Char} {g : List (Nat × List Char)} {d c : Char}

theorem run_block_pair (hd : d.isDigit = true) (hc : isSeparator space c = true) :
    (Regex.group 1 (spacedDigit space)).run ⟨b, d :: c :: x, g⟩ =
      [⟨c :: d :: b, x, (1, [d, c]) :: g⟩, ⟨d :: b, c :: x, (1, [d]) :: g⟩] := by
  have hc : space c = true ∨ c = '-' := by simpa [isSeparator] using hc
  have hlen : x.length + 1 + 1 - x.length = 2 := by omega
  simp [run, spacedDigit, seqs, digitRe, opt, hd, hc, hlen]

theorem run_block_one (hd : d.isDigit = true) (hx : ∀ c ∈ x.head?, isSeparator space c = false) :
    (Regex.group 1 (spacedDigit space)).run ⟨b, d :: x, g⟩ = [⟨d :: b, x, (1, [d]) :: g⟩] := by
  cases x with
  | nil => simp [run, spacedDigit, seqs, digitRe, opt, hd]
  | cons c x =>
    have hc : space c = false ∧ c ≠ '-' := by simpa [isSeparator] using hx c rfl
    simp [run, spacedDigit, seqs, digitRe, opt, hd, hc]

theorem run_block_other (hx : ∀ c ∈ x, c.isDigit = false) :
    (Regex.group 1 (spacedDigit space)).run ⟨b, x, g⟩ = [] := by
  cases x with
  | nil => rfl
  | cons c x => simp [run, spacedDigit, seqs, digitRe, hx c (List.mem_cons_self ..)]

end

section
variable {space : Char → Bool} (hspace : ∀ c, isSeparator space c = true → c.isDigit = false)
include hspace

theorem not_separator_of_isDigit {c : Char} (h : c.isDigit = true) : isSeparator space c = false := by
  rw [← Bool.not_eq_true]
  intro hc
  rw [hspace c hc] at h
  cases h

/-- The first block of a number leaves the rest of the number, or nothing of it. -/
theorem run_block_spaced {s t : List Char} (hs : Spaced (isSeparator space) s) (ht : ∀ c ∈ t, c.isDigit = false)
    (b : List Char) (g : List (Nat × List Char)) :
    ∃ q l, (Regex.group 1 (spacedDigit space)).run ⟨b, s ++ t, g⟩ = q :: l ∧ q.rest.length < (s ++ t).length ∧
      ((∀ c ∈ q.rest, c.isDigit = false) ∨ ∃ s', Spaced (isSeparator space) s' ∧ q.rest = s' ++ t) := by
  cases hs with
  | last hd =>
    cases t with
    | nil => exact ⟨_, _, run_block_one hd (by simp), Nat.lt_succ_self _, .inl ht⟩
    | cons c t =>
      obtain ⟨hc, ht⟩ := List.forall_mem_cons.1 ht
      by_cases hsep : isSeparator space c = true
      · exact ⟨_, _, run_block_pair hd hsep, Nat.lt_succ_of_le (Nat.le_succ _), .inl ht⟩
      · refine ⟨_, _, run_block_one hd ?_, by simp, .inl (List.forall_mem_cons.2 ⟨hc, ht⟩)⟩
        intro a ha
        rw [← Option.some.inj ha]
        exact Bool.not_eq_true _ ▸ hsep
  | @tight d s hd hs =>
    refine ⟨_, _, run_block_one hd ?_, by simp, .inr ⟨s, hs, rfl⟩⟩
    intro c hc
    refine not_separator_of_isDigit hspace (hs.ends.1 c ?_)
    cases hs <;> exact hc
  | loose hd hc hs => exact ⟨_, _, run_block_pair hd hc, Nat.lt_succ_of_le (Nat.le_succ _), .inr ⟨_, hs, rfl⟩⟩

theorem greedy_spaced {s t : List Char} (hs : Spaced (isSeparator space) s) (ht : ∀ c ∈ t, c.isDigit = false) (fuel : Nat)
    (hfuel : (s ++ t).length ≤ fuel) (p : Place Char) (hp : p.rest = s ++ t) :
    ∀ c ∈ (greedy (Regex.group 1 (spacedDigit space)).run fuel p).rest, c.isDigit = false := by
  induction fuel generalizing s p with
  | zero =>
    have hnil : s = [] := by
      rw [List.length_append] at hfuel
      exact List.length_eq_zero_iff.1 (by omega)
    rw [hnil] at hs
    cases hs
  | succ fuel ih =>
    obtain ⟨q, l, hrun, hlen, hrest⟩ := run_block_spaced hspace hs ht p.before p.groups
    rw [← hp] at hrun hlen
    rw [greedy_step hrun hlen]
    rcases hrest with hrest | ⟨s', hs', hrest⟩
    · rw [greedy_stop (run_block_other hrest)]
      exact hrest
    · refine ih hs' ?_ q hrest
      rw [← hrest]
      rw [← hp] at hfuel
      omega

/-- From the start of a number on, all its digits are read. -/
theorem run_digits {s t : List Char} (hs : Spaced (isSeparator space) s) (ht : ∀ c ∈ t, c.isDigit = false)
    (b : List Char) : ∃ q, ((plus (.group 1 (spacedDigit space))).run ⟨b, s ++ t, []⟩).head? = some q ∧
      q.rest.length < (s ++ t).length ∧ ∀ c ∈ q.rest, c.isDigit = false := by
  obtain ⟨q, l, hrun, hlen, hrest⟩ := run_block_spaced hspace hs ht b []
  have hle : (greedy (Regex.group 1 (spacedDigit space)).run q.rest.length q).rest.length ≤ q.rest.length := by
    obtain ⟨w, k, h⟩ := leads_rounds (leads_of_mem_run (.group 1 (spacedDigit space))) q.rest.length q _
      (List.mem_of_mem_head? (head?_rounds _ q.rest.length q))
    have hlen := congrArg List.length h.rest
    rw [List.length_append] at hlen
    omega
  refine ⟨_, head?_run_plus hrun, Nat.lt_of_le_of_lt hle hlen, ?_⟩
  rcases hrest with hrest | ⟨s', hs', hrest⟩
  · rw [greedy_stop (run_block_other hrest)]
    exact hrest
  · exact greedy_spaced hspace hs' ht _ (Nat.le_of_eq (congrArg List.length hrest.symm)) q hrest

end

theorem isDigit_of_isSeparator (c : Char) (h : isSeparator isJsSpace c = true) : c.isDigit = false := by
  rw [← Bool.not_eq_true]
  intro hd
  rcases Bool.or_eq_true _ _ ▸ h with h | h
  · have := isAnySpace_timeChar (isTimeChar_of_isDigit hd)
    rw [isAnySpace, h, Bool.or_true] at this
    cases this
  · rw [of_decide_eq_true h] at hd
    cases hd

/-- The digits pattern reads, of what the numeric pattern found, the digits of the number. -/
theorem exec_digits {w number : List Char} (h : IsNumber (isSeparator isJsSpace) w number) :
    ∃ u g, exec digitsPattern w = some (u, g) ∧ u.filter Char.isDigit = number.filter Char.isDigit ∧
      ∀ c ∈ u, c.isDigit = true ∨ isSeparator isJsSpace c = true := by
  obtain ⟨⟨lead, trail, rfl, hlead, hleadDigits, htrail⟩, hspaced, -⟩ := h
  have hfound (fuel : Nat) (b : List Char) : ∃ u g l,
      scan digitsPattern (fuel + 1) b (number ++ trail) = .found u g :: l ∧
        u.filter Char.isDigit = number.filter Char.isDigit := by
    obtain ⟨q, hq, hlen, hrest⟩ := run_digits isDigit_of_isSeparator hspaced htrail b
    obtain ⟨u, g, hleads⟩ := leads_of_mem_run _ _ q (List.mem_of_mem_head? hq)
    have hnone (l : List Char) (hl : ∀ c ∈ l, c.isDigit = false) : l.filter Char.isDigit = [] :=
      List.filter_eq_nil_iff.2 fun c hc => by rw [hl c hc]; exact Bool.false_ne_true
    have htake : (number ++ trail).take ((number ++ trail).length - q.rest.length) = u := hleads.consumed
    refine ⟨_, _, _, scan_found hq hlen, ?_⟩
    rw [htake]
    have hsplit := congrArg (List.filter Char.isDigit) hleads.rest
    rwa [List.filter_append, List.filter_append, hnone trail htrail, hnone q.rest hrest, List.append_nil, List.append_nil,
      eq_comm] at hsplit
  have hexec : ∃ u g, exec digitsPattern (lead ++ (number ++ trail)) = some (u, g) ∧
      u.filter Char.isDigit = number.filter Char.isDigit := by
    cases lead with
    | nil =>
      obtain ⟨u, g, l, hscan, hu⟩ := hfound (number ++ trail).length []
      refine ⟨u, g, ?_, hu⟩
      unfold exec findAll pieces
      rw [List.nil_append, hscan]
      rfl
    | cons c lead =>
      obtain rfl : lead = [] := List.length_eq_zero_iff.1 (Nat.le_zero.1 (Nat.le_of_succ_le_succ hlead))
      obtain ⟨u, g, l, hscan, hu⟩ := hfound (number ++ trail).length [c]
      have hnone : digitsPattern.run ⟨[], c :: (number ++ trail), []⟩ = [] := by
        have hd := hleadDigits c (List.mem_cons_self ..)
        simp [digitsPattern, plus, run, spacedDigit, seqs, digitRe, hd]
      refine ⟨u, g, ?_, hu⟩
      unfold exec findAll pieces
      rw [List.singleton_append, List.length_cons, scan_none hnone, hscan]
      rfl
  obtain ⟨u, g, hexec, hu⟩ := hexec
  refine ⟨u, g, hexec, hu, fun c hc => ?_⟩
  have hall := word_plus_all (c := fun c => c.isDigit || isSeparator isJsSpace c) (fun v k hv => ?_) (word_of_exec hexec)
    c hc
  · exact Bool.or_eq_true _ _ ▸ hall
  · obtain ⟨j, hv, -⟩ := word_group.1 hv
    obtain ⟨d, hd, rfl | ⟨a, ha, rfl⟩⟩ := word_spacedDigit hv
    · exact List.forall_mem_singleton.2 (by rw [hd]; rfl)
    · exact List.forall_mem_cons.2 ⟨by rw [hd]; rfl, List.forall_mem_singleton.2 (by rw [ha, Bool.or_true])⟩

theorem normalize_times (m : CaseMapping) {s : List Char} (h : ∀ c ∈ s, isTimeChar c = true) : normalize m s = s := by
  have hfilter : s.filter (fun c => !(isJsSpace c || c = '-')) = s := by
    refine List.filter_eq_self.2 fun c hc => ?_
    have hspace := (Bool.or_eq_false_iff.1 (isAnySpace_timeChar (h c hc))).2
    have hne : c ≠ '-' := by
      rintro rfl
      cases h '-' hc
    rw [hspace, decide_eq_false hne]
    rfl
  unfold normalize
  rw [hfilter]
  exact m.upper_times h

theorem normalize_digits (m : CaseMapping) {u : List Char}
    (h : ∀ c ∈ u, c.isDigit = true ∨ isSeparator isJsSpace c = true) : normalize m u = u.filter Char.isDigit := by
  have hfilter : u.filter (fun c => !(isJsSpace c || c = '-')) = u.filter Char.isDigit := by
    refine List.filter_congr fun c hc => ?_
    show (!isSeparator isJsSpace c) = c.isDigit
    rcases h c hc with hd | hsep
    · rw [hd, not_separator_of_isDigit isDigit_of_isSeparator hd]
      rfl
    · rw [hsep, isDigit_of_isSeparator c hsep]
      rfl
  unfold normalize
  rw [hfilter]
  exact m.upper_times fun c hc => isTimeChar_of_isDigit (List.mem_filter.1 hc).2

/-! ## What is collected -/

theorem addCode_eq_keep (m : CaseMapping) (out : List (List Char)) (raw : List Char) :
    addCode m out raw = keep out (normalize m raw) :=
  (keep_eq out (normalize m raw)).symm

theorem candidates_blank_page (m : CaseMapping) {text : List Char} (h : trimmed isJsSpace text = []) :
    candidates m text = [] := by
  have hspace : ∀ c ∈ text, isAnySpace c = true := fun c hc => Bool.or_eq_true _ _ ▸ .inr (trimmed_eq_nil h c hc)
  have hkeyword : hasKeyword m text = false := by
    unfold hasKeyword
    rw [m.lower_space text hspace]
    refine test_eq_false (findAll_eq_nil (c := fun a => !isAnySpace a) (fun w g hw => ?_) fun c hc => ?_)
    · exact word_keywords (by decide) hw
    · rw [hspace c hc]
      rfl
  have hdigit (c : Char) (hc : isJsSpace c = true) : c.isDigit = false :=
    isDigit_of_isSeparator c (by rw [isSeparator, hc]; rfl)
  unfold candidates numberPattern
  rw [hkeyword, numbers_blank hdigit hspace]
  rfl

theorem detectSmsCodes_page (m : CaseMapping) (text : List Char) :
    detectSmsCodes m text = sortCodes (((candidates m text).map (normalize m)).foldl keep []) := by
  have hfold : (candidates m text).foldl (addCode m) [] = ((candidates m text).map (normalize m)).foldl keep [] := by
    rw [List.foldl_map]
    exact congrArg (fun f => (candidates m text).foldl f [])
      (funext fun out => funext fun raw => addCode_eq_keep m out raw)
  unfold detectSmsCodes
  split_ifs with h
  · rw [candidates_blank_page m h]
    rfl
  · rw [hfold]

theorem replaceFirst_of_notMem {a b : Char} {s t : List Char} (hs : a ∉ s) :
    replaceFirst a b (s ++ a :: t) = s ++ b :: t := by
  induction s with
  | nil => exact if_pos rfl
  | cons c s ih =>
    have hc : c ≠ a := fun h => hs (h ▸ List.mem_cons_self ..)
    rw [List.cons_append, replaceFirst, if_neg hc, ih fun h => hs (List.mem_cons_of_mem _ h)]
    rfl

theorem replaceFirst_none {a b : Char} {s : List Char} (hs : a ∉ s) : replaceFirst a b s = s := by
  induction s with
  | nil => rfl
  | cons c s ih =>
    have hc : c ≠ a := fun h => hs (h ▸ List.mem_cons_self ..)
    rw [replaceFirst, if_neg hc, ih fun h => hs (List.mem_cons_of_mem _ h)]

theorem findAll_wordPattern (s : List Char) : findAll wordPattern s = (codeWords s).map fun w => (w, []) :=
  findAll_wholeWord (takes_between isWordChar_of_isCodeChar (Nat.succ_pos 3) 4) s

/-- The relay's numeric pattern is the page's, with fewer units of white space. -/
theorem numericCodeRe_eq : numericCodeRe = restrict (fun c => !isJsSpace c || isReSpace c) numberPattern := by
  have hsub (c : Char) (h : isReSpace c = true) : isJsSpace c = true := by
    have hspaces : ∀ c ∈ ['\t', '\n', '\x0c', '\x0d', ' '], isJsSpace c = true := forall_of_all (by decide)
    exact hspaces c (of_decide_eq_true h)
  have hclass (l : List Char) (hl : ∀ c ∈ l, isJsSpace c = false) :
      (fun c => isReSpace c || decide (c ∈ l)) =
        fun c => (isJsSpace c || decide (c ∈ l)) && (!isJsSpace c || isReSpace c) := by
    funext c
    by_cases hc : c ∈ l
    · rw [decide_eq_true hc, hl c hc]
      simp
    · rw [decide_eq_false hc]
      cases h : isReSpace c with
      | true =>
        rw [hsub c h]
        rfl
      | false => simp
  have hdigit : Char.isDigit = fun c => c.isDigit && (!isJsSpace c || isReSpace c) := by
    funext c
    cases h : c.isDigit with
    | false => rfl
    | true =>
      rw [(Bool.or_eq_false_iff.1 (isAnySpace_timeChar (isTimeChar_of_isDigit h))).2]
      rfl
  have hhyphen := hclass ['-'] (forall_of_all (by decide))
  simp only [List.mem_singleton] at hhyphen
  let shape (lead sep trail digit : Char → Bool) : Regex Char :=
    seqs [.alt start (.unit lead),
      .group 1 (seqs [between (seqs [.unit digit, opt (.unit sep)]) 4 4, .unit digit]), .alt (.unit trail) stop]
  show shape _ _ _ _ = shape _ _ _ _
  exact congr (congr (congr (congrArg shape (hclass _ (forall_of_all (by decide)))) hhyphen)
    (hclass _ (forall_of_all (by decide)))) hdigit

theorem ReadAlike.findAll_eq {go js : CaseMapping} {text : List Char} (h : ReadAlike go js text) :
    findAll numericCodeRe text = findAll numberPattern text := by
  rw [numericCodeRe_eq]
  refine findAll_restrict _ fun m hm => List.all_eq_true.2 fun c hc => ?_
  cases hspace : isJsSpace c with
  | false => rfl
  | true =>
    rw [(h.spaces m hm).1 c hc hspace]
    rfl

theorem timePattern_eq : timePattern = timeCodeRe := rfl

/-- The page's codes before they are checked and sorted. -/
theorem mem_candidates_page {go js : CaseMapping} {text : List Char} (h : ReadAlike go js text) {c : List Char} :
    c ∈ (candidates js text).map (normalize js) ↔
      (hasKeyword js text = true ∧ ∃ t ∈ times text, c = t.1 ++ ':' :: t.2) ∨ c ∈ numbers text ∨
        hasKeyword js text = true ∧ c ∈ codeWords (js.upper text) ∧ c ∉ commonWords := by
  have htimes : ((findAll timePattern text).map fun p => replaceFirst 'h' ':' p.1).map (normalize js) =
      (times text).map fun t => t.1 ++ ':' :: t.2 := by
    unfold Relay.times
    rw [timePattern_eq, List.map_map, List.map_map]
    refine List.map_congr_left fun ⟨w, g⟩ hw => ?_
    obtain ⟨hour, sep, minute, rfl, hsep, hhour, hminute, htime⟩ := word_time (word_of_mem_findAll hw)
    have hnotMem (l : List Char) (hl : ∀ c ∈ l, c.isDigit = true) : 'h' ∉ l := fun hmem => by cases hl 'h' hmem
    have hreplace : replaceFirst 'h' ':' (hour ++ sep :: minute) = hour ++ ':' :: minute := by
      rcases hsep with rfl | rfl
      · refine replaceFirst_none fun hmem => ?_
        rcases List.mem_append.1 hmem with hmem | hmem
        · exact hnotMem hour htime.hour hmem
        · exact hnotMem minute htime.minute ((List.mem_cons.1 hmem).resolve_left (by decide))
      · exact replaceFirst_of_notMem (hnotMem hour htime.hour)
    show normalize js (replaceFirst 'h' ':' (hour ++ sep :: minute)) = groupText g 1 ++ ':' :: groupText g 2
    rw [hreplace, normalize_times js htime.chars.2, hhour, hminute]
  have hnumbers : ((findAll numberPattern text).filterMap fun p => (exec digitsPattern p.1).map fun q => q.1).map
      (normalize js) = numbers text := by
    have hfound : ∀ p ∈ findAll numberPattern text,
        ((exec digitsPattern p.1).map fun q => q.1).map (normalize js) =
          some ((groupText p.2 1).filter Char.isDigit) := by
      rintro ⟨w, g⟩ hw
      have hspace (c : Char) (hc : isJsSpace c = true) : c.isDigit = false :=
        isDigit_of_isSeparator c (by rw [isSeparator, hc]; rfl)
      obtain ⟨u, k, hexec, hdigits, hall⟩ := exec_digits (word_number hspace (word_of_mem_findAll hw))
      rw [hexec, ← hdigits]
      exact congrArg some (normalize_digits js hall)
    unfold numbers
    rw [h.findAll_eq, List.map_filterMap, List.filterMap_congr hfound]
    exact congrFun List.filterMap_eq_map' _
  have hwords : ((findAll wordPattern (js.upper text)).map fun p => p.1) = codeWords (js.upper text) := by
    rw [findAll_wordPattern, List.map_map]
    exact List.map_id _
  have hwordsNormal : ((codeWords (js.upper text)).filter fun w => w ∉ commonWords).map (normalize js) =
      (codeWords (js.upper text)).filter fun w => w ∉ commonWords := by
    refine (List.map_congr_left fun s hs => normalize_times js fun a ha => ?_).trans (List.map_id _)
    unfold isTimeChar
    rw [mem_codeWords (List.mem_filter.1 hs).1 a ha]
    rfl
  unfold candidates
  rw [List.map_append, List.map_append, List.mem_append, List.mem_append, hnumbers, or_assoc]
  refine or_congr ?_ (or_congr_right ?_)
  · cases hasKeyword js text with
    | false => simp
    | true =>
      rw [if_pos rfl, htimes]
      simp [eq_comm]
  · cases hasKeyword js text with
    | false => simp
    | true =>
      rw [if_pos rfl, hwords, hwordsNormal]
      simp

/-- The two lists are the same if they have the same members. -/
theorem detect_eq_iff (go js : CaseMapping) (text : List Char) :
    Relay.detectSmsCodes go text = detectSmsCodes js text ↔
      ∀ c, isCode c = true → (c ∈ (Relay.candidates go text).map (normalizeSmsCode go) ↔
        c ∈ (candidates js text).map (normalize js)) := by
  rw [detectSmsCodes_eq, detectSmsCodes_page,
    sortCodes_eq_iff (nodup_foldl_keep List.nodup_nil) (nodup_foldl_keep List.nodup_nil)]
  simp only [mem_foldl_keep, List.not_mem_nil, false_or, and_congr_right_iff]

/-! ## Where the two agree -/

/-- Times with a colon, times without it and words are no numbers and differ from one another. -/
theorem colon_notMem {c : List Char} (h : ∀ a ∈ c, isCodeChar a = true) (x y : List Char) : c ≠ x ++ ':' :: y := by
  rintro rfl
  cases h ':' (List.mem_append_right _ (List.mem_cons_self ..))

theorem isCodeChar_of_isDigit {a : Char} (h : a.isDigit = true) : isCodeChar a = true := by
  rw [isCodeChar, h, Bool.or_true]

theorem numbers_ne_colon {text c : List Char} (h : c ∈ numbers text) (x y : List Char) : c ≠ x ++ ':' :: y :=
  colon_notMem (fun a ha => isCodeChar_of_isDigit ((mem_numbers h).1 a ha)) x y

theorem time_notMem_numbers {text : List Char} {t : List Char × List Char} (ht : t ∈ Relay.times text)
    (text' : List Char) : t.1 ++ t.2 ∉ numbers text' := by
  intro h
  have htime := mem_times ht
  have hlen := (mem_numbers h).2
  have hhour := htime.hourLength
  rw [List.length_append, htime.minuteLength] at hlen
  omega

theorem time_isDigit {text : List Char} {t : List Char × List Char} (ht : t ∈ Relay.times text) :
    ∀ a ∈ t.1 ++ t.2, a.isDigit = true := List.forall_mem_append.2 ⟨(mem_times ht).hour, (mem_times ht).minute⟩

/-- The page's common words are common to the relay; a word that is common to the relay only is a code. -/
theorem commonWord_facts (c : List Char) :
    (c ∈ commonWords → isCommonSmsWord c = true) ∧
      (isCommonSmsWord c = true → ¬(∀ a ∈ c, a.isDigit = true) ∧ (c ∉ commonWords → isCode c = true)) := by
  constructor
  · intro h
    have hwords : ∀ c ∈ commonWords, isCommonSmsWord c = true := forall_of_all (by decide)
    exact hwords c h
  · intro h
    have hwords : ∀ c ∈ ["GAFAM", "CODE", "HTTP", "HTTPS", "TRUE", "FALSE", "NULL", "SMS", "AUTH"].map String.toList,
        ¬c.all Char.isDigit = true ∧ (c ∉ commonWords → isCode c = true) := forall_of_all (by decide)
    have hword := hwords c (of_decide_eq_true h)
    exact ⟨fun hall => hword.1 (List.all_eq_true.2 hall), hword.2⟩

section
variable {go js : CaseMapping} {text : List Char}

theorem ReadAlike.blank (h : ReadAlike go js text) :
    ∀ p ∈ findAll numericCodeRe text, ∀ c ∈ groupText p.2 1, isReSpace c = true → c = ' ' := by
  intro p hp c hc hspace
  refine (h.spaces p (h.findAll_eq ▸ hp)).2 c hc ?_
  have hspaces : ∀ c ∈ ['\t', '\n', '\x0c', '\x0d', ' '], isJsSpace c = true := forall_of_all (by decide)
  exact hspaces c (of_decide_eq_true hspace)

theorem noneExtra_of_eq (h : ReadAlike go js text)
    (heq : Relay.detectSmsCodes go text = detectSmsCodes js text) : NoneExtra go js text := by
  have hsame := (detect_eq_iff go js text).1 heq
  simp only [mem_candidates go h.blank, mem_candidates_page h] at hsame
  refine ⟨fun hgo hjs => ⟨fun t ht hcode => ?_, fun w hw hcommon => ?_⟩,
    fun hgo hjs => ⟨fun t ht => ⟨?_, ?_⟩, fun w hw hcode hcommon => ?_⟩,
    fun hgo hjs => ⟨fun t ht => ?_, fun w hw hcode hcommon => ?_⟩⟩
  · rcases (hsame _ hcode).1 (.inl ⟨hgo, t, ht, .inl rfl⟩) with ⟨-, t', -, hcolon⟩ | hnumber | ⟨-, hword, -⟩
    · exact absurd hcolon (colon_notMem (fun a ha => isCodeChar_of_isDigit (time_isDigit ht a ha)) _ _)
    · exact absurd hnumber (time_notMem_numbers ht text)
    · exact (h.capitals hgo hjs _).2 hword
  · by_contra hnot
    obtain ⟨hdigits, hcode⟩ := (commonWord_facts w).2 hcommon
    rcases (hsame w (hcode hnot)).2 (.inr (.inr ⟨hjs, (h.capitals hgo hjs w).1 hw, hnot⟩)) with
      ⟨-, t, ht, rfl | rfl⟩ | hnumber | ⟨-, -, hfalse⟩
    · exact hdigits (time_isDigit ht)
    · exact colon_notMem (mem_codeWords hw) _ _ rfl
    · exact hdigits (mem_numbers hnumber).1
    · rw [hcommon] at hfalse
      cases hfalse
  · rw [← Bool.not_eq_true]
    intro hcode
    rcases (hsame _ hcode).1 (.inl ⟨hgo, t, ht, .inl rfl⟩) with ⟨hfalse, -⟩ | hnumber | ⟨hfalse, -⟩
    · exact absurd (hjs ▸ hfalse) Bool.false_ne_true
    · exact time_notMem_numbers ht text hnumber
    · exact absurd (hjs ▸ hfalse) Bool.false_ne_true
  · rw [← Bool.not_eq_true]
    intro hcode
    rcases (hsame _ hcode).1 (.inl ⟨hgo, t, ht, .inr rfl⟩) with ⟨hfalse, -⟩ | hnumber | ⟨hfalse, -⟩
    · exact absurd (hjs ▸ hfalse) Bool.false_ne_true
    · exact numbers_ne_colon hnumber _ _ rfl
    · exact absurd (hjs ▸ hfalse) Bool.false_ne_true
  · rcases (hsame w hcode).1 (.inr (.inr ⟨hgo, hw, hcommon⟩)) with ⟨hfalse, -⟩ | hnumber | ⟨hfalse, -⟩
    · exact absurd (hjs ▸ hfalse) Bool.false_ne_true
    · exact hnumber
    · exact absurd (hjs ▸ hfalse) Bool.false_ne_true
  · rw [← Bool.not_eq_true]
    intro hcode
    rcases (hsame _ hcode).2 (.inl ⟨hjs, t, ht, rfl⟩) with ⟨hfalse, -⟩ | hnumber | ⟨hfalse, -⟩
    · exact absurd (hgo ▸ hfalse) Bool.false_ne_true
    · exact numbers_ne_colon hnumber _ _ rfl
    · exact absurd (hgo ▸ hfalse) Bool.false_ne_true
  · rcases (hsame w hcode).2 (.inr (.inr ⟨hjs, hw, hcommon⟩)) with ⟨hfalse, -⟩ | hnumber | ⟨hfalse, -⟩
    · exact absurd (hgo ▸ hfalse) Bool.false_ne_true
    · exact hnumber
    · exact absurd (hgo ▸ hfalse) Bool.false_ne_true

theorem eq_of_noneExtra (h : ReadAlike go js text) (hnone : NoneExtra go js text) :
    Relay.detectSmsCodes go text = detectSmsCodes js text := by
  rw [detect_eq_iff]
  intro c hcode
  rw [mem_candidates go h.blank, mem_candidates_page h]
  cases hgo : Relay.hasKeyword go text with
  | false =>
    cases hjs : hasKeyword js text with
    | false => simp
    | true =>
      obtain ⟨htimes, hwords⟩ := hnone.pageOnly hgo hjs
      constructor
      · rintro (⟨hfalse, -⟩ | hnumber | ⟨hfalse, -⟩)
        · cases hfalse
        · exact .inr (.inl hnumber)
        · cases hfalse
      · rintro (⟨-, t, ht, rfl⟩ | hnumber | ⟨-, hw, hcommon⟩)
        · rw [htimes t ht] at hcode
          cases hcode
        · exact .inr (.inl hnumber)
        · exact .inr (.inl (hwords c hw hcode hcommon))
  | true =>
    cases hjs : hasKeyword js text with
    | false =>
      obtain ⟨htimes, hwords⟩ := hnone.relayOnly hgo hjs
      constructor
      · rintro (⟨-, t, ht, rfl | rfl⟩ | hnumber | ⟨-, hw, hcommon⟩)
        · rw [(htimes t ht).1] at hcode
          cases hcode
        · rw [(htimes t ht).2] at hcode
          cases hcode
        · exact .inr (.inl hnumber)
        · exact .inr (.inl (hwords c hw hcode hcommon))
      · rintro (⟨hfalse, -⟩ | hnumber | ⟨hfalse, -⟩)
        · cases hfalse
        · exact .inr (.inl hnumber)
        · cases hfalse
    | true =>
      obtain ⟨htimes, hwords⟩ := hnone.both hgo hjs
      constructor
      · rintro (⟨-, t, ht, rfl | rfl⟩ | hnumber | ⟨-, hw, hcommon⟩)
        · refine .inr (.inr ⟨rfl, (h.capitals hgo hjs _).1 (htimes t ht hcode), fun hmem => ?_⟩)
          exact ((commonWord_facts _).2 ((commonWord_facts _).1 hmem)).1 (time_isDigit ht)
        · exact .inl ⟨rfl, t, ht, rfl⟩
        · exact .inr (.inl hnumber)
        · refine .inr (.inr ⟨rfl, (h.capitals hgo hjs c).1 hw, fun hmem => ?_⟩)
          rw [(commonWord_facts c).1 hmem] at hcommon
          cases hcommon
      · rintro (⟨-, t, ht, rfl⟩ | hnumber | ⟨-, hw, hcommon⟩)
        · exact .inl ⟨rfl, t, ht, .inr rfl⟩
        · exact .inr (.inl hnumber)
        · have hw := (h.capitals hgo hjs c).2 hw
          exact .inr (.inr ⟨rfl, hw, Bool.not_eq_true _ ▸ fun htrue => hcommon (hwords c hw htrue)⟩)

/-- Where the text reads alike to both runtimes, the two searches find the same codes exactly if nothing in it is a
code to one of them only. -/
theorem sameCodes_iff (h : ReadAlike go js text) :
    Relay.detectSmsCodes go text = detectSmsCodes js text ↔ NoneExtra go js text :=
  ⟨noneExtra_of_eq h, eq_of_noneExtra h⟩

end

/-- The case mappings on ASCII. -/
def asciiMapping : CaseMapping where
  lower := List.map Char.toLower
  upper := List.map Char.toUpper
  lower_space s h := by
    refine (List.map_congr_left fun c hc => ?_).trans (List.map_id s)
    have hspace := h c hc
    unfold Char.toLower
    rw [dif_neg]
    · rfl
    · simp only [ge_iff_le, UInt32.le_iff_toNat_le, Char.toNat_val]
      show ¬(65 ≤ c.toNat ∧ c.toNat ≤ 90)
      intro hrange
      have := isAnySpace_timeChar (isTimeChar_iff.2 (.inr hrange))
      rw [hspace] at this
      cases this
  upper_ascii _ _ := rfl

theorem sameCodes_iff_code :
    Relay.detectSmsCodes asciiMapping "code AB12CD, 123 456".toList =
      detectSmsCodes asciiMapping "code AB12CD, 123 456".toList := by
  have hspaces : ∀ m ∈ findAll numberPattern "code AB12CD, 123 456".toList,
      m.1.all (fun c => !isJsSpace c || isReSpace c) = true ∧
        (groupText m.2 1).all (fun c => !isJsSpace c || decide (c = ' ')) = true := by decide +kernel
  have halike : ReadAlike asciiMapping asciiMapping "code AB12CD, 123 456".toList := by
    refine ⟨fun m hm => ⟨fun c hc hs => ?_, fun c hc hs => ?_⟩, fun _ _ _ => Iff.rfl⟩
    · simpa [hs] using List.all_eq_true.1 (hspaces m hm).1 c hc
    · simpa [hs] using List.all_eq_true.1 (hspaces m hm).2 c hc
  refine (sameCodes_iff halike).2
    ⟨fun _ _ => by decide +kernel, fun _ h => absurd h (by decide +kernel), fun h => absurd h (by decide +kernel)⟩

/-- The relay reads a time without its colon as well. -/
theorem time_extra :
    Relay.detectSmsCodes asciiMapping "code 12:30".toList ≠ detectSmsCodes asciiMapping "code 12:30".toList := by
  decide +kernel

end Gafam.Frontend.SmsCodes
