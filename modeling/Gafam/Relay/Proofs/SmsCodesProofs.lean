import Gafam.Go.Text
import Gafam.Lib.RegexRules
import Gafam.Relay.SmsCodes
import Mathlib.Data.Char
import Mathlib.Data.List.Lex

/-!
# What counts as a code

A text that is passed to `add` is normalized, and kept if it has the length of a code and is no year. The patterns
say what such a text can look like: times and words are in their normal form already, and of a number the digits are
left.
-/

namespace Gafam.Relay

open Gafam.Go (isSpace forall_of_all)
open Gafam.Lib Gafam.Lib.Regex

/-! ## Collecting -/

theorem isCode_iff {c : List Char} :
    isCode c = true ↔ (4 ≤ c.length ∧ c.length ≤ 10) ∧ ¬(c.length = 4 ∧ isYear c = true) := by
  simp only [isCode, Bool.and_eq_true, Bool.not_eq_true', Bool.and_eq_false_iff, decide_eq_true_eq,
    decide_eq_false_iff_not, not_and_or, Bool.not_eq_true]

/-- One more code. -/
def keep (out : List (List Char)) (c : List Char) : List (List Char) :=
  if isCode c = true ∧ c ∉ out then out ++ [c] else out

/-- The checks of `add`, one after the other. -/
theorem keep_eq (out : List (List Char)) (c : List Char) :
    keep out c = if c.length < 4 ∨ 10 < c.length then out
      else if c.length = 4 ∧ isYear c = true then out
      else if c ∈ out then out
      else out ++ [c] := by
  unfold keep
  by_cases hlen : c.length < 4 ∨ 10 < c.length
  · rw [if_pos hlen, if_neg fun h => ?_]
    have := (isCode_iff.1 h.1).1
    omega
  · have hlong : 4 ≤ c.length ∧ c.length ≤ 10 := by omega
    rw [if_neg hlen]
    by_cases hyear : c.length = 4 ∧ isYear c = true
    · rw [if_pos hyear, if_neg fun h => (isCode_iff.1 h.1).2 hyear]
    · rw [if_neg hyear]
      by_cases hseen : c ∈ out
      · rw [if_pos hseen, if_neg fun h => h.2 hseen]
      · rw [if_neg hseen, if_pos ⟨isCode_iff.2 ⟨hlong, hyear⟩, hseen⟩]

theorem addCode_eq (m : CaseMapping) (out : List (List Char)) (raw : List Char) :
    addCode m out raw = keep out (normalizeSmsCode m raw) := by
  rw [keep_eq]
  unfold addCode
  generalize normalizeSmsCode m raw = c
  -- the empty text is too short anyway
  have hshort : (c = [] ∨ c.length < 4 ∨ 10 < c.length) ↔ (c.length < 4 ∨ 10 < c.length) := by
    refine ⟨?_, .inr⟩
    rintro (rfl | h)
    · exact .inl (by decide)
    · exact h
  exact if_congr hshort rfl rfl

theorem mem_foldl_keep {l out : List (List Char)} {c : List Char} :
    c ∈ l.foldl keep out ↔ c ∈ out ∨ isCode c = true ∧ c ∈ l := by
  induction l generalizing out with
  | nil => simp
  | cons a l ih =>
    rw [List.foldl_cons, ih]
    unfold keep
    split_ifs with ha
    · rw [List.mem_append, List.mem_singleton, List.mem_cons]
      constructor
      · rintro ((h | rfl) | h)
        · exact .inl h
        · exact .inr ⟨ha.1, .inl rfl⟩
        · exact .inr ⟨h.1, .inr h.2⟩
      · rintro (h | ⟨h, rfl | hl⟩)
        · exact .inl (.inl h)
        · exact .inl (.inr rfl)
        · exact .inr ⟨h, hl⟩
    · rw [List.mem_cons]
      constructor
      · exact fun h => h.imp_right fun h => ⟨h.1, .inr h.2⟩
      · rintro (h | ⟨h, rfl | hl⟩)
        · exact .inl h
        · exact .inl (not_not.1 fun hout => ha ⟨h, hout⟩)
        · exact .inr ⟨h, hl⟩

theorem nodup_foldl_keep {l out : List (List Char)} (h : out.Nodup) : (l.foldl keep out).Nodup := by
  induction l generalizing out with
  | nil => exact h
  | cons a l ih =>
    refine ih ?_
    unfold keep
    split_ifs with ha
    · exact h.append (List.nodup_singleton a) fun b hb hba => ha.2 (List.mem_singleton.1 hba ▸ hb)
    · exact h

/-! ## Sorting -/

instance notLt_total : Std.Total fun a b : List Char => ¬ b < a := ⟨fun a b => (le_total a b).imp not_lt.2 not_lt.2⟩

instance notLt_trans : IsTrans (List Char) fun a b : List Char => ¬ b < a :=
  ⟨fun _ _ _ hab hbc => not_lt.2 ((not_lt.1 hab).trans (not_lt.1 hbc))⟩

instance notLt_antisymm : Std.Antisymm fun a b : List Char => ¬ b < a :=
  ⟨fun _ _ hab hba => le_antisymm (not_lt.1 hab) (not_lt.1 hba)⟩

theorem mem_sortCodes {l : List (List Char)} {c : List Char} : c ∈ sortCodes l ↔ c ∈ l :=
  (List.perm_insertionSort _ l).mem_iff

/-- Sorted, two lists without repetitions are the same if they have the same members. -/
theorem sortCodes_eq_iff {l k : List (List Char)} (hl : l.Nodup) (hk : k.Nodup) :
    sortCodes l = sortCodes k ↔ ∀ c, c ∈ l ↔ c ∈ k := by
  constructor
  · intro h c
    rw [← mem_sortCodes, h, mem_sortCodes]
  · intro h
    have hperm : (sortCodes l).Perm (sortCodes k) :=
      (List.perm_insertionSort _ l).trans
        (((List.perm_ext_iff_of_nodup hl hk).2 h).trans (List.perm_insertionSort _ k).symm)
    exact hperm.eq_of_pairwise' (List.pairwise_insertionSort _ l) (List.pairwise_insertionSort _ k)

/-! ## Times -/

/-- Hours and minutes. -/
structure IsTime (h m : List Char) : Prop where
  hour : ∀ c ∈ h, c.isDigit = true
  hourLength : 1 ≤ h.length ∧ h.length ≤ 2
  minute : ∀ c ∈ m, c.isDigit = true
  minuteLength : m.length = 2

theorem word_oneOf {s : String} {w : List Char} {g : List (Nat × List Char)} (h : Word (oneOf s) w g) :
    ∃ c ∈ s.toList, w = [c] ∧ g = [] := by
  obtain ⟨c, hc, rfl, rfl⟩ := word_unit.1 h
  exact ⟨c, of_decide_eq_true hc, rfl, rfl⟩

/-- Behind an assertion and in front of another one. -/
theorem word_wholeWord {α : Type} {isWord : α → Bool} {r : Regex α} {w : List α} {g : List (Nat × List α)}
    (h : Word (wholeWord isWord r) w g) : Word r w g := by
  obtain ⟨u, v, k, l, hu, hv, rfl, rfl⟩ := word_seq.1 h
  obtain ⟨x, y, i, j, hx, hy, rfl, rfl⟩ := word_seq.1 hv
  obtain ⟨s, t, a, b, hs, ht, rfl, rfl⟩ := word_seq.1 hy
  obtain ⟨rfl, rfl⟩ := word_assert.1 hu
  obtain ⟨rfl, rfl⟩ := word_assert.1 hs
  obtain ⟨rfl, rfl⟩ := word_empty.1 ht
  rw [List.append_nil, List.append_nil, List.append_nil, List.nil_append, List.nil_append]
  exact hx

theorem word_digit {w : List Char} {g : List (Nat × List Char)} (h : Word digitRe w g) :
    ∃ c, c.isDigit = true ∧ w = [c] ∧ g = [] := word_unit.1 h

/-- Two characters, the first one from some digits. -/
theorem word_twoDigits {s : String} (hs : ∀ c ∈ s.toList, c.isDigit = true) {r : Regex Char}
    (hr : ∀ w g, Word r w g → ∃ c, c.isDigit = true ∧ w = [c] ∧ g = []) {w : List Char} {g : List (Nat × List Char)}
    (h : Word (seqs [oneOf s, r]) w g) : (∀ c ∈ w, c.isDigit = true) ∧ w.length = 2 ∧ g = [] := by
  obtain ⟨u, v, k, l, hu, hv, rfl, rfl⟩ := word_seq.1 h
  obtain ⟨c, hc, rfl, rfl⟩ := word_oneOf hu
  obtain ⟨x, y, i, j, hx, hy, rfl, rfl⟩ := word_seq.1 hv
  obtain ⟨d, hd, rfl, rfl⟩ := hr x i hx
  obtain ⟨rfl, rfl⟩ := word_empty.1 hy
  refine ⟨?_, rfl, rfl⟩
  rw [List.append_nil, List.singleton_append, List.forall_mem_cons, List.forall_mem_singleton]
  exact ⟨hs c hc, hd⟩

theorem word_hour {w : List Char} {g : List (Nat × List Char)}
    (h : Word (.alt (seqs [opt (oneOf "01"), digitRe]) (seqs [oneOf "2", oneOf "0123"])) w g) :
    (∀ c ∈ w, c.isDigit = true) ∧ (1 ≤ w.length ∧ w.length ≤ 2) ∧ g = [] := by
  have hoption (s : String) (hs : ∀ c ∈ s.toList, c.isDigit = true) (r : Regex Char)
      (hr : ∀ w g, Word r w g → ∃ c, c.isDigit = true ∧ w = [c] ∧ g = []) (h : Word (seqs [oneOf s, r]) w g) :
      (∀ c ∈ w, c.isDigit = true) ∧ (1 ≤ w.length ∧ w.length ≤ 2) ∧ g = [] := by
    obtain ⟨hall, hlen, hg⟩ := word_twoDigits hs hr h
    exact ⟨hall, by omega, hg⟩
  rcases word_alt.1 h with h | h
  · obtain ⟨u, v, k, l, hu, hv, rfl, rfl⟩ := word_seq.1 h
    rcases word_alt.1 hu with hu | hu
    · exact hoption "01" (forall_of_all (by decide)) digitRe (fun _ _ => word_digit) (word_seq.2 ⟨u, v, k, l, hu, hv, rfl, rfl⟩)
    · obtain ⟨rfl, rfl⟩ := word_empty.1 hu
      obtain ⟨x, y, i, j, hx, hy, rfl, rfl⟩ := word_seq.1 hv
      obtain ⟨d, hd, rfl, rfl⟩ := word_digit hx
      obtain ⟨rfl, rfl⟩ := word_empty.1 hy
      exact ⟨List.forall_mem_singleton.2 hd, ⟨Nat.le_refl _, Nat.le_succ _⟩, rfl⟩
  · refine hoption "2" (forall_of_all (by decide)) (oneOf "0123") (fun w g h => ?_) h
    obtain ⟨c, hc, hw⟩ := word_oneOf h
    have hdigits : ∀ c ∈ "0123".toList, c.isDigit = true := forall_of_all (by decide)
    exact ⟨c, hdigits c hc, hw⟩

theorem word_time {w : List Char} {g : List (Nat × List Char)} (h : Word timeCodeRe w g) :
    ∃ hour sep minute, w = hour ++ sep :: minute ∧ (sep = ':' ∨ sep = 'h') ∧ groupText g 1 = hour ∧
      groupText g 2 = minute ∧ IsTime hour minute := by
  obtain ⟨hour, v, k, l, hu, hv, rfl, rfl⟩ := word_seq.1 (word_wholeWord h)
  obtain ⟨i, hhour, rfl⟩ := word_group.1 hu
  obtain ⟨hdigits, hlen, rfl⟩ := word_hour hhour
  obtain ⟨x, y, a, b, hx, hy, rfl, rfl⟩ := word_seq.1 hv
  obtain ⟨sep, hsep, rfl, rfl⟩ := word_oneOf hx
  obtain ⟨minute, z, e, f, hm, hz, rfl, rfl⟩ := word_seq.1 hy
  obtain ⟨rfl, rfl⟩ := word_empty.1 hz
  obtain ⟨j, hpair, rfl⟩ := word_group.1 hm
  obtain ⟨hminute, hmlen, rfl⟩ := word_twoDigits (forall_of_all (by decide)) (fun _ _ => word_digit) hpair
  have hsep : sep = ':' ∨ sep = 'h' := by simpa using hsep
  exact ⟨hour, sep, minute, by simp, hsep, rfl, rfl, hdigits, hlen, hminute, hmlen⟩

/-! ## Numbers -/

/-- Digits, at most one separator between two of them. -/
inductive Spaced (sep : Char → Bool) : List Char → Prop
  | last {d : Char} (hd : d.isDigit = true) : Spaced sep [d]
  | tight {d : Char} {s : List Char} (hd : d.isDigit = true) (h : Spaced sep s) : Spaced sep (d :: s)
  | loose {d c : Char} {s : List Char} (hd : d.isDigit = true) (hc : sep c = true) (h : Spaced sep s) :
    Spaced sep (d :: c :: s)

/-- White space or a hyphen. -/
def isSeparator (space : Char → Bool) (c : Char) : Bool := space c || c = '-'

theorem word_spacedDigit {space : Char → Bool} {u : List Char} {g : List (Nat × List Char)}
    (h : Word (spacedDigit space) u g) :
    ∃ d, d.isDigit = true ∧ (u = [d] ∨ ∃ c, isSeparator space c = true ∧ u = [d, c]) := by
  obtain ⟨x, y, k, l, hx, hy, rfl, rfl⟩ := word_seq.1 h
  obtain ⟨d, hd, rfl, rfl⟩ := word_digit hx
  obtain ⟨z, t, i, j, hz, ht, rfl, rfl⟩ := word_seq.1 hy
  obtain ⟨rfl, rfl⟩ := word_empty.1 ht
  rcases word_alt.1 hz with hz | hz
  · obtain ⟨c, hc, rfl, rfl⟩ := word_unit.1 hz
    exact ⟨d, hd, .inr ⟨c, hc, rfl⟩⟩
  · obtain ⟨rfl, rfl⟩ := word_empty.1 hz
    exact ⟨d, hd, .inl rfl⟩

/-- Blocks of a digit and perhaps a separator, and a digit behind them. -/
theorem spaced_blocks {space : Char → Bool} (hspace : ∀ c, isSeparator space c = true → c.isDigit = false)
    {us : List (List Char)} (hus : ∀ u ∈ us, ∃ k, Word (spacedDigit space) u k) {d : Char} (hd : d.isDigit = true) :
    Spaced (isSeparator space) (us.flatten ++ [d]) ∧
      ((us.flatten ++ [d]).filter Char.isDigit).length = us.length + 1 := by
  induction us with
  | nil =>
    refine ⟨.last hd, ?_⟩
    rw [List.flatten_nil, List.nil_append, List.filter_cons_of_pos hd]
    rfl
  | cons u us ih =>
    obtain ⟨⟨k, hu⟩, hrest⟩ := List.forall_mem_cons.1 hus
    obtain ⟨hspaced, hlen⟩ := ih hrest
    obtain ⟨e, he, rfl | ⟨c, hc, rfl⟩⟩ := word_spacedDigit hu
    · refine ⟨.tight he hspaced, ?_⟩
      rw [List.flatten_cons, List.append_assoc, List.singleton_append, List.filter_cons_of_pos he, List.length_cons, hlen,
        List.length_cons]
    · refine ⟨.loose he hc hspaced, ?_⟩
      rw [List.flatten_cons, List.append_assoc, List.cons_append, List.singleton_append, List.filter_cons_of_pos he,
        List.filter_cons_of_neg (by rw [hspace c hc]; exact Bool.false_ne_true), List.length_cons, hlen, List.length_cons]

/-- A match of the numeric pattern: a number, and what stands around it. -/
structure IsNumber (sep : Char → Bool) (w number : List Char) : Prop where
  split : ∃ lead trail, w = lead ++ (number ++ trail) ∧ lead.length ≤ 1 ∧ (∀ c ∈ lead, c.isDigit = false) ∧
    ∀ c ∈ trail, c.isDigit = false
  spaced : Spaced sep number
  length : 5 ≤ (number.filter Char.isDigit).length

theorem word_number {space : Char → Bool} (hspace : ∀ c, space c = true → c.isDigit = false) {w : List Char}
    {g : List (Nat × List Char)} (h : Word (numericPattern space) w g) :
    IsNumber (isSeparator space) w (groupText g 1) := by
  have hsep : ∀ c, isSeparator space c = true → c.isDigit = false := by
    intro c hc
    rcases Bool.or_eq_true _ _ ▸ hc with hc | hc
    · exact hspace c hc
    · rw [of_decide_eq_true hc]
      rfl
  -- One unit of a class, or nothing where the text starts or ends.
  have hedge (s : String) (hs : ∀ c ∈ s.toList, c.isDigit = false) (c : Char)
      (hc : (space c || c ∈ s.toList) = true) : c.isDigit = false := by
    rcases Bool.or_eq_true _ _ ▸ hc with hc | hc
    · exact hspace c hc
    · exact hs c (of_decide_eq_true hc)
  obtain ⟨lead, v, k, l, hlead, hv, rfl, rfl⟩ := word_seq.1 h
  obtain ⟨number, z, i, j, hnumber, hz, rfl, rfl⟩ := word_seq.1 hv
  obtain ⟨n, hn, rfl⟩ := word_group.1 hnumber
  obtain ⟨trail, e, a, b, htrail, he, rfl, rfl⟩ := word_seq.1 hz
  obtain ⟨rfl, rfl⟩ := word_empty.1 he
  obtain ⟨blocks, x, o, p, hblocks, hx, rfl, rfl⟩ := word_seq.1 hn
  obtain ⟨y, t, q, r, hy, ht, rfl, rfl⟩ := word_seq.1 hx
  obtain ⟨rfl, rfl⟩ := word_empty.1 ht
  obtain ⟨d, hd, rfl, rfl⟩ := word_digit hy
  obtain ⟨us, rfl, hlen, hus⟩ := word_between hblocks
  obtain ⟨hspaced, hdigits⟩ := spaced_blocks hsep hus hd
  have hlead : lead.length ≤ 1 ∧ (∀ c ∈ lead, c.isDigit = false) ∧ k = [] := by
    rcases word_alt.1 hlead with h | h
    · obtain ⟨rfl, rfl⟩ := word_assert.1 h
      exact ⟨Nat.zero_le _, fun c hc => absurd hc List.not_mem_nil, rfl⟩
    · obtain ⟨c, hc, rfl, rfl⟩ := word_unit.1 h
      exact ⟨Nat.le_refl _, List.forall_mem_singleton.2 (hedge ":\uff1a-\u2014" (forall_of_all (by decide)) c hc), rfl⟩
  have htrail : (∀ c ∈ trail, c.isDigit = false) ∧ a = [] := by
    rcases word_alt.1 htrail with h | h
    · obtain ⟨c, hc, rfl, rfl⟩ := word_unit.1 h
      exact ⟨List.forall_mem_singleton.2 (hedge ".,!?" (forall_of_all (by decide)) c hc), rfl⟩
    · obtain ⟨rfl, rfl⟩ := word_assert.1 h
      exact ⟨fun c hc => absurd hc List.not_mem_nil, rfl⟩
  obtain ⟨hleadLen, hleadDigits, rfl⟩ := hlead
  obtain ⟨htrailDigits, rfl⟩ := htrail
  refine ⟨⟨lead, trail, by simp [groupText], hleadLen, hleadDigits, htrailDigits⟩, ?_, ?_⟩
  · simpa [groupText] using hspaced
  · have : 5 ≤ us.length + 1 := by omega
    simpa [groupText, ← hdigits] using this

theorem Spaced.mem {sep : Char → Bool} {s : List Char} (h : Spaced sep s) :
    ∀ c ∈ s, c.isDigit = true ∨ sep c = true := by
  induction h with
  | last hd => exact List.forall_mem_singleton.2 (.inl hd)
  | tight hd h ih => exact List.forall_mem_cons.2 ⟨.inl hd, ih⟩
  | loose hd hc h ih => exact List.forall_mem_cons.2 ⟨.inl hd, List.forall_mem_cons.2 ⟨.inr hc, ih⟩⟩

theorem Spaced.ends {sep : Char → Bool} {s : List Char} (h : Spaced sep s) :
    (∀ c ∈ s.head?, c.isDigit = true) ∧ ∀ c ∈ s.getLast?, c.isDigit = true := by
  induction h with
  | last hd => exact ⟨fun c hc => Option.some.inj hc ▸ hd, fun c hc => Option.some.inj hc ▸ hd⟩
  | tight hd h ih =>
    refine ⟨fun c hc => Option.some.inj hc ▸ hd, fun c hc => ?_⟩
    cases h <;> exact ih.2 c hc
  | loose hd hc h ih =>
    refine ⟨fun c hc => Option.some.inj hc ▸ hd, fun c hc => ?_⟩
    cases h <;> exact ih.2 c hc

/-! ## The normal form -/

theorem not_digit_of_isReSpace (c : Char) (h : isReSpace c = true) : c.isDigit = false := by
  have hspaces : ∀ c ∈ ['\t', '\n', '\x0c', '\x0d', ' '], c.isDigit = false := forall_of_all (by decide)
  exact hspaces c (of_decide_eq_true h)

theorem normalizeSmsCode_times (m : CaseMapping) {s : List Char} (h : ∀ c ∈ s, isTimeChar c = true) :
    normalizeSmsCode m s = s := by
  have hspace : ∀ c ∈ s, isSpace c.toNat = false := fun c hc =>
    (Bool.or_eq_false_iff.1 (isAnySpace_timeChar (h c hc))).1
  have htrim : trimText s = s :=
    trimmed_eq_self (fun c hc => hspace c (List.mem_of_mem_head? hc)) fun c hc => hspace c (List.mem_of_mem_getLast? hc)
  have hother (a : Char) (ha : isTimeChar a = false) : s.filter (· ≠ a) = s := by
    refine List.filter_eq_self.2 fun c hc => decide_eq_true fun hca => ?_
    rw [← hca, h c hc] at ha
    cases ha
  unfold normalizeSmsCode
  rw [htrim, hother ' ' (by decide), hother '-' (by decide)]
  exact m.upper_times h

/-- Of a number without other white space than blanks the digits are left. -/
theorem normalizeSmsCode_number (m : CaseMapping) {sep : Char → Bool} {s : List Char} (h : Spaced sep s)
    (hblank : ∀ c ∈ s, c.isDigit = true ∨ c = ' ' ∨ c = '-') : normalizeSmsCode m s = s.filter Char.isDigit := by
  have hspace (c : Char) (hc : c.isDigit = true) : isSpace c.toNat = false :=
    (Bool.or_eq_false_iff.1 (isAnySpace_timeChar (isTimeChar_of_isDigit hc))).1
  have htrim : trimText s = s :=
    trimmed_eq_self (fun c hc => hspace c (h.ends.1 c hc)) fun c hc => hspace c (h.ends.2 c hc)
  have hdigits : (s.filter (· ≠ ' ')).filter (· ≠ '-') = s.filter Char.isDigit := by
    rw [List.filter_filter]
    refine List.filter_congr fun c hc => ?_
    rcases hblank c hc with hd | rfl | rfl
    · have hne (a : Char) (ha : a.isDigit = false) : c ≠ a := fun hca => by
        rw [hca, ha] at hd
        cases hd
      rw [hd, decide_eq_true (hne '-' rfl), decide_eq_true (hne ' ' rfl)]
      rfl
    · rfl
    · rfl
  unfold normalizeSmsCode
  rw [htrim, hdigits]
  exact m.upper_times fun c hc => isTimeChar_of_isDigit (List.mem_filter.1 hc).2

/-! ## What is collected -/

theorem mem_times {text : List Char} {t : List Char × List Char} (h : t ∈ times text) : IsTime t.1 t.2 := by
  obtain ⟨⟨w, g⟩, hw, rfl⟩ := List.mem_map.1 h
  obtain ⟨hour, sep, minute, -, -, rfl, rfl, htime⟩ := word_time (word_of_mem_findAll hw)
  exact htime

theorem IsTime.chars {h m : List Char} (t : IsTime h m) :
    (∀ c ∈ h ++ m, isTimeChar c = true) ∧ ∀ c ∈ h ++ ':' :: m, isTimeChar c = true := by
  have hhour : ∀ c ∈ h, isTimeChar c = true := fun c hc => isTimeChar_of_isDigit (t.hour c hc)
  have hminute : ∀ c ∈ m, isTimeChar c = true := fun c hc => isTimeChar_of_isDigit (t.minute c hc)
  exact ⟨List.forall_mem_append.2 ⟨hhour, hminute⟩,
    List.forall_mem_append.2 ⟨hhour, List.forall_mem_cons.2 ⟨rfl, hminute⟩⟩⟩

theorem mem_numbers {text c : List Char} (h : c ∈ numbers text) : (∀ a ∈ c, a.isDigit = true) ∧ 5 ≤ c.length := by
  obtain ⟨⟨w, g⟩, hw, rfl⟩ := List.mem_map.1 h
  exact ⟨fun a ha => (List.mem_filter.1 ha).2, (word_number not_digit_of_isReSpace (word_of_mem_findAll hw)).length⟩

theorem mem_codeWords {s c : List Char} (h : c ∈ codeWords s) : ∀ a ∈ c, isCodeChar a = true :=
  List.all_eq_true.1 (Bool.and_eq_true _ _ ▸ (List.mem_filter.1 h).2).1

theorem isWordChar_of_isCodeChar (c : Char) (h : isCodeChar c = true) : isWordChar c = true := by
  unfold isCodeChar at h
  unfold isWordChar Char.isAlphanum Char.isAlpha
  rcases Bool.or_eq_true _ _ ▸ h with h | h
  · rw [h]
    rfl
  · rw [h]
    simp

theorem findAll_alphaNum (s : List Char) : findAll alphaNumCodeRe s = (codeWords s).map fun w => (w, [(1, w)]) :=
  findAll_wholeWord ((takes_between isWordChar_of_isCodeChar (Nat.succ_pos 3) 4).group 1) s

/-- The relay's codes before they are checked and sorted. -/
theorem mem_candidates (m : CaseMapping) {text : List Char}
    (hspaces : ∀ p ∈ findAll numericCodeRe text, ∀ c ∈ groupText p.2 1, isReSpace c = true → c = ' ') {c : List Char} :
    c ∈ (candidates m text).map (normalizeSmsCode m) ↔
      (hasKeyword m text = true ∧ ∃ t ∈ times text, c = t.1 ++ t.2 ∨ c = t.1 ++ ':' :: t.2) ∨ c ∈ numbers text ∨
        hasKeyword m text = true ∧ c ∈ codeWords (m.upper text) ∧ isCommonSmsWord c = false := by
  have htimes : (findAll timeCodeRe text).flatMap (fun p =>
      [groupText p.2 1 ++ groupText p.2 2, groupText p.2 1 ++ ':' :: groupText p.2 2]) =
        (times text).flatMap fun t => [t.1 ++ t.2, t.1 ++ ':' :: t.2] := by
    unfold times
    rw [List.flatMap_map]
  have hwords : ((findAll alphaNumCodeRe (m.upper text)).map fun p => groupText p.2 1) = codeWords (m.upper text) := by
    rw [findAll_alphaNum, List.map_map]
    exact List.map_id _
  have hnumbers : ((findAll numericCodeRe text).map fun p => groupText p.2 1).map (normalizeSmsCode m) =
      numbers text := by
    rw [List.map_map]
    refine List.map_congr_left fun ⟨w, g⟩ hw => ?_
    have hnumber := word_number not_digit_of_isReSpace (word_of_mem_findAll hw)
    refine normalizeSmsCode_number m hnumber.spaced fun c hc => ?_
    rcases hnumber.spaced.mem c hc with hd | hsep
    · exact .inl hd
    · rcases Bool.or_eq_true _ _ ▸ hsep with hspace | hhyphen
      · exact .inr (.inl (hspaces _ hw c hc hspace))
      · exact .inr (.inr (of_decide_eq_true hhyphen))
  have hnormal (l : List (List Char)) (hl : ∀ s ∈ l, ∀ a ∈ s, isTimeChar a = true) : l.map (normalizeSmsCode m) = l :=
    (List.map_congr_left fun s hs => normalizeSmsCode_times m (hl s hs)).trans (List.map_id l)
  have htimesNormal : ((times text).flatMap fun t => [t.1 ++ t.2, t.1 ++ ':' :: t.2]).map (normalizeSmsCode m) =
      (times text).flatMap fun t => [t.1 ++ t.2, t.1 ++ ':' :: t.2] := by
    refine hnormal _ fun s hs => ?_
    obtain ⟨t, ht, hs⟩ := List.mem_flatMap.1 hs
    rcases List.mem_pair.1 hs with rfl | rfl
    · exact (mem_times ht).chars.1
    · exact (mem_times ht).chars.2
  have hwordsNormal : ((codeWords (m.upper text)).filter fun w => !isCommonSmsWord w).map (normalizeSmsCode m) =
      (codeWords (m.upper text)).filter fun w => !isCommonSmsWord w := by
    refine hnormal _ fun s hs a ha => ?_
    unfold isTimeChar
    rw [mem_codeWords (List.mem_filter.1 hs).1 a ha]
    rfl
  unfold candidates
  rw [List.map_append, List.map_append, List.mem_append, List.mem_append, hnumbers, or_assoc]
  refine or_congr ?_ (or_congr_right ?_)
  · cases hasKeyword m text with
    | false => simp
    | true =>
      rw [if_pos rfl, htimes, htimesNormal]
      simp
  · cases hasKeyword m text with
    | false => simp
    | true =>
      rw [if_pos rfl, hwords, hwordsNormal]
      simp

/-! ## Blank texts -/

/-- A keyword has a character that is no white space. -/
theorem word_keywords {ks : List String} {f : Char → List Char}
    (hks : (ks.all fun k => k.toList.head?.any fun c => (f c).all fun a => !isAnySpace a) = true) {w : List Char}
    {g : List (Nat × List Char)} (h : Word (alts (ks.map fun k => seqs (k.toList.map fun c => .unit (· ∈ f c)))) w g) :
    ∃ a ∈ w, (!isAnySpace a) = true := by
  induction ks with
  | nil =>
    obtain ⟨a, ha, -⟩ := word_unit.1 h
    cases ha
  | cons k ks ih =>
    rw [List.all_cons, Bool.and_eq_true] at hks
    rcases word_alt.1 h with h | h
    · cases hk : k.toList with
      | nil =>
        rw [hk] at hks
        cases hks.1
      | cons c l =>
        dsimp only at h
        rw [hk] at hks h
        obtain ⟨u, v, x, y, hu, hv, rfl, rfl⟩ := word_seq.1 h
        obtain ⟨a, ha, rfl, rfl⟩ := word_unit.1 hu
        exact ⟨a, List.mem_cons_self .., List.all_eq_true.1 hks.1 a (of_decide_eq_true ha)⟩
    · exact ih hks.2 h

theorem test_eq_false {r : Regex Char} {s : List Char} (h : findAll r s = []) : test r s = false := by
  unfold test exec
  rw [h]
  rfl

theorem numbers_blank {space : Char → Bool} (hspace : ∀ c, space c = true → c.isDigit = false) {text : List Char}
    (h : ∀ c ∈ text, isAnySpace c = true) : findAll (numericPattern space) text = [] := by
  refine findAll_eq_nil (c := Char.isDigit) (fun w g hw => ?_) fun c hc => ?_
  · obtain ⟨⟨lead, trail, hsplit, -⟩, hspaced, hlen⟩ := word_number hspace hw
    obtain ⟨c, hc⟩ := List.exists_mem_of_length_pos (Nat.lt_of_lt_of_le (Nat.zero_lt_succ 4) hlen)
    refine ⟨c, ?_, (List.mem_filter.1 hc).2⟩
    rw [hsplit]
    exact List.mem_append_right _ (List.mem_append_left _ (List.mem_filter.1 hc).1)
  · rw [← Bool.not_eq_true]
    intro hd
    have := isAnySpace_timeChar (isTimeChar_of_isDigit hd)
    rw [h c hc] at this
    cases this

theorem candidates_blank (m : CaseMapping) {text : List Char} (h : trimText text = []) : candidates m text = [] := by
  have hspace : ∀ c ∈ text, isAnySpace c = true := fun c hc => Bool.or_eq_true _ _ ▸ .inl (trimmed_eq_nil h c hc)
  have hkeyword : hasKeyword m text = false := by
    unfold hasKeyword
    rw [m.lower_space text hspace]
    refine test_eq_false (findAll_eq_nil (c := fun a => !isAnySpace a) (fun w g hw => ?_) fun c hc => ?_)
    · obtain ⟨k, hw, -⟩ := word_group.1 hw
      exact word_keywords (by decide) hw
    · rw [hspace c hc]
      rfl
  unfold candidates numericCodeRe
  rw [hkeyword, numbers_blank not_digit_of_isReSpace hspace]
  rfl

theorem detectSmsCodes_eq (m : CaseMapping) (text : List Char) :
    detectSmsCodes m text = sortCodes (((candidates m text).map (normalizeSmsCode m)).foldl keep []) := by
  have hfold : (candidates m text).foldl (addCode m) [] = ((candidates m text).map (normalizeSmsCode m)).foldl keep [] := by
    rw [List.foldl_map]
    exact congrArg (fun f => (candidates m text).foldl f []) (funext fun out => funext fun raw => addCode_eq m out raw)
  unfold detectSmsCodes
  split_ifs with h
  · rw [candidates_blank m h]
    rfl
  · rw [hfold]

end Gafam.Relay
