import Gafam.Go.Text
import Gafam.Lib.RegexRules
import Mathlib.Data.List.TakeWhile
import Mathlib.Tactic.Common

/-!
# Characters and words of a text

The classes of characters that regular expressions use, and the case mappings of a runtime. Of the case mappings
only what the Unicode tables say about ASCII and about white space is used.
-/

namespace Gafam.Lib

open Gafam.Go (isSpace)

instance lawfulBEq_chars : LawfulBEq (List Char) := inferInstance

/-- `\\w` -/
def isWordChar (c : Char) : Bool := c.isAlphanum || c = '_'

/-- `[A-Z0-9]` -/
def isCodeChar (c : Char) : Bool := c.isUpper || c.isDigit

/-- The white space of ECMAScript, which `\\s` and `trim` look for. -/
def isJsSpace (c : Char) : Bool := isSpace c.toNat && c.toNat != 0x85 || c.toNat == 0xFEFF

/-- White space to either runtime. -/
def isAnySpace (c : Char) : Bool := isSpace c.toNat || isJsSpace c

/-- The text without the characters at its two ends that have a property. -/
def trimmed (p : Char → Bool) (s : List Char) : List Char := ((s.dropWhile p).reverse.dropWhile p).reverse

/-- How a runtime writes a text in small letters and in capitals. -/
structure CaseMapping where
  lower : List Char → List Char
  upper : List Char → List Char
  lower_space : ∀ s, (∀ c ∈ s, isAnySpace c = true) → lower s = s
  upper_ascii : ∀ s, (∀ c ∈ s, c.toNat < 128) → upper s = s.map Char.toUpper

theorem isDigit_iff {c : Char} : c.isDigit = true ↔ 48 ≤ c.toNat ∧ c.toNat ≤ 57 := by
  simp [Char.isDigit, UInt32.le_iff_toNat_le]

theorem isUpper_iff {c : Char} : c.isUpper = true ↔ 65 ≤ c.toNat ∧ c.toNat ≤ 90 := by
  show decide (c.val ≥ 'A'.val ∧ c.val ≤ 'Z'.val) = true ↔ _
  simp [UInt32.le_iff_toNat_le]

/-- Capitals, digits and the colon stand for themselves in capitals, and are no white space. -/
def isTimeChar (c : Char) : Bool := isCodeChar c || c = ':'

theorem isTimeChar_iff {c : Char} :
    isTimeChar c = true ↔ 48 ≤ c.toNat ∧ c.toNat ≤ 58 ∨ 65 ≤ c.toNat ∧ c.toNat ≤ 90 := by
  have hcolon : c = ':' ↔ c.toNat = 58 := ⟨fun h => h ▸ rfl, fun h => Char.toNat_inj.1 h⟩
  unfold isTimeChar isCodeChar
  rw [Bool.or_eq_true, Bool.or_eq_true, isUpper_iff, isDigit_iff, decide_eq_true_eq, hcolon]
  omega

theorem isTimeChar_of_isDigit {c : Char} (h : c.isDigit = true) : isTimeChar c = true := by
  rw [isDigit_iff] at h
  rw [isTimeChar_iff]
  omega

theorem isAnySpace_timeChar {c : Char} (h : isTimeChar c = true) : isAnySpace c = false := by
  rw [isTimeChar_iff] at h
  unfold isAnySpace isJsSpace isSpace
  simp
  omega

theorem toUpper_timeChar {c : Char} (h : isTimeChar c = true) : c.toUpper = c := by
  rw [isTimeChar_iff] at h
  unfold Char.toUpper
  rw [dif_neg]
  simp only [UInt32.le_iff_toNat_le, Char.toNat_val]
  show ¬(97 ≤ c.toNat ∧ c.toNat ≤ 122)
  omega

theorem CaseMapping.upper_times (m : CaseMapping) {s : List Char} (h : ∀ c ∈ s, isTimeChar c = true) :
    m.upper s = s := by
  rw [m.upper_ascii s fun c hc => by
    have := isTimeChar_iff.1 (h c hc)
    omega]
  exact (List.map_congr_left fun c hc => toUpper_timeChar (h c hc)).trans (List.map_id s)

theorem trimmed_eq_nil {p : Char → Bool} {s : List Char} (h : trimmed p s = []) : ∀ c ∈ s, p c = true := by
  have hfront := List.dropWhile_eq_nil_iff.1 (List.reverse_eq_nil_iff.1 h)
  rw [← List.takeWhile_append_dropWhile (p := p) (l := s)]
  refine List.forall_mem_append.2 ⟨fun c hc => List.mem_takeWhile_imp hc, fun c hc => ?_⟩
  exact hfront c (List.mem_reverse.2 hc)

/-- A text that neither starts nor ends with such a character is left alone. -/
theorem trimmed_eq_self {p : Char → Bool} {s : List Char} (hfirst : ∀ c ∈ s.head?, p c = false)
    (hlast : ∀ c ∈ s.getLast?, p c = false) : trimmed p s = s := by
  have hdrop (l : List Char) (h : ∀ c ∈ l.head?, p c = false) : l.dropWhile p = l := by
    cases l with
    | nil => rfl
    | cons a l => exact List.dropWhile_cons_of_neg (by rw [h a rfl]; exact Bool.false_ne_true)
  unfold trimmed
  rw [hdrop s hfirst, hdrop s.reverse (by rw [List.head?_reverse]; exact hlast), List.reverse_reverse]

/-!
## Words of a text

The words of a text are its longest stretches of word characters. An expression between two word boundaries that
matches word characters only finds whole words, one after the other.
-/

open Regex

variable {α : Type} (isWord : α → Bool)

/-- The longest stretches of word characters. -/
def words (s : List α) : List (List α) := (s.splitOnP fun a => !isWord a).filter fun w => !w.isEmpty

/-- A word character stands on one side of the place and none on the other. -/
def boundary (before rest : List α) : Bool := before.head?.any isWord != rest.head?.any isWord

/-- `\\b` -/
def wordBoundary : Regex α := .assert (boundary isWord)

/-- An expression between word boundaries. -/
def wholeWord (r : Regex α) : Regex α := seqs [wordBoundary isWord, r, wordBoundary isWord]

variable {isWord}

theorem words_append_cons {a : α} (ha : isWord a = false) (s t : List α) :
    words isWord (s ++ a :: t) = words isWord s ++ words isWord t := by
  unfold words
  rw [List.splitOnP_append_cons s t (by rw [ha]; rfl), List.filter_append]

theorem words_cons {a : α} (ha : isWord a = false) (s : List α) : words isWord (a :: s) = words isWord s :=
  words_append_cons ha [] s

theorem words_word {w : List α} (hw : ∀ a ∈ w, isWord a = true) (hne : w ≠ []) : words isWord w = [w] := by
  unfold words
  rw [List.splitOnP_eq_singleton fun a ha => by rw [hw a ha]; rfl]
  simp [hne]

/-- A word in front of a text that does not start with a word character. -/
theorem words_word_append {w s : List α} (hw : ∀ a ∈ w, isWord a = true) (hne : w ≠ [])
    (hs : ∀ a ∈ s.head?, isWord a = false) : words isWord (w ++ s) = w :: words isWord s := by
  cases s with
  | nil =>
    rw [List.append_nil]
    exact words_word hw hne
  | cons a s =>
    have ha := hs a rfl
    rw [words_append_cons ha, words_word hw hne, words_cons ha]
    rfl

/-! ### Whole words are found -/

/-- An expression that matches the texts with a property, all of them made of word characters, and takes the groups
`k` from them. -/
structure Takes (isWord : α → Bool) (r : Regex α) (ok : List α → Bool) (k : List α → List (Nat × List α)) : Prop where
  run : ∀ p q, q ∈ r.run p ↔ ∃ w rest, p.rest = w ++ rest ∧ ok w = true ∧ q = Place.after p w rest (k w)
  nonempty : ∀ w, ok w = true → w ≠ []
  isWord : ∀ w, ok w = true → ∀ a ∈ w, isWord a = true

section
variable {r : Regex α} {ok : List α → Bool} {k : List α → List (Nat × List α)}

theorem Takes.group (h : Takes isWord r ok k) (n : Nat) : Takes isWord (.group n r) ok fun w => (n, w) :: k w where
  run p q := by
    have htake (w rest : List α) (hp : p.rest = w ++ rest) : p.rest.take (p.rest.length - rest.length) = w := by
      rw [hp, List.length_append, Nat.add_sub_cancel, List.take_left]
    constructor
    · intro hq
      obtain ⟨t, ht, rfl⟩ := List.mem_map.1 hq
      obtain ⟨w, rest, hp, hw, rfl⟩ := (h.run p t).1 ht
      exact ⟨w, rest, hp, hw, by simp only [Place.after, htake w rest hp, List.cons_append]⟩
    · rintro ⟨w, rest, hp, hw, rfl⟩
      refine List.mem_map.2 ⟨_, (h.run p _).2 ⟨w, rest, hp, hw, rfl⟩, ?_⟩
      simp only [Place.after, htake w rest hp, List.cons_append]
  nonempty := h.nonempty
  isWord := h.isWord

theorem takes_between {c : α → Bool} (hc : ∀ a, c a = true → isWord a = true) {m : Nat} (hm : 0 < m) (n : Nat) :
    Takes isWord (between (.unit c) m n) (fun w => w.all c && (m ≤ w.length && w.length ≤ m + n)) fun _ => [] where
  run p q := by
    rw [mem_run_between]
    simp only [Bool.and_eq_true, List.all_eq_true, decide_eq_true_eq]
    constructor
    · rintro ⟨w, rest, hp, hlen, hall, rfl⟩
      exact ⟨w, rest, hp, ⟨hall, hlen⟩, rfl⟩
    · rintro ⟨w, rest, hp, ⟨hall, hlen⟩, rfl⟩
      exact ⟨w, rest, hp, hlen, hall, rfl⟩
  nonempty w hw := by
    rintro rfl
    simp only [List.all_nil, List.length_nil, Bool.and_eq_true, decide_eq_true_eq] at hw
    omega
  isWord w hw a ha := hc a (List.all_eq_true.1 (Bool.and_eq_true _ _ ▸ hw).1 a ha)

theorem mem_run_wholeWord (h : Takes isWord r ok k) {p q : Place α} :
    q ∈ (wholeWord isWord r).run p ↔ boundary isWord p.before p.rest = true ∧
      ∃ w rest, p.rest = w ++ rest ∧ ok w = true ∧ q = Place.after p w rest (k w) ∧
        boundary isWord (w.reverse ++ p.before) rest = true := by
  have hassert (c : List α → List α → Bool) (s : Regex α) (p q : Place α) :
      q ∈ (seq (.assert c) s).run p ↔ c p.before p.rest = true ∧ q ∈ s.run p := by
    show q ∈ (run (.assert c) p).flatMap s.run ↔ _
    unfold run
    split_ifs with hc
    · simp [hc]
    · simp [hc]
  unfold wholeWord wordBoundary seqs
  rw [hassert]
  refine and_congr_right fun _ => ?_
  constructor
  · intro hq
    obtain ⟨t, ht, hq⟩ := List.mem_flatMap.1 hq
    obtain ⟨w, rest, hp, hw, rfl⟩ := (h.run p t).1 ht
    obtain ⟨hbehind, hq⟩ := (hassert _ _ _ _).1 hq
    exact ⟨w, rest, hp, hw, List.mem_singleton.1 hq, hbehind⟩
  · rintro ⟨w, rest, hp, hw, rfl, hbehind⟩
    exact List.mem_flatMap.2 ⟨_, (h.run p _).2 ⟨w, rest, hp, hw, rfl⟩,
      (hassert _ _ _ _).2 ⟨hbehind, List.mem_singleton_self _⟩⟩

/-- Nothing is found in front of what is no word character. -/
theorem run_wholeWord_other (h : Takes isWord r ok k) {p : Place α} (hp : ∀ a ∈ p.rest.head?, isWord a = false) :
    (wholeWord isWord r).run p = [] := by
  refine List.eq_nil_iff_forall_not_mem.2 fun q hq => ?_
  obtain ⟨-, w, rest, hrest, hw, -⟩ := (mem_run_wholeWord h).1 hq
  obtain ⟨a, w, rfl⟩ := List.exists_cons_of_ne_nil (h.nonempty w hw)
  have ha := h.isWord _ hw a (List.mem_cons_self ..)
  rw [hp a (by rw [hrest]; rfl)] at ha
  cases ha

/-- Nothing is found inside a word. -/
theorem run_wholeWord_inside (h : Takes isWord r ok k) {p : Place α} (hbefore : p.before.head?.any isWord = true)
    (hrest : p.rest.head?.any isWord = true) : (wholeWord isWord r).run p = [] := by
  refine List.eq_nil_iff_forall_not_mem.2 fun q hq => ?_
  have hboundary := ((mem_run_wholeWord h).1 hq).1
  unfold boundary at hboundary
  rw [hbefore, hrest] at hboundary
  cases hboundary

/-- In front of a word only the whole word is found. -/
theorem run_wholeWord_word (h : Takes isWord r ok k) {p : Place α} {w s : List α} (hp : p.rest = w ++ s)
    (hw : ∀ a ∈ w, isWord a = true) (hne : w ≠ []) (hs : s.head?.any isWord = false)
    (hbefore : p.before.head?.any isWord = false) :
    ((wholeWord isWord r).run p).head? = if ok w = true then some (Place.after p w s (k w)) else none := by
  have hlast : (w.reverse ++ p.before).head?.any isWord = true := by
    rw [List.head?_append_of_ne_nil _ (List.reverse_ne_nil_iff.2 hne), List.head?_reverse,
      List.getLast?_eq_some_getLast hne]
    exact hw _ (List.getLast_mem hne)
  have hfirst : (w ++ s).head?.any isWord = true := by
    obtain ⟨a, w, rfl⟩ := List.exists_cons_of_ne_nil hne
    exact hw a (List.mem_cons_self ..)
  have honly : ∀ q ∈ (wholeWord isWord r).run p, ok w = true ∧ q = Place.after p w s (k w) := by
    intro q hq
    obtain ⟨-, u, rest, hrest, hu, rfl, hbehind⟩ := (mem_run_wholeWord h).1 hq
    rw [hp] at hrest
    rcases List.append_eq_append_iff.1 hrest with ⟨x, rfl, rfl⟩ | ⟨x, rfl, rfl⟩
    · -- More than the word: what follows it would be a word character.
      cases x with
      | nil =>
        rw [List.append_nil] at hu ⊢
        exact ⟨hu, rfl⟩
      | cons a x =>
        have ha := h.isWord _ hu a (List.mem_append_right _ (List.mem_cons_self ..))
        rw [show ((a :: x) ++ rest).head?.any isWord = isWord a from rfl, ha] at hs
        cases hs
    · cases x with
      | nil =>
        rw [List.append_nil] at *
        exact ⟨hu, rfl⟩
      | cons a x =>
        -- Less than the word: there is no boundary behind it.
        have hune := h.nonempty u hu
        have hulast : (u.reverse ++ p.before).head?.any isWord = true := by
          rw [List.head?_append_of_ne_nil _ (List.reverse_ne_nil_iff.2 hune), List.head?_reverse,
            List.getLast?_eq_some_getLast hune]
          exact h.isWord u hu _ (List.getLast_mem hune)
        unfold boundary at hbehind
        rw [hulast, show ((a :: x) ++ s).head?.any isWord = isWord a from rfl,
          hw a (List.mem_append_right _ (List.mem_cons_self ..))] at hbehind
        cases hbehind
  split_ifs with hok
  · have hmem : Place.after p w s (k w) ∈ (wholeWord isWord r).run p := by
      refine (mem_run_wholeWord h).2 ⟨?_, w, s, hp, hok, rfl, ?_⟩
      · unfold boundary
        rw [hbefore, hp, hfirst]
        rfl
      · unfold boundary
        rw [hlast, hs]
        rfl
    obtain ⟨q, l, hql⟩ := List.exists_cons_of_ne_nil (List.ne_nil_of_mem hmem)
    rw [hql, List.head?_cons, (honly q (hql ▸ List.mem_cons_self ..)).2]
  · have hnil : (wholeWord isWord r).run p = [] :=
      List.eq_nil_iff_forall_not_mem.2 fun q hq => hok (honly q hq).1
    rw [hnil]
    rfl

/-- The matches among pieces. -/
def foundIn (l : List (Piece α)) : List (List α × List (Nat × List α)) := l.filterMap fun
  | .plain _ => none
  | .found w groups => some (w, groups)

/-- The rest of a word is passed over. -/
theorem scan_inside (h : Takes isWord r ok k) {fuel : Nat} {before v s : List α}
    (hbefore : before.head?.any isWord = true) (hv : ∀ a ∈ v, isWord a = true) :
    foundIn (scan (wholeWord isWord r) (fuel + v.length) before (v ++ s)) =
      foundIn (scan (wholeWord isWord r) fuel (v.reverse ++ before) s) := by
  induction v generalizing before with
  | nil => rfl
  | cons a v ih =>
    have ha := hv a (List.mem_cons_self ..)
    rw [List.length_cons, ← Nat.add_assoc, List.cons_append, scan_none (run_wholeWord_inside h hbefore ha)]
    show foundIn (scan (wholeWord isWord r) (fuel + v.length) (a :: before) (v ++ s)) = _
    rw [ih (show (a :: before).head?.any isWord = true from ha) fun b hb => hv b (List.mem_cons_of_mem _ hb),
      List.reverse_cons, List.append_assoc]
    rfl

/-- From a place that is not inside a word on, the words that the expression takes are found. -/
theorem scan_wholeWord (h : Takes isWord r ok k) (fuel : Nat) (before rest : List α) (hfuel : rest.length < fuel)
    (hplace : before.head?.any isWord = false ∨ rest.head?.any isWord = false) :
    foundIn (scan (wholeWord isWord r) fuel before rest) =
      ((words isWord rest).filter ok).map fun w => (w, k w) := by
  induction hn : rest.length using Nat.strongRecOn generalizing fuel before rest with
  | _ n ih =>
    obtain ⟨fuel, rfl⟩ := Nat.exists_eq_succ_of_ne_zero (Nat.ne_zero_of_lt hfuel)
    cases rest with
    | nil =>
      unfold scan
      rw [run_wholeWord_other h fun a ha => by cases ha]
      rfl
    | cons a rest =>
      rw [List.length_cons] at hn hfuel
      by_cases ha : isWord a = true
      · have hbefore : before.head?.any isWord = false := hplace.resolve_right fun h => by
          rw [show (a :: rest).head?.any isWord = isWord a from rfl, ha] at h
          cases h
        obtain ⟨w, s, hsplit, hw, hs⟩ : ∃ w s, rest = w ++ s ∧ (∀ b ∈ w, isWord b = true) ∧
            s.head?.any isWord = false := by
          refine ⟨rest.takeWhile isWord, rest.dropWhile isWord, List.takeWhile_append_dropWhile.symm,
            fun b hb => List.mem_takeWhile_imp hb, ?_⟩
          have := List.head?_dropWhile_not isWord rest
          cases hd : (rest.dropWhile isWord).head? with
          | none => rfl
          | some b =>
            rw [hd] at this
            simpa using this
        subst hsplit
        have hall : ∀ b ∈ a :: w, isWord b = true := List.forall_mem_cons.2 ⟨ha, hw⟩
        have hsother : ∀ b ∈ s.head?, isWord b = false := fun b hb => by
          rw [Option.mem_def.1 hb] at hs
          exact hs
        have hhead := run_wholeWord_word h (p := ⟨before, a :: (w ++ s), []⟩) (w := a :: w) rfl hall
          (List.cons_ne_nil _ _) hs hbefore
        have hrec (fuel : Nat) (before : List α) (hfuel : s.length < fuel) :=
          ih s.length (by rw [List.length_append] at hn; omega) fuel before s hfuel (.inr hs) rfl
        rw [← List.cons_append, words_word_append hall (List.cons_ne_nil _ _) hsother, List.filter_cons,
          List.cons_append]
        unfold scan
        rw [hhead]
        by_cases hok : ok (a :: w) = true
        · rw [if_pos hok, if_pos hok]
          have hlen : s.length < (a :: (w ++ s)).length := by
            rw [List.length_cons, List.length_append]
            omega
          have htake : (a :: (w ++ s)).take ((a :: (w ++ s)).length - s.length) = a :: w := by
            rw [← List.cons_append, List.length_append, Nat.add_sub_cancel, List.take_left]
          show foundIn (if s.length < (a :: (w ++ s)).length then _ else _) = _
          rw [if_pos hlen]
          show foundIn (.found ((a :: (w ++ s)).take ((a :: (w ++ s)).length - s.length)) (k (a :: w) ++ []) ::
            scan (wholeWord isWord r) fuel ((a :: w).reverse ++ before) s) = _
          rw [htake, List.append_nil]
          refine congrArg (_ :: ·) (hrec fuel _ ?_)
          rw [List.length_append] at hfuel
          omega
        · rw [if_neg hok, if_neg hok]
          show foundIn (scan (wholeWord isWord r) fuel (a :: before) (w ++ s)) = _
          obtain ⟨extra, rfl⟩ : ∃ extra, fuel = extra + w.length := ⟨fuel - w.length, by
            rw [List.length_append] at hfuel
            omega⟩
          rw [scan_inside h (show (a :: before).head?.any isWord = true from ha) hw]
          refine hrec extra _ ?_
          rw [List.length_append] at hfuel
          omega
      · rw [Bool.not_eq_true] at ha
        have hnone := run_wholeWord_other h (p := ⟨before, a :: rest, []⟩) fun b hb => by
          rw [← Option.some.inj hb]
          exact ha
        rw [scan_none hnone, words_cons ha]
        exact ih rest.length (by omega) fuel (a :: before) rest (by omega) (.inl ha) rfl

/-- The expression finds the words that it takes. -/
theorem findAll_wholeWord (h : Takes isWord r ok k) (s : List α) :
    findAll (wholeWord isWord r) s = ((words isWord s).filter ok).map fun w => (w, k w) :=
  scan_wholeWord h _ [] s (Nat.lt_succ_self _) (.inl rfl)

end

end Gafam.Lib
