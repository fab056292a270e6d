import Gafam.Android.Logcat
import Gafam.Lib.Steps
import Mathlib.Data.List.DropRight

/-!
# The level of a line

The parsers look for the markers one after the other, anywhere in the line. They take the level of the line for what
it is if what it says has no marker that comes first.
-/

namespace Gafam.Android

open Gafam.Lib

/-! ## White space at the ends -/

section
variable {space : Char → Bool}

def trimEnd (space : Char → Bool) (s : Line) : Line := (s.reverse.dropWhile space).reverse

theorem trimmed_eq (s : Line) : trimmed space s = trimEnd space (s.dropWhile space) := rfl

theorem trimEnd_append_cons {c : Char} (hc : space c = false) (s t : Line) :
    trimEnd space (s ++ c :: t) = s ++ c :: trimEnd space t := by
  have hstop : ∀ l : Line, (l ++ c :: s.reverse).dropWhile space = l.dropWhile space ++ c :: s.reverse := by
    intro l
    induction l with
    | nil => exact List.dropWhile_cons_of_neg (by rw [hc]; exact Bool.false_ne_true)
    | cons d l ih =>
      rw [List.cons_append]
      by_cases hd : space d = true
      · rw [List.dropWhile_cons_of_pos hd, List.dropWhile_cons_of_pos hd, ih]
      · rw [List.dropWhile_cons_of_neg hd, List.dropWhile_cons_of_neg hd, List.cons_append]
  unfold trimEnd
  rw [List.reverse_append, List.reverse_cons, List.append_assoc, List.singleton_append, hstop]
  simp

theorem dropWhile_append_cons {c : Char} (hc : space c = false) (s t : Line) :
    (s ++ c :: t).dropWhile space = s.dropWhile space ++ c :: t := by
  induction s with
  | nil => exact List.dropWhile_cons_of_neg (by rw [hc]; exact Bool.false_ne_true)
  | cons d s ih =>
    rw [List.cons_append]
    by_cases hd : space d = true
    · rw [List.dropWhile_cons_of_pos hd, List.dropWhile_cons_of_pos hd, ih]
    · rw [List.dropWhile_cons_of_neg hd, List.dropWhile_cons_of_neg hd, List.cons_append]

theorem trimmed_dropWhile (s : Line) : trimmed space (s.dropWhile space) = trimmed space s := by
  rw [trimmed_eq, trimmed_eq, List.dropWhile_idempotent]

theorem trimEnd_all {s : Line} (h : ∀ c ∈ s, space c = true) : trimEnd space s = [] := by
  unfold trimEnd
  rw [List.reverse_eq_nil_iff, List.dropWhile_eq_nil_iff]
  exact fun c hc => h c (List.mem_reverse.1 hc)

theorem trimEnd_twice (s : Line) : trimEnd space (trimEnd space s) = trimEnd space s := by
  unfold trimEnd
  rw [List.reverse_reverse, List.dropWhile_idempotent]

/-- A text that is trimmed at its end can be trimmed as a whole. -/
theorem trimmed_trimEnd (s : Line) : trimmed space (trimEnd space s) = trimmed space s := by
  cases hdrop : s.dropWhile space with
  | nil =>
    rw [trimEnd_all (List.dropWhile_eq_nil_iff.1 hdrop), trimmed_eq, trimmed_eq, hdrop]
    rfl
  | cons c t =>
    -- cut at the first character that stays
    have hsplit := List.takeWhile_append_dropWhile (p := space) (l := s)
    have hc : space c = false := by
      have h := List.head?_dropWhile_not space s
      rw [hdrop] at h
      simpa using h
    have hfront : (s.takeWhile space).dropWhile space = [] :=
      List.dropWhile_eq_nil_iff.2 fun d hd => List.mem_takeWhile_imp hd
    have hhead : trimEnd space (c :: t) = c :: trimEnd space t := trimEnd_append_cons hc [] t
    have hend : trimEnd space s = s.takeWhile space ++ trimEnd space (c :: t) := by
      rw [hhead, ← trimEnd_append_cons hc, ← hdrop, hsplit]
    rw [trimmed_eq, trimmed_eq, hdrop, hend, hhead, dropWhile_append_cons hc, hfront, List.nil_append, ← hhead,
      trimEnd_twice]

theorem trimmed_cons {c : Char} (hc : space c = true) (s : Line) : trimmed space (c :: s) = trimmed space s := by
  rw [trimmed_eq, trimmed_eq, List.dropWhile_cons_of_pos hc]

end

/-! ## Places -/

theorem indexOf_eq_zero {s line : Line} (hs : s ≠ []) (h : s <+: line) : indexOf s line = some 0 := by
  cases line with
  | nil => exact absurd (List.prefix_nil.1 h) hs
  | cons c cs => exact if_pos (List.isPrefixOf_iff_prefix.2 h)

theorem indexOf_cons_of_not {s : Line} {c : Char} {cs : Line} (h : ¬ s <+: c :: cs) :
    indexOf s (c :: cs) = (indexOf s cs).map (· + 1) :=
  if_neg fun hp => h (List.isPrefixOf_iff_prefix.1 hp)

theorem indexOf_eq_none {s line : Line} (hs : s ≠ []) : indexOf s line = none ↔ ¬ s <:+: line := by
  induction line with
  | nil => exact ⟨fun _ h => hs (List.infix_nil.1 h), fun _ => if_neg hs⟩
  | cons c cs ih =>
    rw [List.infix_cons_iff, not_or, ← ih]
    by_cases hfront : s <+: c :: cs
    · rw [indexOf_eq_zero hs hfront]
      exact ⟨fun h => absurd h (Option.some_ne_none _), fun h => absurd hfront h.1⟩
    · rw [indexOf_cons_of_not hfront, Option.map_eq_none_iff]
      exact ⟨fun h => ⟨hfront, h⟩, fun h => h.2⟩

theorem indexOf_colon {s : Line} (h : ':' ∉ s) (t : Line) : indexOf [':'] (s ++ ':' :: t) = some s.length := by
  induction s with
  | nil => exact indexOf_eq_zero (List.cons_ne_nil _ _) ⟨t, rfl⟩
  | cons c s ih =>
    have hnot : ¬ [':'] <+: c :: (s ++ ':' :: t) := fun hp =>
      List.ne_of_not_mem_cons h (List.cons_prefix_cons.1 hp).1
    rw [List.cons_append, indexOf_cons_of_not hnot, ih (List.not_mem_of_not_mem_cons h)]
    rfl

/-! ## Markers -/

theorem marker_ne_nil (m : Char) : marker m ≠ [] := List.cons_ne_nil _ _

theorem marker_prefix_iff {m c : Char} {cs : Line} :
    marker m <+: c :: cs ↔ ' ' = c ∧ [m, ' '] <+: cs := List.cons_prefix_cons

/-- No marker of a letter begins in a text without it. -/
theorem marker_absent {m : Char} (hm : m ≠ ' ') {c : Char} {s : Line} (hs : m ∉ s) (t : Line) :
    ¬ marker m <+: c :: (s ++ ' ' :: t) := by
  rw [marker_prefix_iff]
  rintro ⟨-, h⟩
  cases s with
  | nil => exact hm (List.cons_prefix_cons.1 h).1
  | cons d s => exact hs ((List.cons_prefix_cons.1 h).1 ▸ List.mem_cons_self ..)

theorem indexOf_marker {m : Char} (hm : m ≠ ' ') {s : Line} (hs : m ∉ s) (t : Line) :
    indexOf (marker m) (s ++ ' ' :: m :: ' ' :: t) = some s.length := by
  induction s with
  | nil => exact indexOf_eq_zero (marker_ne_nil m) ⟨t, rfl⟩
  | cons c s ih =>
    have hs := List.not_mem_of_not_mem_cons hs
    rw [List.cons_append, indexOf_cons_of_not (marker_absent hm hs _), ih hs]
    rfl

/-- Another marker stands behind the level, if anywhere. -/
theorem marker_infix_iff {m level : Char} (hm : m ≠ ' ') (hlevel : level ≠ ' ') (hne : m ≠ level) {s : Line}
    (hs : m ∉ s) (t : Line) : marker m <:+: s ++ ' ' :: level :: t ↔ marker m <:+: t := by
  induction s with
  | nil =>
    have h1 : ¬ marker m <+: ' ' :: level :: t := by
      rw [marker_prefix_iff]
      exact fun h => hne (List.cons_prefix_cons.1 h.2).1
    have h2 : ¬ marker m <+: level :: t := by
      rw [marker_prefix_iff]
      exact fun h => hlevel h.1.symm
    rw [List.nil_append, List.infix_cons_iff, List.infix_cons_iff, or_iff_right h1, or_iff_right h2]
  | cons c s ih =>
    have hs := List.not_mem_of_not_mem_cons hs
    rw [List.cons_append, List.infix_cons_iff, or_iff_right (marker_absent hm hs _), ih hs]

/-- The first of the letters that something is found for. -/
theorem findSome_first {β : Type} {f : Char → Option β} {level : Char} {l : List Char} (hl : level ∈ l)
    {r : β} (hr : f level = some r) :
    (∀ m ∈ l.takeWhile (· ≠ level), f m = none) ∧ l.findSome? f = some r ∨
      ∃ m ∈ l.takeWhile (· ≠ level), ∃ r', f m = some r' ∧ l.findSome? f = some r' := by
  induction l with
  | nil => exact absurd hl List.not_mem_nil
  | cons c l ih =>
    by_cases hc : c = level
    · subst hc
      refine .inl ⟨?_, by rw [List.findSome?_cons, hr]⟩
      rw [List.takeWhile_cons_of_neg (by simp)]
      exact fun m hm => absurd hm List.not_mem_nil
    · rw [List.takeWhile_cons_of_pos (by simp [hc]), List.findSome?_cons]
      cases hfc : f c with
      | some r' => exact .inr ⟨c, List.mem_cons_self .., r', hfc, rfl⟩
      | none =>
        rcases ih ((List.mem_cons.1 hl).resolve_left (Ne.symm hc)) with ⟨hnone, hfind⟩ | ⟨m, hm, r', hr', hfind⟩
        · exact .inl ⟨List.forall_mem_cons.2 ⟨hfc, hnone⟩, hfind⟩
        · exact .inr ⟨m, List.mem_cons_of_mem _ hm, r', hr', hfind⟩

namespace ThreadTime

variable (l : ThreadTime)

theorem levels_plain : ∀ m ∈ levels, m ≠ ' ' ∧ ¬ (m.isDigit = true ∨ m = '-' ∨ m = ':' ∨ m = '.') :=
  Go.forall_of_all (by decide)

theorem stamp_plain : ∀ m ∈ levels, m ∉ l.stamp := by
  intro m hm hmem
  obtain ⟨hspace, hno⟩ := levels_plain m hm
  have hd : ∀ w : Line, (∀ c ∈ w, c ∈ l.date ++ l.time ++ l.pid ++ l.tid) → m ∉ w :=
    fun w hw hmw => hno (l.digits m (hw m hmw))
  have hdate := hd l.date (by simp +contextual)
  have htime := hd l.time (by simp +contextual)
  have hpid := hd l.pid (by simp +contextual)
  have htid := hd l.tid (by simp +contextual)
  simp [stamp, hspace, hdate, htime, hpid, htid] at hmem

/-- The five columns in front of the tag are five spaces or more. -/
theorem length_split : min 6 (l.text.count ' ' + 1) = 6 := by
  have hcount : 5 ≤ l.text.count ' ' := by
    simp only [text, stamp, body, List.count_append, List.count_cons_self, List.count_cons]
    omega
  omega

/-- Only in front of markers that the body has, the level is not found. -/
theorem firstMarker_text :
    (l.Unmarked ∧ firstMarker l.text = some (l.level, l.stamp.length)) ∨
      ¬ l.Unmarked ∧ ∃ m idx, m ≠ l.level ∧ m ∈ levels ∧ firstMarker l.text = some (m, idx) := by
  have hlevel := levels_plain _ l.level_mem
  have hown : indexOf (marker l.level) l.text = some l.stamp.length := by
    have h := indexOf_marker hlevel.1 (l.stamp_plain _ l.level_mem) (l.tag ++ ':' :: ' ' :: l.message)
    exact h
  have hother : ∀ m ∈ levels.takeWhile (· ≠ l.level),
      ((indexOf (marker m) l.text).map fun idx => (m, idx)) = none ↔ ¬ marker m <:+: l.body := by
    intro m hm
    have hmem := (List.takeWhile_sublist _).subset hm
    have hne : m ≠ l.level := by simpa using List.mem_takeWhile_imp hm
    rw [Option.map_eq_none_iff, indexOf_eq_none (marker_ne_nil m),
      text, marker_infix_iff (levels_plain m hmem).1 hlevel.1 hne (l.stamp_plain m hmem)]
  have hfound : ((indexOf (marker l.level) l.text).map fun idx => (l.level, idx)) =
      some (l.level, l.stamp.length) := by rw [hown]; rfl
  rcases findSome_first (f := fun m => (indexOf (marker m) l.text).map fun idx => (m, idx)) l.level_mem hfound with
    ⟨hnone, hfind⟩ | ⟨m, hm, r, hr, hfind⟩
  · exact .inl ⟨fun m hm => (hother m hm).1 (hnone m hm), hfind⟩
  · obtain ⟨idx, -, rfl⟩ := Option.map_eq_some_iff.1 hr
    refine .inr ⟨fun h => ?_, m, idx, by simpa using List.mem_takeWhile_imp hm,
      (List.takeWhile_sublist _).subset hm, hfind⟩
    rw [(hother m hm).2 (h m hm)] at hr
    exact absurd hr (Option.some_ne_none _).symm

variable {space : Char → Bool}

/-- What stands behind the level, trimmed: the colon of the tag is the first one. -/
theorem trimmed_body (hcolon : space ':' = false) :
    trimmed space (l.text.drop (l.stamp.length + (marker l.level).length)) =
      l.tag.dropWhile space ++ ':' :: trimEnd space (' ' :: l.message) := by
  have hdrop : l.text.drop (l.stamp.length + (marker l.level).length) = l.tag ++ ':' :: ' ' :: l.message := by
    rw [← List.drop_drop, text, List.drop_left]
    rfl
  rw [hdrop, trimmed_eq, dropWhile_append_cons hcolon, trimEnd_append_cons hcolon]

theorem indexOf_body (space : Char → Bool) (t : Line) :
    indexOf [':'] (l.tag.dropWhile space ++ ':' :: t) = some (l.tag.dropWhile space).length :=
  indexOf_colon (fun h => l.no_colon ((List.dropWhile_sublist _).subset h)) t

theorem trimmed_take (t : Line) :
    trimmed space ((l.tag.dropWhile space ++ ':' :: t).take (l.tag.dropWhile space).length) = trimmed space l.tag := by
  rw [List.take_left, trimmed_dropWhile]

theorem trimmed_drop (hblank : space ' ' = true) :
    trimmed space ((l.tag.dropWhile space ++ ':' :: trimEnd space (' ' :: l.message)).drop
      ((l.tag.dropWhile space).length + 1)) = trimmed space l.message := by
  rw [← List.drop_drop, List.drop_left, List.drop_one, List.tail_cons, trimmed_trimEnd, trimmed_cons hblank]

theorem trimmed_marker {m : Char} (hblank : space ' ' = true) (hm : space m = false) :
    trimmed space (marker m) = [m] := by
  rw [marker, trimmed_cons hblank]
  simp [trimmed, hblank, hm]

theorem rustSpace_levels : ∀ m ∈ levels, rustSpace m = false := Go.forall_of_all (by decide)

theorem kotlinSpace_levels : ∀ m ∈ levels, kotlinSpace m = false := Go.forall_of_all (by decide)

/-- The manager reads the line as it is if and only if no marker stands in front of its own in the order. -/
theorem parseLogcatLine_iff : parseLogcatLine l.text = l.entry rustSpace ↔ l.Unmarked := by
  rcases l.firstMarker_text with ⟨h, hfind⟩ | ⟨h, m, idx, hne, hm, hfind⟩
  · refine iff_of_true ?_ h
    rw [parseLogcatLine, hfind]
    dsimp only
    rw [l.trimmed_body (by decide), l.indexOf_body]
    dsimp only
    rw [l.trimmed_take, l.trimmed_drop (by decide), trimmed_marker (by decide) (rustSpace_levels _ l.level_mem)]
    rfl
  · refine iff_of_false (fun heq => hne ?_) h
    have hlevel : (parseLogcatLine l.text).level = [m] := by
      rw [parseLogcatLine, hfind]
      dsimp only
      cases indexOf [':'] (trimmed rustSpace (l.text.drop (idx + (marker m).length))) with
      | some colon => exact trimmed_marker (by decide) (rustSpace_levels m hm)
      | none => exact trimmed_marker (by decide) (rustSpace_levels m hm)
    rw [heq] at hlevel
    exact (List.cons.inj hlevel).1.symm

theorem trimmed_eq_nil_iff {s : Line} : s.dropWhile space = [] ↔ trimmed space s = [] := by
  refine ⟨fun h => by rw [trimmed_eq, h]; rfl, fun h => List.dropWhile_eq_nil_iff.2 (trimmed_eq_nil h)⟩

theorem splitTag_level (level tagMsg : Line) : (splitTag level tagMsg).level = level := by
  unfold splitTag
  dsimp only
  split_ifs <;> rfl

/-- A line without a tag is taken for one without a colon. -/
theorem splitTag_body :
    splitTag [l.level] (l.tag.dropWhile kotlinSpace ++ ':' :: trimEnd kotlinSpace (' ' :: l.message)) =
      l.entry kotlinSpace ↔ trimmed kotlinSpace l.tag ≠ [] := by
  rw [splitTag, l.indexOf_body, Option.getD_some]
  by_cases htag : l.tag.dropWhile kotlinSpace = []
  · rw [if_neg (by rw [htag]; exact Nat.lt_irrefl 0)]
    refine iff_of_false (fun heq => ?_) (fun hne => hne (trimmed_eq_nil_iff.1 htag))
    have heq := congrArg LogcatEntry.tag heq
    rw [entry, trimmed_eq_nil_iff.1 htag] at heq
    exact absurd heq (List.cons_ne_nil _ _)
  · rw [if_pos (List.length_pos_of_ne_nil htag), l.trimmed_take, l.trimmed_drop (by decide)]
    exact iff_of_true rfl (mt trimmed_eq_nil_iff.2 htag)

theorem parseAndEnqueueLogcat_iff :
    parseAndEnqueueLogcat l.text = l.entry kotlinSpace ↔ l.Unmarked ∧ trimmed kotlinSpace l.tag ≠ [] := by
  have hsplit : ¬ min 6 (l.text.count ' ' + 1) < 6 := by rw [l.length_split]; exact Nat.lt_irrefl 6
  rcases l.firstMarker_text with ⟨h, hfind⟩ | ⟨h, m, idx, hne, hm, hfind⟩
  · rw [parseAndEnqueueLogcat, if_neg hsplit, hfind, and_iff_right h]
    dsimp only
    rw [l.trimmed_body (by decide), trimmed_marker (by decide) (kotlinSpace_levels _ l.level_mem), l.splitTag_body]
  · refine iff_of_false (fun heq => hne ?_) (fun hno => h hno.1)
    have hlevel : (parseAndEnqueueLogcat l.text).level = [m] := by
      rw [parseAndEnqueueLogcat, if_neg hsplit, hfind]
      dsimp only
      rw [splitTag_level, trimmed_marker (by decide) (kotlinSpace_levels m hm)]
    rw [heq] at hlevel
    exact (List.cons.inj hlevel).1.symm

end ThreadTime

/-- Both parsers read a line as it is if and only if what stands behind its level has no marker that is tried
before its own, and it has a tag. -/
theorem parsers_iff (l : ThreadTime) :
    (parseLogcatLine l.text = l.entry rustSpace ∧ parseAndEnqueueLogcat l.text = l.entry kotlinSpace) ↔
      l.Unmarked ∧ trimmed kotlinSpace l.tag ≠ [] := by
  rw [l.parseLogcatLine_iff, l.parseAndEnqueueLogcat_iff]
  exact ⟨fun h => h.2, fun h => ⟨h.1, h⟩⟩

theorem gradePassed_digits :
    ∀ c ∈ "01-02".toList ++ "12:34:56.789".toList ++ "1234".toList ++ "5678".toList,
      c.isDigit = true ∨ c = '-' ∨ c = ':' ∨ c = '.' :=
  Go.forall_of_all (by decide)

/-- `01-02 12:34:56.789  1234  5678 E Tag: grade D passed` -/
def gradePassed : ThreadTime where
  date := "01-02".toList
  time := "12:34:56.789".toList
  fill := 1
  pid := "1234".toList
  fill' := 1
  tid := "5678".toList
  level := 'E'
  tag := "Tag".toList
  message := "grade D passed".toList
  digits := gradePassed_digits
  level_mem := by decide
  no_colon := by decide

set_option maxRecDepth 8000 in
theorem gradePassed_misread :
    ¬ (parseLogcatLine gradePassed.text = gradePassed.entry rustSpace ∧
      parseAndEnqueueLogcat gradePassed.text = gradePassed.entry kotlinSpace) := by
  decide

/-!
## What the collectors go on with

A window is what is left of the one before and the new lines. A collector goes on somewhere in it, and is right if
only blank lines lie between that place and the first of the new lines.
-/

variable {space : Char → Bool}

/-! ### Windows -/

theorem window_eq (g : Growth) (w : List Line) : g.window w = g.kept w ++ g.added w := List.drop_append

theorem nonBlank_append (a b : List Line) : nonBlank space (a ++ b) = nonBlank space a ++ nonBlank space b :=
  List.filter_append ..

theorem nonBlank_twice (a : List Line) : nonBlank space (nonBlank space a) = nonBlank space a := by
  unfold nonBlank
  rw [List.filter_filter]
  simp only [Bool.and_self]

theorem blanks_nil : Blanks space [] := rfl

/-- The lines from a place on agree with the new ones if only blank lines lie in between. -/
theorem nonBlank_drop_iff (kept added : List Line) (start : Nat) :
    nonBlank space ((kept ++ added).drop start) = nonBlank space added ↔
      Blanks space (kept.drop start) ∧ Blanks space (added.take (start - kept.length)) := by
  have hsplit : nonBlank space added =
      nonBlank space (added.take (start - kept.length)) ++ nonBlank space (added.drop (start - kept.length)) := by
    rw [← nonBlank_append, List.take_append_drop]
  rw [List.drop_append, nonBlank_append]
  rcases Nat.le_total start kept.length with hle | hle
  · rw [Nat.sub_eq_zero_of_le hle, List.drop_zero, List.take_zero, and_iff_left blanks_nil]
    exact ⟨fun h => List.self_eq_append_left.1 h.symm, fun h => by rw [show nonBlank space (kept.drop start) = [] from h]; rfl⟩
  · rw [List.drop_eq_nil_of_le hle, and_iff_right blanks_nil, show nonBlank space ([] : List Line) = [] from rfl,
      List.nil_append, hsplit]
    exact ⟨fun h => List.self_eq_append_left.1 h, fun h => by
      rw [show nonBlank space (added.take (start - kept.length)) = [] from h]; rfl⟩

theorem lastForty_iff (kept added : List Line) :
    nonBlank space ((kept ++ added).drop ((kept ++ added).length - 40)) = nonBlank space added ↔
      LastForty space kept added := by
  have hlen : kept.length + added.length - 40 - kept.length = added.length - 40 := by omega
  rw [nonBlank_drop_iff, List.length_append, hlen]
  rfl

theorem findIdx_first {last : Line} {a : List Line} (ha : last ∉ a) (b : List Line) :
    (a ++ last :: b).findIdx? (· == last) = some a.length := by
  induction a with
  | nil => rw [List.nil_append, List.findIdx?_cons, beq_self_eq_true, if_pos rfl]; rfl
  | cons x a ih =>
    have hx : (x == last) = false := beq_eq_false_iff_ne.2 fun h => ha (h ▸ List.mem_cons_self ..)
    rw [List.cons_append, List.findIdx?_cons, hx, if_neg Bool.false_ne_true,
      ih (List.not_mem_of_not_mem_cons ha)]
    rfl

theorem first_line_unique {last : Line} {a b a' b' : List Line} (ha : last ∉ a) (ha' : last ∉ a')
    (h : a ++ last :: b = a' ++ last :: b') : a = a' ∧ b = b' := by
  have hlen : a.length = a'.length := by
    have hfirst := findIdx_first ha b
    rw [h, findIdx_first ha' b'] at hfirst
    exact (Option.some.inj hfirst).symm
  obtain ⟨h1, h2⟩ := List.append_inj h hlen
  exact ⟨h1, (List.cons.inj h2).2⟩

/-! ### The manager -/

theorem emits_nonBlank {added lines : List Line} :
    Emits space added (nonBlank space lines) ↔ nonBlank space lines = nonBlank space added := by
  unfold Emits
  rw [nonBlank_twice]
  refine ⟨fun h => h.1, fun h => ⟨h, ?_⟩⟩
  rw [h]
  exact List.filter_sublist

theorem foundLast_iff {last : Line} {kept added : List Line} (hmem : last ∈ kept ++ added) :
    ∃ idx, (kept ++ added).findIdx? (· == last) = some idx ∧
      (nonBlank space ((kept ++ added).drop (idx + 1)) = nonBlank space added ↔ FoundLast space last kept added) := by
  by_cases hkept : last ∈ kept
  · obtain ⟨a, b, hsplit, ha⟩ := List.eq_append_cons_of_mem hkept
    subst hsplit
    refine ⟨a.length, by rw [List.append_assoc]; exact findIdx_first ha _, ?_⟩
    have hdrop : (a ++ last :: b).drop (a.length + 1) = b := by
      rw [← List.drop_drop, List.drop_left]
      rfl
    have hnone : a.length + 1 - (a ++ last :: b).length = 0 := by
      rw [List.length_append, List.length_cons]
      omega
    rw [nonBlank_drop_iff, hdrop, hnone, List.take_zero, and_iff_left blanks_nil]
    constructor
    · exact fun h => .inl ⟨a, b, rfl, ha, h⟩
    · rintro (⟨a', b', heq, ha', h⟩ | ⟨hno, -⟩)
      · exact (first_line_unique ha ha' heq).2 ▸ h
      · exact absurd hkept hno
  · obtain ⟨a, b, rfl, ha⟩ := List.eq_append_cons_of_mem ((List.mem_append.1 hmem).resolve_left hkept)
    have hfront : last ∉ kept ++ a := fun h => (List.mem_append.1 h).elim hkept ha
    refine ⟨(kept ++ a).length, by rw [← List.append_assoc]; exact findIdx_first hfront _, ?_⟩
    have hdrop : kept.drop ((kept ++ a).length + 1) = [] := List.drop_eq_nil_of_le (by rw [List.length_append]; omega)
    have htake : (a ++ last :: b).take ((kept ++ a).length + 1 - kept.length) = a ++ [last] := by
      rw [List.length_append, show kept.length + a.length + 1 - kept.length = a.length + 1 by omega,
        List.take_length_add_append]
      rfl
    rw [nonBlank_drop_iff, hdrop, htake, and_iff_right blanks_nil]
    constructor
    · exact fun h => .inr ⟨hkept, a, b, rfl, ha, h⟩
    · rintro (⟨a', b', rfl, -⟩ | ⟨-, a', b', heq, ha', h⟩)
      · exact absurd (List.mem_append_right _ (List.mem_cons_self ..)) hkept
      · exact (first_line_unique ha ha' heq).1 ▸ h

theorem ships_iff (p : Line × List Line) (g : Growth) :
    Collects shipAdbLogcat rustSpace p g ↔ ShipsOn p g := by
  unfold Collects ShipsOn shipAdbLogcat
  rw [window_eq]
  by_cases hnil : g.kept p.2 ++ g.added p.2 = []
  · obtain ⟨hkept, hadded⟩ := List.append_eq_nil_iff.1 hnil
    rw [if_pos hnil, hnil, if_neg fun h => List.not_mem_nil h.2, hkept, hadded]
    exact iff_of_true ⟨rfl, List.Sublist.refl _⟩ ⟨rfl, rfl⟩
  · rw [if_neg hnil]
    dsimp only
    rw [emits_nonBlank]
    by_cases hfind : p.1 ≠ [] ∧ p.1 ∈ g.kept p.2 ++ g.added p.2
    · obtain ⟨idx, hidx, hiff⟩ := @foundLast_iff rustSpace _ _ _ hfind.2
      rw [if_pos hfind, if_neg hfind.1, hidx]
      exact hiff
    · rw [if_neg hfind, ← lastForty_iff]
      by_cases hempty : p.1 = []
      · rw [if_pos hempty]
      · have hnone : (g.kept p.2 ++ g.added p.2).findIdx? (· == p.1) = none := by
          rw [List.findIdx?_eq_none_iff]
          exact fun x hx => beq_eq_false_iff_ne.2 fun h => hfind ⟨hempty, h ▸ hx⟩
        rw [if_neg hempty, hnone]
        rfl

/-! ### The app -/

/-- The last forty lines, whether the lines in front are dropped at once or one by one. -/
theorem lastForty_append (a b : List Line) :
    (a.drop (a.length - 40) ++ b).drop ((a.drop (a.length - 40) ++ b).length - 40) =
      (a ++ b).drop ((a ++ b).length - 40) := by
  simp only [List.length_append, List.length_drop]
  rw [List.drop_append, List.drop_append, List.drop_drop, List.length_drop]
  congr 2 <;> omega

theorem harvest_none (lines collected : List Line) (hlen : collected.length ≤ 40) :
    (lines.foldl (harvestLine none) (false, collected)).2 =
      (collected ++ lines).drop ((collected ++ lines).length - 40) := by
  induction lines generalizing collected with
  | nil =>
    rw [List.append_nil, Nat.sub_eq_zero_of_le hlen]
    rfl
  | cons l lines ih =>
    have hstep : harvestLine none (false, collected) l =
        (false, (collected ++ [l]).drop ((collected ++ [l]).length - 40)) := by
      unfold harvestLine
      rw [if_neg (by simp), if_pos rfl]
      by_cases hlong : 40 < (collected ++ [l]).length
      · have hone : (collected ++ [l]).length - 40 = 1 := by
          rw [List.length_append, List.length_singleton] at hlong ⊢
          omega
        rw [if_pos hlong, hone]
      · rw [if_neg hlong, Nat.sub_eq_zero_of_le (Nat.le_of_not_lt hlong), List.drop_zero]
    have hshort : ((collected ++ [l]).drop ((collected ++ [l]).length - 40)).length ≤ 40 := by
      rw [List.length_drop]
      omega
    rw [List.foldl_cons, hstep, ih _ hshort, lastForty_append, List.append_assoc, List.singleton_append]

theorem harvest_some_seen (last : Line) (lines collected : List Line) :
    (lines.foldl (harvestLine (some last)) (true, collected)).2 = collected ++ lines := by
  induction lines generalizing collected with
  | nil => exact (List.append_nil _).symm
  | cons l lines ih =>
    have hstep : harvestLine (some last) (true, collected) l = (true, collected ++ [l]) := rfl
    rw [List.foldl_cons, hstep, ih, List.append_assoc, List.singleton_append]

theorem harvest_some (last : Line) (lines : List Line) :
    (lines.foldl (harvestLine (some last)) (false, [])).2 =
      ((lines.findIdx? (· == last)).map fun idx => lines.drop (idx + 1)).getD [] := by
  induction lines with
  | nil => rfl
  | cons l lines ih =>
    rw [List.foldl_cons, List.findIdx?_cons]
    by_cases hl : l = last
    · have hstep : harvestLine (some last) (false, []) l = (true, []) := by simp [harvestLine, hl]
      rw [hstep, harvest_some_seen, hl, beq_self_eq_true, if_pos rfl]
      rfl
    · have hstep : harvestLine (some last) (false, []) l = (false, []) := by
        simp [harvestLine, Ne.symm hl]
      rw [hstep, ih, beq_eq_false_iff_ne.2 hl, if_neg Bool.false_ne_true, Option.map_map]
      cases lines.findIdx? (· == last) <;> rfl

theorem harvest_emits (last : Option Line) (lines : List Line) :
    (harvestOwnLogcat last lines).2 = (lines.foldl (harvestLine last) (false, [])).2 := by
  unfold harvestOwnLogcat
  dsimp only
  split_ifs with h
  · exact h.symm
  · rfl

/-- Old lines in front of all the new ones are too many. -/
theorem eq_nil_of_sublist {old added : List Line} (h : (old ++ added).Sublist added) : old = [] := by
  have hlen := h.length_le
  rw [List.length_append] at hlen
  exact List.eq_nil_of_length_eq_zero (by omega)

theorem harvests_none (kept added : List Line) :
    Emits space added ((kept ++ added).drop ((kept ++ added).length - 40)) ↔
      kept.drop (kept.length + added.length - 40) = [] ∧ Blanks space (added.take (added.length - 40)) := by
  have hj : kept.length + added.length - 40 - kept.length = added.length - 40 := by omega
  unfold Emits
  rw [lastForty_iff, List.length_append, List.drop_append, hj]
  constructor
  · rintro ⟨⟨-, hblank⟩, hsub⟩
    refine ⟨?_, hblank⟩
    by_cases hlong : 40 ≤ added.length
    · exact List.drop_eq_nil_of_le (by omega)
    · rw [show added.length - 40 = 0 by omega, List.drop_zero] at hsub
      exact eq_nil_of_sublist hsub
  · rintro ⟨hkept, hblank⟩
    refine ⟨⟨hkept ▸ blanks_nil, hblank⟩, ?_⟩
    rw [hkept]
    exact List.drop_sublist _ _

theorem harvests_kept {b added : List Line} :
    Emits space added (b ++ added) ↔ b = [] := by
  refine ⟨fun h => eq_nil_of_sublist h.2, ?_⟩
  rintro rfl
  exact ⟨rfl, List.Sublist.refl _⟩

theorem harvests_added {a b : List Line} {last : Line} :
    Emits space (a ++ last :: b) b ↔ Blanks space (a ++ [last]) := by
  have hsplit : a ++ last :: b = a ++ [last] ++ b := by rw [List.append_assoc, List.singleton_append]
  unfold Emits
  rw [hsplit, nonBlank_append]
  refine ⟨fun h => List.self_eq_append_left.1 h.1, fun h => ⟨?_, List.sublist_append_right _ _⟩⟩
  rw [show nonBlank space (a ++ [last]) = [] from h]
  rfl

theorem harvests_iff (p : Option Line × List Line) (g : Growth) :
    Collects harvestOwnLogcat kotlinSpace p g ↔ HarvestsOn p g := by
  obtain ⟨last, w⟩ := p
  unfold Collects HarvestsOn
  rw [window_eq, harvest_emits]
  dsimp only
  generalize g.kept w = kept
  generalize g.added w = added
  cases last with
  | none =>
    rw [harvest_none _ _ (Nat.zero_le _), List.nil_append, harvests_none]
  | some last =>
    dsimp only
    rw [harvest_some]
    by_cases hkept : last ∈ kept
    · obtain ⟨a, b, rfl, ha⟩ := List.eq_append_cons_of_mem hkept
      have hdrop : (a ++ last :: b ++ added).drop (a.length + 1) = b ++ added := by
        rw [List.append_assoc, ← List.drop_drop, List.drop_left]
        rfl
      have hidx : (a ++ last :: b ++ added).findIdx? (· == last) = some a.length := by
        rw [List.append_assoc]
        exact findIdx_first ha _
      rw [hidx, Option.map_some, Option.getD_some, hdrop, harvests_kept]
      constructor
      · rintro rfl
        exact .inl ⟨a, rfl, ha⟩
      · rintro (⟨a', heq, ha'⟩ | ⟨hno, -⟩)
        · exact (first_line_unique ha ha' heq).2
        · exact absurd hkept hno
    · rw [or_iff_right fun ⟨a, heq, _⟩ => hkept (heq ▸ List.mem_append_right a (List.mem_singleton_self last)),
        and_iff_right hkept]
      by_cases hadded : last ∈ added
      · obtain ⟨a, b, rfl, ha⟩ := List.eq_append_cons_of_mem hadded
        have hfront : last ∉ kept ++ a := fun h => (List.mem_append.1 h).elim hkept ha
        have hidx : (kept ++ (a ++ last :: b)).findIdx? (· == last) = some (kept ++ a).length := by
          rw [← List.append_assoc]
          exact findIdx_first hfront b
        have hdrop : (kept ++ (a ++ last :: b)).drop ((kept ++ a).length + 1) = b := by
          rw [← List.append_assoc, ← List.drop_drop, List.drop_left]
          rfl
        rw [hidx, Option.map_some, Option.getD_some, hdrop, harvests_added]
        constructor
        · exact fun h => .inl ⟨a, b, rfl, ha, h⟩
        · rintro (⟨a', b', heq, ha', h⟩ | ⟨hno, -⟩)
          · exact (first_line_unique ha ha' heq).1 ▸ h
          · exact absurd hadded hno
      · have hnone : (kept ++ added).findIdx? (· == last) = none := by
          rw [List.findIdx?_eq_none_iff]
          exact fun x hx => beq_eq_false_iff_ne.2 fun h => (List.mem_append.1 (h ▸ hx)).elim hkept hadded
        rw [hnone]
        constructor
        · exact fun h => .inr ⟨hadded, h.1.symm⟩
        · rintro (⟨a', b', rfl, -⟩ | ⟨-, h⟩)
          · exact absurd (List.mem_append_right _ (List.mem_cons_self ..)) hadded
          · exact ⟨h.symm, List.nil_sublist _⟩

/-! ### Runs -/

/-- What a collector is to do in the rounds behind its first dump. -/
def CollectsAll {σ : Type} (round : σ → List Line → σ × List Line) (space : Char → Bool) (init : σ)
    (first : List Line) (gs : List Growth) : Prop :=
  StepsMeet (collect round) (Collects round space) ((round init first).1, first) gs

/-- Each of the two collectors is right in all of its rounds if and only if it goes on in the right place in each. -/
theorem collectors_iff (first : List Line) (gs : List Growth) :
    (CollectsAll shipAdbLogcat rustSpace [] first gs ∧ CollectsAll harvestOwnLogcat kotlinSpace none first gs) ↔
      StepsMeet (collect shipAdbLogcat) ShipsOn ((shipAdbLogcat [] first).1, first) gs ∧
        StepsMeet (collect harvestOwnLogcat) HarvestsOn ((harvestOwnLogcat none first).1, first) gs := by
  unfold CollectsAll
  refine and_congr ?_ ?_
  · exact stepsMeet_iff_of_invariant (P := fun _ => True) (fun _ _ _ _ _ _ => trivial)
      (fun g _ p _ => ships_iff p g) trivial
  · exact stepsMeet_iff_of_invariant (P := fun _ => True) (fun _ _ _ _ _ _ => trivial)
      (fun g _ p _ => harvests_iff p g) trivial

/-- The last line stands in the dump twice. -/
theorem repeated_wrong :
    ¬ (CollectsAll shipAdbLogcat rustSpace [] [['a'], ['b'], ['a']] [⟨0, [['c']]⟩] ∧
      CollectsAll harvestOwnLogcat kotlinSpace none [['a'], ['b'], ['a']] [⟨0, [['c']]⟩]) := by
  rintro ⟨⟨h, -⟩, -⟩
  exact absurd h.1 (by decide)

end Gafam.Android
