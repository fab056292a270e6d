import Gafam.Go.Proofs.EncodingProofs
import Gafam.Sandbox.Shell
import Gafam.Python.Proofs.DecodeProofs

/-!
# Pipelines, and what a session returns for a command

A pipeline in front of a bar and one behind it make a pipeline, whose last command is that of the second.
-/

namespace Gafam.Sandbox

open Gafam.Go

theorem words_blank {b : UInt8} (hb : isBlank b = true) (s : GoString) : words (b :: s) = words s := by
  simp [words, List.splitOnP_cons_eq_if_modifyHead, hb]

theorem words_append_blank {b : UInt8} (hb : isBlank b = true) (s t : GoString) :
    words (s ++ b :: t) = words s ++ words t := by
  simp [words, List.splitOnP_append_cons s t hb]

/-- A text without blanks is one word. -/
theorem words_of_noBlank {w : GoString} (hne : w ≠ []) (h : ∀ b ∈ w, isBlank b = false) :
    words w = [w] := by
  rw [words, List.splitOnP_eq_singleton h]
  simp [hne]

theorem pipeline_eq_some {line : GoString} {cmds : List (List GoString)} :
    pipeline line = some cmds ↔
      line.all (fun b => !operatorBytes.contains b) = true ∧
        ((line.splitOn bar).map words).all isSimple = true ∧ cmds = (line.splitOn bar).map words := by
  rw [pipeline, Option.ite_none_right_eq_some, Bool.and_eq_true, Option.some.injEq, and_assoc,
    eq_comm (a := cmds)]

theorem pipeline_bar {front back : GoString} {cmds : List (List GoString)} :
    pipeline (front ++ bar :: back) = some cmds ↔
      ∃ x y, pipeline front = some x ∧ pipeline back = some y ∧ cmds = x ++ y := by
  have hbar : operatorBytes.contains bar = false := by decide
  constructor
  · intro h
    obtain ⟨hline, hcmds, rfl⟩ := pipeline_eq_some.1 h
    rw [List.splitOn_append_cons_self, List.map_append] at *
    rw [List.all_append, Bool.and_eq_true] at hcmds
    rw [List.all_append, List.all_cons, Bool.and_eq_true, Bool.and_eq_true] at hline
    exact ⟨_, _, pipeline_eq_some.2 ⟨hline.1, hcmds.1, rfl⟩, pipeline_eq_some.2 ⟨hline.2.2, hcmds.2, rfl⟩,
      rfl⟩
  · rintro ⟨x, y, hx, hy, rfl⟩
    obtain ⟨hline, hcmds, rfl⟩ := pipeline_eq_some.1 hx
    obtain ⟨hline', hcmds', rfl⟩ := pipeline_eq_some.1 hy
    refine pipeline_eq_some.2 ⟨?_, ?_, ?_⟩
    · rw [List.all_append, List.all_cons, hline, hline', hbar]
      rfl
    · rw [List.splitOn_append_cons_self, List.map_append, List.all_append, hcmds, hcmds']
      rfl
    · rw [List.splitOn_append_cons_self, List.map_append]

theorem pipeline_ne_nil {line : GoString} {cmds : List (List GoString)} (h : pipeline line = some cmds) :
    cmds ≠ [] := by
  obtain ⟨-, -, rfl⟩ := pipeline_eq_some.1 h
  simp

theorem pipeline_space (line : GoString) : pipeline (0x20 :: line) = pipeline line := by
  obtain ⟨c, cs, hsplit⟩ := List.exists_cons_of_ne_nil (List.splitOn_ne_nil bar line)
  have hne : ((0x20 : UInt8) == bar) = false := by decide
  have hcons : (0x20 :: line).splitOn bar = (0x20 :: c) :: cs := by
    rw [List.splitOn_cons_eq_if_modifyHead, hne, hsplit]
    rfl
  have hline : (0x20 :: line).all (fun b => !operatorBytes.contains b) =
      line.all fun b => !operatorBytes.contains b := by
    rw [List.all_cons, show (!operatorBytes.contains 0x20) = true by decide, Bool.true_and]
  rw [pipeline, pipeline, hline, hcons, hsplit, List.map_cons, List.map_cons, words_blank (by decide)]

/-! ## Words that stand for themselves -/

variable {expand : GoString → List GoString}

set_option maxRecDepth 8000 in
theorem noBlank_of_wordByte {b : UInt8} (h : isWordByte b = true) : isBlank b = false :=
  forall_byte (p := fun b => isWordByte b = true → isBlank b = false) (by decide) b h

set_option maxRecDepth 8000 in
theorem ne_bar_of_wordByte {b : UInt8} (h : isWordByte b = true) : b ≠ bar :=
  forall_byte (p := fun b => isWordByte b = true → b ≠ bar) (by decide) b h

set_option maxRecDepth 8000 in
theorem noOperator_of_wordByte {b : UInt8} (h : isWordByte b = true) : operatorBytes.contains b = false :=
  forall_byte (p := fun b => isWordByte b = true → operatorBytes.contains b = false) (by decide) b
    h

set_option maxRecDepth 8000 in
theorem ne_hash_of_wordByte {b : UInt8} (h : isWordByte b = true) : b ≠ 0x23 :=
  forall_byte (p := fun b => isWordByte b = true → b ≠ 0x23) (by decide) b h

/-- What runs at the end of a pipeline is what runs without the commands before it. -/
theorem runsFile_bar {interpreter path front back : GoString} {x : List (List GoString)}
    (hfront : pipeline front = some x) :
    RunsFile expand interpreter path (front ++ bar :: back) ↔ RunsFile expand interpreter path back := by
  constructor
  · rintro ⟨cmds, last, hcmds, hlast, hruns⟩
    obtain ⟨x', y, -, hy, rfl⟩ := pipeline_bar.1 hcmds
    rw [List.getLast?_append_of_ne_nil _ (pipeline_ne_nil hy)] at hlast
    exact ⟨y, last, hy, hlast, hruns⟩
  · rintro ⟨y, last, hy, hlast, hruns⟩
    refine ⟨x ++ y, last, pipeline_bar.2 ⟨x, y, hfront, hy, rfl⟩, ?_, hruns⟩
    rwa [List.getLast?_append_of_ne_nil _ (pipeline_ne_nil hy)]

theorem runsFile_space {interpreter path line : GoString} :
    RunsFile expand interpreter path (0x20 :: line) ↔ RunsFile expand interpreter path line := by
  simp only [RunsFile, pipeline_space]

/-- A command of two words that stand for themselves. -/
theorem pipeline_call {v w tail : GoString} (hv : v ≠ []) (hvbytes : ∀ b ∈ v, isWordByte b = true)
    (hplain : v ∉ reservedWords) (hassign : (0x3D : UInt8) ∉ v) (hw : w ≠ [])
    (hwbytes : ∀ b ∈ w, isWordByte b = true) (htail : tail = [] ∨ tail = [0x20]) :
    pipeline (v ++ ([0x20] ++ (w ++ tail))) = some [[v, w]] := by
  have htail' : ∀ b ∈ tail, b = 0x20 := by
    rcases htail with rfl | rfl
    · simp
    · simp
  have hbytes : ∀ b ∈ v ++ ([0x20] ++ (w ++ tail)), isWordByte b = true ∨ b = 0x20 := by
    simp only [List.mem_append, List.mem_singleton]
    rintro b (h | h | h | h)
    · exact Or.inl (hvbytes b h)
    · exact Or.inr h
    · exact Or.inl (hwbytes b h)
    · exact Or.inr (htail' b h)
  have hbar : bar ∉ v ++ ([0x20] ++ (w ++ tail)) := by
    intro h
    rcases hbytes bar h with h | h
    · exact ne_bar_of_wordByte h rfl
    · exact absurd h (by decide)
  have hlast : words (w ++ tail) = [w] := by
    have hone := words_of_noBlank hw fun b hb => noBlank_of_wordByte (hwbytes b hb)
    rcases htail with rfl | rfl
    · rw [List.append_nil, hone]
    · rw [words_append_blank (by decide), hone]
      rfl
  have hwords : words (v ++ ([0x20] ++ (w ++ tail))) = [v, w] := by
    rw [List.singleton_append, words_append_blank (by decide), hlast,
      words_of_noBlank hv fun b hb => noBlank_of_wordByte (hvbytes b hb)]
    rfl
  refine pipeline_eq_some.2 ⟨List.all_eq_true.2 fun b hb => ?_, ?_, ?_⟩
  · rcases hbytes b hb with h | rfl
    · rw [noOperator_of_wordByte h]
      rfl
    · decide
  · have hvhead : v.head? ≠ some 0x23 := fun h => ne_hash_of_wordByte (hvbytes _ (List.mem_of_head? h)) rfl
    have hwhead : w.head? ≠ some 0x23 := fun h => ne_hash_of_wordByte (hwbytes _ (List.mem_of_head? h)) rfl
    rw [List.splitOn_eq_singleton hbar, List.map_singleton, hwords]
    simp [isSimple, hplain, hassign, hvhead, hwhead]
  · rw [List.splitOn_eq_singleton hbar, List.map_singleton, hwords]

end Gafam.Sandbox

/-!
## Sessions and their commands

The loop stops at the first piece that completes a marker; what it has read then is decoded, and the first
line that looks like the marker's decides the result. Command by command, the result is right and nothing is
left exactly when the framing carries the command.
-/

namespace Gafam.Sandbox

open Gafam.Go Gafam.Python

/-! ### The read loop -/

/-- The loop stops behind the first piece after which a marker is there. -/
theorem readLoop_data {buf : GoString} {cs : List GoString} (hbuf : ¬ markerBytes <:+: buf)
    (hall : markerBytes <:+: buf ++ cs.flatten) : ∃ a b, cs = a ++ b ∧
      readLoop buf (cs.map .data) = (buf ++ a.flatten, false, b.map .data) ∧ markerBytes <:+: buf ++ a.flatten ∧
      ∀ n < a.length, ¬ markerBytes <:+: buf ++ (a.take n).flatten := by
  induction cs generalizing buf with
  | nil =>
    rw [List.flatten_nil, List.append_nil] at hall
    exact absurd hall hbuf
  | cons c cs ih =>
    rw [List.map_cons, readLoop]
    by_cases hc : markerBytes <:+: buf ++ c
    · rw [if_pos hc]
      refine ⟨[c], cs, rfl, by simp, by simpa using hc, fun n hn => ?_⟩
      obtain rfl : n = 0 := Nat.lt_one_iff.1 hn
      simpa using hbuf
    · rw [if_neg hc]
      rw [List.flatten_cons, ← List.append_assoc] at hall
      obtain ⟨a, b, rfl, hloop, hmarker, hfirst⟩ := ih hc hall
      refine ⟨c :: a, b, rfl, ?_, ?_, fun n hn => ?_⟩
      · rw [hloop, List.flatten_cons, List.append_assoc]
      · rw [List.flatten_cons, ← List.append_assoc]
        exact hmarker
      · cases n with
        | zero => simpa using hbuf
        | succ n =>
          rw [List.take_succ_cons, List.flatten_cons, ← List.append_assoc]
          exact hfirst n (Nat.lt_of_succ_lt_succ hn)

theorem unread_data (b : List GoString) : unread (b.map .data) = b.flatten := by
  unfold unread
  rw [List.flatMap_map, List.flatten_eq_flatMap]
  rfl

/-! ### The line of the marker -/

section
variable (D : Decimals)

theorem matchLine_eq_some {text digits dir : PyString} (h : matchLine D text = some (digits, dir)) :
    ∃ after, text = shellMarker ++ ':' :: (digits ++ ':' :: after) ∧ digits ≠ [] ∧
      (∀ c ∈ digits, D.isDecimal c = true) ∧ dir = after.takeWhile fun c => c ≠ '\n' && c ≠ '\r' := by
  unfold matchLine at h
  dsimp only at h
  split_ifs at h with hmarker hdigits
  obtain ⟨rest, rfl⟩ := hmarker
  have hdrop : (shellMarker ++ [':'] ++ rest).drop (shellMarker.length + 1) = rest := by
    rw [← List.length_singleton (a := ':'), ← List.length_append, List.drop_left]
  rw [hdrop] at h hdigits
  obtain ⟨rfl, rfl⟩ := Prod.mk.inj (Option.some.inj h)
  refine ⟨(rest.dropWhile D.isDecimal).tail, ?_, hdigits.1, fun c hc => List.mem_takeWhile_imp hc, rfl⟩
  have hsplit : rest = rest.takeWhile D.isDecimal ++ ':' :: (rest.dropWhile D.isDecimal).tail := by
    rw [← List.eq_cons_of_mem_head? hdigits.2, List.takeWhile_append_dropWhile]
  rw [← hsplit, List.append_assoc]
  rfl

theorem colon_not_decimal : D.isDecimal ':' = false := by
  unfold Decimals.isDecimal
  rw [D.ascii _ (by decide)]
  rfl

theorem underscore_not_decimal : D.isDecimal '_' = false := by
  unfold Decimals.isDecimal
  rw [D.ascii _ (by decide)]
  rfl

theorem matchLine_marker {digits after : PyString} (hne : digits ≠ []) (hdigits : ∀ c ∈ digits, D.isDecimal c = true) :
    matchLine D (shellMarker ++ ':' :: (digits ++ ':' :: after)) =
      some (digits, after.takeWhile fun c => c ≠ '\n' && c ≠ '\r') := by
  have hassoc : shellMarker ++ ':' :: (digits ++ ':' :: after) = shellMarker ++ [':'] ++ (digits ++ ':' :: after) := by
    rw [List.append_assoc]
    rfl
  have hdrop : (shellMarker ++ [':'] ++ (digits ++ ':' :: after)).drop (shellMarker.length + 1) =
      digits ++ ':' :: after := by
    rw [← List.length_singleton (a := ':'), ← List.length_append, List.drop_left]
  have htake : (digits ++ ':' :: after).takeWhile D.isDecimal = digits := by
    rw [List.takeWhile_append_of_pos hdigits, List.takeWhile_cons, colon_not_decimal, if_neg Bool.false_ne_true,
      List.append_nil]
  have hrest : (digits ++ ':' :: after).dropWhile D.isDecimal = ':' :: after := by
    rw [List.dropWhile_append_of_pos hdigits, List.dropWhile_cons, colon_not_decimal, if_neg Bool.false_ne_true]
  unfold matchLine
  dsimp only
  rw [hassoc, if_pos (List.prefix_append ..), hdrop, htake, hrest, if_pos ⟨hne, rfl⟩]
  rfl

theorem searchLine_eq_some {text start : PyString} {groups : PyString × PyString}
    (h : searchLine D text = some (start, groups)) : ∃ t, text = start ++ t ∧ matchLine D t = some groups := by
  induction text generalizing start with
  | nil => cases h
  | cons c text ih =>
    unfold searchLine at h
    cases hmatch : matchLine D (c :: text) with
    | some g =>
      rw [hmatch] at h
      obtain ⟨rfl, rfl⟩ := Prod.mk.inj (Option.some.inj h)
      exact ⟨c :: text, rfl, hmatch⟩
    | none =>
      rw [hmatch] at h
      obtain ⟨⟨start', groups'⟩, hsearch, heq⟩ := Option.map_eq_some_iff.1 h
      obtain ⟨rfl, rfl⟩ := Prod.mk.inj heq
      obtain ⟨t, rfl, ht⟩ := ih hsearch
      exact ⟨t, rfl, ht⟩

/-- The search stops no later than at a line of the marker. -/
theorem searchLine_first (start : PyString) {t : PyString} {groups : PyString × PyString} (h : matchLine D t = some groups)
    (hne : t ≠ []) : ∃ start' groups', searchLine D (start ++ t) = some (start', groups') ∧
      start'.length ≤ start.length := by
  induction start with
  | nil =>
    obtain ⟨c, t, rfl⟩ := List.exists_cons_of_ne_nil hne
    refine ⟨[], groups, ?_, Nat.le_refl _⟩
    rw [List.nil_append, searchLine, h]
  | cons c start ih =>
    rw [List.cons_append, searchLine]
    cases hmatch : matchLine D (c :: (start ++ t)) with
    | some g => exact ⟨[], g, rfl, Nat.zero_le _⟩
    | none =>
      obtain ⟨start', groups', hsearch, hle⟩ := ih
      refine ⟨c :: start', groups', ?_, Nat.succ_le_succ hle⟩
      rw [hsearch]
      rfl

/-- What looks like the marker with an exit code, and starts in front of a marker, lies in front of it: a colon
stands behind a marker and none in it, and the marker starts with what is no digit. -/
theorem looksDone_of_match {x z digits after : PyString} (hx : x ≠ []) (hne : digits ≠ [])
    (hdigits : ∀ c ∈ digits, D.isDecimal c = true)
    (h : x ++ (shellMarker ++ z) = shellMarker ++ ':' :: (digits ++ ':' :: after)) : LooksDone D x := by
  have hcolon : ':' ∉ shellMarker := by decide
  have hhead : shellMarker = '_' :: shellMarker.tail := rfl
  rw [show shellMarker ++ ':' :: (digits ++ ':' :: after) = (shellMarker ++ [':']) ++ (digits ++ ':' :: after) by
    rw [List.append_assoc]; rfl] at h
  obtain ⟨y, rfl, hy⟩ : ∃ y, x = (shellMarker ++ [':']) ++ y ∧ y ++ (shellMarker ++ z) = digits ++ ':' :: after := by
    rcases List.append_eq_append_iff.1 h with ⟨y, hxy, hrest⟩ | ⟨y, rfl, hrest⟩
    · rcases List.eq_nil_or_concat y with rfl | ⟨y, c, rfl⟩
      · rw [List.append_nil] at hxy
        exact ⟨[], by rw [List.append_nil, hxy], hrest⟩
      · -- The colon would stand in the marker that follows `x`.
        exfalso
        rw [List.concat_eq_append] at hxy hrest
        rw [← List.append_assoc] at hxy
        obtain ⟨hmarker, hc⟩ := List.append_inj' hxy rfl
        have hlen : (y ++ [c]).length ≤ shellMarker.length := by
          rw [hmarker, List.length_append, List.length_append, Nat.add_comm]
          exact Nat.add_le_add_right (List.length_pos_iff.2 hx) _
        have hstart : y ++ [c] <+: shellMarker :=
          List.prefix_of_prefix_length_le ⟨_, hrest.symm⟩ (List.prefix_append ..) hlen
        rw [← hc] at hstart
        exact hcolon (hstart.subset (List.mem_append_right _ (List.mem_singleton_self _)))
    · exact ⟨y, rfl, hrest.symm⟩
  rcases List.append_eq_append_iff.1 hy with ⟨w, hyw, hrest⟩ | ⟨w, rfl, hrest⟩
  · exfalso
    cases w with
    | nil =>
      rw [hhead] at hrest
      exact absurd (List.cons.inj hrest).1 (by decide)
    | cons c w =>
      rw [hhead] at hrest
      have hc : c = '_' := (List.cons.inj hrest).1.symm
      have := hdigits c (hyw ▸ List.mem_append_right _ (List.mem_cons_self ..))
      rw [hc, underscore_not_decimal] at this
      cases this
  · cases w with
    | nil =>
      exfalso
      rw [hhead] at hrest
      exact absurd (List.cons.inj hrest).1 (by decide)
    | cons c w =>
      obtain ⟨rfl, -⟩ := List.cons.inj hrest
      exact ⟨[], digits, w, by simp, hne, hdigits⟩

/-! ### One command -/

/-- The text of the line behind the output. -/
def lineText (c : Command) : PyString :=
  shellMarker ++ ':' :: ((itoa c.rc).map chr ++ ':' :: (decodeReplace c.pwd ++ ['\n']))

theorem decode_printed (c : Command) : decodeReplace (c.out ++ c.line) = decodeReplace c.out ++ lineText c := by
  have hmarker : ∀ b ∈ markerBytes, b.toNat < 0x80 := forall_of_all (by decide)
  have hdigits : ∀ b ∈ itoa c.rc, b.toNat < 0x80 := fun b hb => by
    have := mem_itoa hb
    omega
  have hline : decodeReplace c.line = lineText c := by
    unfold Command.line lineText
    rw [decodeReplace_ascii hmarker, decodeReplace_cons (by decide), decodeReplace_ascii hdigits,
      decodeReplace_cons (by decide), decodeReplace_append _ (by decide)]
    rfl
  rw [← hline]
  exact decodeReplace_append c.out (c := 0x5F) (by decide) _

/-- The groups of the line behind the output. -/
theorem matchLine_lineText (c : Command) : matchLine D (lineText c) =
    some ((itoa c.rc).map chr, (decodeReplace c.pwd).takeWhile fun ch => ch ≠ '\n' && ch ≠ '\r') := by
  have htake : (decodeReplace c.pwd ++ ['\n']).takeWhile (fun ch => ch ≠ '\n' && ch ≠ '\r') =
      (decodeReplace c.pwd).takeWhile fun ch => ch ≠ '\n' && ch ≠ '\r' := by
    rw [List.takeWhile_append]
    split_ifs with hall
    · rw [List.takeWhile_cons, if_neg (by decide), List.append_nil]
      exact ((List.takeWhile_prefix _).eq_of_length hall).symm
    · rfl
  have hne : (itoa c.rc).map chr ≠ [] := fun h => itoa_ne_nil c.rc (List.map_eq_nil_iff.1 h)
  unfold lineText
  rw [matchLine_marker D hne (isDecimal_itoa D c.rc), htake]

theorem lineText_ne_nil (c : Command) : lineText c ≠ [] := by
  unfold lineText
  exact fun h => absurd (List.append_eq_nil_iff.1 h).1 (by decide)

theorem LooksDone.append {x : PyString} (h : LooksDone D x) (o : PyString) : LooksDone D (o ++ x) := by
  obtain ⟨before, digits, after, rfl, hne, hdigits⟩ := h
  exact ⟨o ++ before, digits, after, (List.append_assoc ..).symm, hne, hdigits⟩

/-- The search finds the line behind the output, or stops in front of it where the output holds what looks
like one. -/
theorem searchLine_printed (c : Command) : ∃ start groups,
    searchLine D (decodeReplace c.out ++ lineText c) = some (start, groups) ∧
      (LooksDone D (decodeReplace c.out) → start.length < (decodeReplace c.out).length) ∧
      (¬ LooksDone D (decodeReplace c.out) → start = decodeReplace c.out ∧ matchLine D (lineText c) = some groups) := by
  obtain ⟨start, groups, hsearch, hle⟩ := searchLine_first D (decodeReplace c.out) (matchLine_lineText D c)
    (lineText_ne_nil c)
  refine ⟨start, groups, hsearch, fun hlooks => ?_, fun hlooks => ?_⟩
  · obtain ⟨before, digits, after, hout, hne, hdigits⟩ := hlooks
    have hmatch : matchLine D (shellMarker ++ ':' :: (digits ++ ':' :: (after ++ lineText c))) = _ :=
      matchLine_marker D hne hdigits
    obtain ⟨start', groups', hsearch', hle'⟩ := searchLine_first D before hmatch (by simp)
    have htext : decodeReplace c.out ++ lineText c =
        before ++ (shellMarker ++ ':' :: (digits ++ ':' :: (after ++ lineText c))) := by
      rw [hout]
      simp
    rw [htext, hsearch', Option.some.injEq, Prod.mk.injEq] at hsearch
    rw [← hsearch.1, hout, List.length_append, List.length_append]
    have hpos : 0 < shellMarker.length := by decide
    omega
  · obtain ⟨t, htext, hmatch⟩ := searchLine_eq_some D hsearch
    rcases List.append_eq_append_iff.1 htext with ⟨w, hw, hrest⟩ | ⟨x, hx, hrest⟩
    · obtain rfl : w = [] := by
        rw [hw, List.length_append] at hle
        exact List.length_eq_zero_iff.1 (by omega)
      rw [List.append_nil] at hw
      rw [List.nil_append] at hrest
      exact ⟨hw, hrest ▸ hmatch⟩
    · obtain ⟨digits, dir⟩ := groups
      obtain ⟨after, ht, hne, hdigits, -⟩ := matchLine_eq_some D hmatch
      by_cases hxne : x = []
      · subst hxne
        rw [List.append_nil] at hx
        exact ⟨hx.symm, by rw [← hmatch, hrest, List.nil_append]⟩
      · rw [hrest, show lineText c = shellMarker ++ ':' :: ((itoa c.rc).map chr ++ ':' :: (decodeReplace c.pwd ++ ['\n'])) from rfl] at ht
        exact absurd (hx ▸ (looksDone_of_match D hxne hne hdigits ht).append D start) hlooks

/-- The working directory that is noted is the shell's one exactly when its text is one line without white space
behind it. -/
theorem noted_cwd_iff (c : Command) (old : PyString) :
    (if strip ((decodeReplace c.pwd).takeWhile fun ch => ch ≠ '\n' && ch ≠ '\r') = [] then old
      else strip ((decodeReplace c.pwd).takeWhile fun ch => ch ≠ '\n' && ch ≠ '\r')) = decodeReplace c.pwd ↔
      (∀ ch ∈ decodeReplace c.pwd, ch ≠ '\n' ∧ ch ≠ '\r') ∧
        ∀ ch ∈ (decodeReplace c.pwd).getLast?, isspace ch = false := by
  obtain ⟨rest, hpwd⟩ : ∃ rest, decodeReplace c.pwd = '/' :: rest := by
    have hnil : c.pwd ≠ [] := fun h => absurd c.absolute (by rw [h]; simp)
    obtain ⟨b, pwd, hb⟩ := List.exists_cons_of_ne_nil hnil
    have hslash := c.absolute
    rw [hb] at hslash ⊢
    rw [Option.some.inj hslash]
    exact ⟨decodeReplace pwd, decodeReplace_cons (by decide) pwd⟩
  let line : Char → Bool := fun ch => ch ≠ '\n' && ch ≠ '\r'
  have hfirst : (decodeReplace c.pwd).takeWhile line = '/' :: rest.takeWhile line := by
    rw [hpwd]
    rfl
  have hne : strip ((decodeReplace c.pwd).takeWhile line) ≠ [] := by
    rw [hfirst]
    exact strip_ne_nil (by decide)
  rw [if_neg hne]
  constructor
  · intro h
    have hlen := length_strip_le ((decodeReplace c.pwd).takeWhile line)
    rw [h] at hlen
    have hwhole : (decodeReplace c.pwd).takeWhile line = decodeReplace c.pwd :=
      (List.takeWhile_prefix _).eq_of_length (Nat.le_antisymm (List.takeWhile_prefix _).length_le hlen)
    refine ⟨fun ch hch => ?_, h ▸ getLast_strip _⟩
    simpa [line] using List.takeWhile_eq_self_iff.1 hwhole ch hch
  · rintro ⟨hline, hlast⟩
    have hwhole : (decodeReplace c.pwd).takeWhile line = decodeReplace c.pwd :=
      List.takeWhile_eq_self_iff.2 fun ch hch => by simpa [line] using hline ch hch
    rw [hwhole]
    refine strip_eq_self (fun ch hch => ?_) hlast
    rw [hpwd] at hch
    rw [← Option.some.inj hch]
    decide

/-- The pieces in which the bytes of a command arrive, behind what was left. -/
def pieces (s : SessionState) (c : Command × Reads) : List GoString := c.2.cut (s.left ++ (c.1.out ++ c.1.line))

section
variable {s : SessionState} {c : Command × Reads} {buf : GoString} {b : List GoString}

/-- What `run` returns when the loop has found a marker and the search a line. -/
theorem runCommand_eq {start digits dir : PyString}
    (hloop : readLoop [] ((pieces s c).map .data) = (buf, false, b.map .data))
    (hsearch : searchLine D (decodeReplace buf) = some (start, digits, dir)) :
    (runCommand D s c).1 = .done (if start.getLast? = some '\n' then start.dropLast else start) (D.int digits)
      (if strip dir = [] then s.cwd else strip dir) := by
  unfold pieces at hloop
  unfold runCommand ShellSession.run
  dsimp only
  rw [if_neg (by simp), hloop]
  dsimp only
  rw [if_neg Bool.false_ne_true, hsearch]

theorem runCommand_left (hloop : readLoop [] ((pieces s c).map .data) = (buf, false, b.map .data)) :
    (runCommand D s c).2.left = b.flatten := by
  unfold pieces at hloop
  rw [← unread_data b]
  unfold runCommand ShellSession.run
  dsimp only
  rw [if_neg (by simp), hloop]
  dsimp only
  rw [if_neg Bool.false_ne_true]
  cases searchLine D (decodeReplace buf) <;> rfl

/-- The result of a command whose bytes are all read. -/
theorem result_iff
    (hloop : readLoop [] ((pieces s c).map .data) = (c.1.out ++ c.1.line, false, b.map .data)) :
    (runCommand D s c).1 = c.1.result ↔
      ¬ LooksDone D (decodeReplace c.1.out) ∧ (decodeReplace c.1.out).getLast? ≠ some '\n' ∧
        (∀ ch ∈ decodeReplace c.1.pwd, ch ≠ '\n' ∧ ch ≠ '\r') ∧
          ∀ ch ∈ (decodeReplace c.1.pwd).getLast?, isspace ch = false := by
  obtain ⟨start, ⟨digits, dir⟩, hsearch, hlooks, hplain⟩ := searchLine_printed D c.1
  rw [← decode_printed] at hsearch
  rw [runCommand_eq D hloop hsearch, ← noted_cwd_iff c.1 s.cwd]
  unfold Command.result
  rw [ShellResult.done.injEq]
  by_cases h : LooksDone D (decodeReplace c.1.out)
  · -- The output would end in front of where it does.
    refine iff_of_false (fun hr => ?_) fun hr => hr.1 h
    have hlen := congrArg List.length hr.1
    have := hlooks h
    split_ifs at hlen
    · rw [List.length_dropLast] at hlen
      omega
    · omega
  · obtain ⟨rfl, hgroups⟩ := hplain h
    rw [matchLine_lineText, Option.some.injEq, Prod.mk.injEq] at hgroups
    obtain ⟨rfl, rfl⟩ := hgroups
    have houtput : (if (decodeReplace c.1.out).getLast? = some '\n' then (decodeReplace c.1.out).dropLast
        else decodeReplace c.1.out) = decodeReplace c.1.out ↔ (decodeReplace c.1.out).getLast? ≠ some '\n' := by
      split_ifs with hlast
      · refine iff_of_false (fun heq => ?_) fun hne => hne hlast
        have hlen := congrArg List.length heq
        rw [List.length_dropLast] at hlen
        have hnil : decodeReplace c.1.out = [] := List.length_eq_zero_iff.1 (by omega)
        rw [hnil] at hlast
        cases hlast
      · exact iff_of_true rfl hlast
    rw [int_itoa, houtput]
    exact ⟨fun hr => ⟨h, hr.1, hr.2.2⟩, fun hr => ⟨hr.2.1, rfl, hr.2.2⟩⟩

end

theorem marker_in_line (c : Command) : markerBytes <:+: c.out ++ c.line := by
  unfold Command.line
  exact ⟨c.out, _, by rw [List.append_assoc]⟩

/-- The loop has read everything when no part of the pieces but the whole has a marker. -/
theorem whole_iff {cs a b : List GoString} (hcs : cs = a ++ b) (hmarker : markerBytes <:+: a.flatten)
    (hfirst : ∀ n < a.length, ¬ markerBytes <:+: (a.take n).flatten) :
    (∀ n < cs.length, ¬ markerBytes <:+: (cs.take n).flatten) ↔ b = [] := by
  subst hcs
  constructor
  · intro h
    by_contra hne
    have hlt : a.length < (a ++ b).length := by
      rw [List.length_append]
      exact Nat.lt_add_of_pos_right (List.length_pos_iff.2 hne)
    exact h a.length hlt (by rw [List.take_left]; exact hmarker)
  · rintro rfl n hn
    rw [List.append_nil] at hn ⊢
    exact hfirst n hn

/-- After a session that has left nothing, a command gets its result and leaves nothing exactly when the framing
carries it. -/
theorem runCommand_iff {s : SessionState} (hs : s.left = []) (c : Command × Reads) :
    ((runCommand D s c).1 = c.1.result ∧ (runCommand D s c).2.left = []) ↔ Framed D c.1 c.2 := by
  have hpieces : pieces s c = c.2.cut (c.1.out ++ c.1.line) := by
    unfold pieces
    rw [hs, List.nil_append]
  have hflat : (pieces s c).flatten = c.1.out ++ c.1.line := by rw [hpieces, c.2.flatten_cut]
  have hempty : ¬ markerBytes <:+: ([] : GoString) := by decide
  obtain ⟨a, b, hcut, hloop, hmarker, hfirst⟩ := readLoop_data hempty (by
    rw [List.nil_append, hflat]
    exact marker_in_line c.1)
  simp only [List.nil_append] at hloop hmarker hfirst
  have hwhole := whole_iff hcut hmarker hfirst
  have hb : b.flatten = [] ↔ b = [] := by
    refine ⟨fun h => ?_, fun h => h ▸ rfl⟩
    by_contra hne
    obtain ⟨chunk, rest, rfl⟩ := List.exists_cons_of_ne_nil hne
    have hmem : chunk ∈ c.2.cut (c.1.out ++ c.1.line) := by
      rw [← hpieces, hcut]
      exact List.mem_append_right _ (List.mem_cons_self ..)
    exact (c.2.size _ chunk hmem).1 (List.append_eq_nil_iff.1 h).1
  have hread (hbnil : b = []) :
      readLoop [] ((pieces s c).map .data) = (c.1.out ++ c.1.line, false, b.map .data) := by
    rw [hloop, ← hflat, hcut, hbnil, List.append_nil]
  rw [runCommand_left D hloop, hb]
  rw [hpieces] at hwhole
  constructor
  · rintro ⟨hr, hbnil⟩
    obtain ⟨houtput, hnewline, hline, hlast⟩ := (result_iff D (hread hbnil)).1 hr
    exact ⟨hwhole.2 hbnil, houtput, hnewline, hline, hlast⟩
  · intro h
    have hbnil := hwhole.1 h.whole
    exact ⟨(result_iff D (hread hbnil)).2 ⟨h.output, h.newline, h.cwd, h.trailing⟩, hbnil⟩

/-! ### Sessions -/

/-- In every session that starts with nothing left behind, the commands get their own results exactly when the
framing carries each of them. -/
theorem isolated_iff (cwd : PyString) (cs : List (Command × Reads)) :
    Isolated D ⟨cwd, []⟩ cs ↔ ∀ c ∈ cs, Framed D c.1 c.2 := by
  have hall (s : SessionState) (hs : s.left = []) : Isolated D s cs ↔ ∀ c ∈ cs, Framed D c.1 c.2 := by
    induction cs generalizing s with
    | nil => exact iff_of_true trivial fun c hc => absurd hc List.not_mem_nil
    | cons c cs ih =>
      rw [Isolated, ← and_assoc, runCommand_iff D hs, List.forall_mem_cons]
      constructor
      · rintro ⟨hc, hrest⟩
        exact ⟨hc, (ih _ ((runCommand_iff D hs c).2 hc).2).1 hrest⟩
      · rintro ⟨hc, hrest⟩
        exact ⟨hc, (ih _ ((runCommand_iff D hs c).2 hc).2).2 hrest⟩
  exact hall _ rfl

end

/-! ### A command that prints the marker -/

/-- Pieces of `n` bytes, at most `fuel` many. -/
def cutEvery (n : Nat) : Nat → GoString → List GoString
  | 0, _ => []
  | fuel + 1, s => if s = [] then [] else s.take n :: cutEvery n fuel (s.drop n)

theorem flatten_cutEvery {n : Nat} (hn : 0 < n) {fuel : Nat} {s : GoString} (h : s.length ≤ fuel) :
    (cutEvery n fuel s).flatten = s := by
  induction fuel generalizing s with
  | zero => exact (List.length_eq_zero_iff.1 (Nat.le_zero.1 h)).symm
  | succ fuel ih =>
    unfold cutEvery
    split_ifs with hs
    · exact hs.symm
    · have hpos := List.length_pos_iff.2 hs
      rw [List.flatten_cons, ih (by rw [List.length_drop]; omega), List.take_append_drop]

theorem size_cutEvery {n : Nat} (hn : 0 < n) (fuel : Nat) (s : GoString) :
    ∀ chunk ∈ cutEvery n fuel s, chunk ≠ [] ∧ chunk.length ≤ n := by
  induction fuel generalizing s with
  | zero => exact fun chunk h => absurd h List.not_mem_nil
  | succ fuel ih =>
    unfold cutEvery
    split_ifs with hs
    · exact fun chunk h => absurd h List.not_mem_nil
    · rintro chunk hchunk
      rcases List.mem_cons.1 hchunk with rfl | hchunk
      · exact ⟨by simp [hs, Nat.ne_of_gt hn], List.length_take_le ..⟩
      · exact ih _ chunk hchunk

/-- Reads of `n` bytes. -/
def Reads.every (n : Nat) (h : 0 < n ∧ n ≤ 65536) : Reads where
  cut s := cutEvery n s.length s
  flatten_cut _ := flatten_cutEvery h.1 (Nat.le_refl _)
  size s chunk hchunk := (size_cutEvery h.1 s.length s chunk hchunk).imp_right fun hle => hle.trans h.2

def asciiDecimals : Decimals where
  value c := if 48 ≤ c.toNat ∧ c.toNat ≤ 57 then some (c.toNat - 48) else none
  ascii _ _ := rfl

/-- `echo __GAFAM_SHELL_DONE__; sleep 1; printf x` -/
def markerCommand : Command := ⟨"__GAFAM_SHELL_DONE__\nx", 0, "/sandbox", by decide, by decide⟩

/-- The marker that the command prints ends the loop, and the rest is left to the next command. -/
theorem markerCommand_cut : ¬ Isolated asciiDecimals ⟨"/sandbox", []⟩ [(markerCommand, .every 21 (by decide))] := by
  rintro ⟨hresult, -⟩
  exact absurd hresult (by decide)

end Gafam.Sandbox
