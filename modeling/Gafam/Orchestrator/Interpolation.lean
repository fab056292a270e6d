import Gafam.Lib.Pieces
import Gafam.Orchestrator.Rerun
import Gafam.Orchestrator.Proofs.ReferencesProofs
import Mathlib.Data.List.TakeWhile

/-!
# Parameters as templates

A parameter of a quest is a template whose references are those to results that are there. The parameters that
`interpolateParams` returns are saved on the board, and the next attempt takes them for templates once more.
-/

namespace Gafam.Orchestrator

open Gafam.Go Gafam.Lib Gafam.Moksa

variable (marshal : Json → GoString) (quests : List Quest)

/-- The text is a reference, and another text takes its place. -/
def Replaced (r v : GoString) : Prop :=
  v ≠ r ∧ ∃ qid fields, questRef r = some (qid, fields, []) ∧ quotedResult marshal quests qid fields = some v

/-- The pieces of a text of at most `n` bytes. -/
def pieces : Nat → GoString → List (Fragment UInt8)
  | 0, s => s.map .lit
  | _, [] => []
  | n + 1, c :: s =>
    match questRef (c :: s) with
    | some (qid, fields, rest) =>
      let ref := (c :: s).take (s.length + 1 - rest.length)
      (match quotedResult marshal quests qid fields with
        | some v => if v = ref then ref.map .lit else [.quoted ref v]
        | none => ref.map .lit) ++ pieces n rest
    | none => .lit c :: pieces n s

/-- What is put into the parameters refers to nothing, and makes no reference with what is next to it. -/
def Inert (params : Params) : Prop :=
  ∀ k s, (k, .str s) ∈ params.getD [] → Quiet (Replaced marshal quests) (pieces marshal quests s.length s)

end Gafam.Orchestrator

/-!
## Interpolating twice

A reference starts with two braces and has no other opening brace, so references never overlap.
-/

namespace Gafam.Orchestrator

open Gafam.Go Gafam.Lib Gafam.Moksa

/-! ### The text of a reference -/

theorem takeWhile_dropWhile_stop {p : UInt8 → Bool} {w : GoString} (hw : ∀ c ∈ w, p c = true) {c : UInt8}
    (hc : p c = false) (t : GoString) :
    (w ++ c :: t).takeWhile p = w ∧ (w ++ c :: t).dropWhile p = c :: t := by
  induction w with
  | nil => simp [hc]
  | cons d w ih =>
    obtain ⟨h1, h2⟩ := ih fun c hc => hw c (List.mem_cons_of_mem _ hc)
    have hd := hw d (List.mem_cons_self ..)
    simp [hd, h1, h2]

/-- A path behind `result`, with its closing braces, is read whatever follows it. -/
theorem resultFields_split {n : Nat} {s rest : GoString} {fields : List GoString}
    (h : resultFields n s = some (fields, rest)) :
    ∃ c p, s = c :: (p ++ rest) ∧ isWordByte c = false ∧ 0x7B ∉ c :: p ∧
      ∀ m t, p.length ≤ m → resultFields m (c :: (p ++ t)) = some (fields, t) := by
  fun_induction resultFields n s generalizing fields with
  | case1 n rest' =>
    cases h
    refine ⟨0x7D, [0x7D], rfl, by decide, by decide, fun m t _ => ?_⟩
    cases m <;> rfl
  | case2 => cases h
  | case3 n s word hword =>
    rename_i ih
    obtain ⟨⟨fields', rest'⟩, hrest, heq⟩ := Option.map_eq_some_iff.1 h
    obtain ⟨rfl, rfl⟩ := Prod.mk.inj heq
    obtain ⟨c, p, hs, hc, hbrace, hread⟩ := ih hrest
    have hall : ∀ d ∈ word, isWordByte d = true := fun d hd => (List.mem_takeWhile_imp hd)
    refine ⟨0x2E, word ++ c :: p, ?_, by decide, ?_, fun m t hm => ?_⟩
    · rw [List.append_assoc, List.cons_append, ← hs, List.takeWhile_append_dropWhile]
    · intro hmem
      rcases List.mem_cons.1 hmem with hmem | hmem
      · exact absurd hmem (by decide)
      rcases List.mem_append.1 hmem with hmem | hmem
      · exact absurd (hall _ hmem) (by decide)
      · exact hbrace hmem
    · rw [List.length_append, List.length_cons] at hm
      obtain ⟨m, rfl⟩ := Nat.exists_eq_add_of_lt (Nat.lt_of_lt_of_le (Nat.lt_of_lt_of_le (Nat.succ_pos _) (Nat.le_add_left _ _)) hm)
      rw [Nat.zero_add, List.append_assoc, List.cons_append, resultFields]
      obtain ⟨htake, hdrop⟩ := takeWhile_dropWhile_stop hall hc (p ++ t)
      rw [htake, hdrop, if_neg hword, hread m t (by omega)]
      rfl
  | case4 => cases h

/-- The text of a match, which is a match whatever follows it. -/
theorem questRef_split {s rest : GoString} {qid : GoString} {fields : List GoString}
    (h : questRef s = some (qid, fields, rest)) :
    ∃ r, s = 0x7B :: 0x7B :: (r ++ rest) ∧ 0x7B ∉ r ∧
      ∀ t, questRef (0x7B :: 0x7B :: (r ++ t)) = some (qid, fields, t) := by
  unfold questRef at h
  split at h
  · next s =>
    dsimp only at h
    split_ifs at h with hno
    obtain ⟨hdigits, hresult⟩ := not_or.1 hno
    obtain ⟨⟨fields', rest'⟩, hfields, heq⟩ := Option.map_eq_some_iff.1 h
    obtain ⟨rfl, hpair⟩ := Prod.mk.inj heq
    obtain ⟨rfl, rfl⟩ := Prod.mk.inj hpair
    rw [Bool.not_eq_true', Bool.not_eq_false] at hresult
    obtain ⟨u, hu⟩ := List.isPrefixOf_iff_prefix.1 hresult
    have hdrop7 : (s.dropWhile isDigit).drop 7 = u := by rw [← hu]; rfl
    rw [hdrop7] at hfields
    obtain ⟨c, p, rfl, -, hbrace, hread⟩ := resultFields_split hfields
    have hall : ∀ d ∈ s.takeWhile isDigit, isDigit d = true := fun d hd => List.mem_takeWhile_imp hd
    have hs : s.takeWhile isDigit ++ (str ".result" ++ c :: (p ++ rest')) = s := by
      rw [hu, List.takeWhile_append_dropWhile]
    generalize s.takeWhile isDigit = digits at hall hdigits hs
    refine ⟨0x71 :: (digits ++ (str ".result" ++ c :: p)), ?_, ?_, fun t => ?_⟩
    · rw [← hs]
      simp
    · intro hmem
      rcases List.mem_cons.1 hmem with hmem | hmem
      · exact absurd hmem (by decide)
      rcases List.mem_append.1 hmem with hmem | hmem
      · exact absurd (hall _ hmem) (by decide)
      rcases List.mem_append.1 hmem with hmem | hmem
      · exact absurd hmem (by decide)
      · exact hbrace hmem
    · have htail : 0x71 :: (digits ++ (str ".result" ++ c :: p)) ++ t =
          0x71 :: (digits ++ 0x2E :: (str "result" ++ c :: (p ++ t))) := by
        rw [List.cons_append, List.append_assoc, List.append_assoc]
        rfl
      obtain ⟨htake, hdrop⟩ := takeWhile_dropWhile_stop hall (c := 0x2E) (by decide)
        (str "result" ++ c :: (p ++ t))
      rw [htail]
      show (if _ then none else _) = _
      rw [htake, hdrop]
      have hstarts : hasPrefix (0x2E :: (str "result" ++ c :: (p ++ t))) (str ".result") = true :=
        List.isPrefixOf_iff_prefix.2 ⟨c :: (p ++ t), rfl⟩
      have hfuel : p.length ≤ (0x2E :: (str "result" ++ c :: (p ++ t))).length := by
        simp only [List.length_cons, List.length_append]
        omega
      rw [hstarts, if_neg (by simp [hdigits])]
      show (resultFields _ (c :: (p ++ t))).map _ = _
      rw [hread _ t hfuel]
      rfl
  · cases h

/-! ### The pieces of a parameter -/

section

variable {marshal : Json → GoString} {quests : List Quest}

/-- A reference that is replaced is a match wherever it stands. -/
theorem Replaced.questRef {r v : GoString} (h : Replaced marshal quests r v) :
    ∃ r' qid fields, r = 0x7B :: 0x7B :: r' ∧ quotedResult marshal quests qid fields = some v ∧
      ∀ t, questRef (r ++ t) = some (qid, fields, t) := by
  obtain ⟨-, qid, fields, hr, hv⟩ := h
  obtain ⟨r', rfl, -, hread⟩ := questRef_split hr
  rw [List.append_nil] at hr ⊢
  exact ⟨r', qid, fields, rfl, hv, hread⟩

/-- The text of a match, with the properties of its bytes. -/
theorem questRef_match {c : UInt8} {s rest qid : GoString} {fields : List GoString}
    (h : questRef (c :: s) = some (qid, fields, rest)) :
    ∃ r, (c :: s).take (s.length + 1 - rest.length) = 0x7B :: 0x7B :: r ∧ c :: s = 0x7B :: 0x7B :: (r ++ rest) ∧
      r ≠ [] ∧ 0x7B ∉ r ∧ ∀ t, questRef (0x7B :: 0x7B :: (r ++ t)) = some (qid, fields, t) := by
  obtain ⟨r, hs, hbrace, hread⟩ := questRef_split h
  refine ⟨r, ?_, hs, ?_, hbrace, hread⟩
  · have hlen : s.length + 1 = 2 + r.length + rest.length := by
      have := congrArg List.length hs
      simp only [List.length_cons, List.length_append] at this
      omega
    have hsplit : (c :: s : GoString) = (0x7B :: 0x7B :: r) ++ rest := hs
    rw [hsplit, hlen, Nat.add_sub_cancel]
    exact List.take_left' (by simp; omega)
  · rintro rfl
    exact absurd (hread []) nofun

/-- No reference starts inside of another one. -/
theorem replaced_inside {r r₁ v₁ rest : GoString} (hne : r ≠ []) (hr : 0x7B ∉ r)
    (h₁ : Replaced marshal quests r₁ v₁) {c : UInt8} {x : GoString} (hx : c :: x <:+ 0x7B :: r) :
    ¬r₁ <+: c :: (x ++ rest) := by
  obtain ⟨r', -, -, rfl, -, -⟩ := h₁.questRef
  rintro ⟨y, hy⟩
  obtain ⟨rfl, hy'⟩ := List.cons.inj hy
  rcases List.suffix_cons_iff.1 hx with hx | hx
  · obtain ⟨-, rfl⟩ := List.cons.inj hx
    cases x with
    | nil => exact hne rfl
    | cons d x =>
      obtain rfl : (0x7B : UInt8) = d := (List.cons.inj hy').1
      exact hr (List.mem_cons_self ..)
  · exact hr (hx.subset (List.mem_cons_self ..))

theorem textOf_pieces (n : Nat) (s : GoString) :
    textOf (pieces marshal quests n s) = interpolateText marshal quests n s := by
  induction n generalizing s with
  | zero =>
    unfold pieces interpolateText
    exact textOf_lits s
  | succ n ih =>
    cases s with
    | nil => rfl
    | cons c s =>
      unfold pieces interpolateText
      rcases questRef (c :: s) with _ | ⟨qid, fields, rest⟩
      · exact congrArg (c :: ·) (ih s)
      · dsimp only
        rw [textOf_append, ih rest]
        congr 1
        cases quotedResult marshal quests qid fields with
        | none => exact textOf_lits _
        | some v =>
          dsimp only
          split_ifs with hv
          · rw [textOf_lits, hv]
            rfl
          · exact List.append_nil v

theorem sourceOf_pieces (n : Nat) (s : GoString) : sourceOf (pieces marshal quests n s) = s := by
  induction n generalizing s with
  | zero => exact sourceOf_lits s
  | succ n ih =>
    cases s with
    | nil => rfl
    | cons c s =>
      unfold pieces
      rcases hr : questRef (c :: s) with _ | ⟨qid, fields, rest⟩
      · exact congrArg (c :: ·) (ih s)
      · dsimp only
        obtain ⟨r, href, hs, -⟩ := questRef_match hr
        rw [sourceOf_append, ih rest, href, hs]
        show _ = (0x7B :: 0x7B :: r) ++ rest
        congr 1
        cases quotedResult marshal quests qid fields with
        | none => exact sourceOf_lits _
        | some v =>
          dsimp only
          split_ifs
          · exact sourceOf_lits _
          · exact List.append_nil _

/-- A match that stays as it is. -/
theorem parsed_kept {r rest qid : GoString} {fields : List GoString} {ps : List (Fragment UInt8)}
    (hne : r ≠ []) (hbrace : 0x7B ∉ r)
    (hread : ∀ t, questRef (0x7B :: 0x7B :: (r ++ t)) = some (qid, fields, t))
    (hkept : ∀ v, quotedResult marshal quests qid fields = some v → v = 0x7B :: 0x7B :: r)
    (hsource : sourceOf ps = rest) (hps : Parsed (Replaced marshal quests) ps) :
    Parsed (Replaced marshal quests) ((0x7B :: 0x7B :: r).map Fragment.lit ++ ps) := by
  refine hps.lits fun c x hx r₁ v₁ h₁ => ?_
  rw [hsource]
  rcases List.suffix_cons_iff.1 hx with hx | hx
  · rw [List.cons.inj hx |>.1, (List.cons.inj hx).2]
    rintro ⟨t, ht⟩
    obtain ⟨r', qid', fields', -, hv', hread'⟩ := h₁.questRef
    -- two matches at the same place are the same
    have hsame := hread' t
    rw [ht] at hsame
    have hboth := (hread rest).symm.trans hsame
    simp only [Option.some.injEq, Prod.mk.injEq] at hboth
    obtain ⟨rfl, rfl, rfl⟩ := hboth
    have hr : r₁ = 0x7B :: 0x7B :: r := List.append_cancel_right ht
    exact h₁.1 (by rw [hr]; exact hkept v₁ hv')
  · exact replaced_inside hne hbrace h₁ hx

theorem parsed_pieces {n : Nat} {s : GoString} (hn : s.length ≤ n) :
    Parsed (Replaced marshal quests) (pieces marshal quests n s) := by
  induction n generalizing s with
  | zero =>
    obtain rfl := List.length_eq_zero_iff.1 (Nat.le_zero.1 hn)
    exact .nil
  | succ n ih =>
    cases s with
    | nil => exact .nil
    | cons c s =>
      rw [List.length_cons] at hn
      unfold pieces
      rcases hr : questRef (c :: s) with _ | ⟨qid, fields, rest⟩
      · refine .lit (fun r v h => ?_) (ih (by omega))
        rw [sourceOf_pieces]
        rintro ⟨t, ht⟩
        obtain ⟨-, qid, fields, -, -, hread⟩ := h.questRef
        have hsome := hread t
        rw [ht, hr] at hsome
        cases hsome
      · dsimp only
        obtain ⟨r, href, hs, hne, hbrace, hread⟩ := questRef_match hr
        have hrest : rest.length ≤ n := by
          have := congrArg List.length hs
          simp only [List.length_cons, List.length_append] at this
          omega
        have hps := ih hrest
        rw [href]
        cases hq : quotedResult marshal quests qid fields with
        | none => exact parsed_kept hne hbrace hread (fun v hv => by rw [hq] at hv; cases hv) (sourceOf_pieces _ _) hps
        | some v =>
          dsimp only
          split_ifs with hv
          · refine parsed_kept hne hbrace hread (fun w hw => ?_) (sourceOf_pieces _ _) hps
            rw [hq] at hw
            cases hw
            exact hv
          · have h := hread []
            rw [List.append_nil] at h
            exact .quoted ⟨hv, qid, fields, h, hq⟩ hps

theorem replaced_ne_nil (v : GoString) : ¬Replaced marshal quests [] v := by
  rintro ⟨-, qid, fields, h, -⟩
  cases h

end

/-! ### Twice -/

theorem interpolateText_again (marshal : Json → GoString) (quests : List Quest) (s : GoString) :
    let ps := pieces marshal quests s.length s
    let once := interpolateText marshal quests s.length s
    (Quiet (Replaced marshal quests) ps → interpolateText marshal quests once.length once = once) ∧
      (NoSelf (Replaced marshal quests) →
        (interpolateText marshal quests once.length once = once ↔ Quiet (Replaced marshal quests) ps)) := by
  intro ps once
  have htext : textOf ps = once := textOf_pieces _ _
  have h := again_iff (fun v => replaced_ne_nil v) (parsed_pieces (le_refl s.length))
    (@parsed_pieces marshal quests _ _ (le_refl once.length))
    ((sourceOf_pieces _ _).trans htext.symm)
  rw [textOf_pieces, htext] at h
  exact h

/-- Interpolating once more changes nothing if what has been put in is inert, and only then as long as no
result has the reference to itself in it. -/
theorem interpolateParams_again (marshal : Json → GoString) (quests : List Quest) (params : Params) :
    let once := interpolateParams marshal params quests
    (Inert marshal quests params → interpolateParams marshal once quests = once) ∧
      (NoSelf (Replaced marshal quests) →
        (interpolateParams marshal once quests = once ↔ Inert marshal quests params)) := by
  intro once
  have htext := fun s => interpolateText_again marshal quests s
  have hiff : interpolateParams marshal once quests = once ↔
      ∀ k s, (k, .str s) ∈ params.getD [] →
        let t := interpolateText marshal quests s.length s
        interpolateText marshal quests t.length t = t := by
    cases params with
    | none => exact ⟨fun _ k s h => absurd h List.not_mem_nil, fun _ => rfl⟩
    | some l =>
      show some _ = some _ ↔ ∀ k s, (k, .str s) ∈ l → _
      rw [Option.some.injEq]
      dsimp only
      rw [List.map_map, List.map_inj_left]
      constructor
      · intro h k s hmem
        have := (Prod.mk.inj (h (k, .str s) hmem)).2
        exact Json.str.inj this
      · rintro h ⟨k, v⟩ hmem
        cases v with
        | str s => exact congrArg (fun t => (k, Json.str t)) (h k s hmem)
        | _ => rfl
  rw [hiff]
  refine ⟨fun h k s hmem => (htext s).1 (h k s hmem), fun hself => ⟨fun h k s hmem => ?_, fun h k s hmem => ?_⟩⟩
  · exact ((htext s).2 hself).1 (h k s hmem)
  · exact (htext s).1 (h k s hmem)

/-- A quest that is done. -/
def doneWith (id text : GoString) : Quest :=
  { boardQuest id [] with status := .done, result := some (.str text) }

/-- The parameters of a quest that quotes `q1`. -/
def quotingParams : Params := some [("text", .str "see \x7b\x7bq1.result\x7d\x7d")]

/-- A page that `q1` has fetched refers to the result of `q2`. -/
theorem interpolateParams_expands : ¬∀ marshal quests params,
    interpolateParams marshal (interpolateParams marshal params quests) quests =
      interpolateParams marshal params quests := by
  intro h
  have heq := h (fun _ => []) [doneWith "q1" "\x7b\x7bq2.result\x7d\x7d", doneWith "q2" "secret"] quotingParams
  have hvalue := (Prod.mk.inj (List.cons.inj (Option.some.inj heq)).1).2
  exact absurd (Json.str.inj hvalue) (by decide)

/-- The board of `quotingParams` after a harmless page. -/
def pageBoard : List Quest := [doneWith "q1" "a page", doneWith "q2" "secret"]

theorem pageBoard_inert : Inert (fun _ => []) pageBoard quotingParams := by
  intro k s hmem
  obtain ⟨rfl, hs⟩ := Prod.mk.inj (List.mem_singleton.1 hmem)
  obtain rfl := Json.str.inj hs
  refine (quiet_iff (parsed_pieces (le_refl _)) fun v => replaced_ne_nil v).2 fun r v hr hin => ?_
  obtain ⟨r', -, -, rfl, -⟩ := hr.questRef
  rw [textOf_pieces] at hin
  exact absurd (hin.subset (List.mem_cons_self ..)) (by decide)

theorem interpolateParams_page :
    let once := interpolateParams (fun _ => []) quotingParams pageBoard
    once = some [(str "text", .str "see a page")] ∧ interpolateParams (fun _ => []) once pageBoard = once :=
  ⟨rfl, (interpolateParams_again (fun _ => []) pageBoard quotingParams).1 pageBoard_inert⟩

end Gafam.Orchestrator
