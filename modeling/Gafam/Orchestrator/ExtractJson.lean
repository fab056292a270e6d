import Gafam.Go.Text
import Gafam.Go.Proofs.TextProofs
import Gafam.Lib.JsonText

/-!
# The object in the reply of a model

`extractJSON` and the `extractJSONObject` of Suparna look for the first object in a text and return it with its
braces. Both go over the bytes with a counter of open braces and two flags.
-/

namespace Gafam.Orchestrator

open Gafam.Go

/-- The loop of `extractJSON` from a byte on: the bytes up to the one it returns at. -/
def extractLoop (depth : Int) (inStr esc : Bool) : GoString → Option GoString
  | [] => none
  | c :: s =>
    if inStr then
      if esc then (extractLoop depth inStr false s).map (c :: ·)
      else if c = 0x5C then (extractLoop depth inStr true s).map (c :: ·)
      else if c = 0x22 then (extractLoop depth false esc s).map (c :: ·)
      else (extractLoop depth inStr esc s).map (c :: ·)
    else if c = 0x22 then (extractLoop depth true esc s).map (c :: ·)
    else if c = 0x7B then (extractLoop (depth + 1) inStr esc s).map (c :: ·)
    else if c = 0x7D then
      if depth - 1 = 0 then some [c] else (extractLoop (depth - 1) inStr esc s).map (c :: ·)
    else (extractLoop depth inStr esc s).map (c :: ·)

/-- `extractJSON`. -/
def extractJSON (s : GoString) : GoString :=
  match index "\x7b" s with
  | none => []
  | some start => (extractLoop 0 false false (s.drop start)).getD []

/-- The loop of `extractJSONObject`, which looks at the escape before it looks whether it is in a string. -/
def extractObjectLoop (depth : Int) (inString escape : Bool) : GoString → Option GoString
  | [] => none
  | c :: s =>
    if escape then (extractObjectLoop depth inString false s).map (c :: ·)
    else if inString then
      if c = 0x5C then (extractObjectLoop depth inString true s).map (c :: ·)
      else if c = 0x22 then (extractObjectLoop depth false escape s).map (c :: ·)
      else (extractObjectLoop depth inString escape s).map (c :: ·)
    else if c = 0x22 then (extractObjectLoop depth true escape s).map (c :: ·)
    else if c = 0x7B then (extractObjectLoop (depth + 1) inString escape s).map (c :: ·)
    else if c = 0x7D then
      if depth - 1 = 0 then some [c] else (extractObjectLoop (depth - 1) inString escape s).map (c :: ·)
    else (extractObjectLoop depth inString escape s).map (c :: ·)

/-- `extractJSONObject`. -/
def extractJSONObject (s : GoString) : GoString :=
  match index "\x7b" s with
  | none => []
  | some start => (extractObjectLoop 0 false false (s.drop start)).getD []

/-!
## The first object comes out whole

The loop of `extractJSON` is the reader that counts brackets, with the outermost brace in its counter.
-/

open Gafam.Go Gafam.Lib

/-- Where the flags of the loop say that it stands. -/
def standOf (inStr esc : Bool) : Stand := if inStr then if esc then .escape else .text else .code

/-- Inside the outermost object the loop is the reader. -/
theorem extractLoop_eq (d : Nat) {inStr esc : Bool} (hesc : esc = true → inStr = true) (s : GoString) :
    extractLoop ((d : Int) + 1) inStr esc s = untilClosed JsonText.marks d (standOf inStr esc) s := by
  induction s generalizing d inStr esc with
  | nil => cases inStr <;> cases esc <;> rfl
  | cons c s ih =>
    have hcode : ∀ d : Nat, extractLoop ((d : Int) + 1) false false s =
        untilClosed JsonText.marks d .code s := fun d => ih d id
    have htext : ∀ d : Nat, extractLoop ((d : Int) + 1) true false s =
        untilClosed JsonText.marks d .text s := fun d => ih d fun _ => rfl
    have hescape : ∀ d : Nat, extractLoop ((d : Int) + 1) true true s =
        untilClosed JsonText.marks d .escape s := fun d => ih d fun _ => rfl
    cases inStr with
    | true =>
      cases esc with
      | true =>
        rw [extractLoop, if_pos rfl, if_pos rfl, htext]
        rfl
      | false =>
        rw [extractLoop, if_pos rfl, if_neg Bool.false_ne_true, hescape, hcode, htext]
        show _ = (untilClosed JsonText.marks d (if c = 0x5C then .escape else if c = 0x22 then .code else .text)
          s).map (c :: ·)
        split_ifs
        · rfl
        · rfl
        · rfl
    | false =>
      have hesc' : esc = false := by simpa using hesc
      subst hesc'
      have hinner : extractLoop ((d : Int) + 1 + 1) false false s =
          untilClosed JsonText.marks (d + 1) .code s := by
        have h := hcode (d + 1)
        rwa [Int.natCast_succ] at h
      have houter : d ≠ 0 → extractLoop ((d : Int) + 1 - 1) false false s =
          untilClosed JsonText.marks (d - 1) .code s := by
        intro hd
        have h := hcode (d - 1)
        rwa [show ((d - 1 : Nat) : Int) + 1 = (d : Int) + 1 - 1 by omega] at h
      rw [extractLoop, if_neg Bool.false_ne_true, htext, hinner, hcode]
      show _ = if c = 0x22 then (untilClosed JsonText.marks d .text s).map (c :: ·)
        else if c = 0x7B then (untilClosed JsonText.marks (d + 1) .code s).map (c :: ·)
        else if c = 0x7D then
          if d = 0 then some [c] else (untilClosed JsonText.marks (d - 1) .code s).map (c :: ·)
        else (untilClosed JsonText.marks d .code s).map (c :: ·)
      by_cases hd : d = 0
      · rw [if_pos hd, if_pos (by omega : (d : Int) + 1 - 1 = 0)]
      · rw [if_neg hd, if_neg (by omega : ¬(d : Int) + 1 - 1 = 0), houter hd]

/-- The loops of the two packages do the same, since an escape comes up in a string only. -/
theorem extractObjectLoop_eq (depth : Int) {inStr esc : Bool} (hesc : esc = true → inStr = true) (s : GoString) :
    extractObjectLoop depth inStr esc s = extractLoop depth inStr esc s := by
  induction s generalizing depth inStr esc with
  | nil => rfl
  | cons c s ih =>
    have hcode : ∀ depth, extractObjectLoop depth false false s = extractLoop depth false false s :=
      fun depth => ih depth id
    have htext : ∀ esc, extractObjectLoop depth true esc s = extractLoop depth true esc s :=
      fun esc => ih depth fun _ => rfl
    rw [extractObjectLoop, extractLoop]
    cases esc with
    | true =>
      obtain rfl := hesc rfl
      rw [if_pos rfl, if_pos rfl, if_pos rfl, htext]
    | false =>
      rw [if_neg Bool.false_ne_true]
      cases inStr with
      | true => rw [if_pos rfl, if_pos rfl, if_neg Bool.false_ne_true, htext, htext, hcode]
      | false =>
        rw [if_neg Bool.false_ne_true, if_neg Bool.false_ne_true, htext, hcode, hcode, hcode]

/-- From the first brace on. -/
theorem extractLoop_start (s : GoString) :
    extractLoop 0 false false (0x7B :: s) = (untilClosed JsonText.marks 0 .code s).map (0x7B :: ·) := by
  have h : extractLoop (0 + 1) false false s = _ := extractLoop_eq 0 id s
  rw [extractLoop, if_neg Bool.false_ne_true, if_neg (by decide), if_pos rfl]
  exact congrArg (Option.map _) h

theorem index_brace {lead : GoString} (hlead : (0x7B : UInt8) ∉ lead) (s : GoString) :
    index "\x7b" (lead ++ 0x7B :: s) = some lead.length := by
  refine (index_eq_some_iff (by decide)).2 ⟨lead, s, (List.append_assoc lead [0x7B] s).symm, rfl, ?_⟩
  rintro ⟨a, b, h⟩
  have hmem : (0x7B : UInt8) ∈ lead ++ (str "\x7b").dropLast := by
    rw [← h]
    exact List.mem_append_left _ (List.mem_append_right _ (List.mem_cons_self ..))
  rcases List.mem_append.1 hmem with hmem | hmem
  · exact hlead hmem
  · exact absurd hmem (by decide)

theorem extractJSON_found {lead : GoString} (hlead : (0x7B : UInt8) ∉ lead) (s : GoString) :
    extractJSON (lead ++ 0x7B :: s) =
      ((untilClosed JsonText.marks 0 .code s).map (0x7B :: ·)).getD [] := by
  unfold extractJSON
  rw [index_brace hlead]
  dsimp only
  rw [List.drop_left, extractLoop_start]

/-- A text with no brace at all. -/
theorem extractJSON_none {s : GoString} (hs : (0x7B : UInt8) ∉ s) : extractJSON s = [] := by
  have hnone : index "\x7b" s = none := by
    refine (index_eq_none_iff (by decide)).2 ?_
    rintro ⟨a, b, rfl⟩
    exact hs (List.mem_append_left _ (List.mem_append_right _ (List.mem_cons_self ..)))
  unfold extractJSON
  rw [hnone]

/-- The text in front of the first brace. -/
theorem exists_first_brace (s : GoString) :
    (0x7B : UInt8) ∉ s ∨ ∃ lead rest, (0x7B : UInt8) ∉ lead ∧ s = lead ++ 0x7B :: rest := by
  by_cases hs : (0x7B : UInt8) ∈ s
  · obtain ⟨lead, rest, hlead, rfl, -⟩ := List.exists_erase_eq hs
    exact .inr ⟨lead, rest, hlead, rfl⟩
  · exact .inl hs

/-- What `extractJSON` returns is an object that the text has, with the matching brace at its end, or
nothing; and the function of the other package returns the same. -/
theorem extractJSON_spec :
    (∀ lead object trail : GoString, (0x7B : UInt8) ∉ lead → JsonText.Object object →
      extractJSON (lead ++ object ++ trail) = object) ∧
    (∀ s, extractJSON s = [] ∨ ∃ lead inner trail,
      s = lead ++ extractJSON s ++ trail ∧ extractJSON s = 0x7B :: (inner ++ [0x7D])) ∧
    ∀ s, extractJSONObject s = extractJSON s := by
  refine ⟨fun lead object trail hlead hobject => ?_, fun s => ?_, fun s => ?_⟩
  · obtain ⟨inner, rfl, hinner⟩ := hobject.group
    have hsplit : lead ++ JsonText.marks.opening :: (inner ++ [JsonText.marks.closing]) ++ trail =
        lead ++ 0x7B :: (inner ++ JsonText.marks.closing :: trail) := by
      rw [List.append_assoc, List.cons_append, List.append_assoc]
      rfl
    rw [hsplit, extractJSON_found hlead, untilClosed_group hinner]
    rfl
  · rcases exists_first_brace s with hs | ⟨lead, rest, hlead, rfl⟩
    · exact .inl (extractJSON_none hs)
    · rw [extractJSON_found hlead]
      cases h : untilClosed JsonText.marks 0 .code rest with
      | none => exact .inl rfl
      | some t =>
        obtain ⟨⟨trail, rfl⟩, inner, rfl⟩ := untilClosed_eq_some h
        refine .inr ⟨lead, inner, trail, ?_, rfl⟩
        show _ = lead ++ 0x7B :: (inner ++ [JsonText.marks.closing]) ++ trail
        simp
  · unfold extractJSONObject extractJSON
    cases index "\x7b" s with
    | none => rfl
    | some start => exact congrArg (Option.getD · []) (extractObjectLoop_eq 0 id _)

/-- An object whose string has a brace and an escaped quote in it. -/
def trickyObject : GoString := "\x7b\"a\":\"\x7d\\\"\"\x7d"

theorem trickyObject_object : JsonText.Object trickyObject := by
  have hws : JsonText.Ws [] := nofun
  have hkey : JsonText.Chars (str "a") := .plain (by decide) (by decide) (by decide) .nil
  have hvalue : JsonText.Chars (str "\x7d\\\"") :=
    .plain (by decide) (by decide) (by decide) (.escape (by decide) .nil)
  exact ⟨_, rfl, .inr (.lastMember (.member hws hkey hws (.element hws (.string hvalue) hws)))⟩

theorem extractJSON_tricky : extractJSON ("Sure: " ++ trickyObject ++ " ok \x7d") = trickyObject :=
  extractJSON_spec.1 _ _ _ (by decide) trickyObject_object

end Gafam.Orchestrator
