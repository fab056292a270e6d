import Gafam.Js.Json
import Gafam.Js.Proofs.TextProofs

/-!
# What `JSON.parse` reads

A value starts and ends with a printable character of ASCII, so that white space around it does not
matter. A number ends at the end of its line. A text that holds a string has at least as many
backslashes as the string has characters to escape.
-/

namespace Gafam.Js

open Gafam.Go

/-- A printable character of ASCII. -/
def IsGraphic (u : UInt16) : Prop := 0x20 < u ∧ u < 0x7F

instance (u : UInt16) : Decidable (IsGraphic u) := inferInstanceAs (Decidable (0x20 < u ∧ u < 0x7F))

/-- What is read of `s` in front of `rest` ends with a printable character. -/
def Ends (s rest : JsString) : Prop := ∃ pre c, s = pre ++ c :: rest ∧ IsGraphic c

theorem Ends.prepend {s rest : JsString} (h : Ends s rest) (w : JsString) : Ends (w ++ s) rest := by
  obtain ⟨pre, c, rfl, hc⟩ := h
  exact ⟨w ++ pre, c, by simp, hc⟩

theorem Ends.trans {s t rest : JsString} (h : Ends s t) (h' : Ends t rest) : Ends s rest := by
  obtain ⟨pre, c, rfl, -⟩ := h
  have := h'.prepend (pre ++ [c])
  rwa [List.append_assoc] at this

/-! ## Tokens -/

/-- The white space in front of the next token. -/
theorem skipSpace_spec (s : JsString) :
    ∃ w, s = w ++ skipSpace s ∧ ∀ u ∈ w, isJsonSpace u = true := by
  refine ⟨s.takeWhile isJsonSpace, ?_, fun u hu => List.mem_takeWhile_imp hu⟩
  unfold skipSpace
  exact List.takeWhile_append_dropWhile.symm

theorem expect_spec {c : UInt16} {s rest : JsString} (h : expect c s = some rest) :
    ∃ w, s = w ++ c :: rest := by
  obtain ⟨w, hw, -⟩ := skipSpace_spec s
  unfold expect at h
  cases hs : skipSpace s with
  | nil =>
    rw [hs] at h
    cases h
  | cons d t =>
    rw [hs] at h hw
    dsimp only at h
    split_ifs at h with hd
    obtain rfl := Option.some.inj h
    exact ⟨w, by rw [hw, hd]⟩

theorem expect_ends {c : UInt16} (hc : IsGraphic c) {s rest : JsString} (h : expect c s = some rest) :
    Ends s rest := by
  obtain ⟨w, hw⟩ := expect_spec h
  exact ⟨w, c, hw, hc⟩

/-! ## Strings -/

/-- The characters of a string that cannot stand for themselves. -/
def marks (s : JsString) : Nat := s.count 0x22 + s.count 0x5C

theorem marks_cons (u : UInt16) (s : JsString) : marks (u :: s) = marks [u] + marks s := by
  unfold marks
  rw [List.count_cons (a := 0x22), List.count_cons (a := 0x5C), List.count_singleton,
    List.count_singleton]
  omega

theorem marks_le_one (u : UInt16) : marks [u] ≤ 1 := by
  unfold marks
  rw [List.count_singleton, List.count_singleton]
  by_cases hq : u = 0x22
  · subst hq
    decide
  · rw [if_neg (by simpa using hq)]
    split_ifs <;> omega

theorem hexUnit_spec {s rest : JsString} {u : UInt16} (h : hexUnit s = some (u, rest)) :
    ∃ x, s = x ++ rest := by
  unfold hexUnit at h
  split at h
  · rename_i a b c d rest'
    simp only [Option.bind_eq_bind, Option.bind_eq_some_iff, Option.pure_def] at h
    obtain ⟨_, -, _, -, _, -, _, -, h⟩ := h
    obtain ⟨-, rfl⟩ := Prod.mk.inj (Option.some.inj h)
    exact ⟨[a, b, c, d], rfl⟩
  · cases h

theorem escaped_spec {s rest : JsString} {u : UInt16} (h : escaped s = some (u, rest)) :
    ∃ x, s = x ++ rest := by
  cases s with
  | nil => cases h
  | cons e s =>
    unfold escaped at h
    dsimp only at h
    split_ifs at h with he
    · obtain ⟨x, rfl⟩ := hexUnit_spec h
      exact ⟨e :: x, rfl⟩
    · obtain ⟨c, -, hc⟩ := Option.map_eq_some_iff.1 h
      obtain ⟨-, rfl⟩ := Prod.mk.inj hc
      exact ⟨[e], rfl⟩

/-- A string literal ends with a quote, and has a backslash for every character that needs one. -/
theorem unquote_spec {fuel : Nat} {s p rest : JsString} (h : unquote fuel s = some (p, rest)) :
    ∃ pre, s = pre ++ 0x22 :: rest ∧ marks p ≤ pre.count 0x5C := by
  induction fuel generalizing s p with
  | zero =>
    unfold unquote at h
    cases h
  | succ fuel ih =>
    cases s with
    | nil =>
      unfold unquote at h
      cases h
    | cons c s =>
      unfold unquote at h
      by_cases hquote : c = 0x22
      · rw [if_pos hquote] at h
        obtain ⟨rfl, rfl⟩ := Prod.mk.inj (Option.some.inj h)
        exact ⟨[], by rw [hquote]; rfl, Nat.le_refl _⟩
      · rw [if_neg hquote] at h
        by_cases hslash : c = 0x5C
        · rw [if_pos hslash] at h
          obtain ⟨⟨e, s'⟩, he, h⟩ := Option.bind_eq_some_iff.1 h
          obtain ⟨⟨p', rest'⟩, hp', heq⟩ := Option.map_eq_some_iff.1 h
          obtain ⟨rfl, rfl⟩ := Prod.mk.inj heq
          obtain ⟨x, rfl⟩ := escaped_spec he
          obtain ⟨pre, rfl, hmarks⟩ := ih hp'
          refine ⟨c :: (x ++ pre), by simp, ?_⟩
          have hone := marks_le_one e
          show marks (e :: p') ≤ _
          rw [marks_cons, hslash, List.count_cons_self, List.count_append]
          omega
        · rw [if_neg hslash] at h
          split_ifs at h with hcontrol
          obtain ⟨⟨p', rest'⟩, hp', heq⟩ := Option.map_eq_some_iff.1 h
          obtain ⟨rfl, rfl⟩ := Prod.mk.inj heq
          obtain ⟨pre, rfl, hmarks⟩ := ih hp'
          refine ⟨c :: pre, rfl, ?_⟩
          have hzero : marks [c] = 0 := by
            unfold marks
            rw [List.count_singleton, List.count_singleton, if_neg (by simpa using hquote),
              if_neg (by simpa using hslash)]
          rw [marks_cons, hzero, Nat.zero_add, List.count_cons_of_ne hslash]
          exact hmarks

theorem unquote_ends {fuel : Nat} {s p rest : JsString} (h : unquote fuel s = some (p, rest)) :
    Ends s rest := by
  obtain ⟨pre, hpre, -⟩ := unquote_spec h
  exact ⟨pre, 0x22, hpre, by decide⟩

/-! ## Numbers -/

/-- What is read of `s` in front of `rest` is on one line, and ends with a digit. -/
def Numeric (s rest : JsString) : Prop :=
  ∃ pre d, s = pre ++ d :: rest ∧ isDigit d = true ∧ ∀ u ∈ pre, u ≠ 0x0D

theorem digit_bounds {u : UInt16} (h : isDigit u = true) : 48 ≤ u.toNat ∧ u.toNat ≤ 57 := by
  unfold isDigit at h
  simp only [Bool.and_eq_true, decide_eq_true_eq] at h
  exact ⟨UInt16.le_iff_toNat_le.1 h.1, UInt16.le_iff_toNat_le.1 h.2⟩

theorem digit_graphic {u : UInt16} (h : isDigit u = true) : IsGraphic u := by
  obtain ⟨hlo, hhi⟩ := digit_bounds h
  constructor
  · exact UInt16.lt_iff_toNat_lt.2 (Nat.lt_of_lt_of_le (by decide) hlo)
  · exact UInt16.lt_iff_toNat_lt.2 (Nat.lt_of_le_of_lt hhi (by decide))

theorem digit_ne_return {u : UInt16} (h : isDigit u = true) : u ≠ 0x0D := by
  rintro rfl
  cases h

theorem Numeric.ends {s rest : JsString} (h : Numeric s rest) : Ends s rest := by
  obtain ⟨pre, d, hs, hd, -⟩ := h
  exact ⟨pre, d, hs, digit_graphic hd⟩

theorem Numeric.prepend {s rest : JsString} (h : Numeric s rest) {w : JsString}
    (hw : ∀ u ∈ w, u ≠ 0x0D) : Numeric (w ++ s) rest := by
  obtain ⟨pre, d, rfl, hd, hpre⟩ := h
  refine ⟨w ++ pre, d, by simp, hd, fun u hu => ?_⟩
  rcases List.mem_append.1 hu with hu | hu
  · exact hw u hu
  · exact hpre u hu

theorem Numeric.trans {s t rest : JsString} (h : Numeric s t) (h' : Numeric t rest) :
    Numeric s rest := by
  obtain ⟨pre, d, rfl, hd, hpre⟩ := h
  have := h'.prepend (w := pre ++ [d]) fun u hu => by
    rcases List.mem_append.1 hu with hu | hu
    · exact hpre u hu
    · rw [List.mem_singleton.1 hu]
      exact digit_ne_return hd
  rwa [List.append_assoc] at this

theorem scanDigits_numeric {s digits rest : JsString} (h : scanDigits s = some (digits, rest)) :
    Numeric s rest := by
  unfold scanDigits at h
  dsimp only at h
  split_ifs at h with hnil
  obtain ⟨rfl, rfl⟩ := Prod.mk.inj (Option.some.inj h)
  have hdigits : ∀ u ∈ s.takeWhile isDigit, isDigit u = true := fun u hu => List.mem_takeWhile_imp hu
  have hsplit := List.takeWhile_append_dropWhile (p := isDigit) (l := s)
  rcases List.eq_nil_or_concat (s.takeWhile isDigit) with hempty | ⟨pre, d, hd⟩
  · exact absurd hempty hnil
  · rw [hd, List.concat_eq_append] at hdigits hsplit
    refine ⟨pre, d, ?_, hdigits d (by simp), fun u hu => digit_ne_return (hdigits u (by simp [hu]))⟩
    rw [List.append_assoc] at hsplit
    exact hsplit.symm

theorem head_tail {s : JsString} {u : UInt16} (h : s.head? = some u) : s = [u] ++ s.tail := by
  cases s with
  | nil => cases h
  | cons c s =>
    obtain rfl := Option.some.inj h
    rfl

theorem scanWhole_numeric {s p rest : JsString} (h : scanWhole s = some (p, rest)) : Numeric s rest := by
  unfold scanWhole at h
  split_ifs at h with hzero
  · obtain ⟨-, rfl⟩ := Prod.mk.inj (Option.some.inj h)
    exact ⟨[], 0x30, head_tail hzero, by decide, nofun⟩
  · exact scanDigits_numeric h

/-- The parts of a number that may be missing. -/
theorem scanFraction_numeric {s p rest : JsString} (h : scanFraction s = some (p, rest)) :
    rest = s ∨ Numeric s rest := by
  unfold scanFraction at h
  split_ifs at h with hpoint
  · obtain ⟨⟨digits, rest'⟩, hdigits, heq⟩ := Option.map_eq_some_iff.1 h
    obtain ⟨-, rfl⟩ := Prod.mk.inj heq
    right
    rw [head_tail hpoint]
    exact (scanDigits_numeric hdigits).prepend (forall_of_all (by decide))
  · obtain ⟨-, rfl⟩ := Prod.mk.inj (Option.some.inj h)
    exact .inl rfl

theorem scanSign_spec (s : JsString) :
    ∃ w, s = w ++ (scanSign s).2 ∧ ∀ u ∈ w, u ≠ 0x0D := by
  unfold scanSign
  split_ifs with hsign
  · rcases hsign with hsign | hsign
    · exact ⟨[0x2B], head_tail hsign, forall_of_all (by decide)⟩
    · exact ⟨[0x2D], head_tail hsign, forall_of_all (by decide)⟩
  · exact ⟨[], rfl, nofun⟩

theorem scanExponent_numeric {s p rest : JsString} (h : scanExponent s = some (p, rest)) :
    rest = s ∨ Numeric s rest := by
  unfold scanExponent at h
  split_ifs at h with hletter
  · obtain ⟨⟨digits, rest'⟩, hdigits, heq⟩ := Option.map_eq_some_iff.1 h
    obtain ⟨-, rfl⟩ := Prod.mk.inj heq
    obtain ⟨w, hw, hline⟩ := scanSign_spec s.tail
    have htail : Numeric s.tail rest' := by
      rw [hw]
      exact (scanDigits_numeric hdigits).prepend hline
    right
    rcases hletter with hletter | hletter
    · rw [head_tail hletter]
      exact htail.prepend (forall_of_all (by decide))
    · rw [head_tail hletter]
      exact htail.prepend (forall_of_all (by decide))
  · obtain ⟨-, rfl⟩ := Prod.mk.inj (Option.some.inj h)
    exact .inl rfl

theorem scanNumber_numeric {s p rest : JsString} (h : scanNumber s = some (p, rest)) :
    Numeric s rest := by
  unfold scanNumber at h
  simp only [Option.bind_eq_bind, Option.bind_eq_some_iff, Option.pure_def, Option.some.injEq,
    Prod.mk.injEq, Prod.exists] at h
  obtain ⟨whole, t, hwhole, fraction, t', hfraction, exponent, t'', hexponent, -, rfl⟩ := h
  have hfront : Numeric s t := by
    split_ifs at hwhole with hminus
    · rw [head_tail hminus]
      exact (scanWhole_numeric hwhole).prepend (forall_of_all (by decide))
    · exact scanWhole_numeric hwhole
  have hmiddle : Numeric s t' := by
    rcases scanFraction_numeric hfraction with rfl | h
    · exact hfront
    · exact hfront.trans h
  rcases scanExponent_numeric hexponent with rfl | h
  · exact hmiddle
  · exact hmiddle.trans h

/-- A number starts with a digit or a minus. -/
theorem scanNumber_head {c : UInt16} {s p rest : JsString} (h : scanNumber (c :: s) = some (p, rest)) :
    c = 0x2D ∨ isDigit c = true := by
  by_cases hminus : c = 0x2D
  · exact .inl hminus
  · right
    have hhead : ¬ (c :: s).head? = some 0x2D := fun h => hminus (Option.some.inj h)
    unfold scanNumber at h
    simp only [Option.bind_eq_bind, Option.bind_eq_some_iff, Prod.exists] at h
    obtain ⟨whole, t, hwhole, -⟩ := h
    rw [if_neg hhead] at hwhole
    unfold scanWhole at hwhole
    split_ifs at hwhole with hzero
    · rw [show c = 0x30 from Option.some.inj hzero]
      decide
    · unfold scanDigits at hwhole
      dsimp only at hwhole
      by_contra hc
      rw [List.takeWhile_cons, if_neg hc, if_pos rfl] at hwhole
      cases hwhole

/-! ## Values -/

theorem scanWord_ends {word s rest : JsString} (hword : ∃ pre c, word = pre ++ [c] ∧ IsGraphic c)
    (h : scanWord word s = some rest) : Ends s rest := by
  obtain ⟨pre, c, rfl, hc⟩ := hword
  unfold scanWord at h
  split_ifs at h with hprefix
  obtain ⟨t, rfl⟩ := List.isPrefixOf_iff_prefix.1 hprefix
  obtain rfl := Option.some.inj h
  refine ⟨pre, c, ?_, hc⟩
  rw [List.drop_left, List.append_assoc]
  rfl

/-- How a value is read. -/
inductive ReadValue (fuel : Nat) (s : JsString) : JsonValue → JsString → Prop
  | string {w t u rest : JsString} (hs : s = w ++ 0x22 :: t)
    (h : unquote (t.length + 1) t = some (u, rest)) : ReadValue fuel s (.str u) rest
  | emptyObject {w t rest : JsString} (hs : s = w ++ 0x7B :: t) (h : expect 0x7D t = some rest) :
    ReadValue fuel s (.obj []) rest
  | object {w t rest : JsString} {members : List (JsString × JsonValue)} (hs : s = w ++ 0x7B :: t)
    (h : parseMembers fuel t = some (members, rest)) : ReadValue fuel s (.obj members) rest
  | emptyArray {w t rest : JsString} (hs : s = w ++ 0x5B :: t) (h : expect 0x5D t = some rest) :
    ReadValue fuel s (.arr []) rest
  | array {w t rest : JsString} {elements : List JsonValue} (hs : s = w ++ 0x5B :: t)
    (h : parseElements fuel t = some (elements, rest)) : ReadValue fuel s (.arr elements) rest
  | true {w t rest : JsString} (hs : s = w ++ t) (h : scanWord (ascii "true") t = some rest) :
    ReadValue fuel s (.bool true) rest
  | false {w t rest : JsString} (hs : s = w ++ t) (h : scanWord (ascii "false") t = some rest) :
    ReadValue fuel s (.bool false) rest
  | null {w t rest : JsString} (hs : s = w ++ t) (h : scanWord (ascii "null") t = some rest) :
    ReadValue fuel s .null rest
  | number {w t n rest : JsString} (hs : s = w ++ t) (h : scanNumber t = some (n, rest)) :
    ReadValue fuel s (.num n) rest

theorem parseValue_cases {fuel : Nat} {s rest : JsString} {v : JsonValue}
    (h : parseValue fuel s = some (v, rest)) : ∃ n, fuel = n + 1 ∧ ReadValue n s v rest := by
  cases fuel with
  | zero =>
    unfold parseValue at h
    cases h
  | succ fuel =>
    refine ⟨fuel, rfl, ?_⟩
    obtain ⟨w, hw, -⟩ := skipSpace_spec s
    unfold parseValue at h
    cases hs : skipSpace s with
    | nil =>
      rw [hs] at h
      cases h
    | cons c t =>
      rw [hs] at h hw
      dsimp only at h
      split_ifs at h with hquote hbrace hbracket htrue hfalse hnull
      · obtain ⟨p, hp, heq⟩ := Option.map_eq_some_iff.1 h
        obtain ⟨rfl, rfl⟩ := Prod.mk.inj heq
        exact .string (hquote ▸ hw) hp
      · cases hclose : expect 0x7D t with
        | some rest' =>
          rw [hclose] at h
          obtain ⟨rfl, rfl⟩ := Prod.mk.inj (Option.some.inj h)
          exact .emptyObject (hbrace ▸ hw) hclose
        | none =>
          rw [hclose] at h
          obtain ⟨p, hp, heq⟩ := Option.map_eq_some_iff.1 h
          obtain ⟨rfl, rfl⟩ := Prod.mk.inj heq
          exact .object (hbrace ▸ hw) hp
      · cases hclose : expect 0x5D t with
        | some rest' =>
          rw [hclose] at h
          obtain ⟨rfl, rfl⟩ := Prod.mk.inj (Option.some.inj h)
          exact .emptyArray (hbracket ▸ hw) hclose
        | none =>
          rw [hclose] at h
          obtain ⟨p, hp, heq⟩ := Option.map_eq_some_iff.1 h
          obtain ⟨rfl, rfl⟩ := Prod.mk.inj heq
          exact .array (hbracket ▸ hw) hp
      · obtain ⟨r, hr, heq⟩ := Option.map_eq_some_iff.1 h
        obtain ⟨rfl, rfl⟩ := Prod.mk.inj heq
        exact .true hw hr
      · obtain ⟨r, hr, heq⟩ := Option.map_eq_some_iff.1 h
        obtain ⟨rfl, rfl⟩ := Prod.mk.inj heq
        exact .false hw hr
      · obtain ⟨r, hr, heq⟩ := Option.map_eq_some_iff.1 h
        obtain ⟨rfl, rfl⟩ := Prod.mk.inj heq
        exact .null hw hr
      · obtain ⟨p, hp, heq⟩ := Option.map_eq_some_iff.1 h
        obtain ⟨rfl, rfl⟩ := Prod.mk.inj heq
        exact .number hw hp

/-- Values, members and elements end with a printable character. -/
theorem parse_ends (fuel : Nat) :
    (∀ s v rest, parseValue fuel s = some (v, rest) → Ends s rest) ∧
    (∀ s members rest, parseMembers fuel s = some (members, rest) → Ends s rest) ∧
    (∀ s elements rest, parseElements fuel s = some (elements, rest) → Ends s rest) := by
  induction fuel with
  | zero =>
    refine ⟨fun s v rest h => ?_, fun s members rest h => ?_, fun s elements rest h => ?_⟩
    · unfold parseValue at h
      cases h
    · unfold parseMembers at h
      cases h
    · unfold parseElements at h
      cases h
  | succ fuel ih =>
    obtain ⟨ihValue, ihMembers, ihElements⟩ := ih
    refine ⟨fun s v rest h => ?_, fun s members rest h => ?_, fun s elements rest h => ?_⟩
    · obtain ⟨n, hn, hread⟩ := parseValue_cases h
      obtain rfl := Nat.succ.inj hn
      cases hread with
      | string hs h => rw [hs]; exact ((unquote_ends h).prepend [0x22]).prepend _
      | emptyObject hs h => rw [hs]; exact ((expect_ends (by decide) h).prepend [0x7B]).prepend _
      | object hs h => rw [hs]; exact ((ihMembers _ _ _ h).prepend [0x7B]).prepend _
      | emptyArray hs h => rw [hs]; exact ((expect_ends (by decide) h).prepend [0x5B]).prepend _
      | array hs h => rw [hs]; exact ((ihElements _ _ _ h).prepend [0x5B]).prepend _
      | true hs h => rw [hs]; exact (scanWord_ends ⟨ascii "tru", 0x65, rfl, by decide⟩ h).prepend _
      | false hs h => rw [hs]; exact (scanWord_ends ⟨ascii "fals", 0x65, rfl, by decide⟩ h).prepend _
      | null hs h => rw [hs]; exact (scanWord_ends ⟨ascii "nul", 0x6C, rfl, by decide⟩ h).prepend _
      | number hs h => rw [hs]; exact (scanNumber_numeric h).ends.prepend _
    · unfold parseMembers at h
      simp only [Option.bind_eq_bind, Option.bind_eq_some_iff, Prod.exists] at h
      obtain ⟨r1, hopen, key, r2, hkey, r3, hcolon, v, r4, hv, h⟩ := h
      have hhead : Ends s r4 := (expect_ends (by decide) hopen).trans ((unquote_ends hkey).trans
        ((expect_ends (by decide) hcolon).trans (ihValue _ _ _ hv)))
      cases hclose : expect 0x7D r4 with
      | some rest' =>
        rw [hclose] at h
        obtain ⟨-, rfl⟩ := Prod.mk.inj (Option.some.inj h)
        exact hhead.trans (expect_ends (by decide) hclose)
      | none =>
        rw [hclose] at h
        simp only [Option.bind_eq_some_iff, Prod.exists] at h
        obtain ⟨r5, hcomma, ms, r6, hms, heq⟩ := h
        obtain ⟨-, rfl⟩ := Prod.mk.inj (Option.some.inj heq)
        exact hhead.trans ((expect_ends (by decide) hcomma).trans (ihMembers _ _ _ hms))
    · unfold parseElements at h
      simp only [Option.bind_eq_bind, Option.bind_eq_some_iff, Prod.exists] at h
      obtain ⟨v, r1, hv, h⟩ := h
      have hhead := ihValue _ _ _ hv
      cases hclose : expect 0x5D r1 with
      | some rest' =>
        rw [hclose] at h
        obtain ⟨-, rfl⟩ := Prod.mk.inj (Option.some.inj h)
        exact hhead.trans (expect_ends (by decide) hclose)
      | none =>
        rw [hclose] at h
        simp only [Option.bind_eq_some_iff, Prod.exists] at h
        obtain ⟨r2, hcomma, es, r3, hes, heq⟩ := h
        obtain ⟨-, rfl⟩ := Prod.mk.inj (Option.some.inj heq)
        exact hhead.trans ((expect_ends (by decide) hcomma).trans (ihElements _ _ _ hes))

/-- A value starts with a printable character. -/
theorem parseValue_head {fuel : Nat} {c : UInt16} {s : JsString} {r : JsonValue × JsString}
    (hspace : isJsonSpace c = false) (h : parseValue fuel (c :: s) = some r) : IsGraphic c := by
  cases fuel with
  | zero =>
    unfold parseValue at h
    cases h
  | succ fuel =>
    have hskip : skipSpace (c :: s) = c :: s := dropWhile_head rfl hspace
    unfold parseValue at h
    rw [hskip] at h
    dsimp only at h
    by_cases hword : c = 0x22 ∨ c = 0x7B ∨ c = 0x5B ∨ c = 0x74 ∨ c = 0x66 ∨ c = 0x6E
    · rcases hword with rfl | rfl | rfl | rfl | rfl | rfl <;> decide
    · simp only [not_or] at hword
      obtain ⟨h1, h2, h3, h4, h5, h6⟩ := hword
      rw [if_neg h1, if_neg h2, if_neg h3, if_neg h4, if_neg h5, if_neg h6] at h
      obtain ⟨p, hp, -⟩ := Option.map_eq_some_iff.1 h
      rcases scanNumber_head hp with rfl | hdigit
      · decide
      · exact digit_graphic hdigit

/-! ## Texts -/

theorem graphic_not_space {u : UInt16} (h : IsGraphic u) :
    isTrimSpace u = false ∧ isJsonSpace u = false := by
  obtain ⟨hlo, hhi⟩ := h
  have h1 := UInt16.lt_iff_toNat_lt.1 hlo
  have h2 := UInt16.lt_iff_toNat_lt.1 hhi
  have hlo' : 0x20 < u.toNat := h1
  have hhi' : u.toNat < 0x7F := h2
  constructor
  · unfold isTrimSpace
    simp
    omega
  · unfold isJsonSpace
    have hne : ∀ d : UInt16, d.toNat ≤ 0x20 → u ≠ d := by
      rintro d hd rfl
      omega
    simp [hne 0x20 (by decide), hne 0x09 (by decide), hne 0x0A (by decide), hne 0x0D (by decide)]

theorem jsonSpace_trim {u : UInt16} (h : isJsonSpace u = true) : isTrimSpace u = true := by
  unfold isJsonSpace at h
  simp only [Bool.or_eq_true, beq_iff_eq] at h
  rcases h with ((rfl | rfl) | rfl) | rfl <;> rfl

/-- A text is a value between white space, and the value stands between printable characters. -/
theorem jsonParse_spec {text : JsString} {v : JsonValue} (h : jsonParse text = some v) :
    ∃ a core b, text = a ++ core ++ b ∧ (∀ u ∈ a, isJsonSpace u = true) ∧
      (∀ u ∈ b, isJsonSpace u = true) ∧ parseValue (core.length + 1) core = some (v, []) ∧
      (∃ x, core.head? = some x ∧ IsGraphic x) ∧ ∃ y, core.getLast? = some y ∧ IsGraphic y := by
  obtain ⟨a, b, htext, ha, hb⟩ := strip_spec isJsonSpace text
  have hvalue : parseValue ((strip isJsonSpace text).length + 1) (strip isJsonSpace text) =
      some (v, []) := by
    unfold jsonParse at h
    dsimp only at h
    split at h
    · rename_i v' hv'
      rw [hv', Option.some.inj h]
    · cases h
  refine ⟨a, strip isJsonSpace text, b, htext, ha, hb, hvalue, ?_, ?_⟩
  · cases hcore : strip isJsonSpace text with
    | nil =>
      rw [hcore] at hvalue
      cases hvalue
    | cons c s =>
      rw [hcore] at hvalue
      refine ⟨c, rfl, parseValue_head ?_ hvalue⟩
      -- what `strip` leaves does not start with white space
      cases hspace : isJsonSpace c with
      | false => rfl
      | true =>
        exfalso
        have hlast := ((parse_ends _).1 _ _ _ hvalue)
        obtain ⟨pre, d, hd, hgraphic⟩ := hlast
        have hfront : (text.dropWhile isJsonSpace).head? = some c := by
          have hrev : (text.dropWhile isJsonSpace).reverse.dropWhile isJsonSpace = (c :: s).reverse := by
            have := congrArg List.reverse hcore
            unfold strip at this
            rwa [List.reverse_reverse] at this
          have hsuffix := List.dropWhile_suffix isJsonSpace (l := (text.dropWhile isJsonSpace).reverse)
          rw [hrev] at hsuffix
          obtain ⟨t, ht⟩ := hsuffix
          have := congrArg List.reverse ht
          rw [List.reverse_append, List.reverse_reverse, List.reverse_reverse] at this
          rw [← this]
          rfl
        have hnot := List.head?_dropWhile_not isJsonSpace text
        rw [hfront] at hnot
        simp [hspace] at hnot
  · obtain ⟨pre, c, hpre, hc⟩ := (parse_ends _).1 _ _ _ hvalue
    refine ⟨c, ?_, hc⟩
    rw [hpre, List.getLast?_concat]

/-- `trim` in front of `JSON.parse` does nothing. -/
theorem jsonParse_trim {text : JsString} {v : JsonValue} (h : jsonParse text = some v) :
    trim text ≠ [] ∧ jsonParse (trim text) = some v := by
  obtain ⟨a, core, b, rfl, ha, hb, hvalue, ⟨x, hx, hgx⟩, y, hy, hgy⟩ := jsonParse_spec h
  have htrim : trim (a ++ core ++ b) = core :=
    strip_eq (fun u hu => jsonSpace_trim (ha u hu)) (fun u hu => jsonSpace_trim (hb u hu)) hx
      (graphic_not_space hgx).1 hy (graphic_not_space hgy).1
  have hstrip : strip isJsonSpace ([] ++ core ++ []) = core :=
    strip_eq nofun nofun hx (graphic_not_space hgx).2 hy (graphic_not_space hgy).2
  rw [List.nil_append, List.append_nil] at hstrip
  rw [htrim]
  constructor
  · rintro rfl
    cases hx
  · unfold jsonParse
    rw [hstrip]
    dsimp only
    rw [hvalue]

/-- A text that ends with a character that JSON does not know is no value. -/
theorem jsonParse_bad_end {text : JsString} {u : UInt16} (hu : isJsonSpace u = false)
    (hgraphic : ¬ IsGraphic u) : jsonParse (text ++ [u]) = none := by
  cases h : jsonParse (text ++ [u]) with
  | none => rfl
  | some v =>
    exfalso
    obtain ⟨a, core, b, heq, -, hb, -, -, y, hy, hgy⟩ := jsonParse_spec h
    rcases List.eq_nil_or_concat b with rfl | ⟨b', z, rfl⟩
    · rcases List.eq_nil_or_concat core with rfl | ⟨core', w, rfl⟩
      · cases hy
      · rw [List.concat_eq_append, List.getLast?_concat] at hy
        obtain rfl := Option.some.inj hy
        rw [List.append_nil, List.concat_eq_append, ← List.append_assoc] at heq
        obtain rfl := List.singleton_inj.1 (List.append_inj' heq rfl).2
        exact hgraphic hgy
    · rw [List.concat_eq_append, ← List.append_assoc] at heq
      obtain rfl := List.singleton_inj.1 (List.append_inj' heq rfl).2
      have := hb u (by simp)
      rw [hu] at this
      cases this

/-! ## A chunk in front of the text -/

/-- A digit of a chunk size. -/
def IsHexDigit (u : UInt16) : Prop := isDigit u = true ∨ (0x61 ≤ u ∧ u ≤ 0x66)

theorem hexDigit_bounds {u : UInt16} (h : IsHexDigit u) :
    (48 ≤ u.toNat ∧ u.toNat ≤ 57) ∨ (97 ≤ u.toNat ∧ u.toNat ≤ 102) := by
  rcases h with h | ⟨hlo, hhi⟩
  · exact .inl (digit_bounds h)
  · exact .inr ⟨UInt16.le_iff_toNat_le.1 hlo, UInt16.le_iff_toNat_le.1 hhi⟩

theorem scanWord_false_size {hex : JsString} (hhex : ∀ u ∈ hex, IsHexDigit u) (rest : JsString) :
    scanWord (ascii "false") (hex ++ 0x0D :: rest) = none := by
  have hletter : ¬ IsHexDigit 0x6C := by
    intro h
    rcases hexDigit_bounds h with ⟨-, h⟩ | ⟨-, h⟩
    · exact absurd h (by decide)
    · exact absurd h (by decide)
  have hno : (ascii (str "false")).isPrefixOf (hex ++ 0x0D :: rest) = false := by
    cases hp : (ascii (str "false")).isPrefixOf (hex ++ 0x0D :: rest) with
    | false => rfl
    | true =>
      exfalso
      obtain ⟨t, ht⟩ := List.isPrefixOf_iff_prefix.1 hp
      have hword : ascii (str "false") = [0x66, 0x61, 0x6C, 0x73, 0x65] := rfl
      rw [hword] at ht
      -- the third letter is no hexadecimal digit, and a line of the text ends before it
      rcases hex with _ | ⟨a, _ | ⟨b, _ | ⟨c, hex⟩⟩⟩
      · cases ht
      · cases ht
      · cases ht
      · obtain rfl : 0x6C = c := (List.cons.inj (List.cons.inj (List.cons.inj ht).2).2).1
        exact hletter (hhex _ (by simp))
  unfold scanWord
  rw [hno]
  rfl

/-- The size of a chunk and the end of its line in front of a text: no value. -/
theorem jsonParse_chunk {hex rest : JsString} (hne : hex ≠ []) (hhex : ∀ u ∈ hex, IsHexDigit u) :
    jsonParse (hex ++ 0x0D :: (rest ++ [0x30])) = none := by
  cases hex with
  | nil => exact absurd rfl hne
  | cons c hex =>
    have hc := hexDigit_bounds (hhex c (List.mem_cons_self ..))
    have hgraphic : IsGraphic c := by
      constructor
      · apply UInt16.lt_iff_toNat_lt.2
        show 32 < c.toNat
        omega
      · apply UInt16.lt_iff_toNat_lt.2
        show c.toNat < 127
        omega
    have hspace := (graphic_not_space hgraphic).2
    have hstrip : strip isJsonSpace ([] ++ (c :: hex ++ 0x0D :: (rest ++ [0x30])) ++ []) =
        c :: hex ++ 0x0D :: (rest ++ [0x30]) := by
      have hnil : ∀ u ∈ ([] : JsString), isJsonSpace u = true := nofun
      apply strip_eq hnil hnil rfl hspace (y := 0x30) _ rfl
      rw [← List.cons_append, ← List.append_assoc, List.getLast?_concat]
    rw [List.nil_append, List.append_nil] at hstrip
    cases h : jsonParse (c :: hex ++ 0x0D :: (rest ++ [0x30])) with
    | none => rfl
    | some v =>
      exfalso
      unfold jsonParse at h
      rw [hstrip] at h
      dsimp only at h
      split at h
      · rename_i v' hv'
        have hskip : skipSpace (c :: hex ++ 0x0D :: (rest ++ [0x30])) =
            c :: hex ++ 0x0D :: (rest ++ [0x30]) := dropWhile_head rfl hspace
        have hother : ∀ d : UInt16, ¬ (48 ≤ d.toNat ∧ d.toNat ≤ 57 ∨ 97 ≤ d.toNat ∧ d.toNat ≤ 102) →
            c ≠ d := by
          rintro d hd rfl
          exact hd hc
        unfold parseValue at hv'
        rw [hskip] at hv'
        rw [List.cons_append] at hv'
        dsimp only at hv'
        rw [if_neg (hother _ (by decide)), if_neg (hother _ (by decide)), if_neg (hother _ (by decide)),
          if_neg (hother _ (by decide))] at hv'
        by_cases hf : c = 0x66
        · have hword := scanWord_false_size hhex (rest ++ [0x30])
          rw [List.cons_append] at hword
          rw [if_pos hf, hword] at hv'
          cases hv'
        · rw [if_neg hf, if_neg (hother _ (by decide))] at hv'
          obtain ⟨p, hp, heq⟩ := Option.map_eq_some_iff.1 hv'
          obtain ⟨-, hnil⟩ := Prod.mk.inj heq
          obtain ⟨digits, rest'⟩ := p
          obtain ⟨pre, d, hpre, hd, hline⟩ := scanNumber_numeric hp
          dsimp only at hnil
          rw [hnil] at hpre
          have hmem : (0x0D : UInt16) ∈ pre ++ [d] := by
            rw [← hpre]
            simp
          rcases List.mem_append.1 hmem with hmem | hmem
          · exact hline _ hmem rfl
          · exact digit_ne_return hd (List.mem_singleton.1 hmem).symm
      · cases h

/-! ## An object with one text -/

theorem parseMembers_ne_nil {fuel : Nat} {s rest : JsString} {members : List (JsString × JsonValue)}
    (h : parseMembers fuel s = some (members, rest)) : members ≠ [] := by
  cases fuel with
  | zero =>
    unfold parseMembers at h
    cases h
  | succ fuel =>
    unfold parseMembers at h
    simp only [Option.bind_eq_bind, Option.bind_eq_some_iff, Prod.exists] at h
    obtain ⟨r1, -, key, r2, -, r3, -, v, r4, -, h⟩ := h
    cases hclose : expect 0x7D r4 with
    | some rest' =>
      rw [hclose] at h
      obtain ⟨rfl, -⟩ := Prod.mk.inj (Option.some.inj h)
      nofun
    | none =>
      rw [hclose] at h
      simp only [Option.bind_eq_some_iff, Prod.exists] at h
      obtain ⟨r5, -, ms, r6, -, heq⟩ := h
      obtain ⟨rfl, -⟩ := Prod.mk.inj (Option.some.inj heq)
      nofun

theorem parseValue_str {fuel : Nat} {s t rest : JsString}
    (h : parseValue fuel s = some (.str t, rest)) :
    ∃ w, s = w ++ rest ∧ marks t ≤ w.count 0x5C := by
  obtain ⟨n, -, hread⟩ := parseValue_cases h
  cases hread with
  | @string w t' _ _ hs h =>
    obtain ⟨pre, rfl, hmarks⟩ := unquote_spec h
    refine ⟨w ++ 0x22 :: (pre ++ [0x22]), by rw [hs]; simp, ?_⟩
    rw [List.count_append, List.count_cons_of_ne (by decide), List.count_append]
    omega

/-- An object whose only member is a text with this key: there is a quote in what was read, and a
backslash for every quote and every backslash of the text. -/
theorem jsonParse_member {text key t : JsString} (h : jsonParse text = some (.obj [(key, .str t)])) :
    0x22 ∈ text ∧ marks t ≤ text.count 0x5C := by
  obtain ⟨a, core, b, rfl, -, -, hvalue, -, -⟩ := jsonParse_spec h
  suffices hcore : 0x22 ∈ core ∧ marks t ≤ core.count 0x5C by
    refine ⟨by simp [hcore.1], ?_⟩
    rw [List.count_append, List.count_append]
    exact Nat.le_trans hcore.2 (by omega)
  obtain ⟨n, -, hread⟩ := parseValue_cases hvalue
  cases hread with
  | @object w s _ _ hs hp =>
    rw [hs]
    cases n with
    | zero =>
      unfold parseMembers at hp
      cases hp
    | succ fuel =>
      unfold parseMembers at hp
      simp only [Option.bind_eq_bind, Option.bind_eq_some_iff, Prod.exists] at hp
      obtain ⟨r1, hopen, k, r2, hkey, r3, hcolon, v, r4, hv, hp⟩ := hp
      obtain ⟨w1, rfl⟩ := expect_spec hopen
      obtain ⟨pre, rfl, -⟩ := unquote_spec hkey
      obtain ⟨w2, rfl⟩ := expect_spec hcolon
      have hstr : v = .str t := by
        cases hend : expect 0x7D r4 with
        | some r5 =>
          rw [hend] at hp
          obtain ⟨hlist, -⟩ := Prod.mk.inj (Option.some.inj hp)
          exact (Prod.mk.inj (List.cons.inj hlist).1).2
        | none =>
          rw [hend] at hp
          simp only [Option.bind_eq_some_iff, Prod.exists] at hp
          obtain ⟨r5, -, ms, r6, hms, hp⟩ := hp
          obtain ⟨hlist, -⟩ := Prod.mk.inj (Option.some.inj hp)
          exact absurd (List.cons.inj hlist).2 (parseMembers_ne_nil hms)
      subst hstr
      obtain ⟨w3, rfl, hmarks⟩ := parseValue_str hv
      refine ⟨by simp, ?_⟩
      simp only [List.count_append, List.count_cons]
      omega

end Gafam.Js
