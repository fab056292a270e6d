import Gafam.Lib.Brackets
import Mathlib.Data.UInt

/-!
# JSON texts

The grammar of JSON over bytes. Of the characters beyond ASCII it asks nothing, so that it is one for the texts of
every encoding that keeps ASCII.
-/

namespace Gafam.Lib.JsonText

/-- White space. -/
def Ws (t : List UInt8) : Prop := ∀ c ∈ t, c = 0x20 ∨ c = 0x09 ∨ c = 0x0A ∨ c = 0x0D

def IsDigit (c : UInt8) : Prop := 0x30 ≤ c ∧ c ≤ 0x39

def IsHex (c : UInt8) : Prop := IsDigit c ∨ 0x41 ≤ c ∧ c ≤ 0x46 ∨ 0x61 ≤ c ∧ c ≤ 0x66

def Digits (t : List UInt8) : Prop := t ≠ [] ∧ ∀ c ∈ t, IsDigit c

/-- The text of a number. -/
structure Number (t : List UInt8) : Prop where
  parts : ∃ sign whole fraction exponent, t = sign ++ whole ++ fraction ++ exponent ∧
    (sign = [] ∨ sign = [0x2D]) ∧
    (whole = [0x30] ∨ Digits whole ∧ whole.head? ≠ some 0x30) ∧
    (fraction = [] ∨ ∃ d, Digits d ∧ fraction = 0x2E :: d) ∧
    (exponent = [] ∨ ∃ e plus d, (e = 0x65 ∨ e = 0x45) ∧ (plus = [] ∨ plus = [0x2B] ∨ plus = [0x2D]) ∧
      Digits d ∧ exponent = e :: (plus ++ d))

/-- What stands between the quotes of a string. -/
inductive Chars : List UInt8 → Prop
  | nil : Chars []
  | plain {c : UInt8} {t : List UInt8} (hc : 0x20 ≤ c) (hq : c ≠ 0x22) (he : c ≠ 0x5C) (h : Chars t) :
    Chars (c :: t)
  /-- A backslash and one of `"`, `\`, `/`, `b`, `f`, `n`, `r`, `t`. -/
  | escape {c : UInt8} {t : List UInt8} (hc : c ∈ [0x22, 0x5C, 0x2F, 0x62, 0x66, 0x6E, 0x72, 0x74])
    (h : Chars t) : Chars (0x5C :: c :: t)
  /-- A backslash, `u` and four hexadecimal digits. -/
  | unicode {x t : List UInt8} (hlen : x.length = 4) (hx : ∀ c ∈ x, IsHex c) (h : Chars t) :
    Chars (0x5C :: 0x75 :: (x ++ t))

/-- The parts of the grammar. -/
inductive Part
  | value
  /-- A value with white space around it. -/
  | element
  | elements
  | member
  | members

/-- The texts of each part. -/
inductive Derives : Part → List UInt8 → Prop
  | string {t : List UInt8} (h : Chars t) : Derives .value (0x22 :: (t ++ [0x22]))
  | number {t : List UInt8} (h : Number t) : Derives .value t
  | null : Derives .value [0x6E, 0x75, 0x6C, 0x6C]
  | true : Derives .value [0x74, 0x72, 0x75, 0x65]
  | false : Derives .value [0x66, 0x61, 0x6C, 0x73, 0x65]
  | emptyArray {w : List UInt8} (hw : Ws w) : Derives .value (0x5B :: (w ++ [0x5D]))
  | array {t : List UInt8} (h : Derives .elements t) : Derives .value (0x5B :: (t ++ [0x5D]))
  | emptyObject {w : List UInt8} (hw : Ws w) : Derives .value (0x7B :: (w ++ [0x7D]))
  | object {t : List UInt8} (h : Derives .members t) : Derives .value (0x7B :: (t ++ [0x7D]))
  | element {w v w' : List UInt8} (hw : Ws w) (h : Derives .value v) (hw' : Ws w') :
    Derives .element (w ++ v ++ w')
  | lastElement {t : List UInt8} (h : Derives .element t) : Derives .elements t
  | elements {t u : List UInt8} (h : Derives .element t) (hu : Derives .elements u) :
    Derives .elements (t ++ 0x2C :: u)
  | member {w k w' e : List UInt8} (hw : Ws w) (hk : Chars k) (hw' : Ws w') (h : Derives .element e) :
    Derives .member (w ++ 0x22 :: (k ++ [0x22]) ++ w' ++ 0x3A :: e)
  | lastMember {t : List UInt8} (h : Derives .member t) : Derives .members t
  | members {t u : List UInt8} (h : Derives .member t) (hu : Derives .members u) :
    Derives .members (t ++ 0x2C :: u)

/-- The text of an object: a brace, and its members or white space, and a brace. -/
def Object (t : List UInt8) : Prop :=
  ∃ inner, t = 0x7B :: (inner ++ [0x7D]) ∧ (Ws inner ∨ Derives .members inner)

/-- The marks of JSON that matter to objects. -/
def marks : Marks UInt8 where
  opening := 0x7B
  closing := 0x7D
  quote := 0x22
  escape := 0x5C
  quote_ne_escape := by decide
  opening_ne_quote := by decide
  closing_ne_quote := by decide
  closing_ne_opening := by decide

/-- The byte is no mark outside of a string. -/
def Plain (c : UInt8) : Prop := c ≠ 0x7B ∧ c ≠ 0x7D ∧ c ≠ 0x22

theorem isDigit_plain {c : UInt8} (h : IsDigit c) : Plain c := by
  obtain ⟨h1, h2⟩ := h
  refine ⟨?_, ?_, ?_⟩ <;> rintro rfl <;> revert h1 h2 <;> decide

theorem isHex_text {c : UInt8} (h : IsHex c) : c ≠ marks.quote ∧ c ≠ marks.escape := by
  constructor
  · rintro rfl
    rcases h with ⟨h1, h2⟩ | ⟨h1, h2⟩ | ⟨h1, h2⟩ <;> revert h1 h2 <;> decide
  · rintro rfl
    rcases h with ⟨h1, h2⟩ | ⟨h1, h2⟩ | ⟨h1, h2⟩ <;> revert h1 h2 <;> decide

theorem Ws.balanced {t : List UInt8} (h : Ws t) : Balanced marks t := by
  refine balanced_of_plain fun c hc => ?_
  rcases h c hc with rfl | rfl | rfl | rfl <;> exact ⟨by decide, by decide, by decide⟩

theorem Digits.balanced {t : List UInt8} (h : Digits t) : Balanced marks t :=
  balanced_of_plain fun c hc => isDigit_plain (h.2 c hc)

theorem Number.balanced {t : List UInt8} (h : Number t) : Balanced marks t := by
  obtain ⟨sign, whole, fraction, exponent, rfl, hsign, hwhole, hfraction, hexponent⟩ := h.parts
  have one {c : UInt8} (hc : Plain c) {t : List UInt8} (ht : Balanced marks t) : Balanced marks (c :: t) :=
    .plain hc.1 hc.2.1 hc.2.2 ht
  have hsign' : Balanced marks sign := by
    rcases hsign with rfl | rfl
    · exact .nil
    · exact one ⟨by decide, by decide, by decide⟩ .nil
  have hwhole' : Balanced marks whole := by
    rcases hwhole with rfl | ⟨h, -⟩
    · exact one ⟨by decide, by decide, by decide⟩ .nil
    · exact h.balanced
  have hfraction' : Balanced marks fraction := by
    rcases hfraction with rfl | ⟨d, hd, rfl⟩
    · exact .nil
    · exact one ⟨by decide, by decide, by decide⟩ hd.balanced
  have hexponent' : Balanced marks exponent := by
    rcases hexponent with rfl | ⟨e, plus, d, he, hplus, hd, rfl⟩
    · exact .nil
    · have hplus' : Balanced marks (plus ++ d) := by
        rcases hplus with rfl | rfl | rfl
        · exact hd.balanced
        · exact one ⟨by decide, by decide, by decide⟩ hd.balanced
        · exact one ⟨by decide, by decide, by decide⟩ hd.balanced
      rcases he with rfl | rfl
      · exact one ⟨by decide, by decide, by decide⟩ hplus'
      · exact one ⟨by decide, by decide, by decide⟩ hplus'
  exact ((hsign'.append hwhole').append hfraction').append hexponent'

theorem Chars.quoted {t : List UInt8} (h : Chars t) : Quoted marks t := by
  induction h with
  | nil => exact .nil
  | plain _ hq he _ ih => exact .plain hq he ih
  | escape _ _ ih => exact .escaped _ ih
  | unicode _ hx _ ih => exact .escaped _ ((quoted_of_plain fun c hc => isHex_text (hx c hc)).append ih)

theorem balanced_string {t : List UInt8} (h : Chars t) : Balanced marks (0x22 :: (t ++ [0x22])) :=
  .quoted h.quoted .nil

set_option maxRecDepth 8000 in
/-- The braces of a JSON text match outside of its strings. -/
theorem Derives.balanced {p : Part} {t : List UInt8} (h : Derives p t) : Balanced marks t := by
  have one {c : UInt8} (hc : Plain c) {t : List UInt8} (ht : Balanced marks t) : Balanced marks (c :: t) :=
    .plain hc.1 hc.2.1 hc.2.2 ht
  have comma {t u : List UInt8} (ht : Balanced marks t) (hu : Balanced marks u) :
      Balanced marks (t ++ 0x2C :: u) := ht.append (one ⟨by decide, by decide, by decide⟩ hu)
  have array {t : List UInt8} (ht : Balanced marks t) : Balanced marks (0x5B :: (t ++ [0x5D])) :=
    one ⟨by decide, by decide, by decide⟩ (ht.append (one ⟨by decide, by decide, by decide⟩ .nil))
  induction h with
  | string h => exact balanced_string h
  | number h => exact h.balanced
  | null => exact balanced_of_plain (by decide)
  | true => exact balanced_of_plain (by decide)
  | false => exact balanced_of_plain (by decide)
  | emptyArray hw => exact array hw.balanced
  | array _ ih => exact array ih
  | emptyObject hw => exact .group hw.balanced .nil
  | object _ ih => exact .group ih .nil
  | element hw _ hw' ih => exact (hw.balanced.append ih).append hw'.balanced
  | lastElement _ ih => exact ih
  | elements _ _ ih ihu => exact comma ih ihu
  | member hw hk hw' _ ih =>
    exact ((hw.balanced.append (balanced_string hk)).append hw'.balanced).append
      (one ⟨by decide, by decide, by decide⟩ ih)
  | lastMember _ ih => exact ih
  | members _ _ ih ihu => exact comma ih ihu

/-- An object is a group of matching braces. -/
theorem Object.group {t : List UInt8} (h : Object t) :
    ∃ inner, t = marks.opening :: (inner ++ [marks.closing]) ∧ Balanced marks inner := by
  obtain ⟨inner, rfl, hws | hmembers⟩ := h
  · exact ⟨inner, rfl, hws.balanced⟩
  · exact ⟨inner, rfl, hmembers.balanced⟩

end Gafam.Lib.JsonText
