import Gafam.Go.Text
import Mathlib.Data.List.Basic

/-!
# Texts in the scripts for the browser

The tools that click, type and read put the selector and the text of a caller between single quotes into a script that
the page evaluates. `escapeJS` is there for that. What the page makes of the script is read off with the part of the
lexical grammar that matters between quotes; the scripts have no comment and no other kind of quote.
-/

namespace Gafam.Browser.Cdp

open Gafam.Go

/-- `strings.ReplaceAll` of one byte. -/
def replaceByte (old : UInt8) (new s : GoString) : GoString := s.flatMap fun c => if c = old then new else [c]

def escapeJS (s : GoString) : GoString :=
  replaceByte 0x0D "\\r" (replaceByte 0x0A "\\n" (replaceByte 0x27 "\\'" (replaceByte 0x5C "\\\\" s)))

/-- `browser.cdp_click` up to the evaluation of its script. -/
def cdpClick (selector : GoString) : Except GoString GoString :=
  if selector = [] then .error "selector required"
  else
    .ok (str "(function()\x7bvar e=document.querySelector('" ++ escapeJS selector ++
      "');if(!e)return'not found';e.click();return'clicked'\x7d)()")

/-- `browser.cdp_type`. -/
def cdpType (selector text : GoString) : Except GoString GoString :=
  if selector = [] ∨ text = [] then .error "selector and text required"
  else
    .ok (str "(function()\x7bvar e=document.querySelector('" ++ escapeJS selector ++
      (str "');if(!e)return'not found';e.focus();e.value='" ++ escapeJS text ++
        "';e.dispatchEvent(new Event('input',\x7bbubbles:true\x7d));return'typed'\x7d)()"))

/-- `browser.cdp_text`. -/
def cdpText (selector : GoString) : Except GoString GoString :=
  if selector = [] then .error "selector required"
  else
    .ok (str "(function()\x7bvar e=document.querySelector('" ++ escapeJS selector ++
      "');return e?e.textContent.trim():'not found'\x7d)()")

/-! ## The page -/

/-- What stands behind a backslash, as far as it is one character; the longer escapes are left out. -/
def unescape (c : UInt8) : Option UInt8 :=
  if c = 0x5C ∨ c = 0x27 ∨ c = 0x22 then some c
  else if c = 0x6E then some 0x0A
  else if c = 0x72 then some 0x0D
  else if c = 0x74 then some 0x09
  else none

/-- Where the page is: between the literals, or in one whose value so far is `v`. -/
inductive Mode
  | code
  | text (v : GoString)
  | escape (v : GoString)
deriving DecidableEq

inductive Token
  | code (c : UInt8)
  | literal (v : GoString)
deriving DecidableEq

/-- One character. A line does not end in a literal. -/
def readByte : Mode → UInt8 → Option (List Token × Mode)
  | .code, c => if c = 0x27 then some ([], .text []) else some ([.code c], .code)
  | .text v, c =>
    if c = 0x27 then some ([.literal v], .code)
    else if c = 0x5C then some ([], .escape v)
    else if c = 0x0A ∨ c = 0x0D then none
    else some ([], .text (v ++ [c]))
  | .escape v, c => (unescape c).map fun b => ([], .text (v ++ [b]))

def lex : Mode → GoString → Option (List Token × Mode)
  | m, [] => some ([], m)
  | m, c :: s => (readByte m c).bind fun r => (lex r.2 s).map fun r' => (r.1 ++ r'.1, r'.2)

theorem lex_append {m m' : Mode} {a : GoString} {ts : List Token} (h : lex m a = some (ts, m')) (b : GoString) :
    lex m (a ++ b) = (lex m' b).map fun r => (ts ++ r.1, r.2) := by
  induction a generalizing m ts with
  | nil =>
    cases h
    simp
  | cons c a ih =>
    simp only [lex, Option.bind_eq_some_iff, Option.map_eq_some_iff, Prod.mk.injEq] at h
    obtain ⟨r, hr, r', hr', rfl, rfl⟩ := h
    rw [List.cons_append, lex, hr, Option.bind_some, ih hr']
    simp [Function.comp_def]

/-! ## What is between the quotes -/

/-- What `escapeJS` makes of one byte. -/
def escapeByte (c : UInt8) : GoString :=
  if c = 0x5C then "\\\\" else if c = 0x27 then "\\'" else if c = 0x0A then "\\n" else if c = 0x0D then "\\r" else [c]

/-- The replacements do not get in each other's way: no later one finds a byte that an earlier one has written. -/
theorem escapeJS_eq (s : GoString) : escapeJS s = s.flatMap escapeByte := by
  unfold escapeJS replaceByte
  simp only [List.flatMap_assoc]
  refine List.flatMap_congr fun c _ => ?_
  unfold escapeByte
  split_ifs with h₁ h₂ h₃ h₄
  · rfl
  · rw [h₂]
    rfl
  · rw [h₃]
    rfl
  · rw [h₄]
    rfl
  · simp [h₂, h₃, h₄]

theorem lex_escapeByte (v : GoString) (c : UInt8) : lex (.text v) (escapeByte c) = some ([], .text (v ++ [c])) := by
  unfold escapeByte
  split_ifs with h₁ h₂ h₃ h₄
  · rw [h₁]
    rfl
  · rw [h₂]
    rfl
  · rw [h₃]
    rfl
  · rw [h₄]
    rfl
  · simp [lex, readByte, h₁, h₂, h₃, h₄]

/-- A text is read as it was, and the literal stays open. -/
theorem lex_escapeJS (v s : GoString) : lex (.text v) (escapeJS s) = some ([], .text (v ++ s)) := by
  rw [escapeJS_eq]
  induction s generalizing v with
  | nil => simp [lex]
  | cons c s ih => rw [List.flatMap_cons, lex_append (lex_escapeByte v c), ih, Option.map_some,
      List.append_assoc, List.singleton_append, List.nil_append]

/-- A text in its quotes, behind the script up to the first one. -/
theorem lex_hole {p : GoString} {ts : List Token} (hp : lex .code p = some (ts, .text [])) (s rest : GoString) :
    lex .code (p ++ escapeJS s ++ 0x27 :: rest) = (lex .code rest).map fun r => (ts ++ .literal s :: r.1, r.2) := by
  have hliteral : lex (.text s) (0x27 :: rest) = (lex .code rest).map fun r => (.literal s :: r.1, r.2) := by
    simp [lex, readByte]
  rw [List.append_assoc, lex_append hp, lex_append (lex_escapeJS [] s), List.nil_append, hliteral]
  simp [Function.comp_def]

/-- The parts of a script around its texts: the first one opens a literal. -/
theorem lex_part {p : GoString} {m : Mode} (h : (lex .code p).map Prod.snd = some m) :
    ∃ ts, lex .code p = some (ts, m) := by
  obtain ⟨⟨ts, m'⟩, hlex, rfl⟩ := Option.map_eq_some_iff.1 h
  exact ⟨ts, hlex⟩

/-- A script with one text. -/
theorem lex_one {p q r : GoString} (hp : (lex .code p).map Prod.snd = some (.text [])) (hq : q = 0x27 :: r)
    (hr : (lex .code r).map Prod.snd = some .code) :
    ∃ a b, ∀ s, lex .code (p ++ escapeJS s ++ q) = some (a ++ .literal s :: b, .code) := by
  obtain ⟨a, ha⟩ := lex_part hp
  obtain ⟨b, hb⟩ := lex_part hr
  refine ⟨a, b, fun s => ?_⟩
  rw [hq, lex_hole ha, hb]
  rfl

/-- **No text gets out of its literal.** The scripts are the same up to the values of their literals, whatever the
selector and the text are, and the values are those. -/
theorem scripts_fixed :
    (∃ a b, ∀ selector, selector ≠ [] →
      ∃ js, cdpClick selector = .ok js ∧ lex .code js = some (a ++ .literal selector :: b, .code)) ∧
    (∃ a b c, ∀ selector text, selector ≠ [] → text ≠ [] →
      ∃ js, cdpType selector text = .ok js ∧
        lex .code js = some (a ++ .literal selector :: (b ++ .literal text :: c), .code)) ∧
    ∃ a b, ∀ selector, selector ≠ [] →
      ∃ js, cdpText selector = .ok js ∧ lex .code js = some (a ++ .literal selector :: b, .code) := by
  have hopen : (lex .code (str "(function()\x7bvar e=document.querySelector('")).map Prod.snd = some (.text []) := by
    decide +kernel
  refine ⟨?_, ?_, ?_⟩
  · obtain ⟨a, b, h⟩ := lex_one hopen (q := "');if(!e)return'not found';e.click();return'clicked'\x7d)()")
      (r := ");if(!e)return'not found';e.click();return'clicked'\x7d)()") (by decide +kernel) (by decide +kernel)
    exact ⟨a, b, fun selector hs => ⟨_, if_neg hs, h selector⟩⟩
  · obtain ⟨a, ha⟩ := lex_part hopen
    obtain ⟨b, c, h⟩ := lex_one (p := ");if(!e)return'not found';e.focus();e.value='")
      (q := "';e.dispatchEvent(new Event('input',\x7bbubbles:true\x7d));return'typed'\x7d)()")
      (r := ";e.dispatchEvent(new Event('input',\x7bbubbles:true\x7d));return'typed'\x7d)()")
      (by decide +kernel) (by decide +kernel) (by decide +kernel)
    have hquote : str "');if(!e)return'not found';e.focus();e.value='" =
        0x27 :: str ");if(!e)return'not found';e.focus();e.value='" := by decide +kernel
    refine ⟨a, b, c, fun selector text hs ht => ⟨_, if_neg (not_or.2 ⟨hs, ht⟩), ?_⟩⟩
    rw [hquote, List.cons_append, List.cons_append, lex_hole ha, h]
    rfl
  · obtain ⟨a, b, h⟩ := lex_one hopen (q := "');return e?e.textContent.trim():'not found'\x7d)()")
      (r := ");return e?e.textContent.trim():'not found'\x7d)()") (by decide +kernel) (by decide +kernel)
    exact ⟨a, b, fun selector hs => ⟨_, if_neg hs, h selector⟩⟩

end Gafam.Browser.Cdp
