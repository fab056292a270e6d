import Gafam.Relay.SmsCodes

/-!
# Codes in messages, in the browser

The page looks for codes in the messages that it shows, as the relay does. Its patterns are those of the relay, but
for the white space that `\\s` stands for.
-/

namespace Gafam.Frontend.SmsCodes

open Gafam.Lib Gafam.Lib.Regex Gafam.Relay

def codeKeywords : List String :=
  ["code", "otp", "pin", "verification", "confirm", "gafam", "impulsion", "accès", "acces"]

/-- The characters that stand for a letter under `/i`, which lets no other character stand for an ASCII letter. -/
def folded (c : Char) : List Char := if c = '\u00e8' then ['\u00e8', '\u00c8'] else [c, c.toUpper]

/-- `/code|otp|…/i` -/
def keywordPattern : Regex Char :=
  alts (codeKeywords.map fun k => seqs (k.toList.map fun c => .unit (· ∈ folded c)))

/-- `/\\b([01]?\\d|2[0-3])[:h]([0-5]\\d)\\b/g` -/
def timePattern : Regex Char :=
  wholeWord isWordChar (seqs
    [.group 1 (.alt (seqs [opt (oneOf "01"), digitRe]) (seqs [oneOf "2", oneOf "0123"])), oneOf ":h",
      .group 2 (seqs [oneOf "012345", digitRe])])

/-- `/(?:^|[\\s:：\\-—])((?:\\d[\\s-]?){4,8}\\d)(?:[\\s.,!?]|$)/g` -/
def numberPattern : Regex Char := numericPattern isJsSpace

/-- `/(\\d[\\s-]?)+/` -/
def digitsPattern : Regex Char := plus (.group 1 (spacedDigit isJsSpace))

/-- `/\\b[A-Z0-9]{4,8}\\b/g` -/
def wordPattern : Regex Char := wholeWord isWordChar (between (.unit isCodeChar) 4 4)

/-- `s.replace(a, b)`, for one character -/
def replaceFirst (a b : Char) : List Char → List Char
  | [] => []
  | c :: s => if c = a then b :: s else c :: replaceFirst a b s

/-- `raw.replace(/[\\s-]/g, '').toUpperCase()` -/
def normalize (m : CaseMapping) (raw : List Char) : List Char := m.upper (raw.filter fun c => !(isJsSpace c || c = '-'))

def commonWords : List (List Char) := ["GAFAM", "CODE", "HTTP", "HTTPS", "TRUE", "SMS", "AUTH"].map String.toList

/-- `add`; the codes that have been seen are those of the list. -/
def addCode (m : CaseMapping) (out : List (List Char)) (raw : List Char) : List (List Char) :=
  let c := normalize m raw
  if c.length < 4 ∨ 10 < c.length then out
  else if c.length = 4 ∧ isYear c = true then out
  else if c ∈ out then out
  else out ++ [c]

def hasKeyword (m : CaseMapping) (text : List Char) : Bool := test keywordPattern (m.lower text)

/-- What is passed to `add`, in this order. -/
def candidates (m : CaseMapping) (text : List Char) : List (List Char) :=
  (if hasKeyword m text then (findAll timePattern text).map fun (t, _) => replaceFirst 'h' ':' t else []) ++
  ((findAll numberPattern text).filterMap fun (d, _) => (exec digitsPattern d).map fun (t, _) => t) ++
  if hasKeyword m text then
    ((findAll wordPattern (m.upper text)).map fun (w, _) => w).filter fun w => w ∉ commonWords
  else []

/-- `detectSmsCodes` -/
def detectSmsCodes (m : CaseMapping) (text : List Char) : List (List Char) :=
  if trimmed isJsSpace text = [] then [] else sortCodes ((candidates m text).foldl (addCode m) [])

/-! ## Purpose -/

/-- What stands in a text is the same to both runtimes: white space in a number is white space to both, and the
blank is the only one between digits; and where both know a keyword, the text in capitals has the same words. -/
structure ReadAlike (go js : CaseMapping) (text : List Char) : Prop where
  spaces : ∀ m ∈ findAll numberPattern text, (∀ c ∈ m.1, isJsSpace c = true → isReSpace c = true) ∧
    ∀ c ∈ groupText m.2 1, isJsSpace c = true → c = ' '
  capitals : Relay.hasKeyword go text = true → hasKeyword js text = true →
    ∀ w, w ∈ codeWords (go.upper text) ↔ w ∈ codeWords (js.upper text)

/-- Nothing in the text is a code to one of the two searches only. -/
structure NoneExtra (go js : CaseMapping) (text : List Char) : Prop where
  /-- The relay's times without a colon are words, and none of its common words are codes to the page. -/
  both : Relay.hasKeyword go text = true → hasKeyword js text = true →
    (∀ t ∈ times text, isCode (t.1 ++ t.2) = true → t.1 ++ t.2 ∈ codeWords (go.upper text)) ∧
      ∀ w ∈ codeWords (go.upper text), isCommonSmsWord w = true → w ∈ commonWords
  /-- A keyword of the relay alone, such as "mot de passe": no times, and no words other than numbers. -/
  relayOnly : Relay.hasKeyword go text = true → hasKeyword js text = false →
    (∀ t ∈ times text, isCode (t.1 ++ t.2) = false ∧ isCode (t.1 ++ ':' :: t.2) = false) ∧
      ∀ w ∈ codeWords (go.upper text), isCode w = true → isCommonSmsWord w = false → w ∈ numbers text
  pageOnly : Relay.hasKeyword go text = false → hasKeyword js text = true →
    (∀ t ∈ times text, isCode (t.1 ++ ':' :: t.2) = false) ∧
      ∀ w ∈ codeWords (js.upper text), isCode w = true → w ∉ commonWords → w ∈ numbers text

end Gafam.Frontend.SmsCodes
