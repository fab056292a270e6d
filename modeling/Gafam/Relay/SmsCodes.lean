import Gafam.Lib.Words
import Mathlib.Data.List.Sort

/-!
# Codes in messages

The relay attaches to an inbound message the codes that stand in it. Times of the day and words count as codes only
where a keyword says that there is one. All that is collected is ASCII, so the bytes of a code are its characters.
-/

namespace Gafam.Relay

open Gafam.Go (isSpace)
open Gafam.Lib Gafam.Lib.Regex

/-! ## Patterns -/

/-- The characters that stand for a letter under `(?i)`, by the simple case folding of Unicode. -/
def folded (c : Char) : List Char :=
  if c = '\u00e8' then ['\u00e8', '\u00c8']
  else if c = 's' then ['s', 'S', '\u017f']
  else if c = 'k' then ['k', 'K', '\u212a']
  else [c, c.toUpper]

def codeKeywords : List String :=
  ["code", "otp", "pin", "verification", "confirm", "mot de passe", "mot-de-passe", "accès", "acces", "gafam",
    "impulsion"]

/-- `(?i)(code|otp|…)` -/
def codeKeywordRe : Regex Char :=
  .group 1 (alts (codeKeywords.map fun k => seqs (k.toList.map fun c => .unit (· ∈ folded c))))

/-- `\\s` of RE2. -/
def isReSpace (c : Char) : Bool := c ∈ ['\t', '\n', '\x0c', '\x0d', ' ']

/-- `\\d` -/
def digitRe : Regex Char := .unit Char.isDigit

/-- One of some characters. -/
def oneOf (s : String) : Regex Char := .unit (· ∈ s.toList)

/-- A digit, and white space or a hyphen behind it. -/
def spacedDigit (space : Char → Bool) : Regex Char := seqs [digitRe, opt (.unit fun c => space c || c = '-')]

/-- `(?:^|[\\s:：\\-—])((?:\\d[\\s\\-]?){4,8}\\d)(?:[\\s.,!?]|$)`, for a `\\s`. -/
def numericPattern (space : Char → Bool) : Regex Char :=
  seqs [.alt start (.unit fun c => space c || c ∈ [':', '\uff1a', '-', '\u2014']),
    .group 1 (seqs [between (spacedDigit space) 4 4, digitRe]),
    .alt (.unit fun c => space c || c ∈ ['.', ',', '!', '?']) stop]

def numericCodeRe : Regex Char := numericPattern isReSpace

/-- `\\b([01]?\\d|2[0-3])[:h]([0-5]\\d)\\b` -/
def timeCodeRe : Regex Char :=
  wholeWord isWordChar (seqs
    [.group 1 (.alt (seqs [opt (oneOf "01"), digitRe]) (seqs [oneOf "2", oneOf "0123"])), oneOf ":h",
      .group 2 (seqs [oneOf "012345", digitRe])])

/-- `\\b([A-Z0-9]{4,8})\\b` -/
def alphaNumCodeRe : Regex Char := wholeWord isWordChar (.group 1 (between (.unit isCodeChar) 4 4))

/-! ## Codes -/

/-- `strings.TrimSpace` -/
def trimText (s : List Char) : List Char := trimmed (fun c => isSpace c.toNat) s

def normalizeSmsCode (m : CaseMapping) (raw : List Char) : List Char :=
  m.upper (((trimText raw).filter (· ≠ ' ')).filter (· ≠ '-'))

def isCommonSmsWord (s : List Char) : Bool :=
  s ∈ ["GAFAM", "CODE", "HTTP", "HTTPS", "TRUE", "FALSE", "NULL", "SMS", "AUTH"].map String.toList

/-- A code that looks like a year. -/
def isYear (c : List Char) : Bool := !decide (c < "1900".toList) && !decide ("2099".toList < c)

/-- What `add` keeps: a text of a code's length that is no year. -/
def isCode (c : List Char) : Bool := 4 ≤ c.length && c.length ≤ 10 && !(c.length = 4 && isYear c)

/-- `add`; the codes that have been seen are those of the list. -/
def addCode (m : CaseMapping) (out : List (List Char)) (raw : List Char) : List (List Char) :=
  let c := normalizeSmsCode m raw
  if c = [] ∨ c.length < 4 ∨ 10 < c.length then out
  else if c.length = 4 ∧ isYear c = true then out
  else if c ∈ out then out
  else out ++ [c]

/-- `sort.Strings` -/
def sortCodes (l : List (List Char)) : List (List Char) := l.insertionSort fun a b => ¬ b < a

def hasKeyword (m : CaseMapping) (text : List Char) : Bool := test codeKeywordRe (m.lower text)

/-- What is passed to `add`, in this order. -/
def candidates (m : CaseMapping) (text : List Char) : List (List Char) :=
  (if hasKeyword m text then (findAll timeCodeRe text).flatMap fun (_, g) =>
      [groupText g 1 ++ groupText g 2, groupText g 1 ++ ':' :: groupText g 2]
    else []) ++
  ((findAll numericCodeRe text).map fun (_, g) => groupText g 1) ++
  if hasKeyword m text then
    ((findAll alphaNumCodeRe (m.upper text)).map fun (_, g) => groupText g 1).filter fun w => !isCommonSmsWord w
  else []

/-- `detectSmsCodes` -/
def detectSmsCodes (m : CaseMapping) (text : List Char) : List (List Char) :=
  if trimText text = [] then [] else sortCodes ((candidates m text).foldl (addCode m) [])

/-! ## Purpose -/

/-- The words of capitals and digits that are as long as a code. -/
def codeWords (s : List Char) : List (List Char) :=
  (words isWordChar s).filter fun w => w.all isCodeChar && (4 ≤ w.length && w.length ≤ 8)

/-- The hours and minutes of the times in a text. -/
def times (text : List Char) : List (List Char × List Char) :=
  (findAll timeCodeRe text).map fun (_, g) => (groupText g 1, groupText g 2)

/-- The numbers in a text, without what separates their digits. -/
def numbers (text : List Char) : List (List Char) :=
  (findAll numericCodeRe text).map fun (_, g) => (groupText g 1).filter Char.isDigit

end Gafam.Relay
