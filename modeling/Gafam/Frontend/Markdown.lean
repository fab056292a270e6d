import Gafam.Js.Text
import Gafam.Lib.Html
import Gafam.Lib.Regex
import Mathlib.Data.List.Basic

/-!
# The markdown renderer

The text is escaped first, then patterns are replaced by tags one after the other. Lines are grouped into
blocks, and every block becomes one piece of the output.
-/

namespace Gafam.Frontend

open Gafam.Go Gafam.Js Gafam.Lib Gafam.Lib.Regex

/-! ## Patterns -/

/-- One code unit. -/
def one (c : UInt16) : Regex UInt16 := .unit (· = c)

/-- `[^…]` -/
def noneOf (l : JsString) : Regex UInt16 := .unit (· ∉ l)

/-- `\s` -/
def space : Regex UInt16 := .unit isTrimSpace

/-- `.`, anything but the end of a line. -/
def dot : Regex UInt16 := noneOf [0x0A, 0x0D, 0x2028, 0x2029]

/-- `/\x60([^\x60]+)\x60/` -/
def codePattern : Regex UInt16 := seqs [one 0x60, .group 1 (plus (noneOf [0x60])), one 0x60]

/-- `/\*\*([^*]+)\*\*/` -/
def strongPattern : Regex UInt16 :=
  seqs [one 0x2A, one 0x2A, .group 1 (plus (noneOf [0x2A])), one 0x2A, one 0x2A]

/-- `/(?<!\*)\*([^*\n]+)\*(?!\*)/` -/
def emPattern : Regex UInt16 :=
  seqs [.assert fun before _ => before.head? ≠ some 0x2A, one 0x2A, .group 1 (plus (noneOf [0x2A, 0x0A])), one 0x2A,
    .assert fun _ rest => rest.head? ≠ some 0x2A]

/-- `/\[([^\]]+)\]\((https?:\/\/[^)\s]+)\)/` -/
def linkPattern : Regex UInt16 :=
  seqs [one 0x5B, .group 1 (plus (noneOf [0x5D])), one 0x5D, one 0x28,
    .group 2 (seqs [lit (ascii "http"), opt (one 0x73), lit (ascii "://"),
      plus (.unit fun c => c ≠ 0x29 && !isTrimSpace c)]), one 0x29]

/-- `/^\||\|$/` -/
def edgeBarPattern : Regex UInt16 := .alt (seqs [start, one 0x7C]) (seqs [one 0x7C, stop])

/-- `/^\s*\|?[\s:|-]+\|?\s*$/` -/
def separatorPattern : Regex UInt16 :=
  seqs [start, .star space, opt (one 0x7C), plus (.unit fun c => isTrimSpace c || c ∈ ascii ":|-"), opt (one 0x7C),
    .star space, stop]

/-- `/^(#{1,4})\s+(.*)$/` -/
def headingPattern : Regex UInt16 :=
  seqs [start, .group 1 (between (one 0x23) 1 3), plus space, .group 2 (.star dot), stop]

/-- `/^\s*(-{3,}|\*{3,})\s*$/` -/
def rulePattern : Regex UInt16 :=
  seqs [start, .star space,
    .group 1 (.alt (.seq (times (one 0x2D) 3) (.star (one 0x2D))) (.seq (times (one 0x2A) 3) (.star (one 0x2A)))),
    .star space, stop]

/-- `/^\s*[-*•]\s+(.*)$/` -/
def bulletPattern : Regex UInt16 :=
  seqs [start, .star space, .unit (· ∈ [0x2D, 0x2A, 0x2022]), plus space, .group 1 (.star dot), stop]

/-- `/^\s*\d+[.)]\s+(.*)$/` -/
def numberPattern : Regex UInt16 :=
  seqs [start, .star space, plus (.unit isDigit), .unit (· ∈ ascii ".)"), plus space, .group 1 (.star dot), stop]

/-! ## Text in a line -/

/-- `s.replace(/c/g, text)` -/
def replaceUnit (c : UInt16) (text : JsString) (s : JsString) : JsString :=
  s.flatMap fun u => if u = c then text else [u]

/-- `esc`. -/
def esc (s : JsString) : JsString :=
  replaceUnit 0x22 (ascii "&quot;") (replaceUnit 0x3E (ascii "&gt;") (replaceUnit 0x3C (ascii "&lt;")
    (replaceUnit 0x26 (ascii "&amp;") s)))

/-- The replacement of a link. -/
def linkText (groups : List (Nat × JsString)) : JsString :=
  ascii "<a href=\"" ++ groupText groups 2 ++ ascii "\" target=\"_blank\" rel=\"noopener noreferrer\">" ++
    groupText groups 1 ++ ascii "</a>"

/-- `inline`. -/
def inlineText (s : JsString) : JsString :=
  let out := esc s
  let out := replaceAll codePattern (fun g => ascii "<code>" ++ groupText g 1 ++ ascii "</code>") out
  let out := replaceAll strongPattern (fun g => ascii "<strong>" ++ groupText g 1 ++ ascii "</strong>") out
  let out := replaceAll emPattern (fun g => ascii "<em>" ++ groupText g 1 ++ ascii "</em>") out
  replaceAll linkPattern linkText out

/-! ## Blocks -/

/-- The cells of a row. -/
def cells (line : JsString) : List JsString :=
  ((replaceAll edgeBarPattern (fun _ => []) (trim line)).splitOn 0x7C).map trim

/-- `table`; the first two lines are the head and the separator. -/
def table (lines : List JsString) : JsString :=
  let rows := lines.map cells
  let head := (rows.head?.getD []).flatMap fun c => ascii "<th>" ++ inlineText c ++ ascii "</th>"
  let body := (rows.drop 2).flatMap fun r =>
    ascii "<tr>" ++ (r.flatMap fun c => ascii "<td>" ++ inlineText c ++ ascii "</td>") ++ ascii "</tr>"
  ascii "<table><thead><tr>" ++ head ++ ascii "</tr></thead><tbody>" ++ body ++ ascii "</tbody></table>"

/-- `line.trimStart().startsWith('\x60\x60\x60')` -/
def isFence (line : JsString) : Bool := (ascii "\x60\x60\x60").isPrefixOf (line.dropWhile isTrimSpace)

/-- `line.trim().startsWith('|')` -/
def isRow (line : JsString) : Bool := (trim line).head? = some 0x7C

/-- The separator of a table that starts with this line, and the lines behind it. -/
def tableStart (line : JsString) : List JsString → Option (JsString × List JsString)
  | [] => none
  | sep :: rest =>
    if isRow line ∧ test separatorPattern sep = true ∧ 0x2D ∈ sep then some (sep, rest) else none

inductive ListType
  | ul
  | ol
deriving DecidableEq, Repr

def ListType.tag : ListType → JsString
  | .ul => ascii "ul"
  | .ol => ascii "ol"

/-- `closeList`. -/
def closeList : Option ListType → List JsString
  | none => []
  | some t => [ascii "</" ++ t.tag ++ ascii ">"]

/-- An item of a list; a list of the other kind is closed, and one of this kind is opened. -/
def listItem (list : Option ListType) (t : ListType) (text : JsString) : List JsString :=
  (if list = some t then [] else closeList list ++ [ascii "<" ++ t.tag ++ ascii ">"]) ++
    [ascii "<li>" ++ inlineText text ++ ascii "</li>"]

/-- The loop of `renderMarkdown`, for at most `fuel` blocks. -/
def renderLines : Nat → Option ListType → List JsString → List JsString
  | 0, list, _ => closeList list
  | _ + 1, list, [] => closeList list
  | fuel + 1, list, line :: rest =>
    if isFence line then
      let buf := rest.takeWhile fun l => !isFence l
      closeList list ++
        (ascii "<pre><code>" ++ esc (join (ascii "\n") buf) ++ ascii "</code></pre>") ::
          renderLines fuel none (rest.dropWhile fun l => !isFence l).tail
    else match tableStart line rest with
    | some (sep, rows) =>
      closeList list ++ table (line :: sep :: rows.takeWhile isRow) ::
        renderLines fuel none (rows.dropWhile isRow)
    | none =>
      match exec headingPattern line with
      | some (_, g) =>
        let level := ascii (itoa (groupText g 1).length)
        closeList list ++
          (ascii "<h" ++ level ++ ascii ">" ++ inlineText (groupText g 2) ++ ascii "</h" ++ level ++ ascii ">") ::
            renderLines fuel none rest
      | none =>
        if test rulePattern line then closeList list ++ ascii "<hr>" :: renderLines fuel none rest
        else match exec bulletPattern line with
        | some (_, g) => listItem list .ul (groupText g 1) ++ renderLines fuel (some .ul) rest
        | none =>
          match exec numberPattern line with
          | some (_, g) => listItem list .ol (groupText g 1) ++ renderLines fuel (some .ol) rest
          | none =>
            if trim line = [] then closeList list ++ renderLines fuel none rest
            else closeList list ++ (ascii "<p>" ++ inlineText line ++ ascii "</p>") :: renderLines fuel none rest

/-- `renderMarkdown`. -/
def renderMarkdown (src : JsString) : JsString :=
  let lines := (replaceAll (lit (ascii "\r\n")) (fun _ => ascii "\n") src).splitOn 0x0A
  join (ascii "\n") (renderLines lines.length none lines)

/-! ## Purpose -/

/-- The names of the tags that have no attributes. -/
def tagNames : List JsString :=
  [ascii "code", ascii "strong", ascii "em", ascii "table", ascii "thead", ascii "tbody", ascii "tr", ascii "th",
    ascii "td", ascii "pre", ascii "h1", ascii "h2", ascii "h3", ascii "h4", ascii "hr", ascii "ul", ascii "ol",
    ascii "li", ascii "p"]

/-- The attributes of a link. -/
def linkAttrs (href : JsString) : List (JsString × JsString) :=
  [(ascii "href", href), (ascii "target", ascii "_blank"), (ascii "rel", ascii "noopener noreferrer")]

/-- A tag that the renderer emits, the address of a link without the characters of `quotes`. -/
inductive IsEmitted (quotes : JsString) : Html.Tag → Prop
  | start {name : JsString} (h : name ∈ tagNames) : IsEmitted quotes ⟨false, name, []⟩
  | stop {name : JsString} (h : name ∈ tagNames) (hr : name ≠ ascii "hr") : IsEmitted quotes ⟨true, name, []⟩
  | link {href : JsString} (scheme : ascii "http://" <+: href ∨ ascii "https://" <+: href)
    (h : ∀ c ∈ quotes, c ∉ href) : IsEmitted quotes ⟨false, ascii "a", linkAttrs href⟩
  | linkEnd : IsEmitted quotes ⟨true, ascii "a", []⟩

/-- The HTML holds emitted tags only, and none that is cut off at its end. -/
structure OnlyEmitted (quotes html : JsString) : Prop where
  tokens : ∀ t ∈ Html.tokens html, ∃ tag, t = .tag tag ∧ IsEmitted quotes tag
  complete : (Html.read .data html).2 = .data

end Gafam.Frontend
