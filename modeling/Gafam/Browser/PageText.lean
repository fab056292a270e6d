import Gafam.Python.Text

/-!
# The text of a page (`PageTextExtractor` in `stream.py`)

The HTML parser hands over the start tags, the end tags and the texts of a page, and the extractor turns them
into parts of a text, which `text` joins and tidies up.
-/

namespace Gafam.Browser.PageText

open Gafam.Python

/-! ## The extractor -/

/-- The attributes of a start tag; one without a value has `None`. -/
abbrev Attrs := List (String × Option PyString)

inductive Event
  | start (tag : String) (attrs : Attrs)
  | stop (tag : String)
  | data (data : PyString)

/-- `_BLOCK_TAGS` -/
def blockTags : List String :=
  ["p", "div", "br", "li", "ul", "ol", "tr", "table", "section", "article", "header", "footer", "blockquote",
    "pre", "hr", "form", "figure"]

/-- `_SKIP_TAGS` -/
def skipTags : List String := ["script", "style", "noscript", "svg", "template"]

/-- The headings, with `int(tag[1])`. -/
def headings : List (String × Nat) := [("h1", 1), ("h2", 2), ("h3", 3), ("h4", 4), ("h5", 5), ("h6", 6)]

/-- `FETCH_LINK_CAP` -/
def linkCap : Nat := 200

structure Link where
  text : PyString
  href : PyString

structure Extractor where
  parts : List PyString
  links : List Link
  title : PyString
  skipDepth : Nat
  inTitle : Bool
  heading : Nat
  curHref : Option PyString

def Extractor.init : Extractor := ⟨[], [], [], 0, false, 0, none⟩

/-- `dict(attrs).get(name)`: of several attributes with a name the last one counts. -/
def getAttr (attrs : Attrs) (name : String) : Option (Option PyString) := attrs.reverse.lookup name

def Extractor.append (x : Extractor) (part : PyString) : Extractor := { x with parts := x.parts ++ [part] }

/-- What comes of an image, `none` where `None.strip()` raises. -/
def imagePart (attrs : Attrs) : Option PyString :=
  (((getAttr attrs "alt").getD (some [])).map strip).map fun alt =>
    if alt = [] then [] else py "[img: " ++ alt ++ py "]"

/-- `handle_starttag`; `none` is an exception. -/
def handleStarttag (x : Extractor) (tag : String) (attrs : Attrs) : Option Extractor :=
  if tag ∈ skipTags then some { x with skipDepth := x.skipDepth + 1 }
  else if x.skipDepth ≠ 0 then some x
  else if tag = "title" then some { x with inTitle := true }
  else
    match headings.lookup tag with
    | some n => some ({ x with heading := n }.append (py "\n" ++ List.replicate n '#' ++ py " "))
    | none =>
      if tag ∈ blockTags then some (x.append (py "\n"))
      else if tag = "li" then some (x.append (py "- "))
      else if tag = "a" then some { x with curHref := (getAttr attrs "href").join }
      else if tag = "img" then
        (imagePart attrs).map fun part => if part = [] then x else x.append part
      else some x

/-- `handle_endtag` -/
def handleEndtag (x : Extractor) (tag : String) : Extractor :=
  if tag ∈ skipTags then { x with skipDepth := x.skipDepth - 1 }
  else if x.skipDepth ≠ 0 then x
  else if tag = "title" then { x with inTitle := false }
  else
    match headings.lookup tag with
    | some _ => { x with heading := 0 }.append (py "\n")
    | none =>
      if tag ∈ blockTags then x.append (py "\n")
      else if tag = "a" then { x with curHref := none }
      else x

/-- `re.sub(r"\s+", " ", data)`, behind white space or not. -/
def squeeze : Bool → PyString → PyString
  | _, [] => []
  | behind, c :: s =>
    if isspace c then (if behind then squeeze true s else ' ' :: squeeze true s) else c :: squeeze false s

/-- `handle_data` -/
def handleData (x : Extractor) (data : PyString) : Extractor :=
  if x.skipDepth ≠ 0 then x
  else if x.inTitle then { x with title := x.title ++ strip data }
  else
    let text := squeeze false data
    if strip text = [] then x
    else
      let x := x.append text
      match x.curHref with
      | some href =>
        if href ≠ [] ∧ x.links.length < linkCap then { x with links := x.links ++ [⟨strip text, href⟩] } else x
      | none => x

def handle (x : Extractor) : Event → Option Extractor
  | .start tag attrs => handleStarttag x tag attrs
  | .stop tag => some (handleEndtag x tag)
  | .data data => some (handleData x data)

/-- `feed`. The caller goes on with what there is when it raises. -/
def feed : Extractor → List Event → Extractor
  | x, [] => x
  | x, e :: es =>
    match handle x e with
    | none => x
    | some x' => feed x' es

def isBlank (c : Char) : Bool := c = ' ' ∨ c = '\t'

/-- `re.sub(r"[ \t]+\n", "\n", raw)` -/
def dropTrailing : PyString → PyString
  | [] => []
  | c :: s => if isBlank c ∧ (s.dropWhile isBlank).head? = some '\n' then dropTrailing s else c :: dropTrailing s

/-- `re.sub(r"\n{3,}", "\n\n", raw)`, behind so many line breaks. -/
def joinBreaks : Nat → PyString → PyString
  | _, [] => []
  | n, c :: s =>
    if c = '\n' then (if 2 ≤ n then joinBreaks (n + 1) s else c :: joinBreaks (n + 1) s)
    else c :: joinBreaks 0 s

/-- `text` -/
def Extractor.text (x : Extractor) : PyString := strip (joinBreaks 0 (dropTrailing x.parts.flatten))

/-! ## Documents -/

/-- The elements of HTML that have no end tag. -/
def voidTags : List String :=
  ["area", "base", "br", "col", "embed", "hr", "img", "input", "link", "meta", "source", "track", "wbr"]

/-- A document whose tags are nested properly, as its first node and the others. -/
inductive Doc
  | nil
  | data (data : PyString) (rest : Doc)
  | void (tag : { t : String // t ∈ voidTags }) (attrs : Attrs) (rest : Doc)
  | elem (tag : String) (attrs : Attrs) (inside rest : Doc)

/-- What the parser hands over. -/
def Doc.events : Doc → List Event
  | .nil => []
  | .data s rest => .data s :: rest.events
  | .void tag attrs rest => .start tag attrs :: rest.events
  | .elem tag attrs inside rest => .start tag attrs :: (inside.events ++ .stop tag :: rest.events)

def pageText (d : Doc) : PyString := (feed .init d.events).text

/-! ## The words of a document -/

/-- What a reader sees: characters, the boundaries of blocks, and the beginnings of list items. -/
inductive Glyph
  | char (c : Char)
  | block
  | item
deriving DecidableEq

structure Word where
  /-- a list item begins in front of it -/
  item : Bool
  text : PyString

/-- A character is put in front of the first word. -/
def joinHead (item : Bool) (c : Char) : List Word → List Word
  | [] => [⟨item, [c]⟩]
  | w :: ws => ⟨item, c :: w.text⟩ :: ws

/-- The glyphs go on with a character that is no white space. -/
def goesOn : List Glyph → Bool
  | .char c :: _ => !isspace c
  | _ => false

/-- The longest runs of characters without white space. -/
def words : Bool → List Glyph → List Word
  | _, [] => []
  | item, .block :: g => words item g
  | _, .item :: g => words true g
  | item, .char c :: g =>
    if isspace c then words item g
    else if goesOn g then joinHead item c (words item g)
    else ⟨item, [c]⟩ :: words false g

/-- The tags at which the extractor breaks a line. -/
def breaks (tag : String) : Bool := (headings.lookup tag).isSome ∨ tag ∈ blockTags

section Blocks

-- other elements that one takes for blocks
variable (extra : String → Bool)

def edge (tag : String) : List Glyph := if breaks tag ∨ extra tag then [.block] else []

def Doc.glyphs : Doc → List Glyph
  | .nil => []
  | .data s rest => s.map .char ++ rest.glyphs
  | .void tag _ rest => edge extra tag ++ rest.glyphs
  | .elem tag _ inside rest =>
    if tag ∈ skipTags ∨ tag = "title" then rest.glyphs
    else
      (if tag = "li" ∧ words false inside.glyphs ≠ [] then [.item] else edge extra tag) ++
        (inside.glyphs ++ (edge extra tag ++ rest.glyphs))

/-- Where `before` is followed by `after`, a line that begins with `- ` begins in `before` or at its end. `first`
says that nothing stands in front of `before`. -/
def Bullet (first : Bool) (before after : PyString) : Prop :=
  ∃ a l, before = a ++ l ∧ (a = [] ∧ first = true ∨ a.getLast? = some '\n') ∧ py "- " <+: l ++ after

/-- The words stand in the text, in this order, with white space between them, and list items behind bullets. -/
inductive Reads : Bool → List Word → PyString → Prop
  | none {first : Bool} {out : PyString} : Reads first [] out
  | word {first : Bool} {before : PyString} {w : Word} {ws : List Word} {rest : PyString}
    (hgap : first = false → ∃ c ∈ before, isspace c = true)
    (hitem : w.item = true → Bullet first before (w.text ++ rest)) (h : Reads false ws rest) :
    Reads first (w :: ws) (before ++ (w.text ++ rest))

/-- The text of the page shows its words. -/
def Shown (d : Doc) : Prop := Reads true (words false (d.glyphs extra)) (pageText d)

/-! ## What the extractor makes of a document -/

/-- A piece of a document: a character of a word, white space that comes out as a space or not at all, the
boundary of a block, and an image, with what the extractor puts in their place. -/
inductive Piece
  | own (c : Char)
  | blank (c : Char) (kept : Bool)
  | block (part : PyString) (item : Bool)
  | image (part : PyString)

def Piece.emit : Piece → PyString
  | own c => [c]
  | blank _ kept => if kept then py " " else []
  | block part _ => part
  | image part => part

/-- Between two characters it separates words. -/
def Piece.separates : Piece → Bool
  | blank .. | block .. => true
  | _ => false

def Piece.silent : Piece → Bool
  | own _ => false
  | _ => true

/-- Of a run of white space the first character is kept, unless there is nothing else in the text. -/
def dataPieces (kept : Bool) : Bool → PyString → List Piece
  | _, [] => []
  | behind, c :: s =>
    if isspace c then .blank c (kept && !behind) :: dataPieces kept true s else .own c :: dataPieces kept false s

def startPieces (tag : String) (attrs : Attrs) (item : Bool) : List Piece :=
  match headings.lookup tag with
  | some n => [.block (py "\n" ++ List.replicate n '#' ++ py " ") false]
  | none =>
    if tag ∈ blockTags then [.block (py "\n") item]
    else
      (if extra tag then [.block [] false] else []) ++
        if tag = "img" then [.image ((imagePart attrs).getD [])] else []

def stopPieces (tag : String) : List Piece :=
  if breaks tag then [.block (py "\n") false] else if extra tag then [.block [] false] else []

def Doc.pieces : Doc → List Piece
  | .nil => []
  | .data s rest => dataPieces (s.any fun c => !isspace c) false s ++ rest.pieces
  | .void tag attrs rest => startPieces extra tag attrs false ++ rest.pieces
  | .elem tag attrs inside rest =>
    if tag ∈ skipTags ∨ tag = "title" then rest.pieces
    else
      startPieces extra tag attrs (tag = "li" ∧ words false (inside.glyphs extra) ≠ []) ++
        (inside.pieces ++ (stopPieces extra tag ++ rest.pieces))

/-! ## Documents that come out well -/

/-- Nothing in a title breaks a line or is an image. -/
def Doc.Quiet : Doc → Prop
  | .nil => True
  | .data _ rest => rest.Quiet
  | .void tag _ rest => breaks tag = false ∧ tag.1 ≠ "img" ∧ rest.Quiet
  | .elem tag _ inside rest =>
    (tag ∈ skipTags ∨ breaks tag = false ∧ tag ≠ "img" ∧ tag ≠ "title" ∧ inside.Quiet) ∧ rest.Quiet

/-- Titles have only texts in them, and images no `alt` without a value. -/
def Doc.Tame : Doc → Prop
  | .nil => True
  | .data _ rest => rest.Tame
  | .void tag attrs rest => (tag.1 = "img" → imagePart attrs ≠ none) ∧ rest.Tame
  | .elem tag attrs inside rest =>
    (tag ∈ skipTags ∨ tag = "title" ∧ inside.Quiet ∨
      tag ≠ "title" ∧ (tag = "img" → imagePart attrs ≠ none) ∧ inside.Tame) ∧ rest.Tame

/-- Between two characters in a row, something comes out exactly if something separates them. -/
def Separated (ps : List Piece) : Prop :=
  ∀ before c between c' after, ps = before ++ .own c :: (between ++ .own c' :: after) →
    (∀ p ∈ between, p.silent = true) →
      ((∃ p ∈ between, p.separates = true) ↔ ∃ p ∈ between, p.emit ≠ [])

/-- There are no list items with words, and nothing is lost that separates words. -/
structure Clean (d : Doc) : Prop where
  tame : d.Tame
  noItems : .item ∉ d.glyphs extra
  separated : Separated (d.pieces extra)

/-- What the extractor adds can be told from the characters of the page and from bullets, and no list item has a
bullet of its own. -/
structure Apart (d : Doc) : Prop where
  tame : d.Tame
  added : ∀ p ∈ d.pieces extra, p.silent = true →
    '-' ∉ p.emit ∧ ∀ c, .own c ∈ d.pieces extra → c ∉ p.emit
  items : ∀ w ∈ words false (d.glyphs extra), w.item = true → w.text.head? ≠ some '-'

end Blocks

end Gafam.Browser.PageText
