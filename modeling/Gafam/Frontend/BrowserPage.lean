import Gafam.Frontend.Login
import Gafam.Lib.Find

/-!
# Pages of the remote browser

The proxy reads the reply of the relay from a raw socket, read by read, and decodes each read of a page by itself. Into
the page it puts an address that its links are relative to.
-/

namespace Gafam.Frontend

open Gafam.Go Gafam.Js Gafam.Lib

/-! ## `String.prototype.replace` -/

/-- What a part of a replacement stands for. -/
inductive ReplaceItem
  | unit (u : UInt16)
  | matched
  | before
  | after
  | group (n : Nat)
deriving DecidableEq

/-- Where the reading of a replacement stands: behind a dollar sign, or behind one and a digit. -/
inductive Dollar
  | none
  | sign
  | digit (d : UInt16)

/-- `$n` -/
def oneDigit (groups : Nat) (d : UInt16) : List ReplaceItem :=
  if 1 ≤ digitsValue [d] ∧ digitsValue [d] ≤ groups then [.group (digitsValue [d])] else [.unit 0x24, .unit d]

/-- The parts of a replacement, for an expression with this number of groups. -/
def replaceItems (groups : Nat) : Dollar → JsString → List ReplaceItem
  | .none, [] => []
  | .sign, [] => [.unit 0x24]
  | .digit d, [] => oneDigit groups d
  | .none, u :: rest =>
    if u = 0x24 then replaceItems groups .sign rest else .unit u :: replaceItems groups .none rest
  | .sign, u :: rest =>
    if u = 0x24 then .unit 0x24 :: replaceItems groups .none rest
    else if u = 0x26 then .matched :: replaceItems groups .none rest
    else if u = 0x60 then .before :: replaceItems groups .none rest
    else if u = 0x27 then .after :: replaceItems groups .none rest
    else if isDigit u then replaceItems groups (.digit u) rest
    else .unit 0x24 :: .unit u :: replaceItems groups .none rest
  | .digit d, u :: rest =>
    if isDigit u ∧ 1 ≤ digitsValue [d, u] ∧ digitsValue [d, u] ≤ groups then
      .group (digitsValue [d, u]) :: replaceItems groups .none rest
    else
      oneDigit groups d ++
        if u = 0x24 then replaceItems groups .sign rest else .unit u :: replaceItems groups .none rest

def ReplaceItem.text (m : Found UInt16) : ReplaceItem → JsString
  | unit u => [u]
  | matched => m.text
  | before => m.before
  | after => m.after
  | group n => Regex.groupText m.groups n

/-- What stands in the place of a match. -/
def substitute (groups : Nat) (m : Found UInt16) (template : JsString) : JsString :=
  (replaceItems groups .none template).flatMap (ReplaceItem.text m)

/-- `s.replace(pattern, template)`, for a pattern without the flag `g`. -/
def replace (pattern : Regex UInt16) (groups : Nat) (template s : JsString) : JsString :=
  match pattern.find s with
  | none => s
  | some m => m.before ++ (substitute groups m template ++ m.after)

/-! ## `injectBaseHref` -/

/-- A word in either case. -/
def letters (word : GoString) : List (UInt16 → Bool) := (ascii word).map fun c u => foldCase u = c

/-- `<base\s` -/
def baseOpener : List (UInt16 → Bool) := letters "<base" ++ [isTrimSpace]

/-- `<head` -/
def headOpener : List (UInt16 → Bool) := letters "<head"

/-- What the script does. -/
def fixCode : JsString :=
  ascii "(function()\x7btry\x7bvar u=new URL(location.href);var p=u.searchParams.get('path')||'';" ++
  (ascii "if(/^wss?:\\/\\//i.test(p))\x7bvar w=new URL(p);p=w.pathname.replace(/^\\/+/, '')+(w.search||'');" ++
  (ascii "u.searchParams.set('path',p);history.replaceState(null,'',u);\x7delse if(p.charAt(0)==='/')" ++
  ascii "\x7bu.searchParams.set('path',p.replace(/^\\/+/, ''));history.replaceState(null,'',u);\x7d\x7dcatch(e)\x7b\x7d\x7d)();"))

/-- `fixScript`. -/
def fixScript : JsString := ascii "<script>" ++ (fixCode ++ ascii "</script>")

/-- `inject`. -/
def injection (baseHref : JsString) : JsString :=
  ascii "<base href=\"" ++ (baseHref ++ (ascii "\">" ++ fixScript))

def injectBaseHref (html baseHref : JsString) : JsString :=
  if ((Regex.units baseOpener).find html).isSome then
    replace (Regex.tag baseOpener 0x3E none) 0 (injection baseHref) html
  else if ((Regex.tag headOpener 0x3E none).find html).isSome then
    replace (Regex.tag headOpener 0x3E (some 1)) 1 (ascii "<head$1>" ++ injection baseHref) html
  else injection baseHref ++ html

/-! ## The head of a reply -/

abbrev HeaderList := List (JsString × JsString)

/-- The lines of a text, `text.split('\r\n')`. -/
def splitLines : JsString → List JsString
  | [] => [[]]
  | 0x0D :: 0x0A :: rest => [] :: splitLines rest
  | u :: rest =>
    match splitLines rest with
    | [] => [[u]]
    | line :: lines => (u :: line) :: lines

/-- A character of the name of a header. -/
def isTokenUnit (u : UInt16) : Bool :=
  isDigit u || (0x41 ≤ u && u ≤ 0x5A) || (0x61 ≤ u && u ≤ 0x7A) || u ∈ ascii (str "!#$%&'*+-.^_`|~")

/-- A character of the value of a header. -/
def isValueUnit (u : UInt16) : Bool := u < 0x100 && u ≠ 0 && u ≠ 0x0A && u ≠ 0x0D

/-- The headers so far, and `contentType`. -/
structure HeadRead where
  headers : HeaderList
  contentType : JsString

/-- One line of the head; `none` is the exception of `append`. -/
def readHeader (r : HeadRead) (line : JsString) : Option HeadRead :=
  match indexOf (ascii ":") line with
  | none => some r
  | some sep =>
    let key := trim (line.take sep)
    let val := trim (line.drop (sep + 1))
    let lower := key.map foldCase
    if lower = ascii "transfer-encoding" ∨ lower = ascii "connection" ∨ lower = ascii "content-length" then some r
    else if key ≠ [] ∧ key.all isTokenUnit ∧ val.all isValueUnit then
      some ⟨r.headers ++ [(key, val)], if lower = ascii "content-type" then val else r.contentType⟩
    else none

/-- The lines behind the first one. -/
def readHeaderLines (headerStr : JsString) : Option HeadRead := (splitLines headerStr).tail.foldlM readHeader ⟨[], []⟩

def isHeader (name : JsString) (h : JsString × JsString) : Bool := h.1.map foldCase = name.map foldCase

/-- `headers.delete(name)`. -/
def deleteHeader (name : JsString) (headers : HeaderList) : HeaderList := headers.filter fun h => !isHeader name h

/-- `headers.set(name, value)`. -/
def setHeader (name value : JsString) : HeaderList → HeaderList
  | [] => [(name, value)]
  | h :: headers =>
    if isHeader name h then (h.1, value) :: deleteHeader name headers else h :: setHeader name value headers

/-! ## The route -/

/-- `text.includes(sub)`. -/
def includes (text sub : JsString) : Bool := (indexOf sub text).isSome

/-- An answer of the route. A stream passes the bytes on, and may break off. -/
inductive BrowserReply
  | page (status : Int) (headers : HeaderList) (html : JsString)
  | stream (status : Int) (headers : HeaderList) (chunks : List GoString) (breaks : Bool)
  | incomplete
  | failed

/-- `isHtml`. -/
def isHtml (path contentType : JsString) : Bool :=
  includes contentType (ascii "text/html") || (ascii ".html").isSuffixOf path

/-- What is made of the reads once the head is there: `body` is what the buffer holds of the body, and `values` are the
reads to come, with an error at the end if `breaks`. `none` is an exception. -/
def answerHead (path : JsString) (baseHref : Option JsString) (head body : GoString) (values : List GoString)
    (breaks : Bool) : Option BrowserReply :=
  let headerStr := textDecode head
  let status := statusCode headerStr
  (readHeaderLines headerStr).bind fun r =>
    match if isHtml path r.contentType then given baseHref else none with
    | some href =>
      let html := textDecode body ++ values.flatMap textDecode
      let headers := setHeader (ascii "Content-Type") (ascii "text/html; charset=utf-8") r.headers
      if !breaks ∧ TakesStatus status then
        some (.page (unsignedShort status) (deleteHeader (ascii "Content-Security-Policy") headers)
          (injectBaseHref html href))
      else none
    | none =>
      if TakesStatus status then
        some (.stream (unsignedShort status) r.headers ((if body = [] then [] else [body]) ++ values) breaks)
      else none

/-- The loop of `proxyToVpc`. -/
def proxyLoop (path : JsString) (baseHref : Option JsString) (breaks : Bool) (buffer : GoString) :
    List GoString → Option BrowserReply
  | [] => if breaks then none else some .incomplete
  | value :: values =>
    match findBodyStart (buffer ++ value) with
    | none => proxyLoop path baseHref breaks (buffer ++ value) values
    | some bodyStart =>
      answerHead path baseHref ((buffer ++ value).take (bodyStart - 4)) ((buffer ++ value).drop bodyStart) values breaks

/-- What `fetch` returns. -/
structure FetchedPage where
  status : Int
  headers : HeaderList
  body : GoString

/-- What is made of the answer of `fetch`, which is tried when something throws. -/
def fetchedPage (baseHref : Option JsString) (response : Option FetchedPage) : BrowserReply :=
  match response with
  | none => .failed
  | some r =>
    let ct := ((r.headers.find? (isHeader (ascii "content-type"))).map Prod.snd).getD []
    match if includes ct (ascii "text/html") then given baseHref else none with
    | some href =>
      if TakesStatus (some r.status) then
        .page (unsignedShort (some r.status))
          (deleteHeader (ascii "content-security-policy") (deleteHeader (ascii "content-length") r.headers))
          (injectBaseHref (textDecode r.body) href)
      else .failed
    | none => .stream r.status r.headers [r.body] false

/-- `proxyToVpc`, for a path that begins with a slash. -/
def proxyToVpc (path : JsString) (baseHref : Option JsString) (x : Exchange) (response : Option FetchedPage) :
    BrowserReply :=
  match x with
  | .connectFails _ | .writeFails _ _ => fetchedPage baseHref response
  | .readFails _ values _ => (proxyLoop path baseHref true [] values).getD (fetchedPage baseHref response)
  | .closes _ values => (proxyLoop path baseHref false [] values).getD (fetchedPage baseHref response)

/-- The page of an answer. -/
def BrowserReply.html : BrowserReply → Option JsString
  | page _ _ html => some html
  | _ => none

/-! ## Pages that are read in parts -/

/-- The bytes of the reads, those marked that a read begins with. -/
def marked : List GoString → List (Bool × UInt8)
  | [] => []
  | [] :: reads => marked reads
  | (b :: rest) :: reads => (true, b) :: (rest.map (false, ·) ++ marked reads)

/-- A character of a page, whether it is the first one, and the marks of its bytes. -/
structure Cell where
  char : Segment
  first : Bool
  marks : List Bool

namespace Cell

/-- A read begins with the character. -/
def starts (c : Cell) : Bool := c.marks.headD false

/-- A read begins inside the character. -/
def cut (c : Cell) : Bool := c.marks.tail.any id

/-- U+FEFF that a read begins with, and the page does not. -/
def lost (c : Cell) : Bool := !c.cut && (c.starts && (!c.first && c.char.rune == 0xFEFF))

/-- The character is not read as it is. -/
def damaged (c : Cell) : Bool := c.cut || c.lost

/-- What a decoder of the whole page reads of the character. -/
def whole (c : Cell) : JsString := if c.first && c.char.rune == 0xFEFF then [] else utf16 c.char.rune

end Cell

/-- Characters with their marks, the first one of a page or not. -/
def cellsFrom (first : Bool) : List Segment → List Bool → List Cell
  | [], _ => []
  | s :: rest, marks => ⟨s, first, marks.take s.bytes.length⟩ :: cellsFrom false rest (marks.drop s.bytes.length)

/-- The characters of a page that is read like that. -/
def pageCells (reads : List GoString) : List Cell :=
  cellsFrom true (segments reads.flatten) ((marked reads).map Prod.fst)

/-! ## When a page is read as it is -/

/-- What a decoder of the whole page reads of the characters. -/
def wholeText (l : List Cell) : JsString := l.flatMap Cell.whole

/-- White space that is read as it is. -/
def Cell.IsBlank (c : Cell) : Prop := c.damaged = false ∧ ∃ u, utf16 c.char.rune = [u] ∧ isTrimSpace u = true

/-- What is not lost behind `<base` begins with white space. -/
def StaysTag (t : List Cell) : Prop :=
  ∃ lost c rest, t.drop 5 = lost ++ c :: rest ∧ (∀ k ∈ lost, k.lost = true) ∧ c.IsBlank

/-- The characters `t` are the `<base>` tag that the address replaces, and only such characters are damaged. -/
structure DamagedInTag (x t y : List Cell) : Prop where
  intact : ∀ c ∈ x ++ y, c.damaged = false
  whole_ne : ∀ c ∈ t, c.whole ≠ []
  found : (Regex.tag baseOpener 0x3E none).find (wholeText (x ++ (t ++ y))) =
    some ⟨wholeText x, wholeText t, wholeText y, []⟩
  stays : StaysTag t

/-- No damaged character is seen: there is none, or they are in a tag that is replaced by an address which takes nothing
over from it. -/
def DamageUnseen (baseHref : JsString) (l : List Cell) : Prop :=
  (∀ c ∈ l, c.damaged = false) ∨
    .matched ∉ replaceItems 0 .none baseHref ∧ ∃ x t y, l = x ++ (t ++ y) ∧ DamagedInTag x t y

/-- A page that the relay serves, and that is to be given an address, with the reads that its bytes come in. -/
structure ServedPage where
  path : JsString
  baseHref : JsString
  head : GoString
  body : GoString
  reads : List GoString
  read : HeadRead
  baseHref_ne : baseHref ≠ []
  head_end : findBodyStart (head ++ (crlf ++ crlf)) = some (head.length + 4)
  head_read : readHeaderLines (textDecode head) = some read
  is_html : isHtml path read.contentType = true
  status : TakesStatus (statusCode (textDecode head))
  valid : validString body = true
  reads_eq : reads.flatten = head ++ (crlf ++ crlf) ++ body

/-- The reads behind the first bytes. -/
def readsBehind : Nat → List GoString → List GoString
  | _, [] => []
  | n, value :: values => if value.length < n then readsBehind (n - value.length) values else value.drop n :: values

/-- The reads of the body; the first one comes with the end of the head. -/
def ServedPage.bodyReads (p : ServedPage) : List GoString := readsBehind (p.head.length + 4) p.reads

end Gafam.Frontend
