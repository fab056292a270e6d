import Gafam.Go.Json
import Gafam.Js.Json
import Gafam.Relay.Transport

/-!
# HTTP/1.1 messages, and the proxy routes of the web frontend

The replies that the relay's server writes, framed by their length or in chunks, and how the server
reads a request: the lines of its head, and as many bytes of body as its `Content-Length` says. What
follows belongs to the next request on the connection.
-/

namespace Gafam.Frontend

open Gafam.Go

/-- The end of a line. -/
def crlf : GoString := [0x0D, 0x0A]

/-- A line of a head: it does not contain the bytes that end it. -/
def IsLine (l : GoString) : Prop := ∀ b ∈ l, b ≠ 0x0D ∧ b ≠ 0x0A

/-! ## Replies -/

/-- The hexadecimal digits of a number, at most `fuel` many. -/
def hexDigits : Nat → Nat → GoString
  | 0, _ => []
  | fuel + 1, n => (if n < 16 then [] else hexDigits fuel (n / 16)) ++ [hexDigit (n % 16)]

/-- The verb `%x`. -/
def hexText (n : Nat) : GoString := hexDigits (n + 1) n

/-- How the body of a reply is framed: by its length, or as the chunks that the handler wrote. -/
inductive Framing
  | contentLength (body : GoString)
  | chunked (chunks : List GoString)

/-- The header of the framing. -/
def Framing.header : Framing → GoString
  | .contentLength body => "Content-Length: " ++ itoa body.length
  | .chunked _ => "Transfer-Encoding: chunked"

/-- The body itself. -/
def Framing.body : Framing → GoString
  | .contentLength body => body
  | .chunked chunks => chunks.flatten

/-- The body as it stands on the wire. -/
def Framing.bytes : Framing → GoString
  | .contentLength body => body
  | .chunked chunks =>
    chunks.flatMap (fun c => hexText c.length ++ crlf ++ c ++ crlf) ++ str "0" ++ crlf ++ crlf

/-- A reply of the server. The header of the framing stands anywhere among the others. -/
structure Reply where
  status : Nat
  reason : GoString
  before : List GoString
  framing : Framing
  after : List GoString
  three_digits : 100 ≤ status ∧ status ≤ 999
  reason_line : IsLine reason
  header_line : ∀ l ∈ before ++ after, IsLine l ∧ l ≠ []

/-- The lines of the head. -/
def Reply.head (r : Reply) : List GoString :=
  ("HTTP/1.1 " ++ itoa r.status ++ str " " ++ r.reason) :: (r.before ++ r.framing.header :: r.after)

/-- The body of a reply. -/
def Reply.body (r : Reply) : GoString := r.framing.body

/-- The bytes of a reply. -/
def Reply.bytes (r : Reply) : GoString :=
  r.head.flatMap (fun l => l ++ crlf) ++ crlf ++ r.framing.bytes

/-- The reply is framed in chunks. -/
def Reply.Chunked (r : Reply) : Prop := ∃ chunks, r.framing = .chunked chunks

/-! ## Requests -/

/-- A line without the carriage return in front of its end. -/
def dropReturn (l : GoString) : GoString := if l.getLast? = some 0x0D then l.dropLast else l

/-- The lines up to the first empty one, and what follows it; `line` is what was read of the current
one. -/
def readHead (line : GoString) : GoString → Option (List GoString × GoString)
  | [] => none
  | b :: rest =>
    if b = 0x0A then
      if dropReturn line = [] then some ([], rest)
      else (readHead [] rest).map fun p => (dropReturn line :: p.1, p.2)
    else readHead (line ++ [b]) rest

/-- The value of a header line of this name. -/
def headerValue (name line : GoString) : Option GoString :=
  match line.dropWhile fun b => b != 0x3A with
  | [] => none
  | _ :: value =>
    if equalFoldAscii (line.takeWhile fun b => b != 0x3A) name then
      some (trimCutset [0x20, 0x09, 0x0A, 0x0D] value)
    else none

/-- A number that is written with digits only. -/
def readDigits (s : GoString) : Option Nat :=
  if s ≠ [] ∧ s.all isDigit then some (digitsValue s) else none

/-- The length of the body that the head declares. -/
def declaredLength (head : List GoString) : Option Nat :=
  (head.tail.findSome? (headerValue "Content-Length")).bind readDigits

/-- A request that the server has read, and what follows it on the connection. -/
structure Received where
  head : List GoString
  body : GoString
  next : GoString

/-- The server reads one request; `none` when the connection ends before it does. -/
def readRequest (s : GoString) : Option Received :=
  match readHead [] s with
  | none => none
  | some (head, rest) =>
    let n := (declaredLength head).getD 0
    if rest.length < n then none else some ⟨head, rest.take n, rest.drop n⟩

/-!
## The proxy routes of the web frontend

`vpcRequest` speaks HTTP over a raw socket: it writes the request as text, reads until the relay closes
the connection, and takes the body from behind the first empty line. The generic SMS route writes its
request in its own way.
-/

open Gafam.Js
open Gafam.Relay (textEncode)

/-- `'\r\n'`. -/
def newline : JsString := ascii crlf

/-- A number in a template. -/
def decimal (n : Nat) : JsString := ascii (itoa n)

/-- What the class `URL` makes of the address of the relay. Its host name is written in printable
ASCII. -/
structure Url where
  hostname : JsString
  port : JsString
  hostname_ascii : ∀ u ∈ hostname, 0x20 < u ∧ u < 0x7F

/-- `parseInt(parsed.port) || 5150`. -/
def Url.portNumber (url : Url) : Int :=
  match parseInt url.port with
  | some 0 => 5150
  | some n => n
  | none => 5150

/-- `${host}:${port}`. -/
def Url.address (url : Url) : JsString := url.hostname ++ ascii ":" ++ ascii (itoa url.portNumber)

/-! ### `vpcRequest` -/

/-- The answer of `vpcRequest`; the status `none` is `NaN`. -/
structure VpcResult where
  ok : Bool
  status : Option Int
  data : JsonValue

/-- `{ error: text }`. -/
def errorData (text : JsString) : JsonValue := .obj [(ascii "error", .str text)]

/-- The arguments of `fetch`. -/
structure FetchRequest where
  url : JsString
  method : JsString
  headers : List (JsString × JsString)
  body : Option JsString

/-- What a route reaches the relay through. A socket to an address takes the bytes of a request and
returns the chunks it can read, or fails with a message; `fetch` returns the answer with its decoded
body, or fails. -/
structure Network where
  socket : JsString → GoString → Except JsString (List GoString)
  fetch : FetchRequest → Option VpcResult

/-- A body that `if (body)` accepts. -/
def given (body : Option JsString) : Option JsString := body.filter fun b => b ≠ []

/-- The lines of the head of a request. -/
def requestLines (host token method pathAndQuery : JsString) (body : Option JsString) (e2e : Bool) :
    List JsString :=
  [method ++ ascii " " ++ pathAndQuery ++ ascii " HTTP/1.1",
    ascii "Host: " ++ host,
    ascii "Authorization: Bearer " ++ token,
    ascii "Connection: close"] ++
  (if e2e then [ascii "X-GAFAM-E2E: 1"] else []) ++
  match given body with
  | some b =>
    [ascii "Content-Type: application/json",
      ascii "Content-Length: " ++ decimal (textEncode b).length]
  | none => []

/-- The text of a request. -/
def requestText (host token method pathAndQuery : JsString) (body : Option JsString) (e2e : Bool) :
    JsString :=
  join newline (requestLines host token method pathAndQuery body e2e ++ [[], []]) ++
    (given body).getD []

/-- What `vpcRequest` makes of the text it has read. -/
def vpcResponse (rawResponse : JsString) : VpcResult :=
  match indexOf (newline ++ newline) rawResponse with
  | none => ⟨false, some 502, errorData (ascii "Malformed response")⟩
  | some bodyStart =>
    let statusLine := splitFirst newline rawResponse
    let second := (splitSecond (ascii " ") statusLine).getD []
    let statusCode := parseInt (if second = [] then ascii "500" else second)
    let responseBody := trim (rawResponse.drop (bodyStart + 4))
    match (if responseBody = [] then some (.obj []) else jsonParse responseBody) with
    | some data => ⟨decide (∃ n ∈ statusCode, n < 400), statusCode, data⟩
    | none =>
      ⟨false, statusCode, errorData (if responseBody = [] then ascii "Upstream error" else responseBody)⟩

/-- `vpcRequest`, `url` being the parsed form of `vpcUrl`. -/
def vpcRequest (net : Network) (url : Url) (vpcUrl token method pathAndQuery : JsString)
    (body : Option JsString) (e2e : Bool) : VpcResult :=
  match net.socket url.address
      (textEncode (requestText url.hostname token method pathAndQuery body e2e)) with
  | .ok values => vpcResponse (TextDecoder.new.readAll values)
  | .error message =>
    let headers :=
      [(ascii "Authorization", ascii "Bearer " ++ token)] ++
      (if e2e then [(ascii "X-GAFAM-E2E", ascii "1")] else []) ++
      (if (given body).isSome then [(ascii "Content-Type", ascii "application/json")] else [])
    match net.fetch ⟨vpcUrl ++ pathAndQuery, method, headers, body⟩ with
    | some result => result
    | none => ⟨false, some 500, errorData message⟩

/-- The relay answers a request with this reply, in whatever pieces the socket delivers it. -/
def Answers (net : Network) (address : JsString) (request : JsString) (reply : Reply) : Prop :=
  ∃ values, net.socket address (textEncode request) = .ok values ∧ values.flatten = reply.bytes

/-! ### The generic SMS route -/

/-- A character that `encodeURIComponent` keeps. -/
def isUnreserved (u : UInt16) : Bool :=
  isDigit u || (0x41 ≤ u && u ≤ 0x5A) || (0x61 ≤ u && u ≤ 0x7A) ||
    u ∈ ascii (str "-_.!~*'()")

/-- The upper-case hexadecimal digit. -/
def upperHexDigit (n : Nat) : UInt8 :=
  if n < 10 then UInt8.ofNat (0x30 + n) else UInt8.ofNat (0x41 + (n - 10))

/-- A byte that is written as `%XY`. -/
def percentByte (b : UInt8) : GoString :=
  [0x25, upperHexDigit (b.toNat / 16), upperHexDigit (b.toNat % 16)]

/-- `encodeURIComponent`, `none` being the error for half a surrogate pair. -/
def encodeURIComponent : JsString → Option JsString
  | [] => some []
  | [u] =>
    if isUnreserved u then some [u]
    else if isSurrogate u.toNat then none
    else some (ascii ((encodeRune u.toNat).flatMap percentByte))
  | u :: v :: rest =>
    if isUnreserved u then (encodeURIComponent (v :: rest)).map fun t => u :: t
    else
      match decodeSurrogates u.toNat v.toNat with
      | some r => (encodeURIComponent rest).map fun t => ascii ((encodeRune r).flatMap percentByte) ++ t
      | none =>
        if isSurrogate u.toNat then none
        else (encodeURIComponent (v :: rest)).map fun t =>
          ascii ((encodeRune u.toNat).flatMap percentByte) ++ t

/-- The lines of the head of the request that `POST` writes, `token` being encoded. -/
def outboxLines (host token payload : JsString) : List JsString :=
  [ascii "POST /api/web/sms/outbox?token=" ++ token ++ ascii " HTTP/1.1",
    ascii "Host: " ++ host,
    ascii "X-GAFAM-E2E: 1",
    ascii "Content-Type: application/json",
    ascii "Content-Length: " ++ decimal payload.length,
    ascii "Connection: close"]

/-- The bytes that `POST` writes to the socket, `none` when the token cannot be encoded. -/
def postBytes (url : Url) (token payload : JsString) : Option GoString :=
  (encodeURIComponent token).map fun token =>
    textEncode (join newline (outboxLines url.hostname token payload ++ [[], payload]))

/-- The server reads the body that was sent: the declared length is that of its bytes, and no byte is
left for a following request. -/
def ReadsWhole (bytes body : GoString) : Prop :=
  ∃ head, declaredLength head = some body.length ∧ readRequest bytes = some ⟨head, body, []⟩

end Gafam.Frontend
