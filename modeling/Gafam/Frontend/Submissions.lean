import Gafam.Frontend.VpcProxy

/-!
# What a proxy submits

The generic SMS route, `vpcRequest` and the mission route try the raw socket first, and `fetch` when
anything throws. An exchange over the socket can fail at every point, also after the server has read
the request. What is counted is how often the server executes one request of the browser.
-/

namespace Gafam.Frontend

open Gafam.Go Gafam.Js
open Gafam.Relay (textEncode)

/-! ## The socket and `fetch` -/

/-- How an exchange over the raw socket goes: how many bytes of the request reach the server, and what
can be read before it ends. -/
inductive Exchange
  | connectFails (message : JsString)
  | writeFails (delivered : Nat) (message : JsString)
  | readFails (delivered : Nat) (values : List GoString) (message : JsString)
  | closes (delivered : Nat) (values : List GoString)

/-- What the code sees of an exchange. -/
def Exchange.socket : Exchange → Except JsString (List GoString)
  | .connectFails message | .writeFails _ message | .readFails _ _ message => .error message
  | .closes _ values => .ok values

/-- The bytes of the request that reach the server. -/
def Exchange.delivered : Exchange → Nat
  | .connectFails _ => 0
  | .writeFails n _ | .readFails n _ _ | .closes n _ => n

/-- The server has read the whole request. -/
def Exchange.receives (x : Exchange) (bytes : GoString) : Bool :=
  (readRequest (bytes.take x.delivered)).isSome

/-- The answer of `fetch`; the body is `none` when it is not JSON. -/
structure FetchResponse where
  status : Int
  body : Option JsonValue

/-- `response.ok`. -/
def FetchResponse.ok (r : FetchResponse) : Bool := 200 ≤ r.status && r.status ≤ 299

/-- What the routes are given: the class `URL`, and `fetch`. -/
structure Platform where
  parseUrl : JsString → Except JsString Url
  fetch : FetchRequest → Option FetchResponse

/-- The answer of a route. -/
structure JsonResponse where
  status : Int
  data : JsonValue

/-- The number that `Response` makes of a status, an unsigned one of 16 bits. -/
def unsignedShort (status : Option Int) : Int := status.getD 0 % 65536

/-- `Response` takes the status of an answer that has a body. -/
def TakesStatus (status : Option Int) : Prop :=
  200 ≤ unsignedShort status ∧ unsignedShort status ≤ 599 ∧
    unsignedShort status ≠ 204 ∧ unsignedShort status ≠ 205 ∧ unsignedShort status ≠ 304

instance (status : Option Int) : Decidable (TakesStatus status) := by
  unfold TakesStatus; infer_instance

/-- `json(data, { status })`; `none` is the exception of `Response`. -/
def json (data : JsonValue) (status : Option Int) : Option JsonResponse :=
  if TakesStatus status then some ⟨unsignedShort status, data⟩ else none

/-- `json(data)`. -/
def json200 (data : JsonValue) : JsonResponse := ⟨200, data⟩

/-- What a route does: the bytes it writes to the socket, the requests it hands to `fetch`, and its
answer. -/
structure Run (α : Type) where
  wrote : Option GoString
  fetches : List FetchRequest
  answer : α

/-- A route that answers by itself. -/
def Run.refuse {α : Type} (answer : α) : Run α := ⟨none, [], answer⟩

/-- How often the server executes the request: once when it has read it from the socket, and once for
each `fetch` that arrives. -/
def Run.executions {α : Type} (r : Run α) (x : Exchange) (arrives : FetchRequest → Bool) : Nat :=
  (r.wrote.filter x.receives).toList.length + r.fetches.countP arrives

/-- The requests that are handed to `fetch`, and the answer after that. -/
abbrev Fallback (α : Type) := List FetchRequest × α

/-- The shape that the routes share: one `try` around connecting, writing, reading and what is made of
the reply, and one `catch` for all of them. `take` is `none` when the reply makes it throw. -/
def throughSocket {α : Type} (x : Exchange) (bytes : GoString) (take : JsString → Option α)
    (fallback : Fallback α) : Run α :=
  match x with
  | .connectFails _ => ⟨none, fallback.1, fallback.2⟩
  | .writeFails _ _ | .readFails _ _ _ => ⟨some bytes, fallback.1, fallback.2⟩
  | .closes _ values =>
    match take (TextDecoder.new.readAll values) with
    | some answer => ⟨some bytes, [], answer⟩
    | none => ⟨some bytes, fallback.1, fallback.2⟩

/-! ## `vpcRequest` -/

/-- The message of the exception, when the socket throws. -/
def Exchange.message (x : Exchange) : JsString :=
  match x.socket with
  | .error message => message
  | .ok _ => []

/-- The second attempt of `vpcRequest`. -/
def vpcFallback (p : Platform) (x : Exchange) (request : FetchRequest) : Fallback VpcResult :=
  match (p.fetch request).bind fun r => r.body.map fun data => (r, data) with
  | some (r, data) => ([request], ⟨r.ok, some r.status, data⟩)
  | none => ([request], ⟨false, some 500, errorData x.message⟩)

/-- `vpcRequest` with what it submits, `url` being the parsed form of `vpcUrl`. -/
def vpcRun (p : Platform) (x : Exchange) (url : Url) (vpcUrl token method pathAndQuery : JsString)
    (body : Option JsString) (e2e : Bool) : Run VpcResult :=
  let headers :=
    [(ascii "Authorization", ascii "Bearer " ++ token)] ++
    (if e2e then [(ascii "X-GAFAM-E2E", ascii "1")] else []) ++
    (if (given body).isSome then [(ascii "Content-Type", ascii "application/json")] else [])
  throughSocket x (textEncode (requestText url.hostname token method pathAndQuery body e2e))
    (fun raw => some (vpcResponse raw))
    (vpcFallback p x ⟨vpcUrl ++ pathAndQuery, method, headers, body⟩)

/-! ## The mission route -/

/-- The lines of the head that the mission route's own `vpcRequest` writes. -/
def missionLines (host token method pathAndQuery : JsString) (body : Option JsString) :
    List JsString :=
  [method ++ ascii " " ++ pathAndQuery ++ ascii " HTTP/1.0",
    ascii "Host: " ++ host,
    ascii "Authorization: Bearer " ++ token,
    ascii "Connection: close"] ++
  match given body with
  | some b =>
    [ascii "Content-Type: application/json",
      ascii "Content-Length: " ++ decimal (textEncode b).length]
  | none => []

/-- The bytes that the mission route writes. -/
def missionBytes (host token method pathAndQuery : JsString) (body : Option JsString) : GoString :=
  textEncode (join newline (missionLines host token method pathAndQuery body ++ [[], []]) ++
    (given body).getD [])

/-- The second attempt of the mission route, which takes any body. -/
def missionFallback (p : Platform) (x : Exchange) (request : FetchRequest) : Fallback VpcResult :=
  match p.fetch request with
  | some r => ([request], ⟨r.ok, some r.status, r.body.getD (.obj [])⟩)
  | none => ([request], ⟨false, some 500, errorData x.message⟩)

/-- The mission route's own `vpcRequest`. -/
def missionRequest (p : Platform) (x : Exchange) (url : Url)
    (vpcUrl token method pathAndQuery : JsString) (body : Option JsString) : Run VpcResult :=
  let headers :=
    [(ascii "Authorization", ascii "Bearer " ++ token)] ++
    (if (given body).isSome then [(ascii "Content-Type", ascii "application/json")] else [])
  throughSocket x (missionBytes url.hostname token method pathAndQuery body)
    (fun raw => some (vpcResponse raw))
    (missionFallback p x ⟨vpcUrl ++ pathAndQuery, method, headers, body⟩)

/-- Where an action of the mission route goes: nowhere with a text for the user, or to a path, which
is `none` when a parameter cannot be encoded. -/
abbrev MissionPath := Except JsString (Option JsString)

/-- `/api/web/mission/…` -/
def missionUrl (id rest token : JsString) : Option JsString := do
  let id ← encodeURIComponent id
  let token ← encodeURIComponent token
  return ascii "/api/web/mission/" ++ id ++ rest ++ ascii "?token=" ++ token

/-- The actions on a quest. Each stands at the end of its path. -/
def questPath (action id qid token : JsString) : MissionPath :=
  if id = [] ∨ qid = [] then .error (ascii "Missing id/qid")
  else .ok ((encodeURIComponent qid).bind fun qid =>
    missionUrl id (ascii "/quest/" ++ qid ++ ascii "/" ++ action) token)

/-- The actions on a mission. -/
def ownPath (rest id token : JsString) : MissionPath :=
  if id = [] then .error (ascii "Missing id") else .ok (missionUrl id rest token)

/-- The path of an action. -/
def missionPath (action id qid token : JsString) : MissionPath :=
  if action = ascii "create" then
    .ok ((encodeURIComponent token).map fun t => ascii "/api/web/mission?token=" ++ t)
  else if action = ascii "orchestrate" then
    .ok ((encodeURIComponent token).map fun t => ascii "/api/web/orchestrator/run?token=" ++ t)
  else if action ∈ ["claim", "run", "reward", "approve"].map (fun s => ascii (str s)) then
    questPath action id qid token
  else if action = ascii "add-quest" then ownPath (ascii "/quest") id token
  else if action = ascii "synthesize" then ownPath (ascii "/synthesize") id token
  else .error (ascii "Unknown action")

/-- The answer of a route that passes on what it was told; `none` is an exception. -/
def passOn (r : Run VpcResult) : Run (Option JsonResponse) :=
  ⟨r.wrote, r.fetches, json r.answer.data r.answer.status⟩

/-- `POST` of the mission route. A body that cannot be read, an address that is none and a parameter
that cannot be encoded are exceptions of the route. -/
def missionPost (p : Platform) (x : Exchange) (vpcUrl token action id qid : Option JsString)
    (text : Option JsString) : Run (Option JsonResponse) :=
  match given vpcUrl, given token with
  | some vpcUrl, some token =>
    match text, missionPath ((given action).getD (ascii "create")) (id.getD []) (qid.getD []) token with
    | none, _ => .refuse none
    | some _, .error e => .refuse (some ⟨400, errorData e⟩)
    | some body, .ok path =>
      match path, p.parseUrl vpcUrl with
      | some path, .ok url =>
        passOn (missionRequest p x url vpcUrl token (ascii "POST") path (given (some body)))
      | _, _ => .refuse none
  | _, _ => .refuse (some ⟨400, errorData (ascii "Missing params")⟩)

/-- `DELETE` of the mission route. -/
def missionDelete (p : Platform) (x : Exchange) (vpcUrl token id : Option JsString) :
    Run (Option JsonResponse) :=
  match given vpcUrl, given token, given id with
  | some vpcUrl, some token, some id =>
    match missionUrl id [] token, p.parseUrl vpcUrl with
    | some path, .ok url =>
      passOn (missionRequest p x url vpcUrl token (ascii "DELETE") path none)
    | _, _ => .refuse none
  | _, _, _ => .refuse (some ⟨400, errorData (ascii "Missing params")⟩)

/-! ## The generic SMS route -/

/-- The text of a number in a template. -/
def numberText : Option Int → JsString
  | some n => ascii (itoa n)
  | none => ascii "NaN"

/-- The number in the status line. -/
def statusCode (raw : JsString) : Option Int :=
  let second := (splitSecond (ascii " ") (splitFirst newline raw)).getD []
  parseInt (if second = [] then ascii "500" else second)

/-- What `POST` makes of the text it has read; `none` is an exception. -/
def smsReply (raw : JsString) : Option JsonResponse :=
  match indexOf (newline ++ newline) raw with
  | none => json (errorData (ascii "Malformed response")) (some 502)
  | some bodyStart =>
    let body := trim (raw.drop (bodyStart + 4))
    if statusCode raw ≠ some 200 then
      json (errorData (ascii "VPC returned HTTP " ++ numberText (statusCode raw))) (statusCode raw)
    else (jsonParse body).map json200

/-- The answer when neither attempt has one. -/
def bothFailed : JsonResponse := ⟨500, errorData (ascii "Both socket and fetch failed")⟩

/-- The second attempt of a route whose token stands in the address: without one nothing is sent. -/
def tokenFallback (request : JsString → FetchRequest) (token : JsString)
    (answer : FetchRequest → JsonResponse) : Fallback JsonResponse :=
  match encodeURIComponent token with
  | some t => ([request t], answer (request t))
  | none => ([], bothFailed)

/-- What `POST` makes of the answer of `fetch`. -/
def smsFetched (p : Platform) (request : FetchRequest) : JsonResponse :=
  let answer := (p.fetch request).bind fun r =>
    if r.ok then r.body.map json200
    else json (errorData (ascii "VPC fetch fallback error")) (some r.status)
  answer.getD bothFailed

/-- What `DELETE` makes of the answer of `fetch`. -/
def logoutFetched (p : Platform) (request : FetchRequest) : JsonResponse :=
  match p.fetch request with
  | some r => json200 (.obj [(ascii "success", .bool r.ok)])
  | none => bothFailed

/-- The bytes that `DELETE` writes to the socket, `none` when the token cannot be encoded. -/
def logoutBytes (url : Url) (token : JsString) : Option GoString :=
  (encodeURIComponent token).map fun token =>
    textEncode (join newline
      [ascii "DELETE /api/auth/logout?token=" ++ token ++ ascii " HTTP/1.1",
        ascii "Host: " ++ url.hostname,
        ascii "Connection: close", [], []])

/-- `POST` of the generic SMS route. -/
def smsPost (p : Platform) (x : Exchange) (vpcUrl token : Option JsString)
    (text : Except JsString JsString) : Run JsonResponse :=
  match given vpcUrl, given token with
  | some vpcUrl, some token =>
    match p.parseUrl vpcUrl, text with
    | .error e, _ => .refuse ⟨500, errorData e⟩
    | .ok _, .error e => .refuse ⟨500, errorData e⟩
    | .ok url, .ok payload =>
      let request (t : JsString) : FetchRequest :=
        ⟨vpcUrl ++ ascii "/api/web/sms/outbox?token=" ++ t, ascii "POST",
          [(ascii "Content-Type", ascii "application/json")], some payload⟩
      let fallback := tokenFallback request token (smsFetched p)
      match postBytes url token payload with
      | some bytes => throughSocket x bytes smsReply fallback
      | none => ⟨none, fallback.1, fallback.2⟩
  | _, _ => .refuse ⟨400, errorData (ascii "Missing params")⟩

/-- `DELETE` of the generic SMS route. -/
def smsDelete (p : Platform) (x : Exchange) (vpcUrl token : Option JsString) : Run JsonResponse :=
  match given vpcUrl, given token with
  | some vpcUrl, some token =>
    match p.parseUrl vpcUrl with
    | .error e => .refuse ⟨500, errorData e⟩
    | .ok url =>
      let request (t : JsString) : FetchRequest :=
        ⟨vpcUrl ++ ascii "/api/auth/logout?token=" ++ t, ascii "DELETE", [], none⟩
      let fallback := tokenFallback request token (logoutFetched p)
      match logoutBytes url token with
      | some bytes =>
        throughSocket x bytes (fun _ => some (json200 (.obj [(ascii "success", .bool true)]))) fallback
      | none => ⟨none, fallback.1, fallback.2⟩
  | _, _ => .refuse ⟨400, errorData (ascii "Missing params")⟩

/-! ## One request of the browser -/

/-- A request to one of the proxies. `vpc` is a call of the shared `vpcRequest` by a route. -/
inductive Submission
  | smsPost (vpcUrl token : Option JsString) (text : Except JsString JsString)
  | smsDelete (vpcUrl token : Option JsString)
  | vpc (vpcUrl token method pathAndQuery : JsString) (body : Option JsString) (e2e : Bool)
  | missionPost (vpcUrl token action id qid text : Option JsString)
  | missionDelete (vpcUrl token id : Option JsString)

/-- What is submitted, whatever the answer is. -/
def Run.forget {α : Type} (r : Run α) : Run Unit := ⟨r.wrote, r.fetches, ()⟩

/-- What a proxy submits for a request. `vpcRequest` throws when the address is none. -/
def Submission.run (p : Platform) (x : Exchange) : Submission → Run Unit
  | .smsPost vpcUrl token text => (Frontend.smsPost p x vpcUrl token text).forget
  | .smsDelete vpcUrl token => (Frontend.smsDelete p x vpcUrl token).forget
  | .vpc vpcUrl token method pathAndQuery body e2e =>
    match p.parseUrl vpcUrl with
    | .ok url => (vpcRun p x url vpcUrl token method pathAndQuery body e2e).forget
    | .error _ => .refuse ()
  | .missionPost vpcUrl token action id qid text =>
    (Frontend.missionPost p x vpcUrl token action id qid text).forget
  | .missionDelete vpcUrl token id => (Frontend.missionDelete p x vpcUrl token id).forget

end Gafam.Frontend
