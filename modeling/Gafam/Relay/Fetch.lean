import Gafam.Karaka.Ssrf

/-!
# Fetching a page for an agent

The relay fetches a page itself (`vaultFetchNote`), or has the browser sidecar fetch it (the tool
`browser.sense`). Both ask `GuardPublicURL` about the URL of the agent, and both leave redirects to the
HTTP client that they use: the one of Go and Python's `urllib`. A client is modelled by the requests that
it issues; the servers may answer each of them in any way.
-/

namespace Gafam.Relay

open Gafam.Go Gafam.Karaka

/-! ## Clients and servers -/

/-- An HTTP client, after the requests so far (the latest one first) and a `Location` in the answer to the
latest: the URL of its next request, if it follows the redirect. -/
structure Client where
  next : List GoString → GoString → Option GoString
  /-- It follows at most ten redirects. -/
  limit : ∀ sent location, 10 < sent.length → next sent location = none

/-- The `Location` in the servers' answer to the latest request, if the answer redirects. -/
abbrev Servers := List GoString → Option GoString

/-- The redirect that the client follows after these requests. -/
def redirect (c : Client) (servers : Servers) (sent : List GoString) : Option GoString :=
  (servers sent).bind (c.next sent)

/-- The requests of a client that follows at most `n` more redirects, the latest request first. -/
def follow (c : Client) (servers : Servers) : Nat → List GoString → List GoString
  | 0, sent => sent
  | n + 1, sent =>
    match redirect c servers sent with
    | none => sent
    | some target => follow c servers n (target :: sent)

/-- The requests that begin with one to the given URL. -/
def send (c : Client) (servers : Servers) (url : GoString) : List GoString :=
  follow c servers 10 [url]

/-! ## The two tools -/

inductive FetchError where
  /-- `url must start with http:// or https://` -/
  | notHTTP
  /-- `blocked: %w` -/
  | blocked (err : GuardError)
  /-- The error of `http.NewRequestWithContext`. -/
  | request (err : GoString)
  /-- `url and question required` -/
  | required
  /-- `browser wake: %w` -/
  | wake (err : GoString)
deriving DecidableEq

/-- The test on the beginning of a URL, the same in the relay and in the sidecar. -/
def startsWithHTTP (url : GoString) : Bool :=
  hasPrefix (toLower url) "http://" || hasPrefix (toLower url) "https://"

/-- `vaultFetchNote` up to the answer: the requests that it issues. -/
def vaultFetchNote (net : NetLib) (c : Client) (servers : Servers) (rawURL : GoString) :
    Except FetchError (List GoString) :=
  if !startsWithHTTP rawURL then .error .notHTTP
  else
    match guardPublicURL net false rawURL with
    | .error err => .error (.blocked err)
    | .ok () =>
      match net.parse rawURL with
      | .error err => .error (.request err)
      | .ok _ => .ok (send c servers rawURL)

/-- `_fetch_page` of the sidecar: the requests that it issues. -/
def fetchPage (c : Client) (servers : Servers) (url : GoString) : List GoString :=
  if startsWithHTTP url then send c servers url else []

/-- The handler of `browser.sense` up to the text of the page, with the error of waking the sidecar, if
there is one: the requests that the sidecar issues. -/
def browserSense (net : NetLib) (c : Client) (servers : Servers) (wakeErr : Option GoString)
    (url question : GoString) : Except FetchError (List GoString) :=
  if url = [] ∨ question = [] then .error .required
  else
    match guardPublicURL net false url with
    | .error err => .error (.blocked err)
    | .ok () =>
      match wakeErr with
      | some err => .error (.wake err)
      | none => .ok (fetchPage c servers url)

/-! ## What a tool should ask for -/

/-- Every request goes to a URL that the guard accepts. -/
def OnlyPublic (net : NetLib) (run : Except FetchError (List GoString)) : Prop :=
  ∀ sent, run = .ok sent → ∀ url ∈ sent, guardPublicURL net false url = .ok ()

/-- The requests that the servers lead a client to, one redirect after the other. -/
inductive Led (c : Client) (servers : Servers) (url : GoString) : List GoString → Prop
  | start : Led c servers url [url]
  | step {sent : List GoString} {target : GoString} (h : Led c servers url sent)
      (hnext : redirect c servers sent = some target) : Led c servers url (target :: sent)

/-- No server on the way answers with a redirect to a URL that the guard rejects, unless the client does not
follow it. -/
def RedirectsPublic (net : NetLib) (c : Client) (servers : Servers) (url : GoString) : Prop :=
  ∀ sent target, Led c servers url sent → redirect c servers sent = some target →
    guardPublicURL net false target = .ok ()

/-- `vaultFetchNote` gives up before its first request. -/
def VaultRefuses (net : NetLib) (rawURL : GoString) : Prop :=
  startsWithHTTP rawURL = false ∨ (∃ err, guardPublicURL net false rawURL = .error err) ∨
    ∃ err, net.parse rawURL = .error err

/-- `browser.sense` gives up before its first request. -/
def SenseRefuses (net : NetLib) (wakeErr : Option GoString) (url question : GoString) : Prop :=
  url = [] ∨ question = [] ∨ (∃ err, guardPublicURL net false url = .error err) ∨
    wakeErr.isSome = true ∨ startsWithHTTP url = false

end Gafam.Relay
