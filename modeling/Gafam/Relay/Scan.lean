import Gafam.Lib.Steps
import Gafam.Relay.Feed

/-!
# Links and scans

A node looks a phone up in the directory when it adds a link, and scans the feed of a link on demand.
What it takes from a feed goes into its inbox. The database operations succeed.
-/

namespace Gafam.Relay

open Gafam.Go Gafam.Lib

/-- The tables of a node that links and scans use, and the setting `self_phone`. -/
structure FeedNode where
  selfPhone : GoString
  links : Table Link
  inbox : Table InboxEntry

/-- `getSelfPhone`. -/
def FeedNode.getSelfPhone (s : FeedNode) : GoString := trimSpace s.selfPhone

/-! ## Links -/

/-- What the directory answers: the status, and what is decoded of the body. -/
structure DirectoryReply where
  status : Nat
  vpcUrl : GoString
  publicKey : GoString

/-- `discoverVpcURL`, `reply` being `none` when the directory does not answer. -/
def discoverVpcURL (selfPhone phone : GoString) (reply : Option DirectoryReply) :
    GoString × GoString :=
  if selfPhone = phone then ([], [])
  else
    match reply with
    | none => ([], [])
    | some r => if r.status ≠ 200 then ([], []) else (r.vpcUrl, r.publicKey)

/-- The link with this phone. -/
def FeedNode.link (s : FeedNode) (phone : GoString) : Option (Row Link) :=
  s.links.rows.find? fun r => r.val.phone = phone

/-- `INSERT INTO gafam_links … ON CONFLICT(phone) DO UPDATE`. -/
def FeedNode.upsertLink (s : FeedNode) (l : Link) : FeedNode :=
  match s.link l.phone with
  | some r => { s with links := s.links.update r.id fun _ => l }
  | none => { s with links := s.links.insert l }

/-- `linksHandler` with the method POST, `body` being what is decoded of the request. -/
def linksPost (body : Option (GoString × GoString)) (reply : Option DirectoryReply) (s : FeedNode) :
    Except Failure FeedNode :=
  match body with
  | none => .error ⟨400, "phone required"⟩
  | some (phone, name) =>
    if phone = [] then .error ⟨400, "phone required"⟩
    else
      let phone := phoneToSubdomain phone
      let name := trimSpace name
      let (vpcUrl, pubKey) := discoverVpcURL s.getSelfPhone phone reply
      .ok (s.upsertLink ⟨phone, name, vpcUrl, pubKey⟩)

/-- `linksHandler` with the method DELETE. -/
def linksDelete (id : GoString) (s : FeedNode) : Except Failure FeedNode :=
  if id = [] then .error ⟨400, "missing id"⟩
  else .ok { s with links := s.links.delete fun r => atoi id = some (r.id : Int) }

/-! ## Scans -/

/-- The address of the feed of a link. -/
def feedUrl (vpcUrl : GoString) : GoString :=
  (vpcUrl.reverse.dropWhile (· = 0x2F)).reverse ++ "/feed"

/-- The answers of `feedScanHandler`. -/
inductive ScanReply
  | error (f : Failure)
  | scanned (total newCount rejectedCount : Nat)
deriving DecidableEq

/-- The loop variables of the ingestion. -/
structure Ingestion where
  inbox : Table InboxEntry
  newCount : Nat
  rejectedCount : Nat

/-- The inbox has an entry of this link with this author and this content. -/
def HasEntry (inbox : Table InboxEntry) (linkId : Nat) (authorPhone content : GoString) : Prop :=
  ∃ r ∈ inbox.rows,
    r.val.linkId = linkId ∧ r.val.content = content ∧ r.val.authorPhone = authorPhone

instance (inbox : Table InboxEntry) (linkId : Nat) (authorPhone content : GoString) :
    Decidable (HasEntry inbox linkId authorPhone content) :=
  inferInstanceAs (Decidable (∃ r ∈ inbox.rows, _))

/-- The envelope is not addressed to this node. -/
def Envelope.ForOthers (e : Envelope) (selfPhone : GoString) : Prop :=
  e.recipientPhone ≠ str "*" ∧ e.recipientPhone ≠ selfPhone

instance (e : Envelope) (selfPhone : GoString) : Decidable (e.ForOthers selfPhone) :=
  inferInstanceAs (Decidable (_ ∧ _))

/-- The signature of the envelope is checked, and does not hold. -/
def Envelope.Rejected (E : Ed25519) (linkPubKey : GoString) (e : Envelope) : Prop :=
  (e.signature ≠ [] ∧ linkPubKey ≠ []) ∧ verifyEnvelope E linkPubKey e = false

instance (E : Ed25519) (linkPubKey : GoString) (e : Envelope) : Decidable (e.Rejected E linkPubKey) :=
  inferInstanceAs (Decidable (_ ∧ _))

/-- One envelope of a feed. -/
def ingest (E : Ed25519) (selfPhone : GoString) (linkId : Nat) (linkPubKey : GoString) (acc : Ingestion)
    (env : Envelope) : Ingestion :=
  if env.ForOthers selfPhone then acc
  else if env.Rejected E linkPubKey then { acc with rejectedCount := acc.rejectedCount + 1 }
  else if HasEntry acc.inbox linkId env.authorPhone env.content then acc
  else
    { acc with
      inbox := acc.inbox.insert ⟨linkId, env.authorPhone, env.content, env.signature⟩
      newCount := acc.newCount + 1 }

/-- `feedScanHandler`. `fetch` gives the body that stands at an address, or an error. -/
def feedScanHandler (E : Ed25519) (phone : GoString) (fetch : GoString → Except GoString GoString)
    (s : FeedNode) : ScanReply × FeedNode :=
  if phone = [] then (.error ⟨400, "missing phone"⟩, s)
  else
    match s.link phone with
    | none => (.error ⟨404, "link not found"⟩, s)
    | some link =>
      if link.val.vpcUrl = [] then
        (.error ⟨400, "link has no vpc_url — add via POST /api/web/links first"⟩, s)
      else
        match fetch (feedUrl link.val.vpcUrl) with
        | .error err => (.error ⟨502, "unreachable: " ++ err⟩, s)
        | .ok body =>
          let envelopes := decodeFeed body
          let acc := envelopes.foldl (ingest E s.getSelfPhone link.id link.val.publicKey)
            ⟨s.inbox, 0, 0⟩
          (.scanned envelopes.length acc.newCount acc.rejectedCount, { s with inbox := acc.inbox })

/-! ## A node at work -/

/-- What happens to the links and the inbox of a node. -/
inductive FeedAction
  | setSelfPhone (phone : GoString)
  | post (body : Option (GoString × GoString)) (reply : Option DirectoryReply)
  | delete (id : GoString)
  | scan (phone : GoString) (fetch : GoString → Except GoString GoString)

/-- One request. A request that fails changes nothing. -/
def feedStep (E : Ed25519) (s : FeedNode) : FeedAction → Option FeedNode
  | .setSelfPhone phone => some { s with selfPhone := phone }
  | .post body reply =>
    match linksPost body reply s with
    | .ok s' => some s'
    | .error _ => some s
  | .delete id =>
    match linksDelete id s with
    | .ok s' => some s'
    | .error _ => some s
  | .scan phone fetch => some (feedScanHandler E phone fetch s).2

/-! ## Two nodes -/

/-- The feed of the linked node, and the node that scans it. -/
structure Pull where
  remote : Table Published
  node : FeedNode

/-- The linked node publishes, or the node scans and is served some rows of the feed, or it reaches
nobody. -/
inductive PullAction
  | publish (p : Published)
  | scan (served : List (Row Published))
  | unreachable (err : GoString)

instance (limit : Nat) (rows served : List (Row Published)) : Decidable (Newest limit rows served) :=
  decidable_of_iff
    (served.Nodup ∧ (∀ r ∈ served, r ∈ rows) ∧ served.length = min limit rows.length ∧
      (served.Pairwise fun r r' => r'.val.createdAt ≤ r.val.createdAt) ∧
      ∀ r ∈ rows, r ∉ served → ∀ r' ∈ served, r.val.createdAt ≤ r'.val.createdAt)
    ⟨fun ⟨h1, h2, h3, h4, h5⟩ => ⟨h1, h2, h3, h4, h5⟩,
      fun h => ⟨h.nodup, h.subset, h.length, h.sorted, h.newest⟩⟩

instance (since : Option Nat) (envelopes : Table Published) (served : List (Row Published)) :
    Decidable (publicFeed since envelopes served) :=
  match since with
  | some _ => inferInstanceAs (Decidable (Newest ..))
  | none => inferInstanceAs (Decidable (Newest ..))

/-- The body of an answer of the feed. -/
def feedBody (format : Nat → GoString) (served : List (Row Published)) : GoString :=
  marshalFeed (served.map (Published.envelope format))

/-- One step of the two nodes; `phone` is that of the link that is scanned. -/
def pullStep (E : Ed25519) (format : Nat → GoString) (phone : GoString) (s : Pull) :
    PullAction → Option Pull
  | .publish p => some { s with remote := s.remote.insert p }
  | .scan served =>
    if publicFeed none s.remote served then
      some { s with
        node := (feedScanHandler E phone (fun _ => .ok (feedBody format served)) s.node).2 }
    else none
  | .unreachable err =>
    some { s with node := (feedScanHandler E phone (fun _ => .error err) s.node).2 }

end Gafam.Relay
