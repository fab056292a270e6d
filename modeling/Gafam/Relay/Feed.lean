import Gafam.Go.Encoding
import Gafam.Go.Json
import Gafam.Moksa.Mission
import Gafam.Relay.Tables
import Gafam.Lib.Steps

/-!
# Federation

A node publishes envelopes on its own feed, and other nodes scan it: there is no push and no queue. An
envelope is signed by the node that publishes it, and a node keeps the public key of each node that it
is linked with.
-/

namespace Gafam.Relay

open Gafam.Go Gafam.Lib

/-! ## Signing -/

/-- Package `crypto/ed25519`: `sign privateKey message` and `verify publicKey message signature`. -/
structure Ed25519 where
  sign : GoString → GoString → GoString
  verify : GoString → GoString → GoString → Bool

/-- `ed25519.PublicKeySize`. -/
def publicKeySize : Nat := 32

/-- `ed25519.PrivateKeySize`. -/
def privateKeySize : Nat := 64

/-- `ed25519.SignatureSize`. -/
def signatureSize : Nat := 64

/-- An envelope, as it is served and fetched. -/
structure Envelope where
  id : Int64
  authorPhone : GoString
  recipientPhone : GoString
  content : GoString
  signature : GoString
  signedTs : Int64
  createdAt : GoString
deriving DecidableEq

/-- The separator of the signed message. -/
def bar : UInt8 := 0x7C

/-- `envelopePayload`. -/
def envelopePayload (authorPhone recipientPhone : GoString) (ts : Int64) (content : GoString) :
    GoString :=
  authorPhone ++ bar :: (recipientPhone ++ bar :: (itoa ts.toInt ++ bar :: content))

/-- `signEnvelope` with the private key of the node, at the time `now`: the signature in hexadecimal
digits, and the time. -/
def signEnvelope (E : Ed25519) (priv : GoString) (now : Int64)
    (authorPhone recipientPhone content : GoString) : GoString × Int64 :=
  (hexEncode (E.sign priv (envelopePayload authorPhone recipientPhone now content)), now)

/-- The message that the signature of an envelope is about. -/
def Envelope.payload (e : Envelope) : GoString :=
  envelopePayload e.authorPhone e.recipientPhone e.signedTs e.content

/-- `verifyEnvelope`. -/
def verifyEnvelope (E : Ed25519) (pubKeyHex : GoString) (e : Envelope) : Bool :=
  match hexDecode pubKeyHex with
  | none => false
  | some pub =>
    if pub.length ≠ publicKeySize then false
    else
      match hexDecode e.signature with
      | none => false
      | some sig => if sig.length ≠ signatureSize then false else E.verify pub e.payload sig

/-! ## Tables -/

/-- A row of `gafam_envelopes`. The column `created_at` counts seconds. -/
structure Published where
  authorPhone : GoString
  recipientPhone : GoString
  content : GoString
  signature : GoString
  signedTs : Int64
  createdAt : Nat
deriving DecidableEq

/-- A row of `gafam_links`. -/
structure Link where
  phone : GoString
  name : GoString
  vpcUrl : GoString
  publicKey : GoString
deriving DecidableEq

/-- A row of `gafam_inbox`. -/
structure InboxEntry where
  linkId : Nat
  authorPhone : GoString
  content : GoString
  envelopeSignature : GoString
deriving DecidableEq

/-- A row as an envelope, `format` being the text that the driver makes of a time. -/
def Published.envelope (format : Nat → GoString) (r : Row Published) : Envelope where
  id := Int64.ofNat r.id
  authorPhone := r.val.authorPhone
  recipientPhone := r.val.recipientPhone
  content := r.val.content
  signature := r.val.signature
  signedTs := r.val.signedTs
  createdAt := format r.val.createdAt

/-! ## Publishing -/

/-- The error answers of the handlers. -/
structure Failure where
  status : Nat
  error : GoString
deriving DecidableEq

/-- `feedPublishHandler`, `body` being what is decoded of the request. -/
def feedPublishHandler (E : Ed25519) (priv : GoString) (now : Int64) (seconds : Nat)
    (selfPhone : GoString) (body : Option (GoString × GoString)) (envelopes : Table Published) :
    Except Failure (Table Published) :=
  if selfPhone = [] then .error ⟨400, "self_phone not set"⟩
  else
    match body with
    | none => .error ⟨400, "content required"⟩
    | some (recipientPhone, content) =>
      if content = [] then .error ⟨400, "content required"⟩
      else
        let recipientPhone : GoString := if recipientPhone = [] then "*" else recipientPhone
        let (sig, ts) := signEnvelope E priv now selfPhone recipientPhone content
        .ok (envelopes.insert ⟨selfPhone, recipientPhone, content, sig, ts, seconds⟩)

/-- The quests of a mission that are done. -/
def countDoneQuests (m : Moksa.Mission) : Nat :=
  (m.quests.filter fun q => q.status = .done).length

/-- The text about a mission, before it is cut. -/
def missionResult (missionID : GoString) (m : Moksa.Mission) : GoString :=
  "Saṃyojaka mission " ++ (missionID ++ (": " ++ (m.instruction ++ ("\nStatus: " ++
    (m.status.text ++ (" — " ++ (itoa (countDoneQuests m) ++ ("/" ++ (itoa m.quests.length ++
      (" quests completed\nSummary: " ++ m.summary))))))))))

/-- The content of an envelope has at most this many bytes. -/
def maxContent : Nat := 2000

/-- A long text is cut at this byte. -/
def cutAt : Nat := 1996

/-- The text that is published. -/
def truncate (content : GoString) : GoString :=
  if maxContent < content.length then content.take cutAt ++ "..." else content

/-- `publishMissionResult`, `none` where it publishes nothing. -/
def publishMissionResult (E : Ed25519) (priv : GoString) (now : Int64) (seconds : Nat)
    (getMission : GoString → Option Moksa.Mission) (selfPhone missionID recipientPhone : GoString) :
    Option Published :=
  match getMission missionID with
  | none => none
  | some m =>
    if selfPhone = [] then none
    else
      let content := truncate (missionResult missionID m)
      let (sig, ts) := signEnvelope E priv now selfPhone recipientPhone content
      some ⟨selfPhone, recipientPhone, content, sig, ts, seconds⟩

/-! ## The public feed -/

/-- The rows of `served` are the newest ones, at most `limit` of them. Rows of the same second may
stand in any order. -/
structure Newest (limit : Nat) (rows served : List (Row Published)) : Prop where
  nodup : served.Nodup
  subset : ∀ r ∈ served, r ∈ rows
  length : served.length = min limit rows.length
  sorted : served.Pairwise fun r r' => r'.val.createdAt ≤ r.val.createdAt
  newest : ∀ r ∈ rows, r ∉ served → ∀ r' ∈ served, r.val.createdAt ≤ r'.val.createdAt

/-- What `publicFeedHandler` may answer to a query for all, or for all since a time. -/
def publicFeed (since : Option Nat) (envelopes : Table Published) (served : List (Row Published)) :
    Prop :=
  match since with
  | some t => Newest 100 (envelopes.rows.filter fun r => t < r.val.createdAt) served
  | none => Newest 50 envelopes.rows served

/-- The members of an envelope that `json.Marshal` writes. Those marked `omitempty` are left out when
they are empty. -/
def Envelope.members (e : Envelope) : List (GoString × GoString) :=
  [(str "id", itoa e.id.toInt), (str "author_phone", marshalString e.authorPhone),
    (str "recipient_phone", marshalString e.recipientPhone),
    (str "content", marshalString e.content)] ++
  (if e.signature = [] then [] else [(str "signature", marshalString e.signature)]) ++
  (if e.signedTs = 0 then [] else [(str "signed_ts", itoa e.signedTs.toInt)]) ++
  [(str "created_at", marshalString e.createdAt)]

/-- The body of the answer. -/
def marshalFeed (envelopes : List Envelope) : GoString :=
  marshalObject [(str "envelopes", marshalArray (envelopes.map fun e => marshalObject e.members))]

/-! ## Reading a feed -/

/-- The zero value. -/
def Envelope.zero : Envelope := ⟨0, [], [], [], [], 0, []⟩

/-- A member of an object that is decoded into an envelope. -/
def Envelope.member (e : Envelope) (m : GoString × JsonTree) : Envelope :=
  if isField "id" m.1 then { e with id := decodeInt64 e.id m.2 }
  else if isField "author_phone" m.1 then { e with authorPhone := decodeString e.authorPhone m.2 }
  else if isField "recipient_phone" m.1 then
    { e with recipientPhone := decodeString e.recipientPhone m.2 }
  else if isField "content" m.1 then { e with content := decodeString e.content m.2 }
  else if isField "signature" m.1 then { e with signature := decodeString e.signature m.2 }
  else if isField "signed_ts" m.1 then { e with signedTs := decodeInt64 e.signedTs m.2 }
  else if isField "created_at" m.1 then { e with createdAt := decodeString e.createdAt m.2 }
  else e

/-- A value that is decoded into an envelope. -/
def Envelope.decode (e : Envelope) : JsonTree → Envelope
  | .obj members => members.foldl Envelope.member e
  | _ => e

/-- A slice, with what its memory still holds behind its end. -/
structure EnvelopeSlice where
  memory : List Envelope
  length : Nat

/-- The elements of a slice. -/
def EnvelopeSlice.toList (s : EnvelopeSlice) : List Envelope := s.memory.take s.length

/-- The elements of an array are decoded into what stands in memory. -/
def decodeElements : List JsonTree → List Envelope → List Envelope
  | [], memory => memory
  | v :: l, [] => Envelope.zero.decode v :: decodeElements l []
  | v :: l, e :: memory => e.decode v :: decodeElements l memory

/-- A value that is decoded into a slice. -/
def EnvelopeSlice.decode (s : EnvelopeSlice) : JsonTree → EnvelopeSlice
  | .null => ⟨[], 0⟩
  | .arr [] => ⟨[], 0⟩
  | .arr l => ⟨decodeElements l s.memory, l.length⟩
  | _ => s

/-- As much of an answer is read. -/
def feedLimit : Nat := 2 ^ 18

/-- The envelopes that `feedScanHandler` decodes of an answer. What stands behind the first value is not
looked at. -/
def decodeFeed (body : GoString) : List Envelope :=
  match parseValue 0 (feedLimit + 1) (body.take feedLimit) with
  | some (.obj members, _) =>
    (members.foldl (fun s m => if isField "envelopes" m.1 then EnvelopeSlice.decode s m.2 else s)
      ⟨[], 0⟩).toList
  | _ => []

/-!
## The key pair of a node

`getNodeKeypair` makes the key pair when the settings do not hold one yet. Reading the setting, making a
pair and writing the setting are steps of their own, and nothing keeps two calls apart.
-/

/-- A pair of keys of the right sizes. -/
structure Keypair where
  pub : GoString
  priv : GoString
  pubSize : pub.length = publicKeySize
  privSize : priv.length = privateKeySize
deriving DecidableEq

/-- The value of the setting `node_keypair`. -/
def Keypair.store (k : Keypair) : GoString := hexEncode k.pub ++ 0x3A :: hexEncode k.priv

/-- Reads the setting; the empty one, or what is no pair of keys, is `none`. -/
def parseKeypair (raw : GoString) : Option Keypair :=
  match splitN ":" 2 raw with
  | [pub, priv] =>
    match hexDecode pub, hexDecode priv with
    | some pub, some priv =>
      if h : pub.length = publicKeySize ∧ priv.length = privateKeySize then
        some ⟨pub, priv, h.1, h.2⟩
      else none
    | _, _ => none
  | _ => none

/-! ### Calls that interleave -/

/-- Where a call stands. -/
inductive KeyPhase
  | reading
  | generating
  | writing (k : Keypair)
  | returned (k : Keypair)
  | failed
deriving DecidableEq

/-- The setting, empty when there is none, and the calls by their number. -/
structure KeyState where
  setting : GoString
  calls : List KeyPhase
deriving DecidableEq

/-- The steps: a call begins, reads the setting, makes a pair, writes it. A read that fails gives the
empty text, `ed25519.GenerateKey` may fail, and so may the write. -/
inductive KeyAction
  | call
  | read (i : Nat) (ok : Bool)
  | generate (i : Nat) (k : Option Keypair)
  | write (i : Nat) (ok : Bool)

/-- What `getSetting` returns. -/
def KeyState.getSetting (s : KeyState) (ok : Bool) : GoString := if ok then s.setting else []

/-- A call goes on. -/
def KeyState.go (s : KeyState) (i : Nat) (p : KeyPhase) : KeyState := { s with calls := s.calls.set i p }

/-- One step of one of the calls of `getNodeKeypair`. -/
def getNodeKeypairStep (s : KeyState) : KeyAction → Option KeyState
  | .call => some { s with calls := s.calls ++ [.reading] }
  | .read i ok =>
    match s.calls[i]? with
    | some .reading =>
      match parseKeypair (s.getSetting ok) with
      | some k => some (s.go i (.returned k))
      | none => some (s.go i .generating)
    | _ => none
  | .generate i k =>
    match s.calls[i]?, k with
    | some .generating, some k => some (s.go i (.writing k))
    | some .generating, none => some (s.go i .failed)
    | _, _ => none
  | .write i ok =>
    match s.calls[i]? with
    | some (.writing k) =>
      let s : KeyState := if ok then { s with setting := k.store } else s
      some (s.go i (.returned k))
    | _ => none

/-- A call returns this pair. -/
def KeyState.Returned (s : KeyState) (i : Nat) (k : Keypair) : Prop := s.calls[i]? = some (.returned k)

instance (s : KeyState) (i : Nat) (k : Keypair) : Decidable (s.Returned i k) :=
  inferInstanceAs (Decidable (_ = _))

end Gafam.Relay
