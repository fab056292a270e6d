import Gafam.Relay.Dedup
import Gafam.Relay.SmsHandler

/-!
# History and outbox

The endpoints that write `gafam_sms` and `gafam_outbox`, on the node, and the operations on the two
tables that they are made of. A queued SMS carries the id of its row in the history, so that the
phone's delivery report can be recorded there.
-/

namespace Gafam.Relay

open Gafam.Go Gafam.Lib

/-! ## The endpoints -/

/-- The answer of an endpoint. -/
inductive MailReply
  | error (code : Nat) (text : GoString)
  | queued (id : Nat)
  | deleted
  | recorded
  | synced (received inserted : Nat)
  | smsDeleted (count : Nat)
  | conversationDeleted (count : Nat) (peer : GoString)
deriving DecidableEq

/-- `OutboxParams`. -/
structure OutboxParams where
  recipient : GoString
  body : GoString

/-- `queueOutboxHandler`, on the decoded payload. -/
def queueOutboxHandler (now : Nat) (params : OutboxParams) (n : Node) : MailReply × Node :=
  if params.body = [] then (.error 400 "Invalid payload", n)
  else
    let (d, sms) := insertSmsDeduped now n.sms params.recipient params.body now .outbound
    let outbox := n.outbox.insert ⟨params.recipient, params.body, d.id⟩
    (.queued n.outbox.nextId, { n with sms := sms, outbox := outbox })

/-- `deleteOutboxHandler`. -/
def deleteOutboxHandler (id : Option Nat) (n : Node) : MailReply × Node :=
  match id with
  | none => (.error 400 "Missing id parameter", n)
  | some id => (.deleted, { n with outbox := n.outbox.delete fun r => r.id = id })

/-- `SmsStatusParams`. -/
structure SmsStatusParams where
  outboxID : Int
  smsID : Int
  status : GoString

/-- The two outcomes that a report can name. -/
def reportedStatus (status : GoString) : Option SmsStatus :=
  if status = "sent" then some .sent else if status = "failed" then some .failed else none

/-- `updateSmsStatusHandler`, on the decrypted payload. -/
def updateSmsStatusHandler (params : SmsStatusParams) (n : Node) : MailReply × Node :=
  match reportedStatus params.status with
  | none => (.error 400 "Invalid status", n)
  | some status =>
    let sms := if params.smsID > 0 then n.sms.setStatus params.smsID.toNat status else n.sms
    let outbox :=
      if params.outboxID > 0 then n.outbox.delete fun r => (r.id : Int) = params.outboxID
      else n.outbox
    (.recorded, { n with sms := sms, outbox := outbox })

/-- `deleteSmsBulkHandler`. -/
def deleteSmsBulkHandler (ids : List Int) (n : Node) : MailReply × Node :=
  if ids = [] then (.error 400 "ids required", n)
  else if ids.length > 5000 then (.error 400 "too many ids", n)
  else
    let sms := n.sms.delete fun r => (r.id : Int) ∈ ids
    (.smsDeleted (n.sms.rows.length - sms.rows.length), { n with sms := sms })

/-- `deleteSmsConversationHandler`. -/
def deleteSmsConversationHandler (peer : GoString) (n : Node) : MailReply × Node :=
  let peer := trimSpace peer
  if peer = [] then (.error 400 "peer required", n)
  else
    let sms := n.sms.delete fun r => r.val.sender = peer
    let outbox := n.outbox.delete fun r => r.val.recipient = peer
    (.conversationDeleted (n.sms.rows.length - sms.rows.length) peer,
      { n with sms := sms, outbox := outbox })

/-- `HistSmsMsg`; the type 2 is a sent message. -/
structure HistSmsMsg where
  address : GoString
  body : GoString
  timestamp : Int
  type : Int

/-- The call that the loop of `syncSmsHistoryHandler` makes for a message, if it makes one. -/
def HistSmsMsg.call (now : Int) (m : HistSmsMsg) : Option DedupCall :=
  if m.address = [] ∨ m.body = [] ∨ m.timestamp = 0 then none
  else some ⟨now, m.address, m.body, m.timestamp, if m.type = 2 then .outbound else .inbox⟩

/-- The loop of `syncSmsHistoryHandler`: the number of inserted rows and the table. -/
def syncLoop (now : Int) : List HistSmsMsg → Nat → SmsTable → Nat × SmsTable
  | [], inserted, t => (inserted, t)
  | m :: ms, inserted, t =>
    match m.call now with
    | none => syncLoop now ms inserted t
    | some c =>
      let (d, t) := insertSmsDeduped c.now t c.sender c.body c.timestamp c.status
      syncLoop now ms (if d.inserted then inserted + 1 else inserted) t

/-- `syncSmsHistoryHandler`, on the decrypted payload. -/
def syncSmsHistoryHandler (now : Nat) (messages : List HistSmsMsg) (n : Node) : MailReply × Node :=
  if messages.length > 2000 then (.error 400 "Too many messages", n)
  else
    let (inserted, sms) := syncLoop now messages 0 n.sms
    (.synced messages.length inserted, { n with sms := sms })

/-! ## The operations on the two tables -/

/-- The history and the outbox. -/
structure Mailbox where
  sms : SmsTable
  outbox : Table OutboxMsg

/-- The two tables of a node. -/
def Node.mail (n : Node) : Mailbox := ⟨n.sms, n.outbox⟩

/-- One operation on the two tables. -/
inductive MailOp
  /-- The end of `smsHandler`: a received message of a contact or of a stranger. -/
  | push (now : Int) (sender body : GoString) (timestamp : Int) (contact : Bool)
  /-- One message of a history sync. -/
  | sync (now : Int) (m : HistSmsMsg)
  /-- A message sent from the web client. -/
  | send (now : Nat) (recipient body : GoString)
  /-- A reply of the relay itself. -/
  | reply (now : Nat) (recipient body : GoString)
  /-- A delivery report. -/
  | report (outboxID smsID : Int) (sent : Bool)
  | deleteOutbox (id : Nat)
  | deleteSms (ids : List Int)
  | deleteConversation (peer : GoString)
  /-- The purge at startup. -/
  | purge

/-- The insertion into the history that an operation makes. -/
def MailOp.call : MailOp → Option DedupCall
  | .push now sender body timestamp contact =>
    some ⟨now, sender, body, timestamp, if contact then .inbox else .purgatory⟩
  | .sync now m => m.call now
  | .send now recipient body =>
    if body = [] then none else some ⟨now, recipient, body, now, .outbound⟩
  | .reply now recipient body => some ⟨now, recipient, body, now, .outbound⟩
  | .report .. | .deleteOutbox .. | .deleteSms .. | .deleteConversation .. | .purge => none

/-- The result of the insertion of a call. -/
def DedupCall.result (c : DedupCall) (t : SmsTable) : Deduped :=
  (insertSmsDeduped c.now t c.sender c.body c.timestamp c.status).1

/-- What an operation does to the history. -/
def MailOp.execSms (t : SmsTable) : MailOp → SmsTable
  | .push now sender body timestamp contact =>
    let c : DedupCall := ⟨now, sender, body, timestamp, if contact then .inbox else .purgatory⟩
    if (c.result t).inserted then (c.exec t).keepLast maxStoredSms else c.exec t
  | .report _ smsID sent =>
    if smsID > 0 then t.setStatus smsID.toNat (if sent then .sent else .failed) else t
  | .deleteSms ids => t.delete fun r => (r.id : Int) ∈ ids
  | .deleteConversation peer => t.delete fun r => r.val.sender = peer
  | .purge => purgeNearDuplicateSms t
  | op => match op.call with
    | some c => c.exec t
    | none => t

/-- What an operation does to the outbox. -/
def MailOp.execOutbox (b : Mailbox) : MailOp → Table OutboxMsg
  | .send now recipient body =>
    if body = [] then b.outbox
    else
      let c : DedupCall := ⟨now, recipient, body, now, .outbound⟩
      b.outbox.insert ⟨recipient, body, (c.result b.sms).id⟩
  | .reply _ recipient body => b.outbox.insert ⟨recipient, body, 0⟩
  | .report outboxID _ _ =>
    if outboxID > 0 then b.outbox.delete fun r => (r.id : Int) = outboxID else b.outbox
  | .deleteOutbox id => b.outbox.delete fun r => r.id = id
  | .deleteConversation peer => b.outbox.delete fun r => r.val.recipient = peer
  | .push .. | .sync .. | .deleteSms .. | .purge => b.outbox

/-- One operation. -/
def MailOp.exec (b : Mailbox) (op : MailOp) : Mailbox := ⟨op.execSms b.sms, op.execOutbox b⟩

/-- A sequence of operations. -/
def runMail (b : Mailbox) (ops : List MailOp) : Mailbox := ops.foldl MailOp.exec b

/-- The mailbox of a new node. -/
def Mailbox.empty : Mailbox := ⟨SmsTable.empty, Table.empty⟩

/-- A request to one of the endpoints. -/
inductive MailRequest
  | sms (env : SmsEnv) (req : SmsRequest)
  | queue (now : Nat) (params : OutboxParams)
  | deleteOutbox (id : Option Nat)
  | status (params : SmsStatusParams)
  | deleteBulk (ids : List Int)
  | deleteConversation (peer : GoString)
  | sync (now : Nat) (messages : List HistSmsMsg)

def MailRequest.serve (n : Node) : MailRequest → Node
  | .sms env req => (smsHandler env req n).node
  | .queue now params => (queueOutboxHandler now params n).2
  | .deleteOutbox id => (deleteOutboxHandler id n).2
  | .status params => (updateSmsStatusHandler params n).2
  | .deleteBulk ids => (deleteSmsBulkHandler ids n).2
  | .deleteConversation peer => (deleteSmsConversationHandler peer n).2
  | .sync now messages => (syncSmsHistoryHandler now messages n).2

/-- The operations that a request may be made of: only a delivery has the relay reply. -/
def MailRequest.Allows : MailRequest → MailOp → Prop
  | .sms _ (.params _), .reply .. => True
  | .sms env (.params p), .push now sender body timestamp _ =>
    now = env.now ∧ sender = p.sender.getD [] ∧ body = p.body.getD [] ∧ timestamp = p.timestamp.getD 0
  | .queue now params, op => op = .send now params.recipient params.body
  | .deleteOutbox id, .deleteOutbox k => id = some k
  | .status params, .report outboxID smsID _ => outboxID = params.outboxID ∧ smsID = params.smsID
  | .deleteBulk ids, op => op = .deleteSms ids
  | .deleteConversation peer, op => op = .deleteConversation (trimSpace peer)
  | .sync now messages, op => op ∈ messages.map (.sync now)
  | _, _ => False

/-! ## Refused messages -/

/-- If the deduplication matches a row, then the row is a received message of the same peer. -/
def RefusedByInbound (t : SmsTable) (c : DedupCall) : Prop :=
  ∀ k, smsNearDuplicateID t c.sender c.body c.time = some k →
    ∃ r ∈ t.rows, r.id = k ∧ r.val.status.isInbound = true ∧
      phonesMatch c.sender r.val.sender = true

/-- Every message to the peer of the call with the same text in the window, among the rows the query
returns, comes after a received one. -/
def Unshadowed (t : SmsTable) (c : DedupCall) : Prop :=
  c.body ≠ [] → c.time ≠ 0 →
    ∀ r ∈ nearCandidates t c.body c.time, phonesMatch c.sender r.val.sender = true →
      r.val.status.isInbound = false →
      ∃ r' ∈ nearCandidates t c.body c.time, r'.id < r.id ∧
        phonesMatch c.sender r'.val.sender = true ∧ r'.val.status.isInbound = true

/-- No report of the run is about a stored message that was received. -/
def ReportsOutgoing (ops : List MailOp) : Prop :=
  ∀ before outboxID smsID sent after, ops = before ++ .report outboxID smsID sent :: after →
    ∀ r ∈ (runMail .empty before).sms.rows, (r.id : Int) = smsID → r.val.status.isInbound = false

/-- No received message of the run repeats, for the same peer and in the window, the text of an
outgoing message that was recorded before it. -/
def NeverRepeated (ops : List MailOp) : Prop :=
  ∀ before op after c, ops = before ++ op :: after → op.call = some c → c.status.isInbound = true →
    ∀ o ∈ before, ∀ c', o.call = some c' → c'.status.isInbound = false → c'.body = c.body →
      phonesMatch c.sender c'.sender = true → inWindow c'.time c.time = false

/-! ## Delivery reports -/

/-- A message that was queued: its row of the outbox, and the row of the history that queueing it
inserted. -/
structure Send where
  row : Row OutboxMsg
  stored : Option Nat
deriving DecidableEq

/-- The mailbox together with all messages that were ever queued, which the phone may have fetched. -/
structure MailSystem where
  box : Mailbox
  sends : List Send

/-- The relay before the first operation. -/
def MailSystem.init : MailSystem := ⟨.empty, []⟩

/-- The message that an operation queues. -/
def MailOp.queued (b : Mailbox) : MailOp → List Send
  | .send now recipient body =>
    if body = [] then []
    else
      let d := (⟨now, recipient, body, now, .outbound⟩ : DedupCall).result b.sms
      [⟨⟨b.outbox.nextId, recipient, body, d.id⟩, if d.inserted then some d.id else none⟩]
  | .reply _ recipient body => [⟨⟨b.outbox.nextId, recipient, body, 0⟩, none⟩]
  | .push .. | .sync .. | .report .. | .deleteOutbox .. | .deleteSms .. | .deleteConversation ..
  | .purge => []

/-- The phone reports on messages that it has fetched, with the two ids it fetched them with. -/
def MailOp.Genuine (sends : List Send) : MailOp → Prop
  | .report outboxID smsID _ =>
    ∃ s ∈ sends, (s.row.id : Int) = outboxID ∧ (s.row.val.smsId : Int) = smsID
  | _ => True

instance (sends : List Send) (op : MailOp) : Decidable (op.Genuine sends) := by
  cases op <;> unfold MailOp.Genuine <;> infer_instance

/-- One operation of the system. -/
def MailSystem.step (s : MailSystem) (op : MailOp) : Option MailSystem :=
  if op.Genuine s.sends then some ⟨op.exec s.box, s.sends ++ op.queued s.box⟩ else none

/-- The links from the outbox to the history are sound, and so are the reports that use them. -/
structure LinksSound (s : MailSystem) : Prop where
  linked : ∀ r ∈ s.box.outbox.rows, 0 < r.val.smsId →
    ⟨r, some r.val.smsId⟩ ∈ s.sends ∧ ∃ m ∈ s.box.sms.rows, m.id = r.val.smsId ∧
      m.val.status = .outbound ∧ m.val.sender = r.val.recipient ∧ m.val.body = r.val.body
  distinct : ∀ r ∈ s.box.outbox.rows, ∀ r' ∈ s.box.outbox.rows, 0 < r.val.smsId →
    r.val.smsId = r'.val.smsId → r = r'
  reports : ∀ q ∈ s.sends, ∀ sent, ∀ m ∈ s.box.sms.rows,
    m ∉ ((MailOp.report q.row.id q.row.val.smsId sent).execSms s.box.sms).rows →
      q.stored = some m.id ∧ m.val.sender = q.row.val.recipient ∧ m.val.body = q.row.val.body ∧
        m.val.status.isInbound = false

/-- A row of the history that a message in the outbox is linked to. -/
def Mailbox.Linked (b : Mailbox) (k : Nat) : Prop :=
  0 < k ∧ ∃ r ∈ b.outbox.rows, r.val.smsId = k

/-- The ids of the history that an operation deletes without deleting the messages of the outbox that
may be linked to them. -/
def MailOp.dropped (t : SmsTable) : MailOp → List Int
  | .push .. => (t.rows.take (t.rows.length + 1 - maxStoredSms)).map fun r => (r.id : Int)
  | .deleteSms ids => ids
  | .purge => (purgedIds t).map fun k : Nat => (k : Int)
  | _ => []

/-- A message is queued under a new row of the history, and rows that a queued message is linked to
stay. -/
structure KeepsLinks (s : MailSystem) (op : MailOp) : Prop where
  send : ∀ now recipient body, op = .send now recipient body → body ≠ [] →
    smsNearDuplicateID s.box.sms recipient body now = none
  dropped : ∀ k, s.box.Linked k → (k : Int) ∉ op.dropped s.box.sms

/-!
## The two ways in

The phone pushes an SMS when it receives it, and syncs its history later, in which the same SMS stands again with the
date of the provider. Only a pushed SMS is checked for spam.
-/

/-- The query of the anti-spam check. -/
def isContact (contacts : List Contact) (sender : GoString) : Bool :=
  contacts.any fun c => (lastNine sender).isSuffixOf c.phone

/-- A sequence of operations, as far as the history is concerned. -/
def runSms (t : SmsTable) (ops : List MailOp) : SmsTable := ops.foldl MailOp.execSms t

/-- The rows of this text that are close to a time. -/
def near (t : SmsTable) (body : GoString) (timestamp : Int) : List (Row Sms) :=
  t.rows.filter fun r => r.val.body == body && inWindow r.val.timestamp timestamp

/-- A received SMS that is pushed with one timestamp (0 if there is none, the clock then showing `now`), and stands in
the synced history with another one that is close to it. -/
structure TwiceSent where
  sender : GoString
  body : GoString
  now : Int
  pushed : Int
  synced : Int
  type : Int
  sender_ne : sender ≠ []
  body_ne : body ≠ []
  synced_ne : synced ≠ 0
  inbound : type ≠ 2
  close : inWindow (if pushed = 0 then now else pushed) synced = true

namespace TwiceSent

variable (x : TwiceSent)

/-- The time of the row that the push stores. -/
def time : Int := if x.pushed = 0 then x.now else x.pushed

def push (contacts : List Contact) : MailOp := .push x.now x.sender x.body x.pushed (isContact contacts x.sender)

/-- The loop of a sync comes to the SMS. -/
def sync (now : Int) : MailOp := .sync now ⟨x.sender, x.body, x.synced, x.type⟩

inductive Arrival (contacts : List Contact) : MailOp → Prop
  | push : Arrival contacts (x.push contacts)
  | sync (now : Int) : Arrival contacts (x.sync now)

/-! ### Rows -/

/-- The message of a row is this SMS, as the deduplication sees it. -/
def Is (m : Sms) : Prop :=
  SameMessage m ⟨x.sender, x.body, x.time, .inbox⟩ ∨ SameMessage m ⟨x.sender, x.body, x.synced, .inbox⟩

instance (m : Sms) : Decidable (x.Is m) := by unfold Is; infer_instance

def rowsOf (t : SmsTable) : List (Row Sms) := t.rows.filter fun r => x.Is r.val

/-- An operation that stores no other copy of the SMS: a message of another kind, a reply, a report, a deletion. -/
def Other (op : MailOp) : Prop := ∀ c, op.call = some c → ¬ x.Is c.sms

/-! ### Purpose -/

/-- Whichever way the SMS comes first, and whatever comes then, with the SMS itself any number of times in between: it
has one row, and the status is always the same. That holds as long as nobody deletes the row or marks it. -/
def SameEitherWay (contacts : List Contact) (t : SmsTable) : Prop :=
  ∃ status, ∀ first, x.Arrival contacts first → ∀ ops, (∀ op ∈ ops, x.Arrival contacts op ∨ x.Other op) →
    (∀ r ∈ x.rowsOf (first.execSms t), r ∈ (runSms (first.execSms t) ops).rows) →
    (x.rowsOf (runSms (first.execSms t) ops)).map (·.val.status) = [status]

/-- The second arrival finds the row of the first one: by the unique index, or among the candidates. -/
def FoundAgain (t : SmsTable) : Prop :=
  x.time = x.synced ∨
    lastNine x.sender ≠ [] ∧ x.time ≠ 0 ∧
      (near (t.keepLast (maxStoredSms - 1)) x.body x.synced).length < candidateLimit ∧
      (near t x.body x.time).length < candidateLimit

end TwiceSent

/-!
## The list that the web client shows

Nothing in `gafam_sms` says whether a message was received or sent: `getSmsHandler` reads it off the status, which the
reports overwrite.
-/

/-- `direction`. -/
inductive Direction
  | inbound
  | outbound
deriving DecidableEq, Repr

def direction (status : SmsStatus) : Direction :=
  if status = .outbound ∨ status = .sent then .outbound else .inbound

/-- `limit`. -/
def smsLimit (limitStr : GoString) : Nat :=
  match atoi limitStr with
  | some l => if 0 < l ∧ l ≤ 10000 then l.toNat else 1000
  | none => 1000

/-- An entry of the list, without the column `created_at`. -/
structure SmsEntry where
  id : Nat
  sender : GoString
  body : GoString
  timestamp : Int
  status : SmsStatus
  direction : Direction
  codes : List GoString

/-- The entry of a row; `detectSmsCodes` looks for codes in the body of a received message only. -/
def smsEntry (detectSmsCodes : GoString → List GoString) (r : Row Sms) : SmsEntry where
  id := r.id
  sender := r.val.sender
  body := r.val.body
  timestamp := r.val.timestamp
  status := r.val.status
  direction := direction r.val.status
  codes := if direction r.val.status = .inbound then detectSmsCodes r.val.body else []

/-- What the query of `getSmsHandler` may answer: rows of one timestamp come in any order. -/
structure NewestSms (t : SmsTable) (limitStr : GoString) where
  rows : List (Row Sms)
  rest : List (Row Sms)
  perm : (rows ++ rest).Perm t.rows
  sorted : (rows ++ rest).Pairwise fun a b => b.val.timestamp ≤ a.val.timestamp
  limit : rows.length = min (smsLimit limitStr) t.rows.length

/-- `getSmsHandler`. -/
def getSmsHandler (detectSmsCodes : GoString → List GoString) {t : SmsTable} {limitStr : GoString}
    (o : NewestSms t limitStr) : List SmsEntry := o.rows.map (smsEntry detectSmsCodes)

/-- However long it is stored while these operations go on, a row is listed with one direction. -/
def DirectionKept (t : SmsTable) (r : Row Sms) (ops : List MailOp) : Prop :=
  ∀ done, done <+: ops → ∀ r' ∈ (runSms t done).rows, r'.id = r.id →
    ∀ detectSmsCodes, (smsEntry detectSmsCodes r').direction = (smsEntry detectSmsCodes r).direction

/-- A report about the row, while it is stored, says `sent` if the row is listed as an outgoing one, and `failed` if it
is listed as a received one. -/
def ReportsAgree (t : SmsTable) (r : Row Sms) (ops : List MailOp) : Prop :=
  ∀ done outboxID (smsID : Int) sent later, ops = done ++ .report outboxID smsID sent :: later → 0 < smsID → smsID = r.id →
    (∃ r' ∈ (runSms t done).rows, r'.id = r.id) → (sent = true ↔ direction r.val.status = .outbound)

end Gafam.Relay
