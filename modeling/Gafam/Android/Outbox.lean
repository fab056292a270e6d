import Gafam.Lib.Steps
import Mathlib.Data.List.Sort
import Mathlib.Data.Int.Order.Basic

/-!
# Sending the outbox (`RelayForegroundService.kt`, `SmsSentReceiver.kt`)

The phone polls the rows of `gafam_outbox`, hands each one to `SmsManager`, and reports to the VPC what came of it.
Its memory is lost with its process; the preference `claimed_outbox_ids` is not. The rows of the VPC may vanish at
any time: by the phone's DELETE, by a status that arrives, or by a request of the web client.
-/

namespace Gafam.Android

open Gafam.Lib

/-- A row of the answer to the poll; `sms_id` is 0 where the row has none. -/
structure OutboxRow where
  id : Int
  smsId : Int
  recipient : String
  body : String
deriving DecidableEq

inductive Status
  | sent
  | failed
deriving DecidableEq

/-- The body of `POST /api/auth/sms/status`. -/
structure StatusReport where
  outboxId : Int
  smsId : Int
  status : Status
deriving DecidableEq

/-- The extras of the `PendingIntent` of a sent-report. -/
structure SentIntent where
  outboxId : Int
  smsId : Int
deriving DecidableEq

/-- `Activity.RESULT_OK` -/
def resultOk : Int := -1

/-- Where `pollOutboxOnce` stands: in its loop over the rows that are left, with a row that is claimed, or with one
that `SmsManager` has accepted or has thrown for. -/
inductive Poll
  | idle
  | rows (rest : List OutboxRow)
  | claimed (row : OutboxRow) (rest : List OutboxRow)
  | accepted (row : OutboxRow) (rest : List OutboxRow)
  | thrown (row : OutboxRow) (rest : List OutboxRow)

structure Phone where
  /-- `gafam_outbox`, and the last id that it gave out -/
  outbox : List OutboxRow
  lastId : Int
  /-- the statuses that the VPC has received -/
  received : List StatusReport
  /-- the preference `claimed_outbox_ids` -/
  claimedIds : List Int
  inFlightOutbox : List Int
  reported : List Int
  poll : Poll
  /-- the fallbacks that `handler` will run -/
  fallbacks : List SentIntent
  /-- the threads of `reportStatus`, and the reports that may still reach the VPC -/
  reporting : Nat
  wire : List StatusReport
  /-- the sent-reports that `SmsManager` owes -/
  awaited : List SentIntent
  /-- what has happened so far: ids that `SmsManager` accepted or threw for, whose sent-report was good, or bad and
  before the fallback, and whose fallback ran -/
  acceptedIds : List Int
  thrownIds : List Int
  goodIds : List Int
  badIds : List Int
  fallenIds : List Int

namespace Phone

def start : Phone where
  outbox := []
  lastId := 0
  received := []
  claimedIds := []
  inFlightOutbox := []
  reported := []
  poll := .idle
  fallbacks := []
  reporting := 0
  wire := []
  awaited := []
  acceptedIds := []
  thrownIds := []
  goodIds := []
  badIds := []
  fallenIds := []

/-! ## The claims -/

/-- Drops the lowest ids where there are more than `n`. -/
def dropLowest (n : Nat) (claimed : List Int) : List Int :=
  if n < claimed.length then
    let drop := (claimed.insertionSort (· ≤ ·)).take (claimed.length - n)
    claimed.filter (· ∉ drop)
  else claimed

def claimIn (claimed : List Int) (id : Int) : List Int := dropLowest 200 (claimed.insert id)

def markClaimedInPrefs (s : Phone) (id : Int) : Phone := { s with claimedIds := claimIn s.claimedIds id }

def persistClaimedOutboxIds (s : Phone) : Phone := { s with claimedIds := s.inFlightOutbox }

def releaseOutboxClaim (s : Phone) (id : Int) : Phone :=
  { s with
    inFlightOutbox := s.inFlightOutbox.filter (· ≠ id)
    claimedIds := s.claimedIds.filter (· ≠ id) }

/-! ## The status -/

/-- Starts a thread with a request that may be lost. -/
def reportStatus (s : Phone) (outboxId smsId : Int) (status : Status) : Phone :=
  { s with reporting := s.reporting + 1, wire := s.wire ++ [⟨outboxId, smsId, status⟩] }

/-- `none` where the id is marked already. -/
def markReportedIfNew (s : Phone) (outboxId : Int) : Option Phone :=
  if outboxId ∈ s.reported then none else some { s with reported := outboxId :: s.reported }

def onReceive (s : Phone) (i : SentIntent) (resultCode : Int) : Phone :=
  if i.outboxId = 0 then s
  else match s.markReportedIfNew i.outboxId with
    | none => s
    | some t => t.reportStatus i.outboxId i.smsId (if resultCode = resultOk then .sent else .failed)

def sentFallback (s : Phone) (i : SentIntent) : Phone :=
  match s.markReportedIfNew i.outboxId with
  | none => s
  | some t => t.reportStatus i.outboxId i.smsId .sent

/-- The end of a thread of `reportStatus`. -/
def finishReport (s : Phone) : Phone :=
  { s with reporting := s.reporting - 1, reported := if 500 < s.reported.length then [] else s.reported }

/-! ## The poll -/

def ids (rows : List OutboxRow) : List Int := rows.map (·.id)

/-- Ids whose row has vanished are no longer in flight. -/
def prune (s : Phone) (answer : List OutboxRow) : Phone :=
  if s.inFlightOutbox = [] then s
  else
    let t := { s with inFlightOutbox := s.inFlightOutbox.filter (· ∈ ids answer) }
    if t.inFlightOutbox.length ≠ s.inFlightOutbox.length then t.persistClaimedOutboxIds else t

/-- One row of the loop, up to the call of `sendOutboxSms`. -/
def takeUp (s : Phone) (row : OutboxRow) (rest : List OutboxRow) : Phone :=
  if row.id ∈ s.inFlightOutbox then { s with poll := .rows rest }
  else
    let t := { s with inFlightOutbox := row.id :: s.inFlightOutbox }
    if row.id ∈ t.claimedIds then { t.reportStatus row.id row.smsId .sent with poll := .rows rest }
    else { t.markClaimedInPrefs row.id with poll := .claimed row rest }

def buildSentIntent (row : OutboxRow) : SentIntent := ⟨row.id, row.smsId⟩

/-- One intent for a message of one part, otherwise one for each part. -/
def sentIntents (divideMessage : String → List String) (row : OutboxRow) : List SentIntent :=
  let parts := divideMessage row.body
  if parts.length = 1 then [buildSentIntent row] else parts.map fun _ => buildSentIntent row

/-! ## Steps -/

/-- `poll` is the answer to the poll, the rows in the order of `created_at`. `accept` and `throw` are what
`SmsManager` does, `settle` the eager DELETE and the scheduling of the fallback behind it, and `release` what the
phone does about a throw. `sentReport` is a broadcast of `SmsManager`, `fallback` the end of a delay. A status on the
wire may `arrive` or be lost, and its thread may end, in any order; the VPC may fail to delete the row of a status that
arrives. -/
inductive Event
  | queue (smsId : Int) (recipient body : String)
  | vanish (id : Int)
  | poll (answer : List OutboxRow)
  | take
  | accept
  | throw
  | settle
  | release
  | sentReport (i : SentIntent) (resultCode : Int)
  | fallback (i : SentIntent)
  | arrive (r : StatusReport) (deleted : Bool)
  | lose (r : StatusReport)
  | finish
  | die

/-- Everything in memory is lost. -/
def die (s : Phone) : Phone :=
  { s with inFlightOutbox := [], reported := [], poll := .idle, fallbacks := [], reporting := 0 }

variable (divideMessage : String → List String)

def step (s : Phone) : Event → Option Phone
  | .queue smsId recipient body =>
    some { s with outbox := s.outbox ++ [⟨s.lastId + 1, smsId, recipient, body⟩], lastId := s.lastId + 1 }
  | .vanish id => some { s with outbox := s.outbox.filter (·.id ≠ id) }
  | .poll answer =>
    match s.poll with
    | .idle => if answer.Perm s.outbox then some { s.prune answer with poll := .rows answer } else none
    | _ => none
  | .take =>
    match s.poll with
    | .rows (row :: rest) => some (s.takeUp row rest)
    | .rows [] => some { s with poll := .idle }
    | _ => none
  | .accept =>
    match s.poll with
    | .claimed row rest =>
      some { s with
        awaited := s.awaited ++ sentIntents divideMessage row
        acceptedIds := row.id :: s.acceptedIds
        poll := .accepted row rest }
    | _ => none
  | .throw =>
    match s.poll with
    | .claimed row rest => some { s with thrownIds := row.id :: s.thrownIds, poll := .thrown row rest }
    | _ => none
  | .settle =>
    match s.poll with
    | .accepted row rest => some { s with fallbacks := buildSentIntent row :: s.fallbacks, poll := .rows rest }
    | _ => none
  | .release =>
    match s.poll with
    | .thrown row rest =>
      some { (s.releaseOutboxClaim row.id).reportStatus row.id row.smsId .failed with poll := .rows rest }
    | _ => none
  | .sentReport i resultCode =>
    if i ∈ s.awaited then
      some { s.onReceive i resultCode with
        awaited := s.awaited.erase i
        goodIds := if resultCode = resultOk then i.outboxId :: s.goodIds else s.goodIds
        badIds :=
          if resultCode ≠ resultOk ∧ i.outboxId ∉ s.fallenIds then i.outboxId :: s.badIds else s.badIds }
    else none
  | .fallback i =>
    if i ∈ s.fallbacks then
      some { s.sentFallback i with
        fallbacks := s.fallbacks.erase i
        fallenIds := i.outboxId :: s.fallenIds }
    else none
  | .arrive r deleted =>
    if r ∈ s.wire then
      some { s with
        wire := s.wire.erase r
        received := s.received ++ [r]
        outbox := if deleted then s.outbox.filter (·.id ≠ r.outboxId) else s.outbox }
    else none
  | .lose r => if r ∈ s.wire then some { s with wire := s.wire.erase r } else none
  | .finish => if 0 < s.reporting then some s.finishReport else none
  | .die => some s.die

/-! ## Purpose -/

/-- The claim of a row drops no id whose row was accepted, or is the one to be sent, and may come up again. -/
def Remembers (s : Phone) : Event → Prop
  | .take => ∀ row rest, s.poll = .rows (row :: rest) → row.id ∉ s.inFlightOutbox → row.id ∉ s.claimedIds →
    ∀ id ∈ s.claimedIds.insert row.id, id ∉ claimIn s.claimedIds row.id → id ∈ s.acceptedIds ∨ id = row.id →
      id ∉ ids s.outbox ∧ id ∉ ids rest
  | _ => True

/-- A status of the id has reached the VPC, or may still do so. -/
def Told (s : Phone) (id : Int) : Prop := ∃ r ∈ s.received ++ s.wire, r.outboxId = id

instance (s : Phone) (id : Int) : Decidable (s.Told id) := inferInstanceAs (Decidable (∃ r ∈ _, _))

/-- What the poll takes up has no status yet, and nothing has gone wrong with it; it was not accepted before, unless
the claim says so. Once there is a status, `reported` knows it. Bad sent-reports come before the good ones. -/
def Consistent (s : Phone) : Event → Prop
  | .take => ∀ row rest, s.poll = .rows (row :: rest) → row.id ∉ s.inFlightOutbox →
    ¬ s.Told row.id ∧ row.id ∉ s.thrownIds ∧ row.id ∉ s.badIds ∧
      (row.id ∉ s.claimedIds → row.id ∉ s.acceptedIds)
  | .sentReport i resultCode =>
    (s.Told i.outboxId → i.outboxId ∈ s.reported) ∧
      if resultCode = resultOk then i.outboxId ∉ s.reported → i.outboxId ∉ s.badIds
      else i.outboxId ∉ s.fallenIds → i.outboxId ∉ s.goodIds
  | .fallback i =>
    (s.Told i.outboxId → i.outboxId ∈ s.reported) ∧ (i.outboxId ∉ s.reported → i.outboxId ∉ s.badIds)
  | _ => True

/-- The VPC has at most one status of the id, and not that it was sent where it was not. -/
structure Truthful (s : Phone) (id : Int) : Prop where
  once : (s.received.filter (·.outboxId = id)).length ≤ 1
  honest : id ∈ s.thrownIds ∨ id ∈ s.badIds → ∀ r ∈ s.received, r.outboxId = id → r.status ≠ .sent

end Phone

end Gafam.Android
