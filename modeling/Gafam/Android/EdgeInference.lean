import Gafam.Js.Text
import Gafam.Lib.Steps

/-!
# Inference on the phone (`EdgeInferenceService.kt`, `EdgeClient.kt`)

An executor of one thread runs the jobs of the VPC, and leaves what comes out in volatile fields. The poll
loop, and at the end of each job the executor itself, call `syncOnce`, which takes the report out of the
fields and sends it. Every access to a field is a step, and so is the answer to a request.
-/

namespace Gafam.Android.EdgeInference

open Gafam.Js

/-- The states of `edgeService`. -/
inductive Service
  | idle
  | loading
  | waking
  | awake
  | inferring
  | stopping
  | error
deriving DecidableEq

structure InferReport where
  jobId : JsString
  content : JsString
  error : JsString
  latencyMs : Int
deriving DecidableEq

/-- The companion object, and `EdgeLlmEngine.isLoaded()`. -/
structure Fields where
  edgeService : Service
  lastInferJobId : JsString
  lastInferContent : JsString
  lastInferError : JsString
  lastInferLatencyMs : Int
  inferReported : Bool
  loaded : Bool
deriving DecidableEq

/-- `Char.isWhitespace`. -/
def isWhitespace (u : UInt16) : Bool :=
  let c := u.toNat
  (9 ≤ c && c ≤ 13) || (0x1C ≤ c && c ≤ 0x20) || c == 0xA0 || c == 0x1680 || (0x2000 ≤ c && c ≤ 0x200A) ||
    c == 0x2028 || c == 0x2029 || c == 0x202F || c == 0x205F || c == 0x3000

/-- `isBlank`. -/
def isBlank (s : JsString) : Bool := s.all isWhitespace

/-! ## `syncOnce` -/

/-- Where a call of `syncOnce` stands: the checks of `takeInferReport`, the mark, the fields that are read
for the report, and the request, with the report or without one. -/
inductive Sync
  | started
  | checkJobId
  | checkState
  | checkContent
  | checkError
  | mark
  | readJobId
  | readContent (jobId : JsString)
  | readError (jobId content : JsString)
  | readLatency (jobId content error : JsString)
  | sending (inferReport : Option InferReport)
deriving DecidableEq

/-- The next step of `takeInferReport`. -/
def takeInferReport (f : Fields) : Sync → Option (Fields × Sync)
  | .started => some (f, if f.inferReported then .sending none else .checkJobId)
  | .checkJobId => some (f, if isBlank f.lastInferJobId then .sending none else .checkState)
  | .checkState => some (f, if f.edgeService = .inferring then .sending none else .checkContent)
  | .checkContent => some (f, if isBlank f.lastInferContent then .checkError else .mark)
  | .checkError => some (f, if isBlank f.lastInferError then .sending none else .mark)
  | .mark => some ({ f with inferReported := true }, .readJobId)
  | .readJobId => some (f, .readContent f.lastInferJobId)
  | .readContent jobId => some (f, .readError jobId f.lastInferContent)
  | .readError jobId content => some (f, .readLatency jobId content f.lastInferError)
  | .readLatency jobId content error =>
    some (f, .sending (some ⟨jobId, content, error, f.lastInferLatencyMs⟩))
  | .sending _ => none

/-! ## `runInfer` -/

/-- Where a job stands. -/
inductive Stage
  | setJobId
  | clearContent
  | clearError
  | unreport
  | checkLoaded
  | setLoading
  | load
  | setAwake
  | setInferring
  | complete
  | setContent (answer : JsString)
  | setLatency
  | setError (message : JsString)
  | setErrorLatency
  | setErrorState
  | checkInferring
  | leaveInferring
deriving DecidableEq

/-- What the executor is at. -/
inductive Task
  | idle
  | infer (jobId : JsString) (stage : Stage)
  | onDone (sync : Sync)
deriving DecidableEq

/-- The next step of `runInfer`, where it depends on the fields alone. -/
def runInfer (f : Fields) (latencyMs : Int) (jobId : JsString) : Stage → Option (Fields × Task)
  | .setJobId => some ({ f with lastInferJobId := jobId }, .infer jobId .clearContent)
  | .clearContent => some ({ f with lastInferContent := [] }, .infer jobId .clearError)
  | .clearError => some ({ f with lastInferError := [] }, .infer jobId .unreport)
  | .unreport => some ({ f with inferReported := false }, .infer jobId .checkLoaded)
  | .checkLoaded => some (f, .infer jobId (if f.loaded then .setInferring else .setLoading))
  | .setLoading => some ({ f with edgeService := .loading }, .infer jobId .load)
  | .load => none
  | .setAwake => some ({ f with edgeService := .awake }, .infer jobId .setInferring)
  | .setInferring => some ({ f with edgeService := .inferring }, .infer jobId .complete)
  | .complete => none
  | .setContent answer => some ({ f with lastInferContent := answer }, .infer jobId .setLatency)
  | .setLatency => some ({ f with lastInferLatencyMs := latencyMs }, .infer jobId .checkInferring)
  | .setError message => some ({ f with lastInferError := message }, .infer jobId .setErrorLatency)
  | .setErrorLatency => some ({ f with lastInferLatencyMs := latencyMs }, .infer jobId .setErrorState)
  | .setErrorState => some ({ f with edgeService := .error }, .infer jobId .checkInferring)
  | .checkInferring =>
    some (f, if f.edgeService = .inferring then .infer jobId .leaveInferring else .onDone .started)
  | .leaveInferring =>
    some ({ f with edgeService := if f.loaded then .awake else .idle }, .onDone .started)

/-! ## The phone -/

/-- How a job has ended: its answer, or its error. -/
structure JobResult where
  jobId : JsString
  content : JsString
  error : JsString
deriving DecidableEq

/-- The fields, the executor and the poll loop; and what has happened: the jobs that have ended, the
reports of the successful requests, and the jobs that were followed by a successful request. `late` tells
that the sync of the loop began after the latest job. -/
structure Phone where
  fields : Fields
  executor : Task
  poll : Option Sync
  ended : List JobResult
  reports : List InferReport
  followed : List JobResult
  late : Bool

/-- The two threads that call `syncOnce`. -/
inductive Caller
  | poll
  | executor

/-- `job` takes a job from the queue of the executor, and `work` is its next step; loading and completing
end well or with an exception. `service` is a write of `edgeService` by the main thread or by another
task of the executor. A sync without pairing gives up. -/
inductive PhoneAction
  | job (jobId : JsString)
  | work (latencyMs : Int)
  | loads
  | completes (answer : JsString)
  | throws (message : Option JsString)
  | poll
  | turn (c : Caller)
  | giveUp (c : Caller)
  | response (c : Caller) (isSuccessful : Bool)
  | service (edgeService : Service)
  | engine (loaded : Bool)

/-- The sync of a thread. -/
def Phone.sync (s : Phone) : Caller → Option Sync
  | .poll => s.poll
  | .executor =>
    match s.executor with
    | .onDone sync => some sync
    | _ => none

/-- The sync of a thread goes on, or it is over. -/
def Phone.setSync (s : Phone) (c : Caller) (sync : Option Sync) : Phone :=
  match c with
  | .poll => { s with poll := sync }
  | .executor => { s with executor := (sync.map Task.onDone).getD .idle }

/-- No job is running. -/
def Task.isOver : Task → Bool
  | .infer _ _ => false
  | _ => true

/-- The job has ended with this result. -/
def Phone.endJob (s : Phone) (result : JobResult) (stage : Stage) : Phone :=
  { s with executor := .infer result.jobId stage, ended := s.ended ++ [result] }

/-- A successful request. It follows the latest job if its sync began after that. -/
def Phone.succeed (s : Phone) (c : Caller) (inferReport : Option InferReport) : Phone :=
  let late := match c with
    | .poll => s.late
    | .executor => true
  { s with
    reports := s.reports ++ inferReport.toList
    followed := if late then s.ended else s.followed }

/-- One step. A job has an id of its own, which is not blank. -/
def step (s : Phone) : PhoneAction → Option Phone
  | .job jobId =>
    if s.executor = .idle ∧ isBlank jobId = false ∧ jobId ∉ s.ended.map JobResult.jobId then
      some { s with executor := .infer jobId .setJobId, late := false }
    else none
  | .work latencyMs =>
    match s.executor with
    | .infer jobId stage =>
      (runInfer s.fields latencyMs jobId stage).map fun p => { s with fields := p.1, executor := p.2 }
    | _ => none
  | .loads =>
    match s.executor with
    | .infer jobId .load =>
      some { s with fields := { s.fields with loaded := true }, executor := .infer jobId .setAwake }
    | _ => none
  | .completes answer =>
    match s.executor with
    | .infer jobId .complete => some (s.endJob ⟨jobId, answer, []⟩ (.setContent answer))
    | _ => none
  | .throws message =>
    let error := message.getD (ascii "infer_failed")
    match s.executor with
    | .infer jobId .load => some (s.endJob ⟨jobId, [], error⟩ (.setError error))
    | .infer jobId .complete => some (s.endJob ⟨jobId, [], error⟩ (.setError error))
    | _ => none
  | .poll =>
    match s.poll with
    | none => some { s with poll := some .started, late := s.executor.isOver }
    | some _ => none
  | .turn c => do
    let sync ← s.sync c
    let (fields, sync) ← takeInferReport s.fields sync
    some ({ s with fields := fields }.setSync c (some sync))
  | .giveUp c =>
    match s.sync c with
    | some .started => some (s.setSync c none)
    | _ => none
  | .response c isSuccessful =>
    match s.sync c with
    | some (.sending inferReport) =>
      some ((if isSuccessful then s.succeed c inferReport else s).setSync c none)
    | _ => none
  | .service edgeService =>
    if edgeService = .inferring then none
    else some { s with fields := { s.fields with edgeService := edgeService } }
  | .engine loaded =>
    match s.executor with
    | .idle => some { s with fields := { s.fields with loaded := loaded } }
    | _ => none

/-- The start of the app. -/
def start : Phone :=
  ⟨⟨.idle, [], [], [], 0, true, false⟩, .idle, none, [], [], [], false⟩

/-! ## One report for each job -/

/-- The sync has marked the report as reported, and has not sent it yet. -/
def Sync.carries : Sync → Bool
  | .readJobId => true
  | .readContent _ => true
  | .readError _ _ => true
  | .readLatency _ _ _ => true
  | .sending (some _) => true
  | _ => false

/-- The successful requests with a report on a job. -/
def Phone.reportsOn (s : Phone) (jobId : JsString) : Nat := s.reports.countP fun r => r.jobId = jobId

/-- Every report is that of a job with its result, no job is reported twice, and a job that was followed by
a successful request is reported once no report is under way. -/
structure Reported (s : Phone) : Prop where
  own : ∀ r ∈ s.reports, ⟨r.jobId, r.content, r.error⟩ ∈ s.ended
  once : ∀ j ∈ s.ended, s.reportsOn j.jobId ≤ 1
  followed : (∀ c, ∀ sync ∈ s.sync c, sync.carries = false) → ∀ j ∈ s.followed, s.reportsOn j.jobId = 1

/-- The next job starts only when the latest one was followed by a successful request. -/
def Followed (s : Phone) : PhoneAction → Prop
  | .job _ => s.followed = s.ended
  | _ => True

/-- What the next step of a job writes into the three fields of a report. -/
def Task.writes : Task → Option JsString × Option JsString × Option JsString
  | .infer jobId .setJobId => (some jobId, none, none)
  | .infer _ .clearContent => (none, some [], none)
  | .infer _ (.setContent answer) => (none, some answer, none)
  | .infer _ .clearError => (none, none, some [])
  | .infer _ (.setError message) => (none, none, some message)
  | _ => (none, none, none)

/-- The sync has yet to read this for the report that it has marked. -/
def Sync.needsJobId : Sync → Bool
  | .readJobId => true
  | _ => false

def Sync.needsContent : Sync → Bool
  | .readContent _ => true
  | sync => sync.needsJobId

def Sync.needsError : Sync → Bool
  | .readError _ _ => true
  | sync => sync.needsContent

/-- No answer and no error is blank; a report is marked only while it is there and nobody has marked it; no
job overwrites what the loop has yet to read of a report; and no request with a report fails. -/
def Undisturbed (s : Phone) : PhoneAction → Prop
  | .completes answer => isBlank answer = false
  | .throws message => isBlank (message.getD (ascii "infer_failed")) = false
  | .turn c => s.sync c = some .mark → s.fields.inferReported = false ∧
      ¬ (isBlank s.fields.lastInferContent = true ∧ isBlank s.fields.lastInferError = true)
  | .work _ => ∀ sync ∈ s.poll,
      (sync.needsJobId = true → ∀ jobId ∈ s.executor.writes.1, jobId = s.fields.lastInferJobId) ∧
      (sync.needsContent = true → ∀ content ∈ s.executor.writes.2.1, content = s.fields.lastInferContent) ∧
      (sync.needsError = true → ∀ error ∈ s.executor.writes.2.2, error = s.fields.lastInferError)
  | .response c isSuccessful => isSuccessful = false → s.sync c = some (.sending none)
  | _ => True

end Gafam.Android.EdgeInference
