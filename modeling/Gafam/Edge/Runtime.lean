import Gafam.Go.Text
import Gafam.Lib.Steps
import Mathlib.Logic.Function.Basic

/-!
# Edge inference

A request for inference queues a job in the one slot that the phone polls, registers a channel under the
id of the job, and then waits for a result on the channel that it finds there. Wake and stop requests write
to the same slot. Every function that takes the lock of the runtime is one step, and so are the look-up of
the channel, the end of the wait and the removal of the registration in `WaitInferResult`. `QueueWake` reads
the report in the same step.

The layout of the time in an id is given.
-/

namespace Gafam.Edge

open Gafam.Go Gafam.Lib

/-- `ApkReport`; the time is in nanoseconds, `none` before the first report. -/
structure ApkReport where
  edgeService : GoString
  ramRequestMb : Int
  ramReservedMb : Int
  edgeRamCapMb : Int
  deviceRamTotalMb : Int
  deviceRamAvailMb : Int
  edgeRamMaxDeliverableMb : Int
  modelOnDevice : Bool
  message : GoString
  updatedAt : Option Nat

/-- `SyncRequest`. -/
structure SyncRequest where
  edgeService : GoString
  ramRequestMb : Int
  ramReservedMb : Int
  edgeRamCapMb : Int
  deviceRamTotalMb : Int
  deviceRamAvailMb : Int
  edgeRamMaxDeliverableMb : Int
  modelOnDevice : Bool
  message : GoString
  inferJobID : GoString
  inferContent : GoString
  inferError : GoString
  inferLatencyMs : Int
  ramBudgetMb : Int

/-- What a phone that knows nothing else reports. -/
def SyncRequest.zero : SyncRequest := ⟨[], 0, 0, 0, 0, 0, 0, false, [], [], [], [], 0, 0⟩

inductive Command
  | none
  | wake
  | stop
  | infer

/-- `SyncResponse`. -/
structure SyncResponse where
  command : Command
  ramRequestMb : Int
  jobID : GoString
  prompt : GoString

structure InferResult where
  jobID : GoString
  content : GoString
  error : GoString
  latencyMs : Int

/-- Where the handler of a job is: before the look-up of its channel, waiting on a channel, before the
removal of its registration with a result or without one, and at the end. -/
inductive Stage
  | queued
  | waiting (channel : Nat)
  | received (res : InferResult)
  | timedOut
  | done (res : InferResult) (ok : Bool)

/-- A job with its channel, which holds one result at most. `answer` is what was posted for it. -/
structure Job where
  id : GoString
  prompt : GoString
  channel : Option InferResult
  stage : Stage
  answer : Option InferResult

/-- The variables of the package. A channel is known by the place of its job. -/
structure Runtime where
  apkReport : ApkReport
  pendingCommand : Command
  pendingRamRequest : Int
  pendingJobID : GoString
  pendingPrompt : GoString
  inferWaiters : GoString → Option Nat
  jobs : List Job

/-- The start of the relay. -/
def boot : Runtime where
  apkReport := ⟨[], 0, 0, 0, 0, 0, 0, false, [], none⟩
  pendingCommand := .none
  pendingRamRequest := 0
  pendingJobID := []
  pendingPrompt := []
  inferWaiters := fun _ => none
  jobs := []

/-! ## Ids -/

/-- `randomHex` at a time. -/
def randomHex : Nat → Nat → Nat → GoString
  | 0, _, _ => []
  | n + 1, i, now =>
    (str "0123456789abcdef").getD ((now + i * 17) % 16) 0 :: randomHex n (i + 1) (now >>> 1)

/-- `newJobID`, which reads the clock twice. -/
def newJobID (layout : Nat → GoString) (t t' : Nat) : GoString :=
  layout (t / 10 ^ 9) ++ str "-" ++ randomHex 4 0 t'

/-! ## Requests of the web -/

/-- `HubSnapshot`, as far as it decides. -/
structure HubSnapshot where
  apkRelayOnline : Bool
  scrcpyBlocking : Bool

structure InferRequest where
  prompt : GoString
  tier : GoString

/-- `resolveTier`. -/
def resolveTier (reqTier : GoString) (snap : HubSnapshot) : GoString :=
  let t := toLower (trimSpace reqTier)
  if t = "light" ∨ t = "deep" then t
  else if snap.apkRelayOnline && !snap.scrcpyBlocking then "deep"
  else "light"

/-- The prompt that `InferHandler` queues, if it queues one. -/
def queuedPrompt (req : InferRequest) (snap : HubSnapshot) : Option GoString :=
  let prompt := trimSpace req.prompt
  if prompt = [] then none
  else if prompt.length > 2000 then none
  else if snap.scrcpyBlocking then none
  else if resolveTier req.tier snap = "deep" then (if snap.apkRelayOnline then some prompt else none)
  else none

/-- A report is stale after 90 seconds. -/
def apkReportFresh (s : Runtime) (now : Nat) : Bool :=
  match s.apkReport.updatedAt with
  | none => false
  | some t => now - t ≤ 90 * 10 ^ 9

/-- `clampRequestToPhone`. -/
def clampRequestToPhone (s : Runtime) (now : Nat) (requested : Int) : Int × Bool :=
  if !apkReportFresh s now || s.apkReport.edgeRamMaxDeliverableMb ≤ 0 then
    (min (max requested 512) 4096, true)
  else
    let requested := max requested 512
    if requested > s.apkReport.edgeRamMaxDeliverableMb then (s.apkReport.edgeRamMaxDeliverableMb, false)
    else (requested, true)

/-- `QueueWake`. -/
def queueWake (s : Runtime) (now : Nat) (ramRequestMb : Int) : Runtime :=
  { s with
    pendingCommand := .wake
    pendingRamRequest := (clampRequestToPhone s now ramRequestMb).1
    pendingJobID := []
    pendingPrompt := [] }

/-- `QueueStop`. -/
def queueStop (s : Runtime) : Runtime :=
  { s with pendingCommand := .stop, pendingJobID := [], pendingPrompt := [] }

/-- `QueueInfer`. -/
def queueInfer (s : Runtime) (jobID prompt : GoString) : Runtime :=
  { s with
    pendingCommand := .infer
    pendingJobID := jobID
    pendingPrompt := prompt
    pendingRamRequest := 0
    inferWaiters := Function.update s.inferWaiters jobID (some s.jobs.length)
    jobs := s.jobs ++ [⟨jobID, prompt, none, .queued, none⟩] }

/-! ## The phone -/

/-- The report of a request. -/
def SyncRequest.report (req : SyncRequest) (now : Nat) : ApkReport where
  edgeService := req.edgeService
  ramRequestMb := if req.ramRequestMb = 0 then req.ramBudgetMb else req.ramRequestMb
  ramReservedMb := req.ramReservedMb
  edgeRamCapMb := req.edgeRamCapMb
  deviceRamTotalMb := req.deviceRamTotalMb
  deviceRamAvailMb := req.deviceRamAvailMb
  edgeRamMaxDeliverableMb := req.edgeRamMaxDeliverableMb
  modelOnDevice := req.modelOnDevice
  message := req.message
  updatedAt := some now

/-- The result in a request. -/
def SyncRequest.result (req : SyncRequest) : InferResult :=
  ⟨req.inferJobID, req.inferContent, req.inferError, req.inferLatencyMs⟩

/-- The registration of an id is removed. -/
def Runtime.remove (s : Runtime) (id : GoString) : Runtime :=
  { s with inferWaiters := Function.update s.inferWaiters id none }

/-- A job changes. -/
def Runtime.setJob (s : Runtime) (k : Nat) (f : Job → Job) : Runtime := { s with jobs := s.jobs.modify k f }

/-- A result comes into the channel. -/
def Job.post (res : InferResult) (a : Job) : Job := { a with channel := some res, answer := some res }

/-- The handler goes on. -/
def Job.goTo (stage : Stage) (a : Job) : Job := { a with stage := stage }

/-- The result is taken out of the channel. -/
def Job.drain (a : Job) : Job := { a with channel := none }

/-- `UpdateApkReport`. A channel is sent to once, so that the send does not block. -/
def updateApkReport (s : Runtime) (now : Nat) (req : SyncRequest) : Runtime :=
  let s := { s with apkReport := req.report now }
  if req.inferJobID = [] then s
  else
    match s.inferWaiters req.inferJobID with
    | some ch => (s.setJob ch (Job.post req.result)).remove req.inferJobID
    | none => s

/-- `TakeSyncResponse`. -/
def takeSyncResponse (s : Runtime) : SyncResponse × Runtime :=
  let s' : Runtime := { s with
    pendingCommand := .none
    pendingRamRequest := 0
    pendingJobID := []
    pendingPrompt := [] }
  match s.pendingCommand with
  | .none => (⟨.none, 0, [], []⟩, s')
  | .wake => (⟨.wake, s.pendingRamRequest, [], []⟩, s')
  | .stop => (⟨.stop, 0, [], []⟩, s')
  | .infer => (⟨.infer, 0, s.pendingJobID, s.pendingPrompt⟩, s')

/-! ## Waiting -/

/-- The result at the end of the wait. -/
def timeoutResult (jobID : GoString) : InferResult :=
  ⟨jobID, [], "infer_timeout: APK did not respond within 180s", 0⟩

/-- The look-up at the start of `WaitInferResult`. -/
def lookUp (s : Runtime) (k : Nat) : Option Runtime :=
  match s.jobs[k]? with
  | some ⟨id, _, _, .queued, _⟩ =>
    match s.inferWaiters id with
    | some ch => some (s.setJob k (Job.goTo (.waiting ch)))
    | none => some (s.setJob k (Job.goTo (.done ⟨[], [], [], 0⟩ false)))
  | _ => none

/-- A result comes out of the channel. -/
def receive (s : Runtime) (k : Nat) : Option Runtime :=
  match s.jobs[k]? with
  | some ⟨_, _, _, .waiting ch, _⟩ =>
    match s.jobs[ch]?.bind Job.channel with
    | some res => some ((s.setJob ch Job.drain).setJob k (Job.goTo (.received res)))
    | none => none
  | _ => none

/-- The time is over. -/
def timeOut (s : Runtime) (k : Nat) : Option Runtime :=
  match s.jobs[k]? with
  | some ⟨_, _, _, .waiting _, _⟩ => some (s.setJob k (Job.goTo .timedOut))
  | _ => none

/-- The registration is removed, and `WaitInferResult` returns. -/
def finish (s : Runtime) (k : Nat) : Option Runtime :=
  match s.jobs[k]? with
  | some ⟨id, _, _, .received res, _⟩ => some ((s.setJob k (Job.goTo (.done res true))).remove id)
  | some ⟨id, _, _, .timedOut, _⟩ =>
    some ((s.setJob k (Job.goTo (.done (timeoutResult id) true))).remove id)
  | _ => none

inductive Action
  | wake (now : Nat) (ramRequestMb : Int)
  | stop
  | infer (req : InferRequest) (snap : HubSnapshot) (t t' : Nat)
  | sync (now : Nat) (req : SyncRequest)
  | poll
  | lookUp (k : Nat)
  | receive (k : Nat)
  | timeOut (k : Nat)
  | finish (k : Nat)

def step (layout : Nat → GoString) (s : Runtime) : Action → Option Runtime
  | .wake now ramRequestMb => some (queueWake s now ramRequestMb)
  | .stop => some (queueStop s)
  | .infer req snap t t' =>
    match queuedPrompt req snap with
    | some prompt => some (queueInfer s (newJobID layout t t') prompt)
    | none => some s
  | .sync now req => some (updateApkReport s now req)
  | .poll => some (takeSyncResponse s).2
  | .lookUp k => lookUp s k
  | .receive k => receive s k
  | .timeOut k => timeOut s k
  | .finish k => finish s k

/-! ## What the hand-off is for -/

/-- The handler of the job has not returned. -/
def Job.Live (a : Job) : Prop := ∀ res ok, a.stage ≠ .done res ok

/-- The steps of the handler of a job. -/
def Action.Handles (k : Nat) (act : Action) : Prop :=
  act = .lookUp k ∨ act = .receive k ∨ act = .timeOut k ∨ act = .finish k

/-- Live jobs have ids of their own; a handler that has returned has the result of its job or a time-out of
it; and one that has not can go on by itself to such an end, with the result that has been posted for its
job, unless it has timed out. -/
structure HandedOver (layout : Nat → GoString) (s : Runtime) : Prop where
  distinct : ∀ (i j : Nat) (a b : Job), s.jobs[i]? = some a → s.jobs[j]? = some b → a.Live → b.Live →
    a.id = b.id → i = j
  outcome : ∀ (i : Nat) (a : Job) res ok, s.jobs[i]? = some a → a.stage = .done res ok →
    ok = true ∧ res.jobID = a.id ∧ (res = timeoutResult a.id ∨ a.answer = some res)
  progress : ∀ (i : Nat) (a : Job), s.jobs[i]? = some a → a.Live →
    ∃ acts s' b res, (∀ act ∈ acts, Action.Handles i act) ∧
      runSteps (step layout) s acts = some s' ∧ s'.jobs[i]? = some b ∧ b.stage = .done res true ∧
      res.jobID = a.id ∧ ∀ r, a.answer = some r → a.stage ≠ .timedOut → res = r

/-- The id of a new job is not that of a live one, and no result is posted for a job whose handler has not
looked up its channel. -/
def Quiet (layout : Nat → GoString) (s : Runtime) : Action → Prop
  | .infer req snap t t' =>
    (queuedPrompt req snap).isSome → ∀ a ∈ s.jobs, a.Live → a.id ≠ newJobID layout t t'
  | .sync _ req => ∀ a ∈ s.jobs, a.stage = Stage.queued → a.id ≠ req.inferJobID
  | _ => True

end Gafam.Edge
