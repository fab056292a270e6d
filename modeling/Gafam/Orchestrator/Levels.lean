import Gafam.Lib.Steps
import Gafam.Moksa.Executor

/-!
# Running a board level by level

`executeQuestLevels` takes a snapshot of the board and works it off in rounds. A round scans the
pending quests, in the arbitrary order in which Go ranges over a map: a quest with a failed dependency
is cancelled on the spot, one whose dependencies are all done joins the level. The quests of a level
then run in parallel goroutines, and the next round starts when all of them have ended.

Every step below makes at most one operation on the mission store together with what the goroutine
does to its own variables. What a step reads from outside the store comes with the step.
-/

namespace Gafam.Orchestrator

open Gafam.Go Gafam.Moksa

/-- `maxParallel`. -/
def maxParallel : Nat := 4

/-- `maxRepairs`. -/
def maxRepairs : Nat := 2

/-- `truncateStr`. -/
def truncateStr (s : GoString) (n : Nat) : GoString := if s.length ≤ n then s else s.take n ++ "…"

/-- The arguments of a run. -/
structure Run where
  missionID : GoString
  karakaID : GoString
  approvalMode : Bool

/-- What a step of a worker may read from outside: the clock, the permission table, the parameters
that `interpolateParams` returns, what the tool returns, and the parameters that the language model
proposes in `repairQuestParams`, `none` being any of its errors. -/
structure Host where
  now : Nat
  perm : GoString → GoString → Permission
  interpolated : Params
  tool : Except GoString Json
  repair : Option Params

/-- What a run has done so far. -/
inductive Event
  /-- A tool was started for this quest of the board. -/
  | started (q : Quest)
  | completed (id : GoString)
  | failed (id : GoString)
  | parked (id : GoString)

/-! ## Operations on the store -/

/-- The function of an `UpdateMission` that changes one quest, if it is there. -/
def setQuest (qid : GoString) (f : Quest → Quest) : MissionFn := fun m => (m.updateQuest qid f, none)

/-- `cancelQuest`, without the entry in `failed`. -/
def cancelQuest (r : Run) (now : Nat) (qid reason : GoString) (st : Store) : Store :=
  (updateMission now r.missionID
    (setQuest qid fun q => { q with status := .cancelled, error := reason }) st).2

/-- The update that parks a quest. -/
def parkQuest (r : Run) (now : Nat) (qid : GoString) (st : Store) : Store :=
  (updateMission now r.missionID (setQuest qid fun q => { q with status := .waitingApproval }) st).2

/-! ## The goroutine of one quest -/

/-- Where `runOne` stands. -/
inductive WorkerPc
  /-- Before `sem <- struct{}{}`. -/
  | queued
  | gate
  | interpolate
  | reset
  | claim
  /-- The first half of `RunQuest`. -/
  | run (attempt : Nat)
  /-- The tool runs; the second half of `RunQuest` is to come. -/
  | tool (attempt : Nat)
  | repair (attempt : Nat) (lastErr : GoString)
  | rewardDone
  | rewardFailed (lastErr : GoString)
  | finished
deriving DecidableEq

/-- After a failed attempt. -/
def WorkerPc.observe (attempt : Nat) (lastErr : GoString) : WorkerPc :=
  if attempt = maxRepairs then rewardFailed lastErr else repair attempt lastErr

/-- One step of `runOne` for the quest `q` of the snapshot. -/
def WorkerPc.step (r : Run) (h : Host) (q : Quest) (st : Store) :
    WorkerPc → WorkerPc × Store × Option Event
  | queued => (gate, st, none)
  | gate =>
    match h.perm r.karakaID q.tool with
    | .deny =>
      (finished,
        cancelQuest r h.now q.id ("permission deny: " ++ r.karakaID ++ " cannot use " ++ q.tool) st,
        some (.failed q.id))
    | .ask =>
      if r.approvalMode then (finished, parkQuest r h.now q.id st, some (.parked q.id))
      else (interpolate, st, none)
    | .allow => (interpolate, st, none)
  | interpolate =>
    (if q.status = .failed then reset else claim,
      (updateMission h.now r.missionID
        (setQuest q.id fun qq => { qq with params := h.interpolated }) st).2,
      none)
  | reset =>
    (claim,
      (updateMission h.now r.missionID
        (setQuest q.id fun qq =>
          if qq.status = .failed then { qq with status := .pending, error := [] } else qq) st).2,
      none)
  | claim =>
    match updateMission h.now r.missionID (claimQuest q.id r.karakaID) st with
    | (.error _, st) => (finished, st, some (.failed q.id))
    | (.ok _, st) => (run 0, st, none)
  | run attempt =>
    match updateMission h.now r.missionID (runQuestStart h.perm q.id) st with
    | (.error e, st) => (observe attempt e, st, none)
    | (.ok m, st) =>
      match m.findQuest q.id with
      | some rq => (tool attempt, st, some (.started rq))
      | none => (observe attempt "quest not found after claim", st, none)
  | tool attempt =>
    match updateMission h.now r.missionID (runQuestFinish q.id h.tool) st with
    | (.error e, st) => (observe attempt e, st, none)
    | (.ok m, st) =>
      match m.findQuest q.id with
      | some rq =>
        if rq.status = .done then (rewardDone, st, none)
        else (observe attempt (if rq.error = [] then str "unknown error" else rq.error), st, none)
      | none => (observe attempt "unknown error", st, none)
  | repair attempt lastErr =>
    match h.repair with
    | none => (rewardFailed lastErr, st, none)
    | some params =>
      match updateMission h.now r.missionID
          (setQuest q.id fun qq => { qq with params := params, error := [] }) st with
      | (.error _, st) => (rewardFailed lastErr, st, none)
      | (.ok _, st) => (run (attempt + 1), st, none)
  | rewardDone =>
    (finished,
      (updateMission h.now r.missionID
        (applyReward q.id .done 1 "auto: tool executed" false) st).2,
      some (.completed q.id))
  | rewardFailed lastErr =>
    (finished,
      (updateMission h.now r.missionID
        (applyReward q.id .failed 0 ("auto: " ++ truncateStr lastErr 120) false) st).2,
      some (.failed q.id))
  | finished => (finished, st, none)

/-! ## The level loop -/

/-- What the scan finds out about a quest. -/
inductive Readiness
  | ready
  | blocked
  | doomed
deriving DecidableEq

/-- The loop over `q.DependsOn`: it stops at the first dependency that has failed or is not done. -/
def readiness (done failed : List GoString) : List GoString → Readiness
  | [] => .ready
  | dep :: deps =>
    if dep ∈ failed then .doomed
    else if dep ∉ done then .blocked
    else readiness done failed deps

/-- Where the level loop stands. -/
inductive Phase
  /-- The head of the `for` loop. -/
  | head
  /-- The scan: the quests not visited yet and the level so far. -/
  | scan (todo : List GoString) (level : List Quest)
  /-- Cancelling the rest, which depends on itself. -/
  | drop
  /-- The goroutines of a level. -/
  | level (workers : List (Quest × WorkerPc))
  | returned

/-- The variables of a run. The log is not a variable of the source. -/
structure Levels where
  pending : AList fun _ : GoString => Quest
  done : List GoString
  failed : List GoString
  phase : Phase
  log : List Event

/-- One quest of the board enters the snapshot. A later quest of the same id replaces an earlier
one. -/
def Levels.enter (s : Levels) (q : Quest) : Levels :=
  match q.status with
  | .pending | .failed => { s with pending := s.pending.insert q.id q }
  | .done => { s with done := s.done ++ [q.id] }
  | .cancelled => { s with failed := s.failed ++ [q.id] }
  | _ => s

/-- The snapshot of a board. -/
def Levels.ofBoard (quests : List Quest) : Levels :=
  quests.foldl Levels.enter ⟨∅, [], [], .head, []⟩

/-- The start of `executeQuestLevels`. -/
def Levels.start (r : Run) (st : Store) : Levels :=
  match getMission r.missionID st with
  | none => ⟨∅, [], [], .returned, []⟩
  | some m => .ofBoard m.quests

/-- The entry that a step of a worker makes in `done` or `failed`. -/
def Levels.record (s : Levels) : Option Event → Levels
  | none => s
  | some e =>
    let s := { s with log := s.log ++ [e] }
    match e with
    | .completed id => { s with done := s.done ++ [id] }
    | .failed id => { s with failed := s.failed ++ [id] }
    | .started _ | .parked _ => s

/-- Some quest of the board waits for a human. -/
def hasWaiting (r : Run) (st : Store) : Bool :=
  match getMission r.missionID st with
  | some m => m.quests.any fun q => q.status = .waitingApproval
  | none => false

/-- The workers that hold the semaphore. -/
def active (workers : List (Quest × WorkerPc)) : Nat :=
  workers.countP fun w => w.2 ≠ .queued ∧ w.2 ≠ .finished

/-- A step of a run. -/
inductive Act
  /-- The loop condition and the test of the context. -/
  | head (cancelled : Bool)
  /-- The scan visits a pending quest. -/
  | visit (id : GoString) (now : Nat)
  | endScan
  | drop (id : GoString) (now : Nat)
  | endDrop
  /-- A worker makes a step. -/
  | work (k : Nat) (h : Host)
  /-- `wg.Wait` returns. -/
  | join

/-- The visit of a pending quest. -/
def Levels.visit (r : Run) (now : Nat) (s : Levels) (st : Store) (todo : List GoString)
    (level : List Quest) (q : Quest) : Levels × Store :=
  match readiness s.done s.failed q.dependsOn with
  | .doomed =>
    ({ s with
        pending := s.pending.erase q.id
        failed := s.failed ++ [q.id]
        phase := .scan (todo.erase q.id) level },
      cancelQuest r now q.id "dependency failed" st)
  | .ready => ({ s with phase := .scan (todo.erase q.id) (level ++ [q]) }, st)
  | .blocked => ({ s with phase := .scan (todo.erase q.id) level }, st)

/-- The end of a scan. -/
def Levels.endScan (r : Run) (s : Levels) (st : Store) (level : List Quest) : Levels :=
  if level = [] then
    if hasWaiting r st then { s with phase := .returned } else { s with phase := .drop }
  else
    { s with
      pending := level.foldl (fun p q => p.erase q.id) s.pending
      phase := .level (level.map fun q => (q, .queued)) }

/-- One step of `executeQuestLevels`. -/
def step (r : Run) : Levels × Store → Act → Option (Levels × Store)
  | (s, st), act =>
    match s.phase, act with
    | .head, .head cancelled =>
      if s.pending.keys = [] ∨ cancelled = true then some ({ s with phase := .returned }, st)
      else some ({ s with phase := .scan s.pending.keys [] }, st)
    | .scan todo level, .visit id now =>
      if id ∈ todo then (s.pending.lookup id).map (s.visit r now st todo level) else none
    | .scan [] level, .endScan => some (s.endScan r st level, st)
    | .drop, .drop id now =>
      if id ∈ s.pending then
        some ({ s with pending := s.pending.erase id, failed := s.failed ++ [id] },
          cancelQuest r now id "dependency cycle — unsatisfiable" st)
      else none
    | .drop, .endDrop => if s.pending.keys = [] then some ({ s with phase := .returned }, st) else none
    | .level workers, .work k h =>
      match workers[k]? with
      | none => none
      | some (q, pc) =>
        if pc = .queued ∧ maxParallel ≤ active workers then none
        else
          let (pc', st, e) := pc.step r h q st
          some ({ s.record e with phase := .level (workers.set k (q, pc')) }, st)
    | .level workers, .join =>
      if ∀ w ∈ workers, w.2 = .finished then some ({ s with phase := .head }, st) else none
    | _, _ => none

end Gafam.Orchestrator
