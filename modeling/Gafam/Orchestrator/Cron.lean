import Gafam.Lib.Steps
import Gafam.Orchestrator.System

/-!
# Cron (`cron.go`)

Every tick goes through the enabled jobs in the order of the query. A job that is due is marked as run and launched,
unless the orchestrator is busy with another mission, which may end at any time.
-/

namespace Gafam.Orchestrator

open Gafam.Go Gafam.Lib

/-- What `runDueCronJobs` reads of a row of `gafam_cron`. -/
structure CronJob where
  id : GoString
  name : GoString
  instruction : GoString
  mode : GoString
  everyMinutes : Int
  enabled : Bool
  notifyPhone : GoString
  lastRun : Int
deriving DecidableEq

namespace CronJob

/-- `int64(j.everyMinutes)*60` -/
def period (j : CronJob) : Int := (j.everyMinutes * 60).bmod (2 ^ 64)

def isDue (now : Int) (j : CronJob) : Bool := 0 < j.everyMinutes && j.period ≤ now - j.lastRun

end CronJob

/-- `gafam_cron`, whose primary key is the id. -/
structure CronTable where
  jobs : List CronJob
  ids : (jobs.map (·.id)).Nodup

namespace CronTable

/-- The rows with `enabled = 1`. -/
def enabled (t : CronTable) : List CronJob := t.jobs.filter (·.enabled)

def mark (id : GoString) (now : Int) (j : CronJob) : CronJob := if j.id = id then { j with lastRun := now } else j

theorem mark_id (id : GoString) (now : Int) (j : CronJob) : (mark id now j).id = j.id := by
  unfold mark
  split_ifs <;> rfl

/-- `UPDATE gafam_cron SET last_run = ? WHERE id = ?` -/
def setLastRun (t : CronTable) (id : GoString) (now : Int) : CronTable where
  jobs := t.jobs.map (mark id now)
  ids := by
    have hids : (fun j : CronJob => j.id) ∘ mark id now = fun j => j.id := funext (mark_id id now)
    rw [List.map_map, hids]
    exact t.ids

end CronTable

structure Cron where
  table : CronTable
  /-- the time of the tick and the jobs that `runDueCronJobs` has still to go through -/
  loop : Option (Int × List CronJob)
  /-- `orchestratorMu` is locked -/
  busy : Bool
  /-- what has happened so far -/
  ticks : List Int
  launched : List CronJob

/-- `next` goes on in the loop by one job, `finish` is the end of a mission. -/
inductive CronEvent
  | tick (now : Int)
  | next
  | finish

namespace Cron

def start (table : CronTable) : Cron := ⟨table, none, false, [], []⟩

/-- One job of the loop. A mission that is refused is deleted again, but the job stays marked. -/
def fire (s : Cron) (now : Int) (j : CronJob) : Cron :=
  if j.isDue now then
    let t := { s with table := s.table.setLastRun j.id now }
    if t.busy then t else { t with busy := true, launched := t.launched ++ [j] }
  else s

def step (s : Cron) : CronEvent → Option Cron
  | .tick now =>
    match s.loop with
    | none => some { s with loop := some (now, s.table.enabled), ticks := s.ticks ++ [now] }
    | some _ => none
  | .next =>
    match s.loop with
    | some (now, j :: rest) => some { s.fire now j with loop := some (now, rest) }
    | some (_, []) => some { s with loop := none }
    | none => none
  | .finish => if s.busy then some { s with busy := false } else none

/-! ## Purpose -/

/-- No mission is running at a tick at which a job is due. -/
def Timely (s : Cron) : CronEvent → Prop
  | .tick now => (∃ j ∈ s.table.enabled, j.isDue now) → s.busy = false
  | _ => True

/-- Every enabled job is launched in every run over these ticks whose missions end in time. -/
def Serves (table : CronTable) (ticks : List Int) : Prop :=
  ∀ es s, runSteps step (start table) es = some s → s.ticks = ticks → s.loop = none →
    StepsMeet step Timely (start table) es → ∀ j ∈ table.enabled, ∃ m ∈ s.launched, m.id = j.id

end Cron

namespace CronJob

/-- The job after these ticks: it is marked at every one at which its period is over. -/
def after (j : CronJob) (ticks : List Int) : CronJob :=
  ticks.foldl (fun j now => if j.isDue now then { j with lastRun := now } else j) j

/-- Of these jobs, this one is the first to be due at the tick behind `before`. -/
def FirstDue (jobs : List CronJob) (before : List Int) (now : Int) (j : CronJob) : Prop :=
  ∃ earlier later, jobs = earlier ++ j :: later ∧ (j.after before).isDue now ∧
    ∀ i ∈ earlier, ¬ (i.after before).isDue now

end CronJob

end Gafam.Orchestrator
