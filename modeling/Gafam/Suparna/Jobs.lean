import Gafam.Go.Text
import Gafam.Lib.Threads

/-!
# The analysis of a day

`StartAnalyzeDay` puts a job in a map and leaves the analysis to a goroutine. There is one model container, which an
analysis wakes and stops again, and one lock around this that no analysis waits for. Every section under the lock of
the map, the attempt to take the lock of the analysis, and every call to Docker, to the model or to the disk is a step.

`ρ` is the type of readings; a reading is what the model's output is parsed to. A poll of a job is a section under the
lock of the map and changes nothing. Nobody else starts or stops the container.
-/

namespace Gafam.Suparna

open Gafam.Go Gafam.Lib

variable {ρ : Type}

/-- `jobState`, with its day. -/
structure Job (ρ : Type) where
  day : GoString
  running : Bool
  done : Bool
  error : GoString
  reading : Option ρ

/-- The variables of the package: `jobs` with what its pointers stand for, and the lock of the analysis. `qwenRuns` is
the container, and `stray` says that a call to Docker has failed since the last stop and left it running. -/
structure State (ρ : Type) where
  heap : List (Job ρ)
  jobs : GoString → Option Nat
  analyzeMu : Bool
  qwenRuns : Bool
  stray : Bool

/-- Where `analyzeDaySync` stands under its lock. -/
inductive Stage (ρ : Type)
  | look
  | busy
  | model
  | inspect
  | wake
  | wait
  | complete
  | save (reading : ρ)
  | stop (res : Except GoString ρ)
  | unlock (res : Except GoString ρ)

/-- A caller of `StartAnalyzeDay` before and behind the lock of the map, and the goroutine of a job. -/
inductive Goroutine (ρ : Type)
  | request (day : GoString) (force : Bool)
  | register (day : GoString) (force : Bool)
  | answered (cached : Option ρ) (status : GoString)
  | waiting (job : Nat) (day : GoString) (force : Bool)
  | inside (job : Nat) (day : GoString) (force : Bool) (at' : Stage ρ)
  | report (job : Nat) (day : GoString) (res : Except GoString ρ)
  | ended

/-- What the outside answers. `failed` is a call to Docker that fails and leaves the container running or not. -/
inductive Answer (ρ : Type)
  | ok
  | fail (err : GoString)
  | cached (reading : Option ρ)
  | yes (b : Bool)
  | reading (r : ρ)
  | failed (err : GoString) (runs : Bool)

/-- The start of the relay, with the container as it is found. -/
def boot (qwenRuns : Bool) : Threads (State ρ) (Goroutine ρ) := ⟨⟨[], fun _ => none, false, qwenRuns, qwenRuns⟩, []⟩

/-- The job of a day, if it has one. -/
def State.job? (s : State ρ) (day : GoString) : Option (Job ρ) := (s.jobs day).bind fun j => s.heap[j]?

/-- `&jobState{Running: true, …}` -/
def Job.fresh (day : GoString) : Job ρ := ⟨day, true, false, [], none⟩

def State.newJob (s : State ρ) (day : GoString) : State ρ :=
  { s with
    heap := s.heap ++ [.fresh day]
    jobs := Function.update s.jobs day (some s.heap.length) }

/-- The end of a job. -/
def Job.finish (res : Except GoString ρ) (j : Job ρ) : Job ρ :=
  match res with
  | .error err => { j with running := false, done := true, error := err }
  | .ok r => { j with running := false, done := true, reading := some r }

/-- One step of `analyzeDaySync` under its lock. -/
def analyzeDaySync (s : State ρ) (force : Bool) : Stage ρ → Answer ρ → Option (State ρ × Stage ρ)
  | .look, .cached reading =>
    match force, reading with
    | false, some r => some (s, .unlock (.ok r))
    | _, _ => some (s, .busy)
  | .busy, .yes b =>
    if b then some (s, .unlock (.error "heavy_job_busy: stop scrcpy/remote session before analyzing"))
    else some (s, .model)
  | .model, .yes b =>
    if b then some (s, .inspect)
    else some (s, .unlock (.error "model_missing: download GGUF via vpc-relay/scripts/qwen-install.sh"))
  | .inspect, .ok => some (s, if s.qwenRuns then .wait else .wake)
  | .inspect, .fail err => some (s, .unlock (.error err))
  | .wake, .ok => some ({ s with qwenRuns := true }, .wait)
  | .wake, .failed err runs =>
    some ({ s with qwenRuns := runs, stray := runs }, .unlock (.error ("wake qwen: " ++ err)))
  | .wait, .ok => some (s, .complete)
  | .wait, .fail err => some (s, .stop (.error err))
  | .complete, .reading r => some (s, .save r)
  | .complete, .fail err => some (s, .stop (.error err))
  | .save r, .ok => some (s, .stop (.ok r))
  | .stop res, .ok => some ({ s with qwenRuns := false, stray := false }, .unlock res)
  | .stop res, .failed _ runs => some ({ s with qwenRuns := runs, stray := runs }, .unlock res)
  | _, _ => none

/-- One step. The answer of the disk does not matter to a caller who insists, nor that of a section to anyone. -/
def advance (s : State ρ) : Goroutine ρ → Answer ρ → Option (Moved (State ρ) (Goroutine ρ))
  | .request day force, .cached reading =>
    match force, reading with
    | false, some r => some (s, .answered (some r) "cached", none)
    | _, _ => some (s, .register day force, none)
  | .register day force, .ok =>
    if (s.job? day).any Job.running then some (s, .answered none "running", none)
    else some (s.newJob day, .answered none "started", some (.waiting s.heap.length day force))
  | .waiting job day force, .ok =>
    if s.analyzeMu then some (s, .report job day (.error "analysis_in_progress"), none)
    else some ({ s with analyzeMu := true }, .inside job day force .look, none)
  | .inside job day _ (.unlock res), .ok => some ({ s with analyzeMu := false }, .report job day res, none)
  | .inside job day force st, e =>
    (analyzeDaySync s force st e).map fun m => (m.1, .inside job day force m.2, none)
  | .report _ day res, .ok =>
    match s.jobs day with
    | some j => some ({ s with heap := s.heap.modify j (Job.finish res) }, .ended, none)
    | none => some (s, .ended, none)
  | _, _ => none

/-- A request comes in. -/
def entry : Goroutine ρ → Bool
  | .request _ _ => true
  | _ => false

abbrev step : Threads (State ρ) (Goroutine ρ) → Turn (Goroutine ρ) (Answer ρ) →
    Option (Threads (State ρ) (Goroutine ρ)) :=
  Threads.step entry advance

/-! ## What the locks are for -/

/-- The job that the goroutine works for. -/
def Goroutine.worksFor : Goroutine ρ → Option (Nat × GoString)
  | .waiting job day _ | .inside job day _ _ | .report job day _ => some (job, day)
  | _ => none

/-- The goroutine is under the lock of the analysis. -/
def Goroutine.Inside (p : Goroutine ρ) : Prop := ∃ job day force st, p = .inside job day force st

/-- The goroutine uses the container, and is going to stop it. -/
def Goroutine.Uses (p : Goroutine ρ) : Prop :=
  ∃ job day force st, p = .inside job day force st ∧
    (st = .wait ∨ st = .complete ∨ (∃ r, st = .save r) ∨ ∃ res, st = .stop res)

/-- A job in the map runs, or has ended with a result. -/
def Kept (s : State ρ) : Prop :=
  ∀ day i, s.jobs day = some i →
    s.heap[i]? = some (.fresh day) ∨ ∃ res, s.heap[i]? = some ((Job.fresh day).finish res)

/-- The lock is held by a goroutine under it, and the job that a goroutine works for runs and is in the map. -/
def Owns (s : State ρ) (p : Goroutine ρ) : Prop :=
  (p.Inside → s.analyzeMu = true) ∧
    ∀ i day, p.worksFor = some (i, day) → s.jobs day = some i ∧ s.heap[i]? = some (.fresh day)

/-- Two goroutines are not under the lock together, and work for different days. -/
def Apart (_ : State ρ) (p q : Goroutine ρ) : Prop :=
  ¬(p.Inside ∧ q.Inside) ∧ ∀ i j day, p.worksFor = some (i, day) → q.worksFor ≠ some (j, day)

end Gafam.Suparna
