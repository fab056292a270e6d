import Gafam.Lib.Steps
import Gafam.Orchestrator.Levels

/-!
# How long a run can go on

`executeQuestLevels` makes its steps while others change the store as they like. What it waits for (a
tool, the model that repairs parameters, the lock) comes with the step, so a step says that it came back.
-/

namespace Gafam.Orchestrator

open Gafam.Go Gafam.Lib Gafam.Moksa

/-- What happens during a run. -/
inductive LoopAct
  /-- A step of the run itself. -/
  | own (act : Act)
  /-- Others leave the store like this. -/
  | others (st : Store)

def LoopAct.isOwn : LoopAct → Bool
  | own _ => true
  | others _ => false

/-- The worker that a step is about. -/
def Levels.workerOf (s : Levels) : Act → Option (Quest × WorkerPc)
  | .work k _ =>
    match s.phase with
    | .level workers => workers[k]?
    | _ => none
  | _ => none

/-- One step. A worker that has ended makes none. -/
def loopStep (r : Run) : Levels × Store → LoopAct → Option (Levels × Store)
  | (s, st), .own act =>
    if (s.workerOf act).map Prod.snd = some .finished then none else step r (s, st) act
  | (s, _), .others st => some (s, st)

/-- The quest that a step attempts, which is the quest that it calls `RunQuest` for. -/
def Levels.attempted (s : Levels) (act : Act) : Option GoString :=
  match s.workerOf act with
  | some (q, .run _) => some q.id
  | _ => none

/-- The attempts so far. -/
def noteAttempt (p : Levels × Store) : LoopAct → List GoString → List GoString
  | .own act, tried => tried ++ (p.1.attempted act).toList
  | .others _, tried => tried

/-- How many steps of its own a run has made. -/
def ownSteps (acts : List LoopAct) : Nat := acts.countP LoopAct.isOwn

/-- The most steps of its own that a run can make over `n` pending quests. -/
def loopBound (n : Nat) : Nat := n * n + 20 * n + 4

/-- The step reads these values from outside. -/
def Act.Reads (cancelled : Bool) (now : Nat) (h : Host) : Act → Prop
  | .head c => c = cancelled
  | .visit _ t => t = now
  | .drop _ t => t = now
  | .work _ h' => h' = h
  | .endScan | .endDrop | .join => True

/-- Whatever the context, the clock, the tools, the permissions and the model answer, the run has a next
step. -/
def GoesForward (r : Run) (p : Levels × Store) : Prop :=
  ∀ cancelled now h, ∃ act p', Act.Reads cancelled now h act ∧ loopStep r p (.own act) = some p'

/-- How many quests are pending. -/
def Levels.size (s : Levels) : Nat := s.pending.keys.length

/-- What is known of a run over the board of `st₀` that has come to `s`, and has tried these quests. -/
structure Ends (r : Run) (st₀ : Store) (acts : List LoopAct) (s : Levels) (st : Store)
    (tried : List GoString) : Prop where
  /-- It makes boundedly many steps of its own. -/
  bounded : ownSteps acts ≤ loopBound (Levels.start r st₀).size
  /-- Until it returns, it has a next step. -/
  forward : s.phase = .returned ∨ GoesForward r (s, st)
  /-- Each round that comes back to the head of the loop leaves fewer quests pending. -/
  rounds : ∀ as bs t st', acts = as ++ bs → runSteps (loopStep r) (.start r st₀, st₀) as = some (t, st') →
    t.phase = .head → s.phase = .head → 0 < ownSteps bs → s.size < t.size
  /-- No quest is attempted more often than `runOne` says. -/
  attempts : ∀ id, tried.count id ≤ maxRepairs + 1

end Gafam.Orchestrator
