import Gafam.Orchestrator.System

/-!
# Asking a human first

A mission is under guard from its first launch with `requireApproval` on, and so is every mission that
one of its tool calls delegates to. Under guard, a thread may start a tool with the permission `ask`
only after a human has approved the quest, and parking the quest takes the approval back.

`System` does not keep to this. `Careful` collects what has to be the case in the state before a step
so that this step does.
-/

namespace Gafam.Orchestrator

open Gafam.Go Gafam.Moksa

/-! ## What the log says -/

/-- The missions under guard after one more event. -/
def SysEvent.guards (g : GoString → Bool) : SysEvent → GoString → Bool
  | created id => fun x => if x = id then false else g x
  | launched id requireApproval => fun x => if x = id then requireApproval || g x else g x
  | delegated parent child => fun x => if x = child then g parent else g x
  | _ => g

/-- The mission is under guard. -/
def guards (log : List SysEvent) : GoString → Bool := log.foldl SysEvent.guards fun _ => false

/-- The quests with an approval after one more event. -/
def SysEvent.approvals (a : GoString → GoString → Bool) : SysEvent → GoString → GoString → Bool
  | created id => fun x y => if x = id then false else a x y
  | parked id qid => fun x y => if x = id ∧ y = qid then false else a x y
  | approved id qid => fun x y => if x = id ∧ y = qid then true else a x y
  | _ => a

/-- A human has approved the quest since it was last parked. -/
def approvals (log : List SysEvent) : GoString → GoString → Bool :=
  log.foldl SysEvent.approvals fun _ _ => false

/-- No quest of a mission under guard that needs a human was ever started without one. -/
def AskedFirst (log : List SysEvent) : Prop :=
  ∀ before id qid after, log = before ++ .executed id qid .ask :: after →
    guards before id = true → approvals before id qid = true

/-! ## Steps that keep to it -/

/-- The goroutine is past the gate and can still start the tool. -/
def WorkerPc.pastGate : WorkerPc → Bool
  | queued | gate | rewardDone | rewardFailed _ | finished => false
  | interpolate | reset | claim | run _ | tool _ | repair _ _ => true

/-- The goroutines of a phase. -/
def Phase.workers : Phase → List (Quest × WorkerPc)
  | level workers => workers
  | _ => []

/-- The goroutines of a thread. -/
def Thread.workers (t : Thread) : List (Quest × WorkerPc) :=
  match t.pc with
  | .levels _ s => s.phase.workers
  | _ => []

/-- The goroutine is past the gate with the quest `qid` and a tool that needs a human. -/
def Thread.HoldsAsk (perm : GoString → GoString → Permission) (t : Thread) (qid : GoString) : Prop :=
  ∃ w ∈ t.workers, w.2.pastGate = true ∧ perm t.karakaID w.1.tool = .ask ∧ w.1.id = qid

/-- Whatever needs a human and is past the gate has been approved. -/
def Thread.Cleared (perm : GoString → GoString → Permission) (log : List SysEvent) (t : Thread) :
    Prop :=
  ∀ qid, t.HoldsAsk perm qid → approvals log t.missionID qid = true

/-- No goroutine of the mission is past the gate with a tool that needs a human. -/
def Idle (sys : System) (id : GoString) : Prop :=
  ∀ t ∈ sys.threads, t.missionID = id → ∀ qid, ¬ t.HoldsAsk sys.perm qid

/-- The quest that a tool call starts a sub-agent for does not make it take over a running mission. -/
def DelegatesApart (now : Nat) (sys : System) (q : Quest) : Prop :=
  q.tool = "karaka.delegate" → Idle sys (newMissionID now sys.store).1

/-- The first quest with an id on the board of a mission. -/
def boardFind (sys : System) (id qid : GoString) : Option Quest :=
  (getMission id sys.store).bind fun m => m.findQuest qid

/-- The condition on the goroutine of the quest `q`, at `pc`, for its next step. -/
def WorkerPc.Careful (now : Nat) (sys : System) (t : Thread) (r : Run) (q : Quest) :
    WorkerPc → Prop
  | gate =>
    sys.perm t.karakaID q.tool = .ask →
      -- the gate parks the quest, and nothing runs on the approval this takes back
      (r.approvalMode = true ∧
        ∀ t' ∈ sys.threads, t'.missionID = t.missionID → ¬ t'.HoldsAsk sys.perm q.id) ∨
      -- or lets it pass, and a human has approved it
      (r.approvalMode = false ∧ approvals sys.log t.missionID q.id = true)
  | run _ =>
    ∀ f, boardFind sys t.missionID q.id = some f →
      (sys.perm t.karakaID f.tool = .ask → f.tool = q.tool) ∧ DelegatesApart now sys f
  | _ => True

/-- The condition on a thread of a mission under guard. -/
def Thread.Careful (now : Nat) (sys : System) (t : Thread) : ThreadAct → Prop
  | .level (.work k _) =>
    ∀ r s q pc, t.pc = .levels r s → s.phase.workers[k]? = some (q, pc) → pc.Careful now sys t r q
  | .tick _ =>
    ∀ k step f, t.pc = .researchStart k → researchSteps[k]? = some step →
      boardFind sys t.missionID step.1 = some f → sys.perm t.karakaID f.tool = .ask →
        approvals sys.log t.missionID step.1 = true
  | _ => True

/-- The step starts nothing without a human that needs one. -/
def Careful (sys : System) : SysAct → Prop
  | .thread now k act =>
    ∀ t, sys.threads[k]? = some t → guards sys.log t.missionID = true → t.Careful now sys act
  | .run now req =>
    req.requireApproval = true →
      if req.missionID = [] then Idle sys (newMissionID now sys.store).1
      else ∀ t ∈ sys.threads, t.missionID = req.missionID → t.Cleared sys.perm sys.log
  | .callStart now id qid =>
    guards sys.log id = true → ∀ f, boardFind sys id qid = some f → DelegatesApart now sys f
  | .setPermissions perm =>
    ∀ t ∈ sys.threads, guards sys.log t.missionID = true → t.Cleared perm sys.log
  | _ => True

end Gafam.Orchestrator
