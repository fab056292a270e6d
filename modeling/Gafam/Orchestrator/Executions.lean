import Gafam.Orchestrator.Guard
import Gafam.Orchestrator.Board

/-!
# Tools that run

A tool of a quest runs while `RunHandler` waits for it, while a goroutine of `executeQuestLevels` does,
and in a stage of the research. The status `running` is all that keeps a second one from being started:
`Undisturbed` and `KeepsOver` collect the operations that take it away, or bring a quest back that is
over.
-/

namespace Gafam.Orchestrator

open Gafam.Go Gafam.Moksa

/-- The goroutine waits for the tool. -/
def WorkerPc.executing : WorkerPc → Bool
  | tool _ => true
  | _ => false

/-- How many goroutines of the thread wait for the tool of the quest `x` of the mission `id`. -/
def Thread.executions (id x : GoString) (t : Thread) : Nat :=
  match t.pc with
  | .levels r s =>
    if r.missionID = id then
      s.phase.workers.countP fun w => decide (w.1.id = x) && w.2.executing
    else 0
  | .researchWork k =>
    if t.missionID = id ∧ (researchSteps[k]?.map fun s => s.1) = some x then 1 else 0
  | _ => 0

/-- How many executions of the tool of a quest are in progress. -/
def executions (sys : System) (id x : GoString) : Nat :=
  sys.calls.count (id, x) + (sys.threads.map (Thread.executions id x)).sum

/-- The execution that a step of the thread ends: the mission, the quest, and what the tool has
returned. -/
def Thread.ends (t : Thread) :
    ThreadAct → Option (GoString × GoString × Except GoString (Option Json))
  | .level (.work k h) =>
    match t.pc with
    | .levels r s =>
      match s.phase.workers[k]? with
      | some (q, .tool _) => some (r.missionID, q.id, h.tool.map some)
      | _ => none
    | _ => none
  | .stage _ res =>
    match t.pc with
    | .researchWork k => researchSteps[k]?.map fun s => (t.missionID, s.1, res)
    | _ => none
  | _ => none

/-- The execution that a step of the relay ends. -/
def ends (sys : System) :
    SysAct → Option (GoString × GoString × Except GoString (Option Json))
  | .callFinish _ id x res => some (id, x, res.map some)
  | .thread _ k act => sys.threads[k]?.bind fun t => t.ends act
  | _ => none

/-! ## Quests that run -/

/-- The operation gives a quest another status, although its tool may run. -/
def BoardOp.Disturbs (x : GoString) : BoardOp → Prop
  | reward y verdict _ _ _ => y = x ∧ (verdict = .done ∨ verdict = .failed)
  | cancel y _ => y = x
  | park y => y = x
  | research y status _ _ => y = x ∧ status = .running
  | researchFail _ _ => True
  | fill _ => True
  | _ => False

/-- The operation ends the execution of a quest. -/
def BoardOp.Finishes (x : GoString) : BoardOp → Prop
  | runFinish y _ => y = x
  | research y status _ _ => y = x ∧ status ≠ .running
  | _ => False

/-- The operation leaves the quests alone whose tools run, and a mission that it creates is new. A
stage of the research finds its quest on the board. -/
def Undisturbed (busy : GoString → GoString → Prop) (b : Boards) : StoreOp → Prop
  | .update _ id op =>
    (∀ x, busy id x → ¬ op.Disturbs x) ∧
      ∀ x result err, op = .research x .running result err → ∃ q, b.find id x = some q
  | .create now _ _ =>
    (newMissionID now b.store).1 ∉ b.store.missions ∧ ∀ x, ¬ busy (newMissionID now b.store).1 x
  | _ => True

/-- The status and the result of an execution. -/
def Records (res : Except GoString (Option Json)) (q : Quest) : Prop :=
  match res with
  | .ok v => q.status = .done ∧ q.result = v
  | .error e => q.status = .failed ∧ q.result = none ∧ q.error = e

/-- The latest execution of a quest since the relay has started. -/
inductive Latest
  | none
  | running
  | returned (res : Except GoString (Option Json))

/-- The step is a restart of the relay. -/
def SysAct.isRestart : SysAct → Bool
  | restart => true
  | _ => false

/-- The latest executions after a step. Those of a mission that is gone are forgotten. -/
def noteExecution (sys : System) (act : SysAct) (latest : GoString → GoString → Latest) :
    GoString → GoString → Latest :=
  match sysStep sys act with
  | none => latest
  | some sys' => fun id x =>
    if act.isRestart ∨ id ∉ sys'.store.missions then .none
    else if executions sys id x < executions sys' id x then .running
    else
      match ends sys act with
      | some (i, y, res) => if i = id ∧ y = x then .returned res else latest id x
      | none => latest id x

/-- The relay, with the latest execution of every quest. -/
def runWithLatest (sys : System) (acts : List SysAct) :
    Option (System × (GoString → GoString → Latest)) :=
  Lib.runSteps (Lib.withHistory sysStep noteExecution) (sys, fun _ _ => .none) acts

/-- The result that the tool has returned. -/
def HasResult (res : Except GoString (Option Json)) (q : Quest) : Prop :=
  match res with
  | .ok v => q.result = v
  | .error _ => q.result = none

/-- The quest is as its latest execution makes it: it runs as long as that is in progress, and later it
has its result. -/
def Latest.Shown (sys : System) (id x : GoString) : Latest → Prop
  | none => id ∈ sys.store.missions → executions sys id x = 0
  | running =>
    executions sys id x = 1 ∧ ∃ q, sys.boards.find id x = some q ∧ q.status = .running
  | returned res =>
    executions sys id x = 0 ∧ ∃ q, sys.boards.find id x = some q ∧ HasResult res q

/-- Every quest is as its latest execution makes it. -/
def ResultsLatest (sys : System) (latest : GoString → GoString → Latest) : Prop :=
  ∀ id x, (latest id x).Shown sys id x

/-! ## Quests that are over -/

/-- The quest is cancelled or done. -/
def Over (q : Quest) : Prop := q.status = .cancelled ∨ q.status = .done

/-- The operation gives the quest `x` a status in which its tool can be started, even if it is over. -/
def BoardOp.Revives (x : GoString) : BoardOp → Prop
  | reward y verdict _ _ _ => y = x ∧ verdict = .failed
  | runFinish y (.error _) => y = x
  | park y => y = x
  | research y status _ _ => y = x ∧ status ≠ .done
  | fill _ => True
  | _ => False

/-- The operation leaves the quest `x` of the mission `id` over, and the mission in the store. -/
def KeepsOver (id x : GoString) (b : Boards) : StoreOp → Prop
  | .update _ i op => i = id → ¬ op.Revives x
  | .create now _ _ => (newMissionID now b.store).1 ≠ id
  | .delete i => i ≠ id
  | .reload => False
  | _ => True

/-!
## Status and verdict

The status of a quest and the verdict of its reward are written by different operations. `RunQuest`
writes both when the tool fails, and only the status when it succeeds; `ApplyReward` writes the verdict
always, and the status as far as the verdict asks for it; a stage of the research writes the status
alone. `KeepsVerdicts` collects when an operation leaves the two in agreement.
-/

/-- A quest that is done has no verdict `failed`, and one that has failed has a verdict other than
`done`. -/
def VerdictAgrees (q : Quest) : Prop :=
  (q.status = .done → ∀ r, q.reward = some r → r.verdict ≠ .failed) ∧
    (q.status = .failed → ∃ r, q.reward = some r ∧ r.verdict ≠ .done)

/-! ### In flight -/

/-- A goroutine of the thread has seen the tool of the quest succeed, and its verdict is to come. -/
def Thread.Rewarding (id x : GoString) (t : Thread) : Prop :=
  ∃ r s, t.pc = .levels r s ∧ r.missionID = id ∧ ∃ w ∈ s.phase.workers, w.1.id = x ∧ w.2 = .rewardDone

/-- The same of some thread. -/
def Rewarding (sys : System) (id x : GoString) : Prop := ∃ t ∈ sys.threads, t.Rewarding id x

/-- The tool of the quest runs, or the verdict of `runOne` on it is still to come. -/
def InFlight (sys : System) (id x : GoString) : Prop :=
  0 < executions sys id x ∨ Rewarding sys id x

/-! ### Operations -/

/-- The verdict of the quest fits a success. -/
def NotFailed (q : Quest) : Prop := ∀ r, q.reward = some r → r.verdict ≠ .failed

/-- The verdict of the quest fits a failure. -/
def NotDone (q : Quest) : Prop := ∃ r, q.reward = some r ∧ r.verdict ≠ .done

/-- The operation finds the quests of the mission such that their verdicts will fit. A goroutine rewards
after every success, so it may find any verdict then. -/
def BoardOp.KeepsVerdicts (goroutine : Bool) (m : Mission) : BoardOp → Prop
  | runFinish x (.ok _) => goroutine = true ∨ ∀ q, m.findQuest x = some q → NotFailed q
  | reward x .done _ _ _ => ∀ q, m.findQuest x = some q → q.status ≠ .failed
  | research x .done _ _ => ∀ q, m.findQuest x = some q → NotFailed q
  | research x .failed _ _ => ∀ q, m.findQuest x = some q → NotDone q
  | researchFail _ _ =>
    ∀ q ∈ m.quests, q.status = .running ∨ q.status = .claimed → NotDone q
  | fill quests => ∀ q ∈ quests, VerdictAgrees q
  | _ => True

/-- The step is one of a thread. -/
def SysAct.isThread : SysAct → Bool
  | thread .. => true
  | _ => false

/-- The same for an operation on the store. -/
def KeepsVerdicts (goroutine : Bool) (b : Boards) : StoreOp → Prop
  | .update _ id op => ∀ m, getMission id b.store = some m → op.KeepsVerdicts goroutine m
  | .reload => ∀ id m, b.saved.lookup id = some m → ∀ q ∈ m.quests, VerdictAgrees q
  | _ => True

end Gafam.Orchestrator
