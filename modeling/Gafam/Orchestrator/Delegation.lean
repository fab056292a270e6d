import Gafam.Lib.Steps
import Gafam.Orchestrator.Thread

/-!
# What a sub-agent answers

`delegateSubAgent` creates a mission for its subtask, plans and runs quests on it, at most twice, and collects the
results from the whole board after each time.
-/

namespace Gafam.Orchestrator

open Gafam.Go Gafam.Moksa Gafam.Lib

/-- The texts that are collected from a quest. -/
def questAnswers (q : Quest) : List GoString :=
  match q.status, q.result with
  | .done, some (.obj fields) =>
    let text (key : GoString) : List GoString :=
      match fields.find? fun p => p.1 = key with
      | some (_, .str s) => [s]
      | _ => []
    text "answer" ++ text "content"
  | _, _ => []

/-- The texts of a board, in its order. -/
def answers (quests : List Quest) : List GoString := quests.flatMap questAnswers

/-- How `delegateSubAgent` comes to an end: with an error, with the texts that it puts together, or because it looks for
the id of a mission that has vanished. -/
inductive DelegateOutcome
  | error (e : GoString)
  | answer (parts : List GoString)
  | crashed

/-- The text that is returned for the texts collected. -/
def answerText (parts : List GoString) : GoString :=
  if parts = [] then "Sub-agent completed but produced no results." else List.intercalate "\n\n" parts

/-- What `delegateSubAgent` returns, if it does. -/
def DelegateOutcome.result : DelegateOutcome → Option (Except GoString GoString)
  | error e => some (.error e)
  | answer parts => some (.ok (answerText parts))
  | crashed => none

/-- The answer of the planner: an error, a text without a plan, or a plan. -/
inductive PlannerReply
  | failed (e : GoString)
  | nothing
  | plan (pq : PlannedQuest) (rest : List PlannedQuest)

/-- A sub-agent at work. -/
structure Delegation where
  thread : Thread
  store : Store
  allResults : List GoString
  outcome : Option DelegateOutcome
  /-- The boards that the collections have read. -/
  boards : List (List Quest)

inductive DelegationAct
  /-- The planner answers. -/
  | reply (r : PlannerReply)
  /-- Any other step of the sub-agent. -/
  | own (act : ThreadAct)
  /-- What a call of another makes of the store. -/
  | other (st : Store)

namespace Delegation

/-- The sub-agent once its mission has been created. -/
def begin (now : Nat) (caller : GoString × GoString) (karakaID instruction : GoString) (st : Store) : Delegation :=
  let (m, st) := createEmptyMission now instruction st
  { thread := ⟨.subAgent caller, m.id, karakaID, 0, .plan⟩
    store := (updateMission now m.id (fun m => ({ m with mode := "subagent" }, none)) st).2
    allResults := []
    outcome := none
    boards := [] }

def mission (s : Delegation) : Option Mission := getMission s.thread.missionID s.store

def finish (s : Delegation) (o : DelegateOutcome) : Delegation :=
  { s with thread := { s.thread with pc := .ended }, outcome := some o }

/-- Planning, at the head of an iteration. Of the quests of the plan those with unknown tools are skipped. -/
def plan (known : GoString → Bool) (s : Delegation) (r : PlannerReply) : Delegation :=
  match s.mission with
  | none => s.finish (.error "mission vanished")
  | some m =>
    if 0 < s.thread.iteration ∧ ¬ replannable m then s.finish (.answer s.allResults)
    else
      match r with
      | .failed e =>
        if s.thread.iteration = 0 then s.finish (.error ("planning: " ++ e)) else s.finish (.answer s.allResults)
      | .nothing => s.finish (.answer s.allResults)
      | .plan pq rest =>
        let todo := (pq :: rest).filter fun pq => known pq.tool
        { s with thread := { s.thread with pc := .add todo todo [] } }

/-- The collection at the end of an iteration. -/
def collect (s : Delegation) : Delegation :=
  let s' :=
    match s.mission with
    | none => s
    | some m => { s with allResults := s.allResults ++ answers m.quests, boards := s.boards ++ [m.quests] }
  if s.thread.iteration + 1 < subAgentMaxIterations then
    if s.mission.isNone then s'.finish .crashed
    else { s' with thread := { s.thread with pc := .plan, iteration := s.thread.iteration + 1 } }
  else s'.finish (.answer s'.allResults)

/-- One step. -/
def step (perm : GoString → GoString → Permission) (known : GoString → Bool) (s : Delegation) :
    DelegationAct → Option Delegation
  | .reply r =>
    match s.thread.pc with
    | .plan => some (s.plan known r)
    | _ => none
  | .own act =>
    match s.thread.pc with
    | .plan => none
    | .observe =>
      match act with
      | .tick _ => some s.collect
      | _ => none
    | _ => (s.thread.step perm false s.store act).map fun r => { s with thread := r.1, store := r.2.1 }
  | .other st => some { s with store := st }

/-! ## Purpose -/

/-- The texts are those of the quests that are done, each of them once and in the order of the board. -/
def Delivers (s : Delegation) (parts : List GoString) : Prop := ∀ m, s.mission = some m → parts = answers m.quests

/-- The others do nothing to the mission. -/
def Alone (s : Delegation) : DelegationAct → Prop
  | .other st => getMission s.thread.missionID st = s.mission
  | _ => True

/-- No collection but the last has found a text. -/
def CollectsOnce (s : Delegation) : Prop := ∀ board ∈ s.boards.dropLast, answers board = []

end Delegation

end Gafam.Orchestrator
