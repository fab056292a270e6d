import Gafam.Lib.Steps
import Gafam.Orchestrator.Thread

/-!
# The research pipeline on its board

`runResearchPipeline` adds seven quests to the board, which get their ids from the length of the board, and reports its
progress on the quests `q1` to `q7`. The calls of others may come between its steps.
-/

namespace Gafam.Orchestrator

open Gafam.Go Gafam.Moksa Gafam.Lib

/-- The pipeline with the places of the quests that it has added. -/
structure Pipeline where
  thread : Thread
  store : Store
  added : List Nat

namespace Pipeline

/-- The start of `runResearchPipeline`. -/
def begin (id : GoString) (st : Store) : Pipeline := ⟨⟨.research, id, "suparna_vpc", 0, .researchOpen⟩, st, []⟩

/-- The board of the pipeline. -/
def quests (s : Pipeline) : Option (List Quest) := (getMission s.thread.missionID s.store).map Mission.quests

end Pipeline

inductive PipelineAct
  /-- The next step of the pipeline. -/
  | own (act : ThreadAct)
  /-- What a call of another makes of the store. -/
  | other (st : Store)

/-- One step. -/
def Pipeline.step (perm : GoString → GoString → Permission) (approval : Bool) (s : Pipeline) :
    PipelineAct → Option Pipeline
  | .own act =>
    (s.thread.step perm approval s.store act).map fun r =>
      let old := (s.quests.getD []).length
      let new := ((getMission r.1.missionID r.2.1).map fun m => m.quests.length).getD 0
      { thread := r.1, store := r.2.1, added := s.added ++ List.range' old (new - old) }
  | .other st => some { s with store := st }

/-- The places of the quests whose status the next step of the pipeline sets. -/
def statusUpdates (pc : ThreadPc) (quests : List Quest) : List Nat :=
  let first (k : Nat) := (researchSteps[k]?.bind fun stage => quests.findIdx? fun q => q.id = stage.1).toList
  match pc with
  | .researchStart k => first k
  | .researchWork k => first k
  | .researchFail _ =>
    (List.range quests.length).filter fun i =>
      quests[i]?.any fun q => q.status = .running ∨ q.status = .claimed
  | _ => []

/-! ## Purpose -/

/-- The step sets the status of quests only that the pipeline has added, and when it marks the mission as done, these
are all done. -/
def OwnQuests (s : Pipeline) : PipelineAct → Prop
  | .own _ =>
    ∀ quests, s.quests = some quests →
      (∀ i ∈ statusUpdates s.thread.pc quests, i ∈ s.added) ∧
        (s.thread.pc = .researchClose → ∀ i ∈ s.added, ∃ q, quests[i]? = some q ∧ q.status = .done)
  | .other _ => True

/-- The board suits the step, `quests` being what was on it before: no quest has the id of a stage that is worked at;
if a stage has failed, no quest was claimed or running; and if all have come to an end, there was no quest. -/
def Suits (quests : List Quest) (s : Pipeline) : PipelineAct → Prop
  | .own _ =>
    match s.thread.pc with
    | .researchStart k => ∀ stage, researchSteps[k]? = some stage → ∀ q ∈ quests, q.id ≠ stage.1
    | .researchWork k => ∀ stage, researchSteps[k]? = some stage → ∀ q ∈ quests, q.id ≠ stage.1
    | .researchFail _ => ∀ q ∈ quests, q.status ≠ .running ∧ q.status ≠ .claimed
    | .researchClose => quests = []
    | _ => True
  | .other _ => True

/-- The others do nothing to the mission. -/
def LeavesAlone (s : Pipeline) : PipelineAct → Prop
  | .own _ => True
  | .other st => getMission s.thread.missionID st = getMission s.thread.missionID s.store

end Gafam.Orchestrator
