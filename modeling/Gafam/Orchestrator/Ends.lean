import Mathlib.Logic.Relation
import Gafam.Orchestrator.Board
import Gafam.Orchestrator.Proofs.ConfluenceProofs

/-!
# How a run leaves the board

What a board looks like when `executeQuestLevels` returns. A quest whose dependencies are all done has
had its turn. Of the others, one whose first unfinished dependency has failed is cancelled by a scan;
what is left when a scan finds nothing to run stays as it is while some quest of the board waits for a
human, and is cancelled otherwise.
-/

namespace Gafam.Orchestrator

open Gafam.Go Gafam.Moksa Relation

/-! ## Boards -/

/-- The board lists the id. -/
def Known (m : Mission) (x : GoString) : Prop := ∃ q ∈ m.quests, q.id = x

/-- The board has a quest of that id in that status. -/
def Marked (m : Mission) (x : GoString) (status : QuestStatus) : Prop :=
  ∃ q ∈ m.quests, q.id = x ∧ q.status = status

/-- The quest of that id is in none of the statuses that a run starts from or leaves: somebody else has
claimed it or runs it, or it is marked in some other way. -/
def HeldOnBoard (m : Mission) (x : GoString) : Prop :=
  ∃ q ∈ m.quests, q.id = x ∧ q.status ≠ .pending ∧ q.status ≠ .failed ∧ q.status ≠ .done ∧
    q.status ≠ .cancelled ∧ q.status ≠ .waitingApproval

/-- A quest of the first id depends on the second one. -/
def DependsOn (m : Mission) (x d : GoString) : Prop := ∃ q ∈ m.quests, q.id = x ∧ d ∈ q.dependsOn

/-- A quest of the first id that a run takes up depends on the second one. -/
def Needs (m : Mission) (x d : GoString) : Prop :=
  ∃ q ∈ m.quests, q.id = x ∧ Schedulable q ∧ d ∈ q.dependsOn

/-- What the id comes to along the relation contains a cycle or an id that is not on the board. -/
def Unsatisfiable (m : Mission) (R : GoString → GoString → Prop) (x : GoString) : Prop :=
  ∃ y, TransGen R x y ∧ (TransGen R y y ∨ ¬ Known m y)

/-- `ClaimQuest` refuses every quest. -/
def Refuses (r : Run) (m : Mission) : Prop :=
  m.status = .cancelled ∨ m.status = .done ∨ r.karakaID = []

/-- The quest passes the permission gate. -/
def Passes (r : Run) (perm : GoString → Permission) (q : Quest) : Prop :=
  perm q.tool ≠ .deny ∧ ¬ (perm q.tool = .ask ∧ r.approvalMode = true)

/-! ## The statements about one run -/

/-- The board `m` has been left as `m'`: every quest that was pending or failed is done, failed, parked,
cancelled or pending, it is cancelled exactly when its tool is denied, a dependency is failed or
cancelled, or it cannot be satisfied, and it is pending only behind a quest that waits, is claimed or
runs. -/
def CancelsExactly (perm : GoString → Permission) (m m' : Mission) : Prop :=
  ∀ (i : Nat) (q : Quest), m.quests[i]? = some q → Schedulable q → ∃ q', m'.quests[i]? = some q' ∧
    (q'.status = .done ∨ q'.status = .failed ∨ q'.status = .waitingApproval ∨
      q'.status = .cancelled ∨ q'.status = .pending) ∧
    (q'.status = .cancelled ↔ perm q.tool = .deny ∨
      (∃ d ∈ q.dependsOn, Marked m' d .failed ∨ Marked m' d .cancelled) ∨
      Unsatisfiable m (DependsOn m) q.id) ∧
    (q'.status = .pending → ∃ y, TransGen (DependsOn m) q.id y ∧
      (Marked m' y .waitingApproval ∨ Marked m' y .running ∨ Marked m' y .claimed))

/-- The dependencies of the quest are all done. -/
def Satisfied (m' : Mission) (q : Quest) : Prop := ∀ d ∈ q.dependsOn, Marked m' d .done

/-- The quest of that id was cancelled when the run started, or it has had its turn and is not done. -/
def FailedByTurn (m m' : Mission) (x : GoString) : Prop :=
  Marked m x .cancelled ∨
    (∃ q ∈ m.quests, q.id = x ∧ Schedulable q ∧ Satisfied m' q) ∧
      ¬ Marked m' x .done ∧ ¬ Marked m' x .waitingApproval

/-- The quest `q` of the board `m` has been left as `q'` of the board `m'`. -/
structure Ending (r : Run) (perm : GoString → Permission) (m m' : Mission) (q q' : Quest) : Prop where
  status : q'.status = .done ∨ q'.status = .failed ∨ q'.status = .waitingApproval ∨
    q'.status = .cancelled ∨ q'.status = .pending
  /-- These are the turns of a quest. -/
  denied : Satisfied m' q → perm q.tool = .deny → q'.status = .cancelled
  parked : Satisfied m' q → perm q.tool = .ask → r.approvalMode = true →
    q'.status = .waitingApproval
  run : Satisfied m' q → Passes r perm q → ¬ Refuses r m → q'.status = .done ∨ q'.status = .failed
  refused : Satisfied m' q → Passes r perm q → Refuses r m → q'.status = .pending
  /-- Nothing waits: what has had no turn is cancelled. -/
  cancelled_iff : ¬ Refuses r m → ¬ Waiting m' → (∀ d ∈ q.dependsOn, ¬ HeldOnBoard m' d) →
    (q'.status = .cancelled ↔ perm q.tool = .deny ∨
      (∃ d ∈ q.dependsOn, Marked m' d .failed ∨ Marked m' d .cancelled) ∨
      Unsatisfiable m (Needs m) q.id)
  /-- Something waits: only these are cancelled. -/
  cancelled_only : ¬ Refuses r m → Waiting m' → q'.status = .cancelled →
    perm q.tool = .deny ∨ ∃ d ∈ q.dependsOn, Marked m' d .failed ∨ Marked m' d .cancelled
  /-- Whether something waits or not, these are. -/
  cancelled_of : ∀ before b after, q.dependsOn = before ++ b :: after →
    (∀ d ∈ before, Marked m' d .done) → FailedByTurn m m' b → q'.status = .cancelled
  /-- The others are left as they were, and only while something waits or somebody holds one of their
  dependencies. -/
  left : ¬ Satisfied m' q → q'.status ≠ .cancelled →
    q' = q ∧ (Waiting m' ∨ ∃ d ∈ q.dependsOn, HeldOnBoard m' d)
  pending : ¬ Refuses r m → q'.status = .pending →
    ¬ Satisfied m' q ∧ (Waiting m' ∨ ∃ d ∈ q.dependsOn, HeldOnBoard m' d)

end Gafam.Orchestrator
