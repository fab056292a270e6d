import Gafam.Orchestrator.Ends
import Gafam.Orchestrator.Thread
import Gafam.Orchestrator.System

/-!
# Launching a board again

A launch by the id of a mission works on the board that is there. A pass of `runOrchestration` plans if
the board is empty or the pass is not the first one, and then works the board off. The thread is watched
by itself; whatever else happens meanwhile does not touch its mission.
-/

namespace Gafam.Orchestrator

open Gafam.Go Gafam.Moksa

/-! ## What a pass does to the board -/

/-- The ids that `NextQuestID` gives to `k` quests behind `n` others. -/
def nextIDs (n k : Nat) : List GoString := (List.range k).map fun i => str "q" ++ itoa (n + i + 1 : Nat)

/-- The quest that `AddQuest` makes of a planned one, with its dependencies among the given ids. -/
def questOfPlan (karakaID : GoString) (ids : List GoString) (p : PlannedQuest × GoString) : Quest where
  id := p.2
  title := p.1.title
  organHint := karakaID
  tool := p.1.tool
  params := some (p.1.params.getD [])
  dependsOn := p.1.dependsOn.filterMap fun d => ids[d - 1]?
  status := .pending
  claim := []
  eta := 30
  result := none
  error := []
  reward := none

/-- The board with the planned quests behind the others. -/
def addPlan (karakaID : GoString) (plan : List PlannedQuest) (quests : List Quest) : List Quest :=
  let ids := nextIDs quests.length plan.length
  quests ++ (plan.zip ids).map (questOfPlan karakaID ids)

/-- The board that a pass works off, once the planner has answered. -/
def boardOfPass (t : Thread) (reply : Option (List PlannedQuest)) (quests : List Quest) : List Quest :=
  if quests = [] ∨ 0 < t.iteration then addPlan t.karakaID (reply.getD []) quests else quests

/-- A tool was started for the quest of that id. -/
def Executed (log : List Event) (x : GoString) : Prop := ∃ f, .started f ∈ log ∧ f.id = x

/-- What a pass with these events leaves of the quest `q`: the board is `m'` now, and the quest `q'`. -/
structure Reran (perm : GoString → Permission) (approval : Bool) (m' : Mission) (log : List Event)
    (q q' : Quest) : Prop where
  executed : Schedulable q → Satisfied m' q → perm q.tool = .allow → q.tool ≠ [] →
    Executed log q.id
  /-- What has not been executed is as it was, cancelled, parked, or there is nothing to execute. -/
  kept : ¬ Executed log q.id → q' = q ∨
    Schedulable q ∧
      (q'.status = .cancelled ∧ (perm q.tool = .deny ∨ ¬ Satisfied m' q) ∨
        q'.status = .waitingApproval ∧ perm q.tool = .ask ∧ approval = true ∨
        q.tool = [])

/-- What one would expect of a pass: the board it works off is `m`, and it leaves `m'`. -/
structure RerunsAll (perm : GoString → Permission) (plan : List PlannedQuest) (m m' : Mission)
    (log : List Event) : Prop where
  added : ∀ pq ∈ plan, ∃ q ∈ m.quests, q.title = pq.title ∧ q.tool = pq.tool
  executed : ∀ q ∈ m.quests, Schedulable q → Satisfied m' q → perm q.tool = .allow →
    Executed log q.id
  kept : ∀ q ∈ m.quests, ¬ Executed log q.id →
    ∃ q' ∈ m'.quests, q'.id = q.id ∧ q'.status = q.status ∧ q'.error = q.error

/-- The board takes new quests and claims, its ids are distinct, and those to come are not on it. -/
structure Relaunchable (m : Mission) : Prop where
  status : m.status ≠ .cancelled
  /-- An empty board is planned, which makes the mission active. -/
  notDone : m.status = .done → m.quests = []
  distinct : IdsDistinct m.quests
  fresh : ∀ k, m.quests.length < k → str "q" ++ itoa (k : Nat) ∉ m.quests.map Quest.id

/-! ## The thread by itself -/

/-- A thread, the store, and what the thread has reported. -/
structure Pass where
  thread : Thread
  store : Store
  log : List Event

inductive PassAct
  | own (act : ThreadAct)
  /-- Somebody else changes the store. -/
  | others (st : Store)

/-- A step of the thread or of somebody else. -/
def passStep (perm : GoString → GoString → Permission) (approval : Bool) (w : Pass) :
    PassAct → Option Pass
  | .own act =>
    (w.thread.step perm approval w.store act).map fun p => ⟨p.1, p.2.1, w.log ++ p.2.2⟩
  | .others st => some { w with store := st }

/-- The mission is left alone, the time of the run is not over, and plans are what `planQuests` returns,
`none` being an error of the language model. -/
def ByItself (known : GoString → Bool) (maxQuests : Nat) (w : Pass) : PassAct → Prop
  | .own (.reply reply) =>
    ∃ answer : Option (List AnsweredQuest), reply = answer.bind (planQuests known maxQuests)
  | .own (.level (.head cancelled)) => cancelled = false
  | .own _ => True
  | .others st => getMission w.thread.missionID st = getMission w.thread.missionID w.store

/-!
## References between quests

The parameters of a quest may quote the result of another one: two braces, the id of the quest, a dot, and
a path into the result. `autoWireDeps` takes the number for an index into the plan, and `interpolateParams`
takes the id for one on the board.
-/

/-! ### `interpolateParams` -/

/-- `\w`. -/
def isWordByte (c : UInt8) : Bool :=
  isDigit c || (0x41 ≤ c && c ≤ 0x5A) || (0x61 ≤ c && c ≤ 0x7A) || c == 0x5F

/-- What follows `result` in a reference: fields, each behind a dot, and two closing braces. There are no
more fields than bytes. -/
def resultFields : Nat → GoString → Option (List GoString × GoString)
  | _, 0x7D :: 0x7D :: rest => some ([], rest)
  | n + 1, 0x2E :: s =>
    let word := s.takeWhile isWordByte
    if word = [] then none
    else (resultFields n (s.dropWhile isWordByte)).map fun r => (word :: r.1, r.2)
  | _, _ => none

/-- A match of the expression of `interpolateParams` at the start of a text: the id, the fields, and the
text behind it. -/
def questRef : GoString → Option (GoString × List GoString × GoString)
  | 0x7B :: 0x7B :: 0x71 :: s =>
    let digits := s.takeWhile isDigit
    let rest := s.dropWhile isDigit
    if digits = [] ∨ !hasPrefix rest ".result" then none
    else (resultFields rest.length (rest.drop 7)).map fun r => (0x71 :: digits, r)
  | _ => none

/-- `results[qid]`: of several quests with this id the last one counts. -/
def questResult (quests : List Quest) (qid : GoString) : Option Json :=
  ((quests.filter fun q => q.id = qid ∧ q.status = .done ∧ q.result.isSome).getLast?).bind Quest.result

/-- The value at the end of a path, an absent member being `nil`; `none` if the path leads through something
that is no object. -/
def walkFields : Json → List GoString → Option Json
  | v, [] => some v
  | .obj l, f :: fields => walkFields (((l.find? fun p => p.1 = f).map Prod.snd).getD .null) fields
  | _, _ :: _ => none

/-- The text that takes the place of a reference, or `none` if it stays. -/
def quotedResult (marshal : Json → GoString) (quests : List Quest) (qid : GoString)
    (fields : List GoString) : Option GoString :=
  match questResult quests qid with
  | some (.str s) => if fields = [] then some s else none
  | some (.obj l) =>
    (walkFields (.obj l) fields).map fun v =>
      match fields, v with
      | _ :: _, .str s => s
      | _, v => marshal v
  | _ => none

/-- `re.ReplaceAllStringFunc`, on a text of at most `n` bytes. -/
def interpolateText (marshal : Json → GoString) (quests : List Quest) : Nat → GoString → GoString
  | 0, s => s
  | _, [] => []
  | n + 1, c :: s =>
    match questRef (c :: s) with
    | some (qid, fields, rest) =>
      (quotedResult marshal quests qid fields).getD ((c :: s).take (s.length + 1 - rest.length)) ++
        interpolateText marshal quests n rest
    | none => c :: interpolateText marshal quests n s

/-- `interpolateParams`; `marshal` is `json.Marshal`. -/
def interpolateParams (marshal : Json → GoString) (params : Params) (quests : List Quest) : Params :=
  params.map fun l => l.map fun p =>
    (p.1, match p.2 with
      | .str s => .str (interpolateText marshal quests s.length s)
      | v => v)

/-! ### The references of a quest -/

/-- The ids that `interpolateParams` looks up for a text. -/
def textReads : Nat → GoString → List GoString
  | 0, _ => []
  | _, [] => []
  | n + 1, c :: s =>
    match questRef (c :: s) with
    | some (qid, _, rest) => qid :: textReads n rest
    | none => textReads n s

/-- The ids that `interpolateParams` looks up. -/
def paramReads (params : Params) : List GoString :=
  (params.getD []).flatMap fun p =>
    match p.2 with
    | .str s => textReads s.length s
    | _ => []

/-- Whatever quest of the board a quest behind the first `before` ones refers to, it depends on it, or the
quest was done before. -/
def ReferencesWired (before after : List Quest) : Prop :=
  ∀ q ∈ after.drop before.length, ∀ x ∈ paramReads q.params, x ∈ after.map Quest.id →
    x ∈ q.dependsOn ∨ ∃ b ∈ before, b.id = x ∧ b.status = .done

/-- In terms of the plan and of the board that it comes to: a reference to a quest of the board is to one
that is done, and a reference to a quest of the plan, by the id that it will get, is to one whose index is
among the dependencies. -/
def Covered (before : List Quest) (plan : List PlannedQuest) : Prop :=
  ∀ pq ∈ plan, ∀ x ∈ paramReads pq.params,
    (∀ b ∈ before, b.id = x → b.status = .done) ∧
    ∀ j < plan.length, x = "q" ++ itoa (before.length + j + 1 : Nat) → ∃ d ∈ pq.dependsOn, d - 1 = j

/-- The pass puts its plan on the board. -/
def PutsPlan (i : Nat) (m : Mission) : Prop := m.status ≠ .cancelled ∧ (m.quests = [] ∨ 0 < i)

/-- The thread does not execute yet, and nobody else touches the mission. -/
def PlansAlone (w : Pass) : PassAct → Prop
  | .own _ => w.thread.pc ≠ .execute
  | .others st => getMission w.thread.missionID st = getMission w.thread.missionID w.store

/-!
## Which quest a dependency means

The planner numbers the quests of its answer from 1, in its dependencies as in its references.
`planQuests` leaves quests out and `AddQuest` may refuse others, while the loop that writes the
dependencies reads the numbers as positions among the quests that are left.
-/

/-- The quests that `planQuests` returns, with their places in the answer, which count from 0. -/
def survivors (known : GoString → Bool) (maxQuests : Nat) (answer : List AnsweredQuest) :
    List (AnsweredQuest × Nat) :=
  (answer.zipIdx.filter fun q => trimSpace q.1.title ≠ [] ∧ known q.1.tool).take (max 1 maxQuests)

/-- A quest at a place names another place, by a dependency or by a reference that is not to itself. -/
def NamesPlace (q : AnsweredQuest × Nat) (p : Nat) : Prop :=
  ((p + 1 : Nat) : Int) ∈ q.1.dependsOn ∨
    p ≠ q.2 ∧ ∃ ref ∈ paramRefs q.1.params, atoi ref = some ((p + 1 : Nat) : Int)

/-- Those of a list whose `AddQuest` has gone through. -/
def accepted {α : Type} (l : List α) (oks : List Bool) : List α :=
  ((l.zip oks).filter Prod.snd).map Prod.fst

/-- The history of a pass: for each `AddQuest`, whether the mission is there and takes quests. -/
def noteAdded (w : Pass) (act : PassAct) (oks : List Bool) : List Bool :=
  match w.thread.pc, act with
  | .add (_ :: _) _ _, .own (.tick _) =>
    oks ++ [(getMission w.thread.missionID w.store).any fun m => m.status ≠ .cancelled]
  | _, _ => oks

/-- The thread does not execute yet. Others may change the mission or delete it, but they leave the quests
of the board alone. -/
def PlansBeside (w : Pass) : PassAct → Prop
  | .own _ => w.thread.pc ≠ .execute
  | .others st => ∀ m, getMission w.thread.missionID st = some m →
      ∃ m₀, getMission w.thread.missionID w.store = some m₀ ∧ m.quests = m₀.quests

/-- Behind the quests that were there, the board has the quests that have landed. -/
structure Lands (landed : List (AnsweredQuest × Nat)) (before : List Quest) (m : Mission) : Prop where
  length : m.quests.length = before.length + landed.length
  quests : ∀ i a, landed[i]? = some a →
    ∃ q, m.quests[before.length + i]? = some q ∧ q.title = a.1.title ∧ q.tool = a.1.tool

/-- The position of the quest that an id finds. -/
def questIdx (m : Mission) (x : GoString) : Option Nat := m.quests.findIdx? fun q => q.id = x

/-- Each quest that has landed depends on those it names, and on nothing else. -/
def DependsAsNamed (landed : List (AnsweredQuest × Nat)) (before : List Quest) (m : Mission) : Prop :=
  ∀ i a q, landed[i]? = some a → m.quests[before.length + i]? = some q →
    ∀ o, o ∈ q.dependsOn.map (questIdx m) ↔
      ∃ e b, landed[e]? = some b ∧ NamesPlace a b.2 ∧ o = some (before.length + e)

/-- The id of the quest that is added at index `i` was not on the board. -/
def IdFree (before : List Quest) (i : Nat) : Prop :=
  str "q" ++ itoa (before.length + i + 1 : Nat) ∉ before.map Quest.id

/-- No number is read for another one. With `s` at index `i` of the plan, and `a` and `b` at the indices `i`
and `e` of what has landed: `s` names the index `e` iff `a` names the place of `b`; and where `a` does, both
have ids that were free. -/
def NumbersHold (all landed : List (AnsweredQuest × Nat)) (before : List Quest) : Prop :=
  ∀ i s a e b, all[i]? = some s → landed[i]? = some a → landed[e]? = some b →
    (NamesPlace a b.2 → IdFree before i ∧ IdFree before e) ∧
      (IdFree before i → (NamesPlace (s.1, i) e ↔ NamesPlace a b.2))

end Gafam.Orchestrator
