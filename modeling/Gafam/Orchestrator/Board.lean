import Gafam.Orchestrator.System

/-!
# What a step does to the boards

An abstract model of the relay in which nothing is left but the boards: the mission store and the rows
of `moksa_missions`, and the operations on them. Every step of the relay is a short list of these
operations, which `ops` reads off from the state before the step.
-/

namespace Gafam.Orchestrator

open Gafam.Go Gafam.Moksa

/-! ## Operations on a board -/

/-- What the code does to a mission under the lock. -/
inductive BoardOp
  | claim (x karakaID : GoString)
  | runStart (perm : GoString → GoString → Permission) (x : GoString)
  | runFinish (x : GoString) (res : Except GoString Json)
  | reward (x : GoString) (verdict : Verdict) (score : Rat) (reason : GoString) (autoAdd : Bool)
  | add (title organHint tool : GoString) (p : Params) (dependsOn : List GoString) (eta : Int)
  | approve (x : GoString) (ok : Bool) (reason : GoString)
  | cancel (x reason : GoString)
  | park (x : GoString)
  | params (x : GoString) (p : Params)
  | reset (x : GoString)
  | repair (x : GoString) (p : Params)
  | wire (x : GoString) (deps : List GoString)
  | research (x : GoString) (status : QuestStatus) (result : Option Json) (err : GoString)
  | researchFail (summary err : GoString)
  | fill (quests : List Quest)
  /-- Only the mission changes, and not its quests. -/
  | mission (f : Mission → Mission) (hf : ∀ m, (f m).quests = m.quests)

/-- The function that the operation hands to `UpdateMission`. -/
def BoardOp.fn : BoardOp → MissionFn
  | claim x karakaID => claimQuest x karakaID
  | runStart perm x => runQuestStart perm x
  | runFinish x res => runQuestFinish x res
  | reward x verdict score reason autoAdd => applyReward x verdict score reason autoAdd
  | add title organHint tool p dependsOn eta => addQuest title organHint tool p dependsOn eta
  | approve x ok reason => approveQuest x ok reason
  | cancel x reason => setQuest x fun q => { q with status := .cancelled, error := reason }
  | park x => setQuest x fun q => { q with status := .waitingApproval }
  | params x p => setQuest x fun q => { q with params := p }
  | reset x =>
    setQuest x fun q => if q.status = .failed then { q with status := .pending, error := [] } else q
  | repair x p => setQuest x fun q => { q with params := p, error := [] }
  | wire x deps => wireQuest x deps
  | research x status result err => researchSetQuest x status result err
  | researchFail summary err => researchFailMission summary err
  | fill quests => fun m => ({ m with quests := quests, status := .active }, none)
  | mission f _ => fun m => (f m, none)

/-- The missions in memory and in the database. -/
structure Boards where
  store : Store
  saved : AList fun _ : GoString => Mission

/-- The first quest with an id on the board of a mission. -/
def Boards.find (b : Boards) (id x : GoString) : Option Quest :=
  (getMission id b.store).bind fun m => m.findQuest x

/-- Operations on the missions. -/
inductive StoreOp
  | update (now : Nat) (id : GoString) (op : BoardOp)
  /-- A new mission, under the next id: active with the board of `PoseBoard`, or planning. -/
  | create (now : Nat) (instruction : GoString) (posed : Bool)
  | delete (id : GoString)
  | erase (id : GoString)
  | persist (id : GoString)
  | reload

/-- The mission that `create` stores. -/
def newMission (now : Nat) (instruction : GoString) (posed : Bool) (st : Store) : Mission where
  id := (newMissionID now st).1
  instruction := trimSpace instruction
  quests := if posed then poseBoard instruction else []
  status := if posed then .active else .planning
  mode := []
  summary := []
  judge := none
  createdAt := now
  updatedAt := now

/-- An operation. -/
def StoreOp.apply (b : Boards) : StoreOp → Boards
  | update now id op => { b with store := (updateMission now id op.fn b.store).2 }
  | create now instruction posed =>
    { b with
      store :=
        saveMission now (newMission now instruction posed b.store) (newMissionID now b.store).2 }
  | delete id => { b with store := (deleteMission id b.store).2 }
  | erase id => { b with saved := b.saved.erase id }
  | persist id =>
    match getMission id b.store with
    | none => b
    | some m => { b with saved := b.saved.insert id m }
  | reload =>
    let missions := loadMissions b.saved
    { store := ⟨missions, missions.keys.length⟩, saved := missions }

/-- A list of operations. -/
def Boards.run (b : Boards) (ops : List StoreOp) : Boards := ops.foldl StoreOp.apply b

/-- The boards of the relay. -/
def System.boards (sys : System) : Boards := ⟨sys.store, sys.saved⟩

/-! ## The operations of a step -/

/-- The operations of a goroutine. -/
def WorkerPc.ops (r : Run) (h : Host) (q : Quest) : WorkerPc → List BoardOp
  | gate =>
    match h.perm r.karakaID q.tool with
    | .deny => [.cancel q.id ("permission deny: " ++ r.karakaID ++ " cannot use " ++ q.tool)]
    | .ask => if r.approvalMode then [.park q.id] else []
    | .allow => []
  | interpolate => [.params q.id h.interpolated]
  | reset => [.reset q.id]
  | claim => [.claim q.id r.karakaID]
  | run _ => [.runStart h.perm q.id]
  | tool _ => [.runFinish q.id h.tool]
  | repair _ _ => (h.repair.map fun p => .repair q.id p).toList
  | rewardDone => [.reward q.id .done 1 "auto: tool executed" false]
  | rewardFailed lastErr =>
    [.reward q.id .failed 0 ("auto: " ++ truncateStr lastErr 120) false]
  | queued | finished => []

/-- The operations of the level loop, with the clock. -/
def Act.ops (r : Run) (s : Levels) : Act → List (Nat × BoardOp)
  | .visit id now =>
    match s.pending.lookup id with
    | none => []
    | some q =>
      if readiness s.done s.failed q.dependsOn = .doomed then
        [(now, .cancel q.id "dependency failed")]
      else []
  | .drop id now => [(now, .cancel id "dependency cycle — unsatisfiable")]
  | .work k h =>
    match s.phase with
    | .level workers =>
      match workers[k]? with
      | none => []
      | some (q, pc) => (pc.ops r h q).map fun op => (h.now, op)
    | _ => []
  | _ => []

/-- Updates of a mission. -/
def updates (id : GoString) (l : List (Nat × BoardOp)) : List StoreOp :=
  l.map fun p => .update p.1 id p.2

/-- The operations of a thread. -/
def Thread.ops (perm : GoString → GoString → Permission) (t : Thread) (act : ThreadAct) :
    List StoreOp :=
  let update (now : Nat) (op : BoardOp) : List StoreOp := [.update now t.missionID op]
  match t.pc, act with
  | .add (pq :: _) _ _, .tick now =>
    if (t.kind matches .subAgent _) ∧ perm t.karakaID pq.tool = .deny then []
    else update now (.add pq.title t.karakaID pq.tool pq.params [] 30)
  | .wire ((qid, deps) :: _), .tick now => update now (.wire qid deps)
  | .activate, .tick now => update now (.mission (fun m => { m with status := .active }) fun _ => rfl)
  | .levels r s, .level a => updates r.missionID ((a.under perm).ops r s)
  | .pause, .tick now =>
    update now (.mission (fun m => { m with status := .waitingApproval }) fun _ => rfl)
  | .giveUp, .write now summary =>
    update now (.mission (fun m => { m with status := .cancelled, summary := summary }) fun _ => rfl)
  | .synthesize, .tick now =>
    update now (.mission (fun m => { m with status := .synthesizing }) fun _ => rfl)
  | .report, .write now summary =>
    update now (.mission (fun m => { m with status := .done, summary := summary }) fun _ => rfl)
  | .judge, .verdict now (some j) =>
    update now (.mission (fun m => { m with judge := some j }) fun _ => rfl)
  | .researchOpen, .tick now =>
    update now (.mission (fun m => { m with mode := "research", status := .active }) fun _ => rfl)
  | .researchAdd k, .tick now =>
    match researchSteps[k]? with
    | none => []
    | some (_, title, tool) =>
      let deps := if k = 0 then [] else (researchSteps[k - 1]?.map fun s => s.1).toList
      update now (.add title "suparna_vpc" tool (some []) deps 30)
  | .researchStart k, .tick now =>
    match researchSteps[k]? with
    | none => []
    | some (qid, _, _) => update now (.research qid .running none [])
  | .researchWork k, .stage now res =>
    match researchSteps[k]?, res with
    | some (qid, _, _), .ok v => update now (.research qid .done v [])
    | some (qid, _, _), .error e => update now (.research qid .failed none e)
    | none, _ => []
  | .researchFail err, .write now summary => update now (.researchFail summary err)
  | .researchClose, .write now summary =>
    update now (.mission (fun m => { m with status := .done, summary := summary }) fun _ => rfl)
  | _, _ => []

/-- The operations of a tool call: a sub-agent gets a mission. -/
def delegateOps (now : Nat) (sys : System) (q : Quest) : List StoreOp :=
  let instruction := stringParam "instruction" q.params
  let given := stringParam "karaka_id" q.params
  let karakaID := if given = [] then str "suparna_vpc" else given
  if q.tool ≠ "karaka.delegate" ∨ instruction = [] ∨ sys.perm karakaID "llm.chat" = .deny then []
  else
    [.create now instruction false,
      .update now (newMissionID now sys.store).1
        (.mission (fun m => { m with mode := "subagent" }) fun _ => rfl)]

/-- The operations of a step of the thread `k`. -/
def threadOps (now k : Nat) (act : ThreadAct) (sys : System) : List StoreOp :=
  match sys.threads[k]? with
  | none => []
  | some t =>
    t.ops sys.perm act ++
      match t.pc, t.step sys.perm sys.approval sys.store act with
      | .levels _ _, some (_, _, es) => (startedQuests es).flatMap (delegateOps now sys)
      | _, _ => []

/-- The operations of a step of the relay. -/
def ops (sys : System) : SysAct → List StoreOp
  | .thread now k act => threadOps now k act sys
  | .run now req =>
    if req.mode ≠ [] ∧ req.mode ≠ "action" ∧ req.mode ≠ "research" then []
    else if req.missionID = [] ∧ trimSpace req.instruction ≠ [] then
      [.create now (trimSpace req.instruction) false]
    else []
  | .trigger now instruction _ cron =>
    let id := (newMissionID now sys.store).1
    [.create now instruction false] ++
      (if cron then [.update now id (.mission (fun m => { m with mode := "cron" }) fun _ => rfl)]
        else []) ++
      if sys.busy then [.delete id, .erase id] else []
  | .resume _ => []
  | .restart => [.reload]
  | .create now instruction quests =>
    if trimSpace instruction = [] then []
    else
      [.create now instruction true] ++
        if quests = [] then []
        else [.update now (newMissionID now sys.store).1 (.fill (quests.mapIdx defaultQuest))]
  | .approve now id qid approve reason => [.update now id (.approve qid approve reason)]
  | .claim now id qid karakaID =>
    let hint :=
      (((getMission id sys.store).bind fun m => m.findQuest qid).map Quest.organHint).getD []
    [.update now id (.claim qid (if karakaID = [] then hint else karakaID))]
  | .callStart now id qid =>
    [.update now id (.runStart sys.perm qid)] ++
      match (updateMission now id (runQuestStart sys.perm qid) sys.store).1 with
      | .error _ => []
      | .ok m => (m.findQuest qid).toList.flatMap (delegateOps now sys)
  | .callFinish now id qid res => [.update now id (.runFinish qid res)]
  | .reward now id qid verdict score reason autoAdd =>
    match parseVerdict verdict with
    | none => []
    | some v => [.update now id (.reward qid v score reason autoAdd)]
  | .addQuest now id title organHint tool params dependsOn eta =>
    [.update now id (.add title organHint tool params dependsOn eta)]
  | .synthesize now id summary =>
    [.update now id (.mission (fun m => { m with summary := summary, status := .done }) fun _ => rfl)]
  | .delete id => if id ∈ sys.store.missions then [.delete id, .erase id] else []
  | .setPermissions _ => []
  | .persist id => [.persist id]

/-- The step of the abstract model. -/
def boardStep (b : Boards) (op : StoreOp) : Option Boards := some (op.apply b)

/-- Every operation of the step is made on boards that meet `C`. -/
def EachOp (C : Boards → StoreOp → Prop) (sys : System) (act : SysAct) : Prop :=
  Lib.StepsMeet boardStep C sys.boards (ops sys act)

/-!
## The ids of quests and missions

A quest is addressed by its id, and gets the number of quests on the board plus one. A mission gets
the seconds of the clock, modulo 100000, and the number of missions so far. Neither looks at the ids
that are there.
-/

/-- The quests of a board have different ids. -/
def IdsDistinct (quests : List Quest) : Prop := (quests.map Quest.id).Nodup

instance (quests : List Quest) : Decidable (IdsDistinct quests) :=
  inferInstanceAs (Decidable (List.Nodup _))

/-- The operation appends a quest. -/
def BoardOp.Adds (m : Mission) : BoardOp → Prop
  | add title _ _ _ _ _ => m.status ≠ .cancelled ∧ title ≠ []
  | reward x .needsMore _ _ true => ∃ q, m.findQuest x = some q
  | _ => False

/-- The quests that the operation puts on the board get new ids. -/
def BoardOp.AddsFresh (m : Mission) (op : BoardOp) : Prop :=
  (op.Adds m → m.nextQuestID ∉ m.quests.map Quest.id) ∧
    ∀ quests, op = .fill quests → IdsDistinct quests

/-- The same for an operation on the store. -/
def AddsFresh (b : Boards) : StoreOp → Prop
  | .update _ id op => ∀ m, getMission id b.store = some m → op.AddsFresh m
  | _ => True

/-- The ids that `NextQuestID` and `CreateHandler` give on a board without ids from a client. -/
def Numbered (quests : List Quest) : Prop :=
  quests.map Quest.id = (List.range quests.length).map fun i => str "q" ++ itoa (i + 1 : Nat)

/-! ### Missions -/

/-- The id that `newMissionID` writes from the clock and the counter. -/
def missionID (second n : Nat) : GoString := "m" ++ itoa second ++ "-" ++ itoa n

/-- A mission is created under an id that no mission has, and leaves all the others as they are. -/
def CreatesFresh (b : Boards) : StoreOp → Prop
  | .create now instruction posed =>
    (newMissionID now b.store).1 ∉ b.store.missions ∧
      ∀ i m, getMission i b.store = some m →
        getMission i (StoreOp.apply b (.create now instruction posed)).store = some m
  | _ => True

/-- The missions that the last restart has loaded. -/
def noteLoaded (sys : System) (act : SysAct) (loaded : List GoString) : List GoString :=
  match act with
  | .restart => sys.saved.keys
  | _ => loaded

/-- Of the missions that the last restart has loaded, none that is still there has both the second of
the clock and the next number in its id. -/
def NumbersApart (loaded : List GoString) (b : Boards) : StoreOp → Prop
  | .create now _ _ =>
    ∀ n, missionID (now / 1000 % 100000) n ∈ loaded →
      missionID (now / 1000 % 100000) n ∈ b.store.missions → n ≠ b.store.seq + 1
  | _ => True

end Gafam.Orchestrator
