import Gafam.Moksa.Executor
import Gafam.Orchestrator.Thread

/-!
# The relay with its missions

The mission store, the threads that work on it, the handlers through which humans change it, and what
a restart of the relay leaves of all this. The log of the system is not a variable of the source: it
records launches, approvals and the starts of tools, in the order in which they happen.
-/

namespace Gafam.Orchestrator

open Gafam.Go Gafam.Moksa

/-- What happens to the missions. -/
inductive SysEvent
  | created (id : GoString)
  | launched (id : GoString) (requireApproval : Bool)
  /-- A tool call of the mission `parent` has started a sub-agent. -/
  | delegated (parent child : GoString)
  | parked (id qid : GoString)
  | approved (id qid : GoString)
  /-- A thread starts the tool of a quest, for which its kāraka has the permission `p`. -/
  | executed (id qid : GoString) (p : Permission)

structure System where
  store : Store
  /-- The rows of `moksa_missions`. -/
  saved : AList fun _ : GoString => Mission
  /-- `CheckPermission`. -/
  perm : GoString → GoString → Permission
  /-- `orchestratorApproval`. -/
  approval : Bool
  /-- `orchestratorMu` is locked. -/
  busy : Bool
  /-- `resumeInterruptedMissions` is still to come. -/
  resuming : Bool
  threads : List Thread
  /-- The tool calls that `RunHandler` has in progress. -/
  calls : List (GoString × GoString)
  log : List SysEvent

/-- The relay after its start with these missions. -/
def System.boot (store : Store) (saved : AList fun _ : GoString => Mission)
    (perm : GoString → GoString → Permission) : System :=
  ⟨store, saved, perm, false, false, true, [], [], []⟩

/-! ## Launching and delegating -/

/-- `launchOrchestration`: the thread it starts, or `none` when another one is running. -/
def launchOrchestration (id karakaID mode : GoString) (requireApproval : Bool) (sys : System) :
    Option System :=
  if sys.busy then none
  else
    let thread : Thread :=
      if mode = "research" then ⟨.research, id, "suparna_vpc", 0, .researchOpen⟩
      else ⟨.orchestration, id, karakaID, 0, .plan⟩
    some { sys with
      approval := requireApproval
      busy := true
      threads := sys.threads ++ [thread]
      log := sys.log ++ [.launched id requireApproval] }

/-- `CreateEmptyMission` with its log entry. -/
def createMission (now : Nat) (instruction : GoString) (sys : System) : Mission × System :=
  let (m, st) := createEmptyMission now instruction sys.store
  (m, { sys with store := st, log := sys.log ++ [.created m.id] })

/-- A parameter that is a text. -/
def stringParam (key : GoString) (params : Params) : GoString :=
  match (params.getD []).find? fun p => p.1 = key with
  | some (_, .str s) => s
  | _ => []

/-- The call of `karaka.delegate`, up to the start of the sub-agent. Other tools start none. -/
def delegate (now : Nat) (caller : GoString × GoString) (sys : System) (q : Quest) : System :=
  let instruction := stringParam "instruction" q.params
  let given := stringParam "karaka_id" q.params
  let karakaID := if given = [] then str "suparna_vpc" else given
  if q.tool ≠ "karaka.delegate" ∨ instruction = [] ∨ sys.perm karakaID "llm.chat" = .deny then sys
  else
    let (m, sys) := createMission now instruction sys
    { sys with
      store := (updateMission now m.id (fun m => ({ m with mode := "subagent" }, none)) sys.store).2
      threads := sys.threads ++ [⟨.subAgent caller, m.id, karakaID, 0, .plan⟩]
      log := sys.log ++ [.delegated caller.1 m.id] }

/-- The tool call of the quest is still waiting for its sub-agent. -/
def delegating (sys : System) (caller : GoString × GoString) : Bool :=
  sys.threads.any fun t => decide (t.kind = .subAgent caller) && !(t.pc matches .ended)

/-! ## Threads -/

/-- What the system notes of a step of a thread. -/
def SysEvent.ofEvent (perm : GoString → GoString → Permission) (t : Thread) :
    Event → Option SysEvent
  | .started q => some (.executed t.missionID q.id (perm t.karakaID q.tool))
  | .parked id => some (.parked t.missionID id)
  | _ => none

/-- The quests whose tools are started by these events. -/
def startedQuests (es : List Event) : List Quest :=
  es.filterMap fun e =>
    match e with
    | .started q => some q
    | _ => none

/-- A worker cannot leave its tool call before the sub-agent that answers it has ended. -/
def waits (sys : System) (t : Thread) : ThreadAct → Bool
  | .level (.work k _) =>
    match t.pc with
    | .levels _ s =>
      match s.phase with
      | .level workers =>
        match workers[k]? with
        | some (q, .tool _) => delegating sys (t.missionID, q.id)
        | _ => false
      | _ => false
    | _ => false
  | _ => false

/-- The sub-agents that a step of the thread starts. The research pipeline calls its tools itself, so
only the levels delegate. -/
def delegateAll (now : Nat) (t : Thread) (es : List Event) (sys : System) : System :=
  if t.pc matches .levels _ _ then
    (startedQuests es).foldl (fun sys q => delegate now (t.missionID, q.id) sys q) sys
  else sys

/-- The thread that `launchOrchestration` has started gives the lock back when it ends. -/
def unlock (t : Thread) (sys : System) : System :=
  if (t.pc matches .ended) ∧ ¬ (t.kind matches .subAgent _) then
    { sys with approval := false, busy := false }
  else sys

/-- A step of the thread `k`. -/
def threadStep (now k : Nat) (act : ThreadAct) (sys : System) : Option System :=
  match sys.threads[k]? with
  | none => none
  | some t =>
    if waits sys t act then none
    else
      match t.step sys.perm sys.approval sys.store act with
      | none => none
      | some (t', st, es) =>
        some <| unlock t' <| delegateAll now t es
          { sys with
            store := st
            threads := sys.threads.set k t'
            log := sys.log ++ es.filterMap (SysEvent.ofEvent sys.perm t) }

/-! ## Restart -/

/-- What `loadMissionsFromDB` makes of a mission. -/
def recoverMission (m : Mission) : Mission :=
  if m.status = .planning ∨ m.status = .active ∨ m.status = .synthesizing then
    { m with
      quests := m.quests.map fun q =>
        if q.status = .running ∨ q.status = .claimed then
          { q with status := .pending, error := [] }
        else q
      status := .interrupted
      summary := m.summary ++ "\n\n_Interrupted by relay restart._" }
  else m

/-- `loadMissionsFromDB`. -/
def loadMissions (saved : AList fun _ : GoString => Mission) : AList fun _ : GoString => Mission :=
  saved.entries.foldr (fun e acc => acc.insert e.1 (recoverMission e.2)) ∅

/-- The relay stops and starts again. -/
def restart (sys : System) : System :=
  let missions := loadMissions sys.saved
  { sys with
    store := ⟨missions, missions.keys.length⟩
    saved := missions
    approval := false
    busy := false
    resuming := true
    threads := []
    calls := [] }

/-- `resumeInterruptedMissions`, `id` being the most recent interrupted mission. -/
def resumeInterrupted (id : Option GoString) (sys : System) : Option System :=
  if ¬ sys.resuming then none
  else
    match id with
    | none =>
      if ∀ e ∈ sys.store.missions.entries, e.2.status ≠ .interrupted then
        some { sys with resuming := false }
      else none
    | some id =>
      match getMission id sys.store with
      | none => none
      | some m =>
        if m.status = .interrupted ∧ ∀ e ∈ sys.store.missions.entries,
            e.2.status = .interrupted → e.2.updatedAt ≤ m.updatedAt then
          let sys := { sys with resuming := false }
          some ((launchOrchestration id "suparna_vpc" [] false sys).getD sys)
        else none

/-! ## Handlers -/

/-- The body of `orchestratorRunHandler`. -/
structure RunRequest where
  instruction : GoString
  missionID : GoString
  karakaID : GoString
  mode : GoString
  requireApproval : Bool

/-- `orchestratorRunHandler`. -/
def orchestratorRun (now : Nat) (req : RunRequest) (sys : System) : System :=
  let karakaID := if req.karakaID = [] then str "suparna_vpc" else req.karakaID
  if req.mode ≠ [] ∧ req.mode ≠ "action" ∧ req.mode ≠ "research" then sys
  else if req.missionID ≠ [] then
    match getMission req.missionID sys.store with
    | none => sys
    | some _ =>
      (launchOrchestration req.missionID karakaID req.mode req.requireApproval sys).getD sys
  else if trimSpace req.instruction ≠ [] then
    let (m, sys) := createMission now (trimSpace req.instruction) sys
    (launchOrchestration m.id karakaID req.mode req.requireApproval sys).getD sys
  else sys

/-- `triggerSelfQuest` and the firing of a cron job, which also sets the mode of the mission. -/
def trigger (now : Nat) (instruction mode : GoString) (cron : Bool) (sys : System) : System :=
  let (m, sys) := createMission now instruction sys
  let sys :=
    if cron then
      { sys with
        store := (updateMission now m.id (fun m => ({ m with mode := "cron" }, none)) sys.store).2 }
    else sys
  match launchOrchestration m.id "suparna_vpc" mode false sys with
  | some sys => sys
  | none =>
    { sys with store := (deleteMission m.id sys.store).2, saved := sys.saved.erase m.id }

/-- The defaults that `CreateHandler` fills in. -/
def defaultQuest (i : Nat) (q : Quest) : Quest :=
  { q with
    id := if q.id = [] then "q" ++ itoa (i + 1) else q.id
    status := if q.status = .other [] then .pending else q.status }

/-- `CreateHandler`. -/
def createHandler (now : Nat) (instruction : GoString) (quests : List Quest) (sys : System) :
    System :=
  if trimSpace instruction = [] then sys
  else
    let (m, st) := createMissionFromInstruction now instruction sys.store
    let st :=
      if quests = [] then st
      else
        (updateMission now m.id
          (fun m => ({ m with quests := quests.mapIdx defaultQuest, status := .active }, none)) st).2
    { sys with store := st, log := sys.log ++ [.created m.id] }

/-- `ApproveHandler`. -/
def approveHandler (now : Nat) (id qid : GoString) (approve : Bool) (reason : GoString)
    (sys : System) : System :=
  match updateMission now id (approveQuest qid approve reason) sys.store with
  | (.error _, st) => { sys with store := st }
  | (.ok _, st) =>
    { sys with
      store := st
      log := if approve then sys.log ++ [.approved id qid] else sys.log }

/-- `ClaimHandler`. -/
def claimHandler (now : Nat) (id qid karakaID : GoString) (sys : System) : System :=
  let hint :=
    (((getMission id sys.store).bind fun m => m.findQuest qid).map Quest.organHint).getD []
  let karakaID := if karakaID = [] then hint else karakaID
  { sys with store := (updateMission now id (claimQuest qid karakaID) sys.store).2 }

/-- `RunHandler` up to the tool call. -/
def runHandlerStart (now : Nat) (id qid : GoString) (sys : System) : System :=
  match updateMission now id (runQuestStart sys.perm qid) sys.store with
  | (.error _, st) => { sys with store := st }
  | (.ok m, st) =>
    let sys := { sys with store := st, calls := sys.calls ++ [(id, qid)] }
    match m.findQuest qid with
    | none => sys
    | some q => delegate now (id, qid) sys q

/-- `RunHandler` after the tool call. -/
def runHandlerFinish (now : Nat) (id qid : GoString) (res : Except GoString Json) (sys : System) :
    Option System :=
  if (id, qid) ∈ sys.calls ∧ ¬ delegating sys (id, qid) then
    some { sys with
      store := (updateMission now id (runQuestFinish qid res) sys.store).2
      calls := sys.calls.erase (id, qid) }
  else none

/-- `RewardHandler`. -/
def rewardHandler (now : Nat) (id qid verdict : GoString) (score : Rat) (reason : GoString)
    (autoAdd : Bool) (sys : System) : System :=
  match parseVerdict verdict with
  | none => sys
  | some v =>
    { sys with store := (updateMission now id (applyReward qid v score reason autoAdd) sys.store).2 }

/-- `AddQuestHandler`. -/
def addQuestHandler (now : Nat) (id title organHint tool : GoString) (params : Params)
    (dependsOn : List GoString) (eta : Int) (sys : System) : System :=
  { sys with
    store := (updateMission now id (addQuest title organHint tool params dependsOn eta) sys.store).2 }

/-- `SynthesizeHandler`. The report is written from the board, and then into the mission. -/
def synthesizeHandler (now : Nat) (id summary : GoString) (sys : System) : System :=
  { sys with
    store := (updateMission now id
      (fun m => ({ m with summary := summary, status := .done }, none)) sys.store).2 }

/-- `DeleteHandler`. -/
def deleteHandler (id : GoString) (sys : System) : System :=
  let (found, st) := deleteMission id sys.store
  if found then { sys with store := st, saved := sys.saved.erase id } else sys

/-- `PersistHook`, whenever it comes to write. -/
def persist (id : GoString) (sys : System) : System :=
  match getMission id sys.store with
  | none => sys
  | some m => { sys with saved := sys.saved.insert id m }

/-- What can happen. -/
inductive SysAct
  | thread (now k : Nat) (act : ThreadAct)
  | run (now : Nat) (req : RunRequest)
  | trigger (now : Nat) (instruction mode : GoString) (cron : Bool)
  | resume (id : Option GoString)
  | restart
  | create (now : Nat) (instruction : GoString) (quests : List Quest)
  | approve (now : Nat) (id qid : GoString) (approve : Bool) (reason : GoString)
  | claim (now : Nat) (id qid karakaID : GoString)
  | callStart (now : Nat) (id qid : GoString)
  | callFinish (now : Nat) (id qid : GoString) (res : Except GoString Json)
  | reward (now : Nat) (id qid verdict : GoString) (score : Rat) (reason : GoString) (autoAdd : Bool)
  | addQuest (now : Nat) (id title organHint tool : GoString) (params : Params)
    (dependsOn : List GoString) (eta : Int)
  | synthesize (now : Nat) (id summary : GoString)
  | delete (id : GoString)
  /-- `SetPermissions`, or tools and kārakas that register. -/
  | setPermissions (perm : GoString → GoString → Permission)
  | persist (id : GoString)

/-- One step of the relay. -/
def sysStep (sys : System) : SysAct → Option System
  | .thread now k act => threadStep now k act sys
  | .run now req => some (orchestratorRun now req sys)
  | .trigger now instruction mode cron => some (Orchestrator.trigger now instruction mode cron sys)
  | .resume id => resumeInterrupted id sys
  | .restart => some (Orchestrator.restart sys)
  | .create now instruction quests => some (createHandler now instruction quests sys)
  | .approve now id qid approve reason => some (approveHandler now id qid approve reason sys)
  | .claim now id qid karakaID => some (claimHandler now id qid karakaID sys)
  | .callStart now id qid => some (runHandlerStart now id qid sys)
  | .callFinish now id qid res => runHandlerFinish now id qid res sys
  | .reward now id qid verdict score reason autoAdd =>
    some (rewardHandler now id qid verdict score reason autoAdd sys)
  | .addQuest now id title organHint tool params dependsOn eta =>
    some (addQuestHandler now id title organHint tool params dependsOn eta sys)
  | .synthesize now id summary => some (synthesizeHandler now id summary sys)
  | .delete id => some (deleteHandler id sys)
  | .setPermissions perm => some { sys with perm := perm }
  | .persist id => some (Orchestrator.persist id sys)

/-!
## What a restart recovers

`loadMissionsFromDB` gives the quests of a mission back that a crash has interrupted, if the mission is
planning, active or synthesizing. A mission with another status keeps its quests as they are.
-/

/-- Somebody has claimed the quest or runs its tool. -/
def Held (q : Quest) : Prop := q.status = .running ∨ q.status = .claimed

/-- The statuses in which `loadMissionsFromDB` takes a mission for interrupted. -/
def Recoverable (status : MissionStatus) : Prop :=
  status = .planning ∨ status = .active ∨ status = .synthesizing

/-- After the restart no quest is in flight, and every quest that was is pending. -/
def Recovered (saved : AList fun _ : GoString => Mission) (st : Store) : Prop :=
  (∀ id m, getMission id st = some m → ∀ q ∈ m.quests, ¬ Held q) ∧
    ∀ id m, saved.lookup id = some m → ∃ m', getMission id st = some m' ∧
      ∀ (k : Nat) q, m.quests[k]? = some q → Held q →
        m'.quests[k]? = some { q with status := .pending, error := [] }

/-- What a restart has to recover of a step. -/
def Recovers (sys : System) (act : SysAct) : Prop :=
  act = .restart → ∀ sys', sysStep sys act = some sys' → Recovered sys.saved sys'.store

/-- A restart finds quests in flight only in missions that it takes for interrupted. -/
def FindsRecoverable (sys : System) (act : SysAct) : Prop :=
  act = .restart → ∀ id m, sys.saved.lookup id = some m → (∃ q ∈ m.quests, Held q) →
    Recoverable m.status

end Gafam.Orchestrator
