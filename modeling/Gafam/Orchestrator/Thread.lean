import Gafam.Orchestrator.Levels

/-!
# The loops around the levels

Three loops run boards in the background. `runOrchestration` plans, runs the levels, observes and plans
again, at most three times; `delegateSubAgent` does the same for a sub-agent, at most twice and without
the synthesis; `runResearchPipeline` works through seven fixed quests. What the language model answers,
and the texts that only go into reports, come with the steps.
-/

namespace Gafam.Orchestrator

open Gafam.Go Gafam.Moksa

/-- `maxIterations` of `runOrchestration`. -/
def maxIterations : Nat := 3

/-- `subAgentMaxIterations`. -/
def subAgentMaxIterations : Nat := 2

/-- `plannedQuest`. The dependencies are indices that count from 1. -/
structure PlannedQuest where
  title : GoString
  tool : GoString
  params : Params
  dependsOn : List Nat

/-- The dependencies of a plan in terms of the ids its quests were given. -/
def wiring (plan : List PlannedQuest) (ids : List GoString) : List (GoString × List GoString) :=
  ((plan.zip ids).filter fun p => p.1.dependsOn ≠ []).map fun p =>
    (p.2, p.1.dependsOn.filterMap fun d => ids[d - 1]?)

/-- The quests of the research pipeline: id, title and tool. -/
def researchSteps : List (GoString × GoString × GoString) :=
  [("q1", "Decompose the research question", "llm.chat"),
    ("q2", "Sweep sources (vault first, then web)", "research.fetch"),
    ("q3", "Evidence digest", "llm.chat"),
    ("q4", "Draft the report", "llm.chat"),
    ("q5", "Adversarial critic", "llm.chat"),
    ("q6", "Patch the draft", "llm.chat"),
    ("q7", "Archive & report", "sandbox.file_write")]

/-- The stages that can fail; the others go on with what they have. -/
def researchBlocking : Nat := 4

/-- Which loop a thread runs. -/
inductive Kind
  | orchestration
  | research
  /-- With the mission and the quest whose tool call it answers. -/
  | subAgent (caller : GoString × GoString)
deriving DecidableEq

/-- Where a thread stands. -/
inductive ThreadPc
  /-- The head of an iteration. -/
  | plan
  | add (todo plan : List PlannedQuest) (ids : List GoString)
  | wire (todo : List (GoString × List GoString))
  | activate
  | execute
  | levels (r : Run) (s : Levels)
  | observe
  | pause
  | giveUp
  | synthesize
  | report
  | judge
  | researchOpen
  | researchAdd (k : Nat)
  | researchStart (k : Nat)
  | researchWork (k : Nat)
  | researchFail (err : GoString)
  | researchClose
  | ended

structure Thread where
  kind : Kind
  missionID : GoString
  karakaID : GoString
  iteration : Nat
  pc : ThreadPc

/-- A step of a thread. -/
inductive ThreadAct
  | tick (now : Nat)
  /-- The planner answers, `none` being an error. Quests with unknown tools are left out. -/
  | reply (plan : Option (List PlannedQuest))
  | level (act : Act)
  /-- The text that becomes the summary of the mission. -/
  | write (now : Nat) (summary : GoString)
  | verdict (now : Nat) (judge : Option Judge)
  /-- A stage of the research ends. -/
  | stage (now : Nat) (res : Except GoString (Option Json))

/-- `buildReplanInstruction` finds something to build on. -/
def replannable (m : Mission) : Bool := m.quests.any fun q => q.status = .done

/-- The observation of `runOrchestration` after the levels. -/
def observeMission (iteration : Nat) (m : Mission) : ThreadPc × Nat :=
  let hasNewDone := m.quests.any fun q => q.status = .done
  let doneAll := m.quests.all fun q =>
    q.status = .done ∨ q.status = .failed ∨ q.status = .cancelled ∨ q.status = .skipped
  let pending := m.quests.countP fun q => q.status = .pending
  if m.quests.any fun q => q.status = .waitingApproval then (.pause, iteration)
  else if doneAll ∧ (hasNewDone ∨ iteration = 0) then (.synthesize, iteration)
  else if pending = 0 ∧ ¬ hasNewDone then (.synthesize, iteration)
  else if iteration + 1 < maxIterations then (.plan, iteration + 1)
  else (.synthesize, iteration)

/-- The function that writes the dependencies of a planned quest. -/
def wireQuest (qid : GoString) (deps : List GoString) : MissionFn :=
  setQuest qid fun q => { q with dependsOn := deps }

/-- The function that sets the status of the mission. -/
def setStatus (status : MissionStatus) : MissionFn := fun m => ({ m with status := status }, none)

/-- The function of `researchSetQuest`. -/
def researchSetQuest (qid : GoString) (status : QuestStatus) (result : Option Json)
    (err : GoString) : MissionFn :=
  setQuest qid fun q =>
    { q with
      status := status
      result := result
      error := err
      claim := if status = .running ∨ status = .claimed then "suparna_vpc" else q.claim }

/-- The function of `researchFailMission`. -/
def researchFailMission (summary err : GoString) : MissionFn := fun m =>
  ({ m with
      status := .cancelled
      summary := summary
      quests := m.quests.map fun q =>
        if q.status = .running ∨ q.status = .claimed then
          { q with status := .failed, error := err }
        else q }, none)

/-- The permission table is the one of the relay. -/
def Act.under (perm : GoString → GoString → Permission) : Act → Act
  | .work k h => .work k { h with perm := perm }
  | act => act

/-- The head of an iteration, once the mission is there. -/
def Thread.planned (t : Thread) (m : Mission) (reply : Option (List PlannedQuest)) : ThreadPc :=
  match t.kind with
  | .subAgent _ =>
    if 0 < t.iteration ∧ ¬ replannable m then .ended
    else
      match reply with
      | some (pq :: plan) => .add (pq :: plan) (pq :: plan) []
      | _ => .ended
  | _ =>
    if m.quests = [] ∨ 0 < t.iteration then
      if 0 < t.iteration ∧ ¬ replannable m then .synthesize
      else
        match reply with
        | some (pq :: plan) => .add (pq :: plan) (pq :: plan) []
        | _ => if t.iteration = 0 then .giveUp else .synthesize
    else .execute

/-- The run of the levels that a thread starts. Only `runOrchestration` reads the flag. -/
def Thread.run (t : Thread) (approval : Bool) : Run :=
  ⟨t.missionID, t.karakaID, if t.kind = .orchestration then approval else false⟩

/-- One step of a thread: what it becomes, the store, and what it reports. -/
def Thread.step (perm : GoString → GoString → Permission) (approval : Bool) (t : Thread)
    (st : Store) (act : ThreadAct) : Option (Thread × Store × List Event) :=
  let goto (pc : ThreadPc) (st : Store) := some ({ t with pc := pc }, st, ([] : List Event))
  match t.pc, act with
  | .plan, .reply reply =>
    match getMission t.missionID st with
    | none => goto .ended st
    | some m => goto (t.planned m reply) st
  | .add (pq :: todo) plan ids, .tick now =>
    if (t.kind matches .subAgent _) ∧ perm t.karakaID pq.tool = .deny then
      goto (.add todo plan ids) st
    else
      match updateMission now t.missionID
          (addQuest pq.title t.karakaID pq.tool pq.params [] 30) st with
      | (.error _, st) => goto (.add todo plan ids) st
      | (.ok m, st) => goto (.add todo plan (ids ++ (m.quests.getLast?.map Quest.id).toList)) st
  | .add [] plan ids, .tick _ =>
    if t.kind matches .subAgent _ then goto .execute st else goto (.wire (wiring plan ids)) st
  | .wire ((qid, deps) :: todo), .tick now =>
    goto (.wire todo) (updateMission now t.missionID (wireQuest qid deps) st).2
  | .wire [], .tick _ => goto .activate st
  | .activate, .tick now => goto .execute (updateMission now t.missionID (setStatus .active) st).2
  | .execute, .tick _ => goto (.levels (t.run approval) (.start (t.run approval) st)) st
  | .levels r s, .level a =>
    match Orchestrator.step r (s, st) (a.under perm) with
    | none => none
    | some (s', st') => some ({ t with pc := .levels r s' }, st', s'.log.drop s.log.length)
  | .levels _ s, .tick _ =>
    match s.phase with
    | .returned => goto .observe st
    | _ => none
  | .observe, .tick _ =>
    if t.kind matches .subAgent _ then
      if t.iteration + 1 < subAgentMaxIterations then
        some ({ t with pc := .plan, iteration := t.iteration + 1 }, st, [])
      else goto .ended st
    else
      match getMission t.missionID st with
      | none => goto .ended st
      | some m =>
        let (pc, iteration) := observeMission t.iteration m
        some ({ t with pc := pc, iteration := iteration }, st, [])
  | .pause, .tick now =>
    goto .ended (updateMission now t.missionID (setStatus .waitingApproval) st).2
  | .giveUp, .write now summary =>
    goto .ended (updateMission now t.missionID
      (fun m => ({ m with status := .cancelled, summary := summary }, none)) st).2
  | .synthesize, .tick now =>
    goto .report (updateMission now t.missionID (setStatus .synthesizing) st).2
  | .report, .write now summary =>
    goto .judge (updateMission now t.missionID
      (fun m => ({ m with status := .done, summary := summary }, none)) st).2
  | .judge, .verdict _ none => goto .ended st
  | .judge, .verdict now (some j) =>
    goto .ended (updateMission now t.missionID (fun m => ({ m with judge := some j }, none)) st).2
  | .researchOpen, .tick now =>
    match getMission t.missionID st with
    | none => goto .ended st
    | some _ =>
      goto (.researchAdd 0) (updateMission now t.missionID
        (fun m => ({ m with mode := "research", status := .active }, none)) st).2
  | .researchAdd k, .tick now =>
    match researchSteps[k]? with
    | none => goto (.researchStart 0) st
    | some (_, title, tool) =>
      let deps := if k = 0 then [] else (researchSteps[k - 1]?.map fun s => s.1).toList
      goto (.researchAdd (k + 1)) (updateMission now t.missionID
        (addQuest title "suparna_vpc" tool (some []) deps 30) st).2
  | .researchStart k, .tick now =>
    match researchSteps[k]? with
    | none => goto .researchClose st
    | some (qid, _, _) =>
      let st' := (updateMission now t.missionID (researchSetQuest qid .running none []) st).2
      let started := ((getMission t.missionID st').bind fun m => m.findQuest qid).toList
      some ({ t with pc := .researchWork k }, st', started.map .started)
  | .researchWork k, .stage now res =>
    match researchSteps[k]? with
    | none => none
    | some (qid, _, _) =>
      match res with
      | .ok v =>
        goto (.researchStart (k + 1))
          (updateMission now t.missionID (researchSetQuest qid .done v []) st).2
      | .error e =>
        if k < researchBlocking then
          goto (.researchFail e)
            (updateMission now t.missionID (researchSetQuest qid .failed none e) st).2
        else none
  | .researchFail err, .write now summary =>
    goto .ended (updateMission now t.missionID (researchFailMission summary err) st).2
  | .researchClose, .write now summary =>
    goto .ended (updateMission now t.missionID
      (fun m => ({ m with status := .done, summary := summary }, none)) st).2
  | _, _ => none

/-!
## Plans

What `planQuests` lets through of the quests that the planner answers. Blank titles and unknown tools
go, dependencies outside of the answer go, and a quest whose parameters quote the result of another one
gets it as a dependency.
-/

/-- A quest as the planner answers it. -/
structure AnsweredQuest where
  title : GoString
  tool : GoString
  params : Params
  dependsOn : List Int

/-- The number of a reference, two braces, `q`, a number and a dot, at the start of a text. -/
def depRef : GoString → Option GoString
  | 0x7B :: 0x7B :: 0x71 :: s =>
    let digits := s.takeWhile isDigit
    match s.dropWhile isDigit with
    | 0x2E :: _ => if digits = [] then none else some digits
    | _ => none
  | _ => none

/-- `depRefRe.FindAllStringSubmatch`. No two references overlap. -/
def depRefs : GoString → List GoString
  | [] => []
  | c :: s => (depRef (c :: s)).toList ++ depRefs s

/-- A reference in the quest at index `i` of `len`. -/
def wireRef (len i : Nat) (deps : List Nat) (ref : GoString) : List Nat :=
  match atoi ref with
  | none => deps
  | some n =>
    if n < 1 ∨ (len : Int) < n ∨ n = i + 1 ∨ n.toNat ∈ deps then deps else deps ++ [n.toNat]

/-- The references in the texts among the parameters. -/
def paramRefs (params : Params) : List GoString :=
  (params.getD []).flatMap fun p =>
    match p.2 with
    | .str s => depRefs s
    | _ => []

/-- `autoWireDeps`, which ranges over the parameters in any order. -/
def autoWireDeps (quests : List PlannedQuest) : List PlannedQuest :=
  quests.mapIdx fun i q =>
    { q with dependsOn := (paramRefs q.params).foldl (wireRef quests.length i) q.dependsOn }

/-- `planQuests`, from the answer of the planner on: `none` is its error. The loop looks at the bound
after it has taken a quest. -/
def planQuests (known : GoString → Bool) (maxQuests : Nat) (answer : List AnsweredQuest) :
    Option (List PlannedQuest) :=
  let plan (q : AnsweredQuest) : PlannedQuest :=
    { title := q.title
      tool := q.tool
      params := some (q.params.getD [])
      dependsOn :=
        (q.dependsOn.filter fun d : Int => 1 ≤ d ∧ d ≤ (answer.length : Int)).map Int.toNat }
  let valid := (answer.filter fun q => trimSpace q.title ≠ [] ∧ known q.tool).map plan
  match autoWireDeps (valid.take (max 1 maxQuests)) with
  | [] => none
  | pq :: plan => some (pq :: plan)

theorem autoWireDeps_title {quests : List PlannedQuest} {pq : PlannedQuest}
    (h : pq ∈ autoWireDeps quests) : ∃ q ∈ quests, q.title = pq.title := by
  unfold autoWireDeps at h
  rw [List.mem_mapIdx] at h
  obtain ⟨i, hi, rfl⟩ := h
  exact ⟨quests[i], List.getElem_mem hi, rfl⟩

/-- A planned quest has a title. -/
theorem planQuests_title {known : GoString → Bool} {maxQuests : Nat} {answer : List AnsweredQuest}
    {plan : List PlannedQuest} (h : planQuests known maxQuests answer = some plan) :
    ∀ pq ∈ plan, pq.title ≠ [] := by
  have hvalid : ∀ pq ∈ plan, ∃ q ∈ answer, trimSpace q.title ≠ [] ∧ q.title = pq.title := by
    intro pq hpq
    unfold planQuests at h
    dsimp only at h
    split at h
    · exact nomatch h
    · rename_i heq
      cases h
      rw [← heq] at hpq
      obtain ⟨q, hq, htitle⟩ := autoWireDeps_title hpq
      obtain ⟨a, ha, rfl⟩ := List.mem_map.1 (List.mem_of_mem_take hq)
      obtain ⟨hmem, hcond⟩ := List.mem_filter.1 ha
      have hcond := of_decide_eq_true hcond
      exact ⟨a, hmem, hcond.1, htitle⟩
  intro pq hpq hempty
  obtain ⟨q, -, htrim, htitle⟩ := hvalid pq hpq
  rw [htitle, hempty] at htrim
  exact htrim rfl

/-- References become dependencies, except on the quest itself. -/
example : wireRef 3 0 [] "2" = [2] ∧ wireRef 3 1 [] "2" = [] ∧ wireRef 3 0 [] "4" = [] := by decide

end Gafam.Orchestrator
