import Gafam.Lib.Steps
import Gafam.Orchestrator.Executions
import Gafam.Orchestrator.Proofs.EffectProofs
import Gafam.Orchestrator.Proofs.OriginProofs
import Gafam.Orchestrator.Proofs.GuardProofs

/-!
# Starts and ends of executions

One step of the relay starts the tool of one quest at most. It does so after the first half of
`RunQuest` has found the quest claimed or failed, or for a stage of the research.
-/

namespace Gafam.Orchestrator

open Gafam.Go Gafam.Lib Gafam.Moksa

/-! ## Threads and calls -/

/-- What a step does to the threads and the calls. The threads that are new run no tool yet. -/
inductive SysStepped (sys : System) : SysAct → List Thread → List (GoString × GoString) → Prop
  | thread {now k : Nat} {act : ThreadAct} {t t' : Thread} {st : Store} {es : List Event}
    {new : List Thread} (ht : sys.threads[k]? = some t)
    (hstep : t.step sys.perm sys.approval sys.store act = some (t', st, es))
    (hnew : ∀ t ∈ new, t.pc.toolFree = true) :
    SysStepped sys (.thread now k act) (sys.threads.set k t' ++ new) sys.calls
  | called {now : Nat} {id x : GoString} {m : Mission} {new : List Thread}
    (hu : (updateMission now id (runQuestStart sys.perm x) sys.store).1 = .ok m)
    (hnew : ∀ t ∈ new, t.pc.toolFree = true) :
    SysStepped sys (.callStart now id x) (sys.threads ++ new) (sys.calls ++ [(id, x)])
  | returned {now : Nat} {id x : GoString} {res : Except GoString Json}
    (hcall : (id, x) ∈ sys.calls) :
    SysStepped sys (.callFinish now id x res) sys.threads (sys.calls.erase (id, x))
  | restarted : SysStepped sys .restart [] []
  | other {act : SysAct} {new : List Thread} (hthread : ∀ now k a, act ≠ .thread now k a)
    (hfinish : ∀ now id x res, act ≠ .callFinish now id x res)
    (hnew : ∀ t ∈ new, t.pc.toolFree = true) : SysStepped sys act (sys.threads ++ new) sys.calls

/-- A delegation. -/
theorem delegate_threads (now : Nat) (caller : GoString × GoString) (sys : System) (q : Quest) :
    ∃ new, (∀ t ∈ new, t.pc.toolFree = true) ∧
      (delegate now caller sys q).threads = sys.threads ++ new ∧
      (delegate now caller sys q).calls = sys.calls := by
  rcases delegate_cases now caller sys q with h | ⟨-, karakaID, st, h⟩
  · rw [h]
    exact ⟨[], nofun, (List.append_nil _).symm, rfl⟩
  · rw [h]
    refine ⟨_, fun t ht => ?_, rfl, rfl⟩
    rw [List.mem_singleton.1 ht]
    rfl

/-- A launch. -/
theorem launch_threads (id karakaID mode : GoString) (requireApproval : Bool) (sys : System) :
    ∃ new, (∀ t ∈ new, t.pc.toolFree = true) ∧
      ((launchOrchestration id karakaID mode requireApproval sys).getD sys).threads =
        sys.threads ++ new ∧
      ((launchOrchestration id karakaID mode requireApproval sys).getD sys).calls = sys.calls := by
  unfold launchOrchestration
  split_ifs
  · exact ⟨[], nofun, (List.append_nil _).symm, rfl⟩
  · refine ⟨[⟨.research, id, "suparna_vpc", 0, .researchOpen⟩], fun t ht => ?_, rfl, rfl⟩
    rw [List.mem_singleton.1 ht]
    rfl
  · refine ⟨[⟨.orchestration, id, karakaID, 0, .plan⟩], fun t ht => ?_, rfl, rfl⟩
    rw [List.mem_singleton.1 ht]
    rfl

theorem unlock_threads (t : Thread) (sys : System) :
    (unlock t sys).threads = sys.threads ∧ (unlock t sys).calls = sys.calls := by
  unfold unlock
  split_ifs <;> exact ⟨rfl, rfl⟩

theorem delegateAll_threads (now : Nat) (t : Thread) (es : List Event) (sys : System) :
    ∃ new, (∀ t ∈ new, t.pc.toolFree = true) ∧
      (delegateAll now t es sys).threads = sys.threads ++ new ∧
      (delegateAll now t es sys).calls = sys.calls := by
  have key : ∀ (qs : List Quest) (sys : System),
      ∃ new, (∀ t ∈ new, t.pc.toolFree = true) ∧
        (qs.foldl (fun sys q => delegate now (t.missionID, q.id) sys q) sys).threads =
          sys.threads ++ new ∧
        (qs.foldl (fun sys q => delegate now (t.missionID, q.id) sys q) sys).calls = sys.calls := by
    intro qs
    induction qs with
    | nil => exact fun sys => ⟨[], nofun, (List.append_nil _).symm, rfl⟩
    | cons q qs ih =>
      intro sys
      obtain ⟨new, hnew, hth, hcalls⟩ := delegate_threads now (t.missionID, q.id) sys q
      obtain ⟨new', hnew', hth', hcalls'⟩ := ih (delegate now (t.missionID, q.id) sys q)
      refine ⟨new ++ new', fun t ht => ?_, ?_, ?_⟩
      · rcases List.mem_append.1 ht with ht | ht
        · exact hnew t ht
        · exact hnew' t ht
      · rw [List.foldl_cons, hth', hth, List.append_assoc]
      · rw [List.foldl_cons, hcalls', hcalls]
  unfold delegateAll
  split
  · exact key _ sys
  · exact ⟨[], nofun, (List.append_nil _).symm, rfl⟩

/-- Every step of the relay. -/
theorem sysStep_cases {sys sys' : System} {act : SysAct} (h : sysStep sys act = some sys') :
    SysStepped sys act sys'.threads sys'.calls := by
  have hsame : ∀ {act : SysAct}, (∀ now k a, act ≠ .thread now k a) →
      (∀ now id x res, act ≠ .callFinish now id x res) →
      SysStepped sys act sys.threads sys.calls := by
    intro act hthread hfinish
    have hother : SysStepped sys act (sys.threads ++ []) sys.calls := .other hthread hfinish nofun
    rwa [List.append_nil] at hother
  cases act with
  | thread now k act =>
    obtain ⟨t, t', st, es, ht, -, hts, rfl⟩ := threadStep_cases h
    obtain ⟨hth, hcalls⟩ := unlock_threads t' (delegateAll now t es
      { sys with
        store := st
        threads := sys.threads.set k t'
        log := sys.log ++ es.filterMap (SysEvent.ofEvent sys.perm t) })
    obtain ⟨new, hnew, hth', hcalls'⟩ := delegateAll_threads now t es
      { sys with
        store := st
        threads := sys.threads.set k t'
        log := sys.log ++ es.filterMap (SysEvent.ofEvent sys.perm t) }
    rw [hth, hcalls, hth', hcalls']
    exact .thread ht hts hnew
  | run now req =>
    cases h
    have hlaunch : ∀ (id karakaID : GoString) (sys' : System), sys'.threads = sys.threads →
        sys'.calls = sys.calls →
        SysStepped sys (.run now req)
          ((launchOrchestration id karakaID req.mode req.requireApproval sys').getD sys').threads
          ((launchOrchestration id karakaID req.mode req.requireApproval sys').getD sys').calls := by
      intro id karakaID sys' hth hcalls
      obtain ⟨new, hnew, hth', hcalls'⟩ :=
        launch_threads id karakaID req.mode req.requireApproval sys'
      rw [hth', hcalls', hth, hcalls]
      exact .other nofun nofun hnew
    unfold orchestratorRun
    extract_lets karakaID
    split_ifs
    · exact hsame nofun nofun
    · cases getMission req.missionID sys.store with
      | none => exact hsame nofun nofun
      | some m => exact hlaunch req.missionID karakaID sys rfl rfl
    · exact hlaunch _ karakaID _ rfl rfl
    · exact hsame nofun nofun
  | trigger now instruction mode cron =>
    cases h
    unfold Orchestrator.trigger
    dsimp only
    generalize hsys' : (if cron = true then _ else _ : System) = sys'
    have hth : sys'.threads = sys.threads := by
      rw [← hsys']
      split_ifs <;> rfl
    have hcalls : sys'.calls = sys.calls := by
      rw [← hsys']
      split_ifs <;> rfl
    obtain ⟨new, hnew, hth', hcalls'⟩ :=
      launch_threads (createMission now instruction sys).1.id "suparna_vpc" mode false sys'
    cases hl : launchOrchestration (createMission now instruction sys).1.id "suparna_vpc" mode false
        sys' with
    | none =>
      dsimp only
      rw [hth, hcalls]
      exact hsame nofun nofun
    | some sys'' =>
      rw [hl] at hth' hcalls'
      dsimp only [Option.getD_some] at hth' hcalls' ⊢
      rw [hth', hcalls', hth, hcalls]
      exact .other nofun nofun hnew
  | resume id =>
    unfold sysStep resumeInterrupted at h
    dsimp only at h
    by_cases hres : ¬ sys.resuming = true
    · rw [if_pos hres] at h
      exact nomatch h
    rw [if_neg hres] at h
    cases id with
    | none =>
      dsimp only at h
      split_ifs at h
      cases h
      exact hsame nofun nofun
    | some id =>
      dsimp only at h
      cases hm : getMission id sys.store with
      | none => rw [hm] at h; exact nomatch h
      | some m =>
        rw [hm] at h
        dsimp only at h
        split_ifs at h
        cases h
        obtain ⟨new, hnew, hth, hcalls⟩ :=
          launch_threads id "suparna_vpc" [] false { sys with resuming := false }
        rw [hth, hcalls]
        exact .other nofun nofun hnew
  | restart => cases h; exact .restarted
  | callStart now id x =>
    cases h
    unfold runHandlerStart
    cases hu : updateMission now id (runQuestStart sys.perm x) sys.store with
    | mk res st =>
      cases res with
      | error e => exact hsame nofun nofun
      | ok m =>
        dsimp only
        have hu' : (updateMission now id (runQuestStart sys.perm x) sys.store).1 = .ok m := by
          rw [hu]
        cases m.findQuest x with
        | none =>
          have hcalled : SysStepped sys (.callStart now id x) (sys.threads ++ [])
              (sys.calls ++ [(id, x)]) := .called hu' nofun
          rwa [List.append_nil] at hcalled
        | some q =>
          obtain ⟨new, hnew, hth, hcalls⟩ := delegate_threads now (id, x)
            { sys with store := st, calls := sys.calls ++ [(id, x)] } q
          dsimp only
          rw [hth, hcalls]
          exact .called hu' hnew
  | callFinish now id x res =>
    unfold sysStep runHandlerFinish at h
    dsimp only at h
    split_ifs at h with hc
    cases h
    exact .returned hc.1
  | create now instruction quests =>
    cases h
    unfold createHandler
    split_ifs <;> exact hsame nofun nofun
  | approve now id qid approve reason =>
    cases h
    unfold approveHandler
    rcases updateMission now id (approveQuest qid approve reason) sys.store with ⟨e | m, st⟩ <;>
      exact hsame nofun nofun
  | reward now id qid verdict score reason autoAdd =>
    cases h
    unfold rewardHandler
    cases parseVerdict verdict <;> exact hsame nofun nofun
  | delete id =>
    cases h
    unfold deleteHandler
    dsimp only
    split_ifs <;> exact hsame nofun nofun
  | persist id =>
    cases h
    unfold Orchestrator.persist
    cases getMission id sys.store <;> exact hsame nofun nofun
  | claim now id qid karakaID => cases h; exact hsame nofun nofun
  | addQuest now id title organHint tool params dependsOn eta => cases h; exact hsame nofun nofun
  | synthesize now id summary => cases h; exact hsame nofun nofun
  | setPermissions perm => cases h; exact hsame nofun nofun

/-! ## Starts and ends -/

/-- The operation starts the tool of the quest `x` of the mission `id`. -/
inductive Starts (st : Store) (id x : GoString) : BoardOp → Prop
  | run {perm : GoString → GoString → Permission} {m : Mission} {q : Quest}
    (hm : getMission id st = some m) (hq : m.findQuest x = some q)
    (hok : (runStartOne perm m.status q).2 = none) : Starts st id x (.runStart perm x)
  | research : Starts st id x (.research x .running none [])

/-- The counts `f` become `f'` when an execution starts, or ends as `e` says, or nothing of this. -/
inductive Recount (f f' : GoString → GoString → Nat) (start : GoString → GoString → Prop) :
    Option (GoString × GoString × Except GoString (Option Json)) → Prop
  | kept (h : ∀ id x, f' id x = f id x) : Recount f f' start none
  | started {i y : GoString} (hstart : start i y)
    (h : ∀ id x, f' id x = f id x + if i = id ∧ y = x then 1 else 0) : Recount f f' start none
  | ended {i y : GoString} {res : Except GoString (Option Json)}
    (h : ∀ id x, f' id x + (if i = id ∧ y = x then 1 else 0) = f id x) :
    Recount f f' start (some (i, y, res))

/-- What `RunQuest` has found when its first half succeeds. -/
theorem runQuestStart_ok {now : Nat} {id x : GoString} {perm : GoString → GoString → Permission}
    {st : Store} {m' : Mission}
    (hu : (updateMission now id (runQuestStart perm x) st).1 = .ok m') :
    ∃ m q, getMission id st = some m ∧ m.findQuest x = some q ∧
      (runStartOne perm m.status q).2 = none := by
  cases hm : getMission id st with
  | none =>
    have hm' : st.missions.lookup id = none := hm
    unfold updateMission at hu
    rw [hm'] at hu
    cases hu
  | some m =>
    cases hq : m.findQuest x with
    | none =>
      have hm' : st.missions.lookup id = some m := hm
      unfold updateMission at hu
      rw [hm'] at hu
      simp only [runQuestStart, hq] at hu
      cases hu
    | some q =>
      rw [updateMission_local now (runQuestStart_local perm x) hm hq] at hu
      cases he : (runStartOne perm m.status q).2 with
      | some e => rw [he] at hu; cases hu
      | none => exact ⟨m, q, rfl, hq, he⟩

/-- The quest that `RunQuest` starts was claimed or had failed, and it runs now. -/
theorem runStartOne_ok {perm : GoString → GoString → Permission} {μ : MissionStatus} {q : Quest}
    (h : (runStartOne perm μ q).2 = none) :
    (q.status = .claimed ∨ q.status = .failed) ∧ (runStartOne perm μ q).1.status = .running := by
  unfold runStartOne at h ⊢
  by_cases hst : q.status ≠ .claimed ∧ q.status ≠ .failed
  · rw [if_pos hst] at h
    exact nomatch h
  rw [if_neg hst] at h ⊢
  by_cases htool : q.tool = []
  · rw [if_pos htool] at h
    exact nomatch h
  rw [if_neg htool] at h ⊢
  by_cases hclaim : q.claim = []
  · rw [if_pos hclaim] at h
    exact nomatch h
  rw [if_neg hclaim] at h ⊢
  by_cases hperm : perm q.claim q.tool = .deny
  · rw [if_pos hperm] at h
    exact nomatch h
  rw [if_neg hperm] at h ⊢
  refine ⟨?_, rfl⟩
  by_cases hc : q.status = .claimed
  · exact .inl hc
  · right
    by_contra hf
    exact hst ⟨hc, hf⟩

/-- A goroutine that comes to wait for the tool has just started it. -/
theorem step_executing {r : Run} {h : Host} {q : Quest} {st : Store} {pc : WorkerPc}
    (hex : (pc.step r h q st).1.executing = true) :
    (∃ attempt, pc = .run attempt) ∧
      ∃ m f, getMission r.missionID st = some m ∧ m.findQuest q.id = some f ∧
        (runStartOne h.perm m.status f).2 = none := by
  have hobserve : ∀ attempt e, (WorkerPc.observe attempt e).executing = false := by
    intro attempt e
    unfold WorkerPc.observe
    split_ifs <;> rfl
  cases pc with
  | run attempt =>
    unfold WorkerPc.step at hex
    dsimp only at hex
    cases hu : updateMission h.now r.missionID (runQuestStart h.perm q.id) st with
    | mk res st' =>
      rw [hu] at hex
      cases res with
      | error e => rw [hobserve] at hex; exact nomatch hex
      | ok m' => exact ⟨⟨attempt, rfl⟩, runQuestStart_ok (by rw [hu])⟩
  | gate =>
    unfold WorkerPc.step at hex
    dsimp only at hex
    cases hp : h.perm r.karakaID q.tool <;> rw [hp] at hex
    · exact nomatch hex
    · dsimp only at hex
      split_ifs at hex <;> exact nomatch hex
    · exact nomatch hex
  | interpolate =>
    unfold WorkerPc.step at hex
    dsimp only at hex
    split_ifs at hex <;> exact nomatch hex
  | claim =>
    unfold WorkerPc.step at hex
    dsimp only at hex
    rcases hu : updateMission h.now r.missionID (claimQuest q.id r.karakaID) st with ⟨e | m, st'⟩ <;>
      (rw [hu] at hex; exact nomatch hex)
  | tool attempt =>
    unfold WorkerPc.step at hex
    dsimp only at hex
    rcases hu : updateMission h.now r.missionID (runQuestFinish q.id h.tool) st with ⟨e | m, st'⟩
    · rw [hu] at hex
      rw [hobserve] at hex
      exact nomatch hex
    · rw [hu] at hex
      dsimp only at hex
      cases hf : m.findQuest q.id with
      | none => rw [hf] at hex; rw [hobserve] at hex; exact nomatch hex
      | some f =>
        rw [hf] at hex
        dsimp only at hex
        split_ifs at hex
        · exact nomatch hex
        all_goals rw [hobserve] at hex; exact nomatch hex
  | repair attempt lastErr =>
    unfold WorkerPc.step at hex
    dsimp only at hex
    cases hr : h.repair with
    | none => rw [hr] at hex; exact nomatch hex
    | some p =>
      rw [hr] at hex
      dsimp only at hex
      rcases hu : updateMission h.now r.missionID
        (setQuest q.id fun qq => { qq with params := p, error := [] }) st with ⟨e | m, st'⟩ <;>
        (rw [hu] at hex; exact nomatch hex)
  | _ => exact nomatch hex

/-- The goroutines that wait for the tool of the quest `x`. -/
def waiting (x : GoString) (workers : List (Quest × WorkerPc)) : Nat :=
  workers.countP fun w => decide (w.1.id = x) && w.2.executing

theorem waiting_eq_zero {x : GoString} {workers : List (Quest × WorkerPc)}
    (h : ∀ w ∈ workers, w.2.executing = false) : waiting x workers = 0 := by
  refine List.countP_eq_zero.2 fun w hw => ?_
  rw [h w hw, Bool.and_false]
  exact Bool.false_ne_true

/-- One goroutine moves. -/
theorem waiting_set {x : GoString} {workers : List (Quest × WorkerPc)} {k : Nat} {q : Quest}
    {pc : WorkerPc} (hk : workers[k]? = some (q, pc)) (pc' : WorkerPc) :
    waiting x (workers.set k (q, pc')) + (if q.id = x ∧ pc.executing = true then 1 else 0) =
      waiting x workers + if q.id = x ∧ pc'.executing = true then 1 else 0 := by
  obtain ⟨hlt, hget⟩ := List.getElem?_eq_some_iff.1 hk
  have hset := List.countP_set (p := fun w : Quest × WorkerPc => decide (w.1.id = x) && w.2.executing)
    (a := (q, pc')) hlt
  have hle := List.boole_getElem_le_countP
    (p := fun w : Quest × WorkerPc => decide (w.1.id = x) && w.2.executing) hlt
  rw [hget] at hset hle
  simp only [Bool.and_eq_true, decide_eq_true_eq] at hset hle
  unfold waiting
  omega

theorem executions_levels {t : Thread} {r : Run} {s : Levels} (h : t.pc = .levels r s)
    (id x : GoString) :
    t.executions id x = if r.missionID = id then waiting x s.phase.workers else 0 := by
  unfold Thread.executions
  rw [h]
  rfl

/-- In the levels, an idle thread has returned from them. -/
theorem returned_of_idle {r : Run} {s : Levels} (h : (ThreadPc.levels r s).idle = true) :
    s.phase = .returned := by
  unfold ThreadPc.idle at h
  dsimp only at h
  cases hp : s.phase with
  | returned => rfl
  | _ => rw [hp] at h; exact nomatch h

theorem executions_idle {t : Thread} (h : t.pc.idle = true) (id x : GoString) :
    t.executions id x = 0 := by
  cases hpc : t.pc with
  | levels r s =>
    rw [hpc] at h
    rw [executions_levels hpc, returned_of_idle h]
    exact ite_self 0
  | researchWork k => rw [hpc] at h; exact nomatch h
  | _ => unfold Thread.executions; rw [hpc]

theorem ends_idle {t : Thread} (h : t.pc.idle = true) (act : ThreadAct) : t.ends act = none := by
  cases act with
  | level a =>
    cases a with
    | work k host =>
      unfold Thread.ends
      dsimp only
      cases hpc : t.pc with
      | levels r s =>
        rw [hpc] at h
        dsimp only
        rw [returned_of_idle h]
        rfl
      | _ => rfl
    | _ => rfl
  | stage now res =>
    unfold Thread.ends
    dsimp only
    cases hpc : t.pc with
    | researchWork k => rw [hpc] at h; exact nomatch h
    | _ => rfl
  | _ => rfl

theorem idle_of_toolFree {pc : ThreadPc} (h : pc.toolFree = true) : pc.idle = true := by
  cases pc with
  | levels r s => exact nomatch h
  | researchWork k => exact nomatch h
  | _ => rfl

theorem executions_toolFree {t : Thread} (h : t.pc.toolFree = true) (id x : GoString) :
    t.executions id x = 0 := executions_idle (idle_of_toolFree h) id x

/-- The operations of a goroutine that moves. -/
theorem work_ops {r : Run} {s : Levels} {k : Nat} {h : Host} {q : Quest} {pc : WorkerPc}
    (hk : s.phase.workers[k]? = some (q, pc)) :
    Act.ops r s (.work k h) = (pc.ops r h q).map fun op => (h.now, op) := by
  unfold Act.ops
  cases hp : s.phase with
  | level workers =>
    rw [hp] at hk
    have hk' : workers[k]? = some (q, pc) := hk
    dsimp only
    rw [hk']
  | _ => rw [hp] at hk; exact nomatch hk

/-- The end of an execution by a goroutine. -/
theorem ends_tool {t : Thread} {r : Run} {s : Levels} {k attempt : Nat} {q : Quest}
    (hpc : t.pc = .levels r s) (hk : s.phase.workers[k]? = some (q, .tool attempt)) (h : Host) :
    t.ends (.level (.work k h)) = some (r.missionID, q.id, h.tool.map some) := by
  unfold Thread.ends
  dsimp only
  rw [hpc]
  dsimp only
  rw [hk]

/-- The end of a stage of the research. -/
theorem ends_stage {t : Thread} {k : Nat} {stage : GoString × GoString × GoString}
    (hpc : t.pc = .researchWork k) (hstage : researchSteps[k]? = some stage) (now : Nat)
    (res : Except GoString (Option Json)) :
    t.ends (.stage now res) = some (t.missionID, stage.1, res) := by
  unfold Thread.ends
  dsimp only
  rw [hpc]
  dsimp only
  rw [hstage]
  rfl

/-- A step of a thread. -/
theorem thread_recount {perm : GoString → GoString → Permission} {approval : Bool} {t t' : Thread}
    {st st' : Store} {act : ThreadAct} {es : List Event}
    (h : t.step perm approval st act = some (t', st', es)) :
    Recount (fun id x => t.executions id x) (fun id x => t'.executions id x)
      (fun i y => ∃ now op, t.ops perm act = [.update now i op] ∧ Starts st i y op)
      (t.ends act) := by
  cases thread_step_cases h with
  | quiet hidle hto =>
    rw [ends_idle hidle]
    refine .kept fun id x => ?_
    rw [executions_idle hidle, executions_toolFree hto]
  | execute hpc =>
    have hidle : t.pc.idle = true := by rw [hpc]; rfl
    rw [ends_idle hidle]
    refine .kept fun id x => ?_
    rw [executions_idle hidle, executions_levels rfl]
    have hphase : (Levels.start (t.run approval) st).phase.workers = [] := by
      rcases start_phase (t.run approval) st with hp | hp <;> rw [hp] <;> rfl
    rw [hphase]
    exact ite_self 0
  | @level r s s' act st' hpc hstep =>
    have hold := executions_levels hpc
    have hnew : ∀ id x, Thread.executions id x { t with pc := .levels r s' } =
        if r.missionID = id then waiting x s'.phase.workers else 0 :=
      executions_levels rfl
    rcases stepped_workers (step_cases hstep) with
      ⟨-, hact, hfinished, hqueued⟩ | ⟨k, host, q, pc, hact, hk, hworkers, -, -⟩
    · have hends : t.ends (.level act) = none := by
        cases act with
        | work k h₀ => exact absurd rfl (hact k _)
        | _ => rfl
      rw [hends]
      refine .kept fun id x => ?_
      have hbefore : waiting x s.phase.workers = 0 :=
        waiting_eq_zero fun w hw => by rw [hfinished w hw]; rfl
      have hafter : waiting x s'.phase.workers = 0 :=
        waiting_eq_zero fun w hw => by rw [hqueued w hw]; rfl
      rw [hold, hnew, hbefore, hafter]
    · have hw : ∀ x, waiting x s'.phase.workers =
          waiting x (s.phase.workers.set k (q, (pc.step r host q st).1)) := by
        intro x
        rw [hworkers]
      obtain ⟨h₀, rfl, rfl⟩ : ∃ h₀, act = .work k h₀ ∧ host = { h₀ with perm := perm } := by
        cases act with
        | work k' h₀ => cases hact; exact ⟨h₀, rfl, rfl⟩
        | _ => exact nomatch hact
      have hset := fun x => waiting_set (x := x) hk (pc.step r { h₀ with perm := perm } q st).1
      by_cases hpc' : (pc.step r { h₀ with perm := perm } q st).1.executing = true
      · obtain ⟨⟨attempt, rfl⟩, m, f, hm, hf, hok⟩ := step_executing hpc'
        have hends : t.ends (.level (.work k h₀)) = none := by
          unfold Thread.ends
          dsimp only
          rw [hpc]
          dsimp only
          rw [hk]
        rw [hends]
        refine .started (i := r.missionID) (y := q.id)
          ⟨h₀.now, .runStart perm q.id, ?_, .run hm hf hok⟩ fun id x => ?_
        · unfold Thread.ops
          dsimp only
          rw [hpc]
          dsimp only
          rw [hact, work_ops hk]
          rfl
        · have hx := hset x
          rw [← hw x] at hx
          rw [hold, hnew]
          have hrun : (WorkerPc.run attempt).executing = false := rfl
          by_cases hid : r.missionID = id
          · simpa [hid, hpc', hrun] using hx
          · simp [hid]
      · cases hex : pc.executing with
        | true =>
          obtain ⟨attempt, rfl⟩ : ∃ attempt, pc = .tool attempt := by
            cases pc with
            | tool attempt => exact ⟨attempt, rfl⟩
            | _ => exact nomatch hex
          rw [ends_tool hpc hk]
          refine .ended fun id x => ?_
          have hx := hset x
          rw [← hw x] at hx
          rw [hold, hnew]
          have htool : (WorkerPc.tool attempt).executing = true := rfl
          by_cases hid : r.missionID = id
          · simpa [hid, hpc', htool] using hx
          · simp [hid]
        | false =>
          have hends : t.ends (.level (.work k h₀)) = none := by
            unfold Thread.ends
            dsimp only
            rw [hpc]
            dsimp only
            rw [hk]
            cases pc with
            | tool attempt => exact nomatch hex
            | _ => rfl
          rw [hends]
          refine .kept fun id x => ?_
          have hx := hset x
          rw [← hw x] at hx
          rw [hold, hnew]
          by_cases hid : r.missionID = id
          · simpa [hid, hpc', hex] using hx
          · simp [hid]
  | @research now k stage hpc hstage =>
    have hidle : t.pc.idle = true := by rw [hpc]; rfl
    rw [ends_idle hidle]
    refine .started (i := t.missionID) (y := stage.1) ⟨now, .research stage.1 .running none [], ?_, .research⟩ ?_
    · unfold Thread.ops
      dsimp only
      rw [hpc]
      dsimp only
      rw [hstage]
    · intro id x
      rw [executions_idle hidle]
      unfold Thread.executions
      dsimp only
      rw [hstage]
      simp
  | @stage now k res stage pc st' hpc hstage hto =>
    rw [ends_stage hpc hstage]
    refine .ended fun id x => ?_
    have hto' : Thread.executions id x { t with pc := pc } = 0 := executions_toolFree hto id x
    rw [hto']
    unfold Thread.executions
    rw [hpc]
    dsimp only
    rw [hstage]
    simp

theorem sum_executions_toolFree {new : List Thread} (h : ∀ t ∈ new, t.pc.toolFree = true)
    (id x : GoString) : (new.map (Thread.executions id x)).sum = 0 := by
  induction new with
  | nil => rfl
  | cons t new ih =>
    rw [List.map_cons, List.sum_cons, executions_toolFree (h t (List.mem_cons_self ..)),
      ih fun t ht => h t (List.mem_cons_of_mem _ ht)]

/-- A step of the relay, if it is no restart. -/
theorem sysStep_recount {sys sys' : System} {act : SysAct} (hact : act ≠ .restart)
    (h : sysStep sys act = some sys') :
    Recount (executions sys) (executions sys')
      (fun i y => ∃ now op rest, ops sys act = .update now i op :: rest ∧
        (∀ o ∈ rest, Delegated o) ∧ Starts sys.store i y op)
      (ends sys act) := by
  have hcases := sysStep_cases h
  have hsum : ∀ id x, executions sys' id x =
      sys'.calls.count (id, x) + (sys'.threads.map (Thread.executions id x)).sum := fun _ _ => rfl
  revert hsum hcases
  generalize sys'.threads = threads
  generalize sys'.calls = calls
  intro hcases hsum
  cases hcases with
  | @thread now k act t t' st es new ht hstep hnew =>
    have hcount : ∀ id x, executions sys' id x + t.executions id x =
        executions sys id x + t'.executions id x := by
      intro id x
      have hset := sum_map_set ht t' (Thread.executions id x)
      rw [hsum, List.map_append, List.sum_append, sum_executions_toolFree hnew]
      unfold executions
      omega
    have hends : ends sys (.thread now k act) = t.ends act := by
      unfold ends
      dsimp only
      rw [ht]
      rfl
    rw [hends]
    have hrec := thread_recount hstep
    revert hrec
    generalize t.ends act = e
    intro hrec
    cases hrec with
    | kept hkept =>
      refine .kept fun id x => ?_
      have h1 := hcount id x
      have h2 := hkept id x
      omega
    | @started i y hstart hplus =>
      obtain ⟨now', op, hops, hs⟩ := hstart
      refine .started (i := i) (y := y) ⟨now', op, ?_⟩ fun id x => ?_
      · unfold ops threadOps
        dsimp only
        rw [ht]
        dsimp only
        rw [hops]
        refine ⟨_, rfl, fun o ho => ?_, hs⟩
        split at ho
        · obtain ⟨q, -, hq⟩ := List.mem_flatMap.1 ho
          exact delegateOps_delegated o hq
        · exact nomatch ho
      · have h1 := hcount id x
        have h2 := hplus id x
        omega
    | @ended i y res hminus =>
      refine .ended fun id x => ?_
      have h1 := hcount id x
      have h2 := hminus id x
      omega
  | @called now id x m new hu hnew =>
    obtain ⟨m₀, q, hm, hq, hok⟩ := runQuestStart_ok hu
    refine .started (i := id) (y := x) ⟨now, .runStart sys.perm x, ?_⟩ fun id' x' => ?_
    · unfold ops
      dsimp only
      rw [hu]
      refine ⟨_, rfl, fun o ho => ?_, .run hm hq hok⟩
      obtain ⟨q', -, hq'⟩ := List.mem_flatMap.1 ho
      exact delegateOps_delegated o hq'
    · rw [hsum, List.map_append, List.sum_append, sum_executions_toolFree hnew, List.count_append]
      unfold executions
      by_cases heq : id = id' ∧ x = x'
      · obtain ⟨rfl, rfl⟩ := heq
        rw [if_pos ⟨rfl, rfl⟩, List.count_singleton_self]
        omega
      · have hne : ((id, x) == (id', x')) = false := by
          rw [beq_eq_false_iff_ne]
          intro hpair
          exact heq (Prod.mk.inj hpair)
        rw [if_neg heq, List.count_singleton, hne]
        simp
  | @returned now id x res hcall =>
    refine .ended fun id' x' => ?_
    rw [hsum]
    unfold executions
    by_cases heq : id = id' ∧ x = x'
    · obtain ⟨rfl, rfl⟩ := heq
      have hpos := List.count_pos_iff.2 hcall
      rw [if_pos ⟨rfl, rfl⟩, List.count_erase_self]
      omega
    · have hne : (id', x') ≠ (id, x) := by
        intro hpair
        obtain ⟨h1, h2⟩ := Prod.mk.inj hpair
        exact heq ⟨h1.symm, h2.symm⟩
      rw [if_neg heq, List.count_erase_of_ne hne]
      omega
  | restarted => exact absurd rfl hact
  | other hthread hfinish hnew =>
    have hends : ends sys act = none := by
      cases act with
      | thread now k a => exact absurd rfl (hthread now k a)
      | callFinish now id x res => exact absurd rfl (hfinish now id x res)
      | _ => rfl
    rw [hends]
    refine .kept fun id x => ?_
    rw [hsum, List.map_append, List.sum_append, sum_executions_toolFree hnew]
    rfl

/-!
## Quests that are over

A quest that is over is not executed again, as long as nobody takes its status away.
-/

/-! ### Quests that are over -/

/-- What an operation makes of a quest that is over. -/
theorem over_quest {op : BoardOp} {x : GoString} {μ : MissionStatus} {q : Quest} (h : Over q)
    (hx : op.target = some x) (hop : ¬ op.Revives x) : Over (op.quest μ q) := by
  have hst : ∀ s : QuestStatus, s ≠ .cancelled → s ≠ .done → q.status ≠ s := by
    intro s h1 h2 heq
    rcases h with h | h
    · exact h1 (heq.symm.trans h)
    · exact h2 (heq.symm.trans h)
  cases op with
  | claim y karakaID =>
    have hno : q.status ≠ .pending ∧ q.status ≠ .claimed :=
      ⟨hst .pending nofun nofun, hst .claimed nofun nofun⟩
    show Over (claimOne karakaID μ q).1
    unfold claimOne
    rw [if_pos hno]
    split_ifs <;> exact h
  | runStart perm y =>
    have hno : q.status ≠ .claimed ∧ q.status ≠ .failed :=
      ⟨hst .claimed nofun nofun, hst .failed nofun nofun⟩
    show Over (runStartOne perm μ q).1
    unfold runStartOne
    rw [if_pos hno]
    exact h
  | runFinish y res =>
    cases res with
    | ok v => exact .inr rfl
    | error e => exact absurd (Option.some.inj hx) hop
  | reward y verdict score reason autoAdd =>
    cases verdict with
    | done =>
      have hno : ¬ (q.status = .running ∨ q.status = .claimed ∨ q.status = .pending) := by
        rintro (h | h | h)
        · exact hst .running nofun nofun h
        · exact hst .claimed nofun nofun h
        · exact hst .pending nofun nofun h
      show Over (rewardOne true score reason μ q).1
      unfold rewardOne
      rw [if_pos rfl, if_neg hno]
      exact h
    | failed => exact absurd ⟨Option.some.inj hx, rfl⟩ hop
    | _ => exact h
  | approve y ok reason =>
    show Over (if q.status ≠ .waitingApproval then q else _)
    rw [if_pos (hst .waitingApproval nofun nofun)]
    exact h
  | cancel y reason => exact .inl rfl
  | park y => exact absurd (Option.some.inj hx) hop
  | reset y =>
    show Over (if q.status = .failed then _ else q)
    rw [if_neg (hst .failed nofun nofun)]
    exact h
  | research y status result err =>
    by_cases hs : status = .done
    · exact .inr hs
    · exact absurd ⟨Option.some.inj hx, hs⟩ hop
  | _ => exact h

theorem over_apply {b : Boards} {op : StoreOp} {id x : GoString} (h : FoundWith Over id x b)
    (hC : KeepsOver id x b op) : FoundWith Over id x (op.apply b) := by
  refine found_apply h ?_ ?_ ?_ ?_ ?_ ?_
  · rintro now instruction posed rfl
    exact hC
  · rintro rfl
    exact hC rfl
  · rintro rfl
    exact hC
  · rintro now bop rfl hx μ q hover
    exact over_quest hover hx (hC rfl)
  · intro now summary err hop q hover
    unfold failRunning
    split_ifs with hst
    · rcases hover with h | h <;> rw [h] at hst <;> exact nomatch hst
    · exact hover
  · rintro now quests rfl
    exact hC rfl trivial

/-- A step from a state where the quest is over does not start its tool. -/
theorem over_step {sys sys' : System} {act : SysAct} {id x : GoString} (h : FoundWith Over id x sys.boards)
    (hC : EachOp (KeepsOver id x) sys act) (hstep : sysStep sys act = some sys') :
    executions sys' id x ≤ executions sys id x := by
  have hact : act ≠ .restart := by
    rintro rfl
    exact hC.1
  have hrec := sysStep_recount hact hstep
  revert hrec
  generalize ends sys act = e
  intro hrec
  cases hrec with
  | kept hkept => exact Nat.le_of_eq (hkept id x)
  | ended hminus =>
    have := hminus id x
    omega
  | @started i y hstart hplus =>
    obtain ⟨now, op, rest, hops, -, hs⟩ := hstart
    have hne : ¬ (i = id ∧ y = x) := by
      rintro ⟨rfl, rfl⟩
      obtain ⟨q, hq, hover⟩ := h
      cases hs with
      | run hm hfq hok =>
        obtain ⟨m', hm', hfq'⟩ := find_some hq
        cases hm.symm.trans hm'
        cases hfq.symm.trans hfq'
        obtain ⟨hst, -⟩ := runStartOne_ok hok
        rcases hover with hover | hover <;> rw [hover] at hst <;> exact nomatch hst
      | research =>
        unfold EachOp at hC
        rw [hops] at hC
        exact hC.1 rfl ⟨rfl, nofun⟩
    have hplus' := hplus id x
    rw [if_neg hne] at hplus'
    exact Nat.le_of_eq hplus'

/-- The tool of a cancelled quest is not started again in any run whose operations leave the quest
over. -/
theorem cancelled_not_executed {sys : System} {acts : List SysAct} {id x : GoString} {q : Quest}
    (hq : boardFind sys id x = some q) (hst : q.status = .cancelled)
    (hC : StepsMeet sysStep (EachOp (KeepsOver id x)) sys acts) :
    StepsMeet sysStep
      (fun sys act => ∀ sys', sysStep sys act = some sys' →
        executions sys' id x ≤ executions sys id x) sys acts := by
  refine stepsMeet_imp_of_invariant (P := fun sys => FoundWith Over id x sys.boards)
    (fun sys act sys' h hC hstep => boards_step (fun b op => over_apply) h hC hstep)
    (fun sys act _ h hC sys' hstep => over_step h hC hstep) ?_ hC
  exact ⟨q, hq, .inl hst⟩

/-- A relay without missions, where every tool is allowed. -/
def openRelay : System := .boot ⟨∅, 0⟩ ∅ fun _ _ => .allow

/-- A board whose only quest a human rejects. -/
def rejectedRun : List SysAct :=
  [.create 0 "read" [{ boardQuest "q1" [] with status := .waitingApproval }],
    .approve 0 "m0-1" "q1" false []]

/-- A launch that takes the quest, which has failed before, to its tool. -/
def relaunch : List SysAct :=
  [.run 0 ⟨[], "m0-1", [], [], false⟩, .thread 0 0 (.reply none), .thread 0 0 (.tick 0),
    .thread 0 0 (.level (.head false)), .thread 0 0 (.level (.visit "q1" 0)),
    .thread 0 0 (.level .endScan)] ++
  List.replicate 6 (.thread 0 0 (.level (.work 0 (boardHost .allow))))

/-- The quest after its rejection. -/
def rejectedQuest : Quest :=
  { boardQuest "q1" [] with status := .cancelled, error := "rejected by human" }

/-- The relay after the rejection. -/
def rejectedSystem : System :=
  { openRelay with
    store := ⟨AList.singleton (str "m0-1")
      ⟨"m0-1", "read", [rejectedQuest], .active, [], [], none, 0, 0⟩, 1⟩
    log := [.created "m0-1"] }

theorem rejected_not_executed :
    StepsMeet sysStep
      (fun sys act => ∀ sys', sysStep sys act = some sys' →
        executions sys' "m0-1" "q1" ≤ executions sys "m0-1" "q1") rejectedSystem
      [.claim 0 "m0-1" "q1" "suparna_vpc", .callStart 0 "m0-1" "q1"] := by
  refine cancelled_not_executed (q := rejectedQuest) rfl rfl ?_
  have hclaim : sysStep rejectedSystem (.claim 0 "m0-1" "q1" "suparna_vpc") =
      some rejectedSystem := rfl
  refine stepsMeet_cons ⟨fun _ h => h, fun _ _ => trivial⟩ hclaim ?_
  exact ⟨⟨fun _ h => h, fun _ _ => trivial⟩, fun _ _ => trivial⟩

/-- A reward with the verdict `failed` brings the rejected quest back, and the next launch runs it. -/
theorem rejected_then_executed : ∃ sys sys',
    runSteps sysStep openRelay rejectedRun = some sys ∧
      boardFind sys "m0-1" "q1" = some rejectedQuest ∧ executions sys "m0-1" "q1" = 0 ∧
      runSteps sysStep sys ([.reward 0 "m0-1" "q1" "failed" 0 [] false] ++ relaunch) = some sys' ∧
      executions sys' "m0-1" "q1" = 1 := by
  have hrej : runSteps sysStep openRelay rejectedRun = some rejectedSystem := rfl
  exact ⟨rejectedSystem, _, hrej, rfl, rfl, rfl, rfl⟩

end Gafam.Orchestrator
