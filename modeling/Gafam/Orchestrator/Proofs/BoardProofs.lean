import Gafam.Orchestrator.Board
import Gafam.Orchestrator.Proofs.ThreadProofs

/-!
# The steps of the relay as operations on the boards

What a step of the relay does to the missions is what its operations do, in this order. So a property
of the boards that every operation keeps is kept by every step, whoever makes it.
-/

namespace Gafam.Orchestrator

open Gafam.Go Gafam.Lib Gafam.Moksa

theorem boards_run_append (b : Boards) (ops ops' : List StoreOp) :
    b.run (ops ++ ops') = (b.run ops).run ops' := by
  unfold Boards.run
  rw [List.foldl_append]

theorem updateMission_missing {now : Nat} {id : GoString} {fn : MissionFn} {st : Store}
    (h : getMission id st = none) : (updateMission now id fn st).2 = st := by
  have hl : st.missions.lookup id = none := h
  unfold updateMission
  rw [hl]

/-- A goroutine. -/
theorem workerOps_run (r : Run) (h : Host) (q : Quest) (st : Store)
    (saved : AList fun _ : GoString => Mission) (pc : WorkerPc) :
    (Boards.mk st saved).run (updates r.missionID ((pc.ops r h q).map fun op => (h.now, op))) =
      ⟨(pc.step r h q st).2.1, saved⟩ := by
  cases pc with
  | gate =>
    unfold WorkerPc.ops WorkerPc.step
    dsimp only
    cases h.perm r.karakaID q.tool with
    | allow => rfl
    | deny => rfl
    | ask => dsimp only; split_ifs <;> rfl
  | claim =>
    show Boards.mk (updateMission h.now r.missionID (claimQuest q.id r.karakaID) st).2 saved = _
    unfold WorkerPc.step
    dsimp only
    rcases updateMission h.now r.missionID (claimQuest q.id r.karakaID) st with ⟨e | m, st'⟩ <;> rfl
  | run attempt =>
    show Boards.mk (updateMission h.now r.missionID (runQuestStart h.perm q.id) st).2 saved = _
    unfold WorkerPc.step
    dsimp only
    rcases updateMission h.now r.missionID (runQuestStart h.perm q.id) st with ⟨e | m, st'⟩
    · rfl
    · dsimp only
      cases m.findQuest q.id <;> rfl
  | tool attempt =>
    show Boards.mk (updateMission h.now r.missionID (runQuestFinish q.id h.tool) st).2 saved = _
    unfold WorkerPc.step
    dsimp only
    rcases updateMission h.now r.missionID (runQuestFinish q.id h.tool) st with ⟨e | m, st'⟩
    · rfl
    · dsimp only
      cases m.findQuest q.id with
      | none => rfl
      | some rq => dsimp only; split_ifs <;> rfl
  | repair attempt lastErr =>
    unfold WorkerPc.ops WorkerPc.step
    dsimp only
    cases h.repair with
    | none => rfl
    | some params =>
      show Boards.mk (updateMission h.now r.missionID
        (setQuest q.id fun qq => { qq with params := params, error := [] }) st).2 saved = _
      dsimp only
      rcases updateMission h.now r.missionID (setQuest q.id _) st with ⟨e | m, st'⟩ <;> rfl
  | _ => rfl

/-- The level loop. -/
theorem levelOps_run {r : Run} {s s' : Levels} {st st' : Store}
    (saved : AList fun _ : GoString => Mission) {act : Act}
    (h : Stepped r s st act s' st') :
    (Boards.mk st saved).run (updates r.missionID (act.ops r s)) = ⟨st', saved⟩ := by
  cases h with
  | doomed hp hid hq hr =>
    unfold Act.ops
    dsimp only
    rw [hq]
    dsimp only
    rw [if_pos hr]
    rfl
  | ready hp hid hq hr =>
    unfold Act.ops
    dsimp only
    rw [hq]
    dsimp only
    rw [if_neg (by rw [hr]; exact nofun)]
    rfl
  | blocked hp hid hq hr =>
    unfold Act.ops
    dsimp only
    rw [hq]
    dsimp only
    rw [if_neg (by rw [hr]; exact nofun)]
    rfl
  | work hp hk hsem =>
    unfold Act.ops
    dsimp only
    rw [hp]
    dsimp only
    rw [hk]
    exact workerOps_run ..
  | _ => rfl

/-- A thread. -/
theorem threadOps_run {perm : GoString → GoString → Permission} {approval : Bool} {t t' : Thread}
    {st st' : Store} {act : ThreadAct} {es : List Event} (saved : AList fun _ : GoString => Mission)
    (h : t.step perm approval st act = some (t', st', es)) :
    (Boards.mk st saved).run (t.ops perm act) = ⟨st', saved⟩ := by
  cases hpc : t.pc with
  | levels r s =>
    cases act with
    | level a =>
      simp only [Thread.step, hpc] at h
      cases hs : Orchestrator.step r (s, st) (a.under perm) with
      | none => rw [hs] at h; cases h
      | some p =>
        rw [hs] at h
        cases h
        simp only [Thread.ops, hpc]
        exact levelOps_run saved (step_cases hs)
    | tick now =>
      simp only [Thread.step, hpc] at h
      cases hp : s.phase with
      | returned => rw [hp] at h; cases h; simp only [Thread.ops, hpc]; rfl
      | _ => rw [hp] at h; cases h
    | _ => simp [Thread.step, hpc] at h
  | add todo plan ids =>
    cases act with
    | tick now =>
      cases todo with
      | nil =>
        simp only [Thread.step, hpc] at h
        simp only [Thread.ops, hpc]
        split at h
        · cases h; rfl
        · cases h; rfl
      | cons pq todo =>
        simp only [Thread.step, hpc] at h
        split_ifs at h with hskip
        · have hops : t.ops perm (.tick now) = [] := by
            simp only [Thread.ops, hpc]
            exact if_pos hskip
          cases h
          rw [hops]
          rfl
        · have hops : t.ops perm (.tick now) =
              [.update now t.missionID (.add pq.title t.karakaID pq.tool pq.params [] 30)] := by
            simp only [Thread.ops, hpc]
            exact if_neg hskip
          rw [hops]
          show Boards.mk (updateMission now t.missionID
            (addQuest pq.title t.karakaID pq.tool pq.params [] 30) st).2 saved = _
          revert h
          rcases updateMission now t.missionID
            (addQuest pq.title t.karakaID pq.tool pq.params [] 30) st with ⟨e | m, st₁⟩
          · intro h; cases h; rfl
          · intro h; cases h; rfl
    | _ => cases todo <;> simp [Thread.step, hpc] at h
  | wire todo =>
    cases act with
    | tick now =>
      cases todo <;>
        (simp only [Thread.step, hpc] at h; simp only [Thread.ops, hpc]; cases h; rfl)
    | _ => cases todo <;> simp [Thread.step, hpc] at h
  | observe =>
    cases act with
    | tick now =>
      simp only [Thread.ops, hpc]
      simp only [Thread.step, hpc] at h
      split_ifs at h
      · cases h; rfl
      · cases h; rfl
      · cases hm : getMission t.missionID st with
        | none => rw [hm] at h; cases h; rfl
        | some m => rw [hm] at h; cases h; rfl
    | _ => simp [Thread.step, hpc] at h
  | plan =>
    cases act with
    | reply reply =>
      simp only [Thread.ops, hpc]
      simp only [Thread.step, hpc] at h
      cases hm : getMission t.missionID st with
      | none => rw [hm] at h; cases h; rfl
      | some m => rw [hm] at h; cases h; rfl
    | _ => simp [Thread.step, hpc] at h
  | judge =>
    cases act with
    | verdict now j =>
      cases j <;> (simp only [Thread.step, hpc] at h; simp only [Thread.ops, hpc]; cases h; rfl)
    | _ => simp [Thread.step, hpc] at h
  | researchOpen =>
    cases act with
    | tick now =>
      simp only [Thread.ops, hpc]
      simp only [Thread.step, hpc] at h
      cases hm : getMission t.missionID st with
      | none =>
        rw [hm] at h
        cases h
        show Boards.mk (updateMission now t.missionID _ st).2 saved = _
        rw [updateMission_missing hm]
      | some m => rw [hm] at h; cases h; rfl
    | _ => simp [Thread.step, hpc] at h
  | researchAdd k =>
    cases act with
    | tick now =>
      simp only [Thread.ops, hpc]
      simp only [Thread.step, hpc] at h
      cases hs : researchSteps[k]? with
      | none => rw [hs] at h; cases h; rfl
      | some stage => rw [hs] at h; cases h; rfl
    | _ => simp [Thread.step, hpc] at h
  | researchStart k =>
    cases act with
    | tick now =>
      simp only [Thread.ops, hpc]
      simp only [Thread.step, hpc] at h
      cases hs : researchSteps[k]? with
      | none => rw [hs] at h; cases h; rfl
      | some stage => rw [hs] at h; cases h; rfl
    | _ => simp [Thread.step, hpc] at h
  | researchWork k =>
    cases act with
    | stage now res =>
      simp only [Thread.ops, hpc]
      simp only [Thread.step, hpc] at h
      cases hs : researchSteps[k]? with
      | none => rw [hs] at h; cases h
      | some stage =>
        rw [hs] at h
        cases res with
        | ok v => cases h; rfl
        | error e =>
          dsimp only at h
          split_ifs at h
          cases h
          rfl
    | _ => simp [Thread.step, hpc] at h
  | _ =>
    cases act <;>
      first
        | (simp [Thread.step, hpc] at h; done)
        | (simp only [Thread.step, hpc] at h; simp only [Thread.ops, hpc]; cases h; rfl)

/-- A tool call. -/
theorem delegateOps_run (now : Nat) (caller : GoString × GoString) (sys : System) (q : Quest) :
    sys.boards.run (delegateOps now sys q) = (delegate now caller sys q).boards := by
  unfold delegateOps delegate
  extract_lets instruction given karakaID
  split_ifs <;> rfl

/-- A launch leaves the missions alone. -/
theorem launch_boards {id karakaID mode : GoString} {requireApproval : Bool} {sys : System} :
    ((launchOrchestration id karakaID mode requireApproval sys).getD sys).boards = sys.boards := by
  unfold launchOrchestration
  split_ifs <;> rfl

theorem unlock_boards (t : Thread) (sys : System) : (unlock t sys).boards = sys.boards := by
  unfold unlock
  split_ifs <;> rfl

/-- Every step of the relay does to the missions what its operations do. -/
theorem sysStep_ops {sys sys' : System} {act : SysAct} (h : sysStep sys act = some sys') :
    sys'.boards = sys.boards.run (ops sys act) := by
  cases act with
  | thread now k act =>
    obtain ⟨t, t', st, es, ht, -, hts, rfl⟩ := threadStep_cases h
    rw [unlock_boards]
    unfold ops threadOps delegateAll
    dsimp only
    rw [ht]
    dsimp only
    have hrun : sys.boards.run (t.ops sys.perm act) = ⟨st, sys.saved⟩ := threadOps_run sys.saved hts
    rw [boards_run_append, hrun, hts]
    cases hpc : t.pc with
    | levels r s =>
      dsimp only
      rcases startedQuests_step hts hpc with hnone | ⟨q, hq, hseq⟩
      · rw [hnone]
        rfl
      · rw [hq, List.flatMap_singleton]
        refine (delegateOps_run now (t.missionID, q.id) _ q).symm.trans ?_
        unfold delegateOps newMissionID
        dsimp only
        rw [hseq]
        rfl
    | _ => rfl
  | run now req =>
    cases h
    unfold orchestratorRun ops
    extract_lets karakaID
    dsimp only
    by_cases hmode : req.mode ≠ [] ∧ req.mode ≠ "action" ∧ req.mode ≠ "research"
    · rw [if_pos hmode, if_pos hmode]
      rfl
    rw [if_neg hmode, if_neg hmode]
    by_cases hid : req.missionID = []
    · rw [if_neg (not_not.2 hid)]
      by_cases hinstr : trimSpace req.instruction ≠ []
      · rw [if_pos hinstr, if_pos ⟨hid, hinstr⟩]
        exact launch_boards
      · rw [if_neg hinstr, if_neg fun h => hinstr h.2]
        rfl
    · rw [if_pos hid, if_neg fun h => hid h.1]
      cases getMission req.missionID sys.store with
      | none => rfl
      | some m => exact launch_boards
  | trigger now instruction mode cron =>
    cases h
    unfold Orchestrator.trigger launchOrchestration
    cases cron <;> cases hbusy : sys.busy <;> simp [createMission, hbusy, ops] <;> rfl
  | resume id =>
    unfold sysStep resumeInterrupted at h
    dsimp only at h
    by_cases hres : ¬ sys.resuming = true
    · rw [if_pos hres] at h
      exact nomatch h
    rw [if_neg hres] at h
    cases id with
    | none =>
      dsimp only at h
      split_ifs at h
      cases h
      rfl
    | some id =>
      dsimp only at h
      cases hm : getMission id sys.store with
      | none => rw [hm] at h; exact nomatch h
      | some m =>
        rw [hm] at h
        dsimp only at h
        split_ifs at h
        cases h
        exact launch_boards
  | restart => cases h; rfl
  | create now instruction quests =>
    cases h
    unfold createHandler ops
    dsimp only
    split_ifs <;> rfl
  | approve now id qid approve reason =>
    cases h
    unfold approveHandler
    show _ = Boards.mk (updateMission now id (approveQuest qid approve reason) sys.store).2 sys.saved
    rcases updateMission now id (approveQuest qid approve reason) sys.store with ⟨e | m, st⟩ <;> rfl
  | claim now id qid karakaID => cases h; rfl
  | callStart now id qid =>
    cases h
    have hseq := updateMission_seq now id (runQuestStart sys.perm qid) sys.store
    unfold runHandlerStart ops
    dsimp only
    rw [boards_run_append]
    show _ = Boards.run ⟨(updateMission now id (runQuestStart sys.perm qid) sys.store).2, sys.saved⟩ _
    revert hseq
    rcases updateMission now id (runQuestStart sys.perm qid) sys.store with ⟨e | m, st⟩
    · exact fun _ => rfl
    · intro hseq
      dsimp only at hseq ⊢
      cases m.findQuest qid with
      | none => rfl
      | some q =>
        rw [Option.toList_some, List.flatMap_singleton]
        refine (delegateOps_run now (id, qid) _ q).symm.trans ?_
        unfold delegateOps newMissionID
        dsimp only
        rw [hseq]
        rfl
  | callFinish now id qid res =>
    unfold sysStep runHandlerFinish at h
    dsimp only at h
    split_ifs at h
    cases h
    rfl
  | reward now id qid verdict score reason autoAdd =>
    cases h
    unfold rewardHandler ops
    dsimp only
    cases parseVerdict verdict <;> rfl
  | addQuest now id title organHint tool params dependsOn eta => cases h; rfl
  | synthesize now id summary => cases h; rfl
  | delete id =>
    cases h
    unfold deleteHandler deleteMission ops
    dsimp only
    by_cases hid : id ∈ sys.store.missions
    · simp only [if_pos hid]
      show _ = Boards.mk (deleteMission id sys.store).2 (sys.saved.erase id)
      unfold deleteMission
      rw [if_pos hid]
      rfl
    · simp only [if_neg hid]
      rfl
  | setPermissions perm => cases h; rfl
  | persist id =>
    cases h
    unfold Orchestrator.persist
    show _ = StoreOp.apply sys.boards (.persist id)
    unfold StoreOp.apply System.boards
    dsimp only
    cases getMission id sys.store <;> rfl

/-! ## Properties of the boards -/

theorem runSteps_boardStep (b : Boards) (ops : List StoreOp) :
    runSteps boardStep b ops = some (b.run ops) := by
  induction ops generalizing b with
  | nil => rfl
  | cons op ops ih => exact ih (op.apply b)

/-- What every operation keeps, every step keeps. -/
theorem boards_step {P : Boards → Prop} {C : Boards → StoreOp → Prop}
    (hop : ∀ b op, P b → C b op → P (op.apply b)) {sys sys' : System} {act : SysAct}
    (h : P sys.boards) (hC : EachOp C sys act) (hstep : sysStep sys act = some sys') :
    P sys'.boards := by
  rw [sysStep_ops hstep]
  refine runSteps_invariant_of_meet (fun b op b' hb hC h => ?_) (runSteps_boardStep _ _) hC h
  cases h
  exact hop b op hb hC

/-- What every operation keeps holds after every run. -/
theorem boards_invariant {P : Boards → Prop} {C : Boards → StoreOp → Prop}
    (hop : ∀ b op, P b → C b op → P (op.apply b)) {sys sys' : System} {acts : List SysAct}
    (hrun : runSteps sysStep sys acts = some sys') (hC : StepsMeet sysStep (EachOp C) sys acts)
    (h : P sys.boards) : P sys'.boards :=
  runSteps_invariant_of_meet (P := fun sys : System => P sys.boards)
    (fun _ _ _ h hC hstep => boards_step hop h hC hstep) hrun hC h

/-- The mission that `UpdateMission` changes. -/
theorem getMission_update_self (now : Nat) {id : GoString} (fn : MissionFn) {st : Store} {m : Mission}
    (hm : getMission id st = some m) :
    ∃ m', getMission id (updateMission now id fn st).2 = some m' ∧ m'.status = (fn m).1.status ∧
      m'.quests = (fn m).1.quests := by
  have hl : st.missions.lookup id = some m := hm
  unfold updateMission
  rw [hl]
  dsimp only
  rcases fn m with ⟨m₁, _ | e⟩
  · exact ⟨_, AList.lookup_insert .., rfl, rfl⟩
  · exact ⟨_, AList.lookup_insert .., rfl, rfl⟩

/-- All the others. -/
theorem getMission_update_ne (now : Nat) {id i : GoString} (fn : MissionFn) (st : Store)
    (hi : i ≠ id) : getMission i (updateMission now id fn st).2 = getMission i st := by
  unfold updateMission getMission
  cases st.missions.lookup id with
  | none => rfl
  | some m =>
    dsimp only
    rcases fn m with ⟨m', _ | e⟩
    · exact AList.lookup_insert_ne hi
    · exact AList.lookup_insert_ne hi

/-- What is in the store after `UpdateMission`. -/
theorem getMission_updateMission {now : Nat} {id i : GoString} {fn : MissionFn} {st : Store}
    {m' : Mission} (h : getMission i (updateMission now id fn st).2 = some m') :
    getMission i st = some m' ∨
      (i = id ∧ ∃ m, getMission id st = some m ∧ m'.status = (fn m).1.status ∧
        m'.quests = (fn m).1.quests) := by
  cases hm : getMission id st with
  | none =>
    rw [updateMission_missing hm] at h
    exact .inl h
  | some m =>
    by_cases hi : i = id
    · subst hi
      obtain ⟨m₁, hm₁, hst, hq⟩ := getMission_update_self now fn hm
      cases h.symm.trans hm₁
      exact .inr ⟨rfl, m, rfl, hst, hq⟩
    · rw [getMission_update_ne now fn st hi] at h
      exact .inl h

theorem lookup_loadMissions (saved : AList fun _ : GoString => Mission) (i : GoString) :
    (loadMissions saved).lookup i = (saved.lookup i).map recoverMission := by
  have key : ∀ l : List (Sigma fun _ : GoString => Mission),
      AList.lookup i (l.foldr (fun e acc => acc.insert e.1 (recoverMission e.2))
        (∅ : AList fun _ : GoString => Mission)) = (l.dlookup i).map recoverMission := by
    intro l
    induction l with
    | nil => rfl
    | cons e l ih =>
      obtain ⟨j, m⟩ := e
      rw [List.foldr_cons]
      by_cases hij : i = j
      · subst hij
        rw [AList.lookup_insert, List.dlookup_cons_eq]
        rfl
      · rw [AList.lookup_insert_ne hij, List.dlookup_cons_ne _ _ hij]
        exact ih
  exact key saved.entries

theorem mem_missions_iff {i : GoString} {st : Store} :
    i ∈ st.missions ↔ ∃ m, getMission i st = some m := by
  rw [← AList.lookup_isSome]
  exact Option.isSome_iff_exists

theorem apply_seq {b : Boards} {op : StoreOp} (h : op ≠ .reload) :
    b.store.seq ≤ (op.apply b).store.seq := by
  cases op with
  | update now id op => exact Nat.le_of_eq (updateMission_seq now id op.fn b.store).symm
  | create now instruction posed => exact Nat.le_succ _
  | delete id =>
    show b.store.seq ≤ (deleteMission id b.store).2.seq
    unfold deleteMission
    split_ifs <;> exact Nat.le_refl _
  | erase id => exact Nat.le_refl _
  | persist id =>
    unfold StoreOp.apply
    dsimp only
    cases getMission id b.store <;> exact Nat.le_refl _
  | reload => exact absurd rfl h

/-- Where a mission in the store comes from. -/
inductive Stored (b : Boards) (i : GoString) (m' : Mission) : StoreOp → Prop
  | kept {op : StoreOp} (h : getMission i b.store = some m') : Stored b i m' op
  | updated {now : Nat} {op : BoardOp} {m : Mission} (h : getMission i b.store = some m)
    (hst : m'.status = (op.fn m).1.status) (hq : m'.quests = (op.fn m).1.quests) :
    Stored b i m' (.update now i op)
  | created {now : Nat} {instruction : GoString} {posed : Bool}
    (hi : i = (newMissionID now b.store).1)
    (hst : m'.status = (newMission now instruction posed b.store).status)
    (hq : m'.quests = (newMission now instruction posed b.store).quests) :
    Stored b i m' (.create now instruction posed)
  | reloaded {m : Mission} (h : b.saved.lookup i = some m) (hm : m' = recoverMission m) :
    Stored b i m' .reload

theorem stored_cases {b : Boards} {op : StoreOp} {i : GoString} {m' : Mission}
    (h : getMission i (op.apply b).store = some m') : Stored b i m' op := by
  cases op with
  | update now id op =>
    rcases getMission_updateMission h with h | ⟨rfl, m, hm, hst, hq⟩
    · exact .kept h
    · exact .updated hm hst hq
  | create now instruction posed =>
    have h' : AList.lookup i (b.store.missions.insert (newMissionID now b.store).1
        { newMission now instruction posed b.store with updatedAt := now }) = some m' := h
    by_cases hi : i = (newMissionID now b.store).1
    · rw [hi, AList.lookup_insert] at h'
      cases h'
      exact .created hi rfl rfl
    · rw [AList.lookup_insert_ne hi] at h'
      exact .kept h'
  | delete id =>
    refine .kept ?_
    have h' : getMission i (deleteMission id b.store).2 = some m' := h
    unfold deleteMission at h'
    split_ifs at h'
    · have h'' : (b.store.missions.erase id).lookup i = some m' := h'
      exact lookup_erase_some h''
    · exact h'
  | erase id => exact .kept h
  | persist id =>
    refine .kept ?_
    unfold StoreOp.apply at h
    dsimp only at h
    revert h
    cases getMission id b.store <;> exact fun h => h
  | reload =>
    have h' : (loadMissions b.saved).lookup i = some m' := h
    rw [lookup_loadMissions] at h'
    obtain ⟨m, hm, rfl⟩ := Option.map_eq_some_iff.1 h'
    exact .reloaded hm rfl

/-- Where a row of the database comes from. -/
theorem saved_cases {b : Boards} {op : StoreOp} {i : GoString} {m' : Mission}
    (h : (op.apply b).saved.lookup i = some m') :
    b.saved.lookup i = some m' ∨ (op = .persist i ∧ getMission i b.store = some m') ∨
      (op = .reload ∧ ∃ m, b.saved.lookup i = some m ∧ m' = recoverMission m) := by
  cases op with
  | update now id op => exact .inl h
  | create now instruction posed => exact .inl h
  | delete id => exact .inl h
  | erase id =>
    have h' : (b.saved.erase id).lookup i = some m' := h
    exact .inl (lookup_erase_some h')
  | persist id =>
    unfold StoreOp.apply at h
    dsimp only at h
    cases hm : getMission id b.store with
    | none => rw [hm] at h; exact .inl h
    | some m =>
      rw [hm] at h
      dsimp only at h
      by_cases hi : i = id
      · subst hi
        rw [AList.lookup_insert] at h
        cases h
        exact .inr (.inl ⟨rfl, hm⟩)
      · rw [AList.lookup_insert_ne hi] at h
        exact .inl h
  | reload =>
    have h' : (loadMissions b.saved).lookup i = some m' := h
    rw [lookup_loadMissions] at h'
    obtain ⟨m, hm, rfl⟩ := Option.map_eq_some_iff.1 h'
    exact .inr (.inr ⟨rfl, m, hm, rfl⟩)

/-- Every mission, in memory or saved, has the property. -/
structure AllBoards (P : MissionStatus → List Quest → Prop) (b : Boards) : Prop where
  store : ∀ i m, getMission i b.store = some m → P m.status m.quests
  saved : ∀ i m, b.saved.lookup i = some m → P m.status m.quests

/-- A property of missions that the functions of the code keep. -/
theorem allBoards_apply {P : MissionStatus → List Quest → Prop} {b : Boards} {op : StoreOp}
    (hrec : ∀ m, P m.status m.quests → P (recoverMission m).status (recoverMission m).quests)
    (hupdate : ∀ now i bop m, op = .update now i bop → getMission i b.store = some m →
      P m.status m.quests → P (bop.fn m).1.status (bop.fn m).1.quests)
    (hcreate : ∀ now instruction posed, op = .create now instruction posed →
      P (newMission now instruction posed b.store).status
        (newMission now instruction posed b.store).quests)
    (h : AllBoards P b) : AllBoards P (op.apply b) := by
  constructor
  · intro i m' hm'
    cases stored_cases hm' with
    | kept hm => exact h.store i m' hm
    | updated hm hst hq =>
      rw [hst, hq]
      exact hupdate _ i _ _ rfl hm (h.store i _ hm)
    | created hi hst hq =>
      rw [hst, hq]
      exact hcreate _ _ _ rfl
    | reloaded hm hrel =>
      rw [hrel]
      exact hrec _ (h.saved i _ hm)
  · intro i m' hm'
    rcases saved_cases hm' with hm | ⟨-, hm⟩ | ⟨-, m, hm, rfl⟩
    · exact h.saved i m' hm
    · exact h.store i m' hm
    · exact hrec _ (h.saved i m hm)

end Gafam.Orchestrator
