import Gafam.Orchestrator.Proofs.ExecutionsProofs

/-!
# Quests that run

The tool of a quest that runs is not started a second time, as long as nobody takes the status of the
quest away.
-/

namespace Gafam.Orchestrator

open Gafam.Go Gafam.Lib Gafam.Moksa

/-- The first quest with the id meets `P`, unless the mission is gone. -/
def StillWith (P : Quest → Prop) (id x : GoString) (b : Boards) : Prop :=
  getMission id b.store = none ∨ FoundWith P id x b

/-- The quest runs. -/
abbrev Running : GoString → GoString → Boards → Prop := StillWith fun q => q.status = .running

/-- The operation takes neither the status nor the mission from the quest, and does not end its
execution. -/
def KeepsRunning (id x : GoString) (b : Boards) : StoreOp → Prop
  | .update _ i op => i = id → ¬ op.Disturbs x ∧ ¬ op.Finishes x
  | .create now _ _ => (newMissionID now b.store).1 ≠ id
  | .reload => False
  | _ => True

/-- What an operation makes of a quest that runs. -/
theorem running_quest {op : BoardOp} {x : GoString} {μ : MissionStatus} {q : Quest}
    (h : q.status = .running) (hx : op.target = some x) (hdist : ¬ op.Disturbs x)
    (hfin : ¬ op.Finishes x) : (op.quest μ q).status = .running := by
  have hst : ∀ s : QuestStatus, s ≠ .running → q.status ≠ s := by
    intro s hs heq
    exact hs (heq.symm.trans h)
  cases op with
  | claim y karakaID =>
    have hno : q.status ≠ .pending ∧ q.status ≠ .claimed := ⟨hst .pending nofun, hst .claimed nofun⟩
    show (claimOne karakaID μ q).1.status = .running
    unfold claimOne
    rw [if_pos hno]
    split_ifs <;> exact h
  | runStart perm y =>
    have hno : q.status ≠ .claimed ∧ q.status ≠ .failed := ⟨hst .claimed nofun, hst .failed nofun⟩
    show (runStartOne perm μ q).1.status = .running
    unfold runStartOne
    rw [if_pos hno]
    exact h
  | runFinish y res => exact absurd (Option.some.inj hx) hfin
  | reward y verdict score reason autoAdd =>
    have hy : y = x := Option.some.inj hx
    cases verdict with
    | done => exact absurd ⟨hy, .inl rfl⟩ hdist
    | failed => exact absurd ⟨hy, .inr rfl⟩ hdist
    | _ => exact h
  | approve y ok reason =>
    show (if q.status ≠ .waitingApproval then q else _).status = .running
    rw [if_pos (hst .waitingApproval nofun)]
    exact h
  | cancel y reason => exact absurd (Option.some.inj hx) hdist
  | park y => exact absurd (Option.some.inj hx) hdist
  | reset y =>
    show (if q.status = .failed then _ else q).status = .running
    rw [if_neg (hst .failed nofun)]
    exact h
  | research y status result err =>
    have hy : y = x := Option.some.inj hx
    by_cases hs : status = .running
    · exact absurd ⟨hy, hs⟩ hdist
    · exact absurd ⟨hy, hs⟩ hfin
  | _ => exact h

theorem getMission_apply_none {b : Boards} {op : StoreOp} {id : GoString}
    (h : getMission id b.store = none)
    (hcreate : ∀ now instruction posed, op = .create now instruction posed →
      (newMissionID now b.store).1 ≠ id) (hreload : op ≠ .reload) :
    getMission id (op.apply b).store = none := by
  cases hm : getMission id (op.apply b).store with
  | none => rfl
  | some m =>
    cases stored_cases hm with
    | kept hm => rw [h] at hm; exact nomatch hm
    | updated hold => rw [h] at hold; exact nomatch hold
    | created hid => exact absurd hid.symm (hcreate _ _ _ rfl)
    | reloaded => exact absurd rfl hreload

/-- What keeps the quest keeps it until the mission is gone. -/
theorem still_apply {P : Quest → Prop} {b : Boards} {op : StoreOp} {id x : GoString}
    (h : StillWith P id x b)
    (hcreate : ∀ now instruction posed, op = .create now instruction posed →
      (newMissionID now b.store).1 ≠ id)
    (hreload : op ≠ .reload)
    (hone : ∀ now bop, op = .update now id bop → bop.target = some x →
      ∀ μ q, P q → P (bop.quest μ q))
    (hfailed : ∀ now summary err, op = .update now id (.researchFail summary err) →
      ∀ q, P q → P (failRunning err q))
    (hfill : ∀ now quests, op ≠ .update now id (.fill quests)) :
    StillWith P id x (op.apply b) := by
  rcases h with hnone | hfound
  · exact .inl (getMission_apply_none hnone hcreate hreload)
  · by_cases hdelete : op = .delete id
    · left
      subst hdelete
      show getMission id (deleteMission id b.store).2 = none
      unfold deleteMission getMission
      split_ifs with hid
      · exact AList.lookup_erase id b.store.missions
      · exact AList.lookup_eq_none.2 hid
    · exact .inr (found_apply hfound hcreate hdelete hreload hone hfailed hfill)

theorem running_apply {b : Boards} {op : StoreOp} {id x : GoString} (h : Running id x b)
    (hC : KeepsRunning id x b op) : Running id x (op.apply b) := by
  refine still_apply h ?_ ?_ ?_ ?_ ?_
  · rintro now instruction posed rfl
    exact hC
  · rintro rfl
    exact hC
  · rintro now bop rfl hx μ q hrun
    obtain ⟨hdist, hfin⟩ := hC rfl
    exact running_quest hrun hx hdist hfin
  · rintro now summary err rfl
    exact absurd trivial (hC rfl).1
  · rintro now quests rfl
    exact (hC rfl).1 trivial

/-! ## Operations that belong to an execution -/

/-- The operation records that an execution has ended, or belongs to a stage of the research. -/
def BoardOp.executes : BoardOp → Prop
  | runFinish _ _ | research _ _ _ _ => True
  | _ => False

theorem executes_of_finishes {op : BoardOp} {x : GoString} (h : op.Finishes x) : op.executes := by
  cases op with
  | runFinish y res => trivial
  | research y status result err => trivial
  | _ => exact h.elim

/-- A goroutine records what the tool has returned when it waits for it. -/
theorem worker_ops_executes {r : Run} {h : Host} {q : Quest} {pc : WorkerPc} {op : BoardOp}
    (hop : op ∈ pc.ops r h q) (hex : op.executes) :
    (∃ attempt, pc = .tool attempt) ∧ op = .runFinish q.id h.tool := by
  cases pc with
  | tool attempt =>
    obtain rfl := List.mem_singleton.1 hop
    exact ⟨⟨attempt, rfl⟩, rfl⟩
  | gate =>
    unfold WorkerPc.ops at hop
    dsimp only at hop
    split at hop
    · obtain rfl := List.mem_singleton.1 hop
      exact hex.elim
    · split_ifs at hop
      · obtain rfl := List.mem_singleton.1 hop
        exact hex.elim
      · exact nomatch hop
    · exact nomatch hop
  | repair attempt lastErr =>
    unfold WorkerPc.ops at hop
    dsimp only at hop
    cases hr : h.repair with
    | none => rw [hr] at hop; exact nomatch hop
    | some p =>
      rw [hr] at hop
      obtain rfl := List.mem_singleton.1 hop
      exact hex.elim
  | queued => exact nomatch hop
  | finished => exact nomatch hop
  | _ =>
    obtain rfl := List.mem_singleton.1 hop
    exact hex.elim

/-- The steps of a thread with such an operation. -/
inductive ThreadExec (t : Thread) : ThreadAct → GoString → BoardOp → Prop
  | tool {r : Run} {s : Levels} {k : Nat} {h : Host} {q : Quest} {attempt : Nat}
    (hpc : t.pc = .levels r s) (hk : s.phase.workers[k]? = some (q, .tool attempt)) :
    ThreadExec t (.level (.work k h)) r.missionID (.runFinish q.id h.tool)
  | start {now k : Nat} {stage : GoString × GoString × GoString} (hpc : t.pc = .researchStart k)
    (hstage : researchSteps[k]? = some stage) :
    ThreadExec t (.tick now) t.missionID (.research stage.1 .running none [])
  | done {now k : Nat} {v : Option Json} {stage : GoString × GoString × GoString}
    (hpc : t.pc = .researchWork k) (hstage : researchSteps[k]? = some stage) :
    ThreadExec t (.stage now (.ok v)) t.missionID (.research stage.1 .done v [])
  | failed {now k : Nat} {e : GoString} {stage : GoString × GoString × GoString}
    (hpc : t.pc = .researchWork k) (hstage : researchSteps[k]? = some stage) :
    ThreadExec t (.stage now (.error e)) t.missionID (.research stage.1 .failed none e)

theorem thread_ops_executes {perm : GoString → GoString → Permission} {t : Thread} {act : ThreadAct}
    {now : Nat} {id : GoString} {op : BoardOp} (hop : StoreOp.update now id op ∈ t.ops perm act)
    (hex : op.executes) : ThreadExec t act id op := by
  cases thread_ops_of hop with
  | worker hpc hk hop =>
    obtain ⟨⟨attempt, rfl⟩, rfl⟩ := worker_ops_executes hop hex
    exact .tool hpc hk
  | started hpc hstage => exact .start hpc hstage
  | worked hpc hstage => exact .done hpc hstage
  | failed hpc hstage => exact .failed hpc hstage
  | _ => exact False.elim hex

/-- The steps of the relay with such an operation. -/
inductive SysExec (sys : System) : SysAct → GoString → BoardOp → Prop
  | call {now : Nat} {id x : GoString} {res : Except GoString Json} :
    SysExec sys (.callFinish now id x res) id (.runFinish x res)
  | thread {now k : Nat} {act : ThreadAct} {t : Thread} {id : GoString} {op : BoardOp}
    (ht : sys.threads[k]? = some t) (h : ThreadExec t act id op) :
    SysExec sys (.thread now k act) id op

theorem ops_executes {sys : System} {act : SysAct} {now : Nat} {id : GoString} {op : BoardOp}
    (hop : StoreOp.update now id op ∈ ops sys act) (hex : op.executes) : SysExec sys act id op := by
  cases ops_of hop with
  | thread ht hop => exact .thread ht (thread_ops_executes hop hex)
  | returned => exact .call
  | delegated h =>
    cases op with
    | mission f hf => exact hex.elim
    | _ => exact h.elim
  | refused hops hop => rcases hop with hop | hop <;> exact nomatch hop
  | deleted hop => rcases hop with hop | hop <;> exact nomatch hop
  | _ => exact False.elim hex

/-- An operation that ends an execution comes from the step that `ends` says. -/
theorem ops_finish {sys : System} {act : SysAct} {now : Nat} {id x : GoString} {op : BoardOp}
    (hop : StoreOp.update now id op ∈ ops sys act) (hfin : op.Finishes x) :
    ∃ res, ends sys act = some (id, x, res) := by
  cases ops_executes hop (executes_of_finishes hfin) with
  | @call now' id' y res => exact ⟨res.map some, by rw [← show y = x from hfin]; rfl⟩
  | @thread now' k act t id' op' ht hexec =>
    unfold ends
    dsimp only
    rw [ht]
    cases hexec with
    | @tool r s k h q attempt hpc hk =>
      exact ⟨_, (ends_tool hpc hk h).trans (by rw [show q.id = x from hfin])⟩
    | start hpc hstage => exact absurd rfl hfin.2
    | @done now k v stage hpc hstage =>
      exact ⟨_, (ends_stage hpc hstage now _).trans (by rw [show stage.1 = x from hfin.1])⟩
    | @failed now k e stage hpc hstage =>
      exact ⟨_, (ends_stage hpc hstage now _).trans (by rw [show stage.1 = x from hfin.1])⟩

/-- After a local operation, the quest is what the operation has made of it. -/
theorem find_update_local {b : Boards} {now : Nat} {id x : GoString} {op : BoardOp} {φ : QuestFn}
    {m : Mission} {q : Quest} (hfn : LocalTo x op.fn φ) (hm : getMission id b.store = some m)
    (hq : m.findQuest x = some q) :
    (StoreOp.apply b (.update now id op)).find id x = some (φ m.status q).1 := by
  have hid : (φ m.status q).1.id = x := (hfn.key m.status q).id.trans (findQuest_id hq)
  unfold Boards.find
  show (getMission id (updateMission now id op.fn b.store).2).bind _ = _
  rw [updateMission_local now hfn hm hq]
  show (AList.lookup id (AList.insert id _ b.store.missions)).bind _ = _
  rw [AList.lookup_insert]
  exact after_findQuest_self now hq hid

theorem research_local (x : GoString) (status : QuestStatus) (result : Option Json)
    (err : GoString) :
    LocalTo x (researchSetQuest x status result err) fun _ q =>
      ({ q with
        status := status
        result := result
        error := err
        claim := if status = .running ∨ status = .claimed then "suparna_vpc" else q.claim }, none) :=
  setQuest_local x fun _ => ⟨rfl, rfl, rfl⟩

/-- A start leaves the quest running. -/
theorem starts_running {b : Boards} {now : Nat} {id x : GoString} {op : BoardOp}
    (h : Starts b.store id x op)
    (hstage : ∀ y result err, op = .research y .running result err → ∃ q, b.find id y = some q) :
    FoundWith (fun q => q.status = .running) id x (StoreOp.apply b (.update now id op)) := by
  cases h with
  | @run perm m q hm hq hok =>
    exact ⟨_, find_update_local (runQuestStart_local perm x) hm hq, (runStartOne_ok hok).2⟩
  | research =>
    obtain ⟨q, hq⟩ := hstage x none [] rfl
    obtain ⟨m, hm, hmq⟩ := find_some hq
    exact ⟨_, find_update_local (research_local x .running none []) hm hmq, rfl⟩

/-- At most one execution of each quest is in progress, and then the quest runs. -/
def OneInFlight (sys : System) : Prop :=
  ∀ id x, executions sys id x ≤ 1 ∧ (0 < executions sys id x → Running id x sys.boards)

/-- The quests whose tools run. -/
def Busy (sys : System) (id x : GoString) : Prop := 0 < executions sys id x

/-- The quest of an execution that the step does not end goes on running. -/
theorem running_step {sys sys' : System} {act : SysAct} {id x : GoString} (hact : act ≠ .restart)
    (hbusy : Busy sys id x) (h : Running id x sys.boards)
    (hends : ∀ res, ends sys act ≠ some (id, x, res))
    (hC : EachOp (Undisturbed (Busy sys)) sys act) (hstep : sysStep sys act = some sys') :
    Running id x sys'.boards := by
  refine boards_step (C := KeepsRunning id x) (fun b op => running_apply) h ?_ hstep
  refine stepsMeet_imp_of_invariant (P := fun _ => True) (fun _ _ _ _ _ _ => trivial) ?_ trivial hC
  intro b op hop _ hund
  cases op with
  | update now i bop =>
    rintro rfl
    refine ⟨hund.1 x hbusy, fun hfin => ?_⟩
    obtain ⟨res, hres⟩ := ops_finish hop hfin
    exact hends res hres
  | create now instruction posed =>
    intro heq
    exact hund.2 x (heq ▸ hbusy)
  | reload => exact reload_notMem_ops hact hop
  | _ => trivial

/-- What follows the first operation of a start leaves the quest as it is. -/
theorem find_rest {busy : GoString → GoString → Prop} {b : Boards} {rest : List StoreOp}
    {id x : GoString} {q : Quest} (h : b.find id x = some q) (hrest : ∀ o ∈ rest, Delegated o)
    (hC : StepsMeet boardStep (Undisturbed busy) b rest) : (b.run rest).find id x = some q := by
  have hC' : StepsMeet boardStep (fun b op => Undisturbed busy b op ∧ Delegated op) b rest :=
    stepsMeet_imp_of_invariant (P := fun _ => True) (fun _ _ _ _ _ _ => trivial)
      (fun _ op hop _ hund => ⟨hund, hrest op hop⟩) trivial hC
  refine runSteps_invariant_of_meet (P := fun b : Boards => b.find id x = some q) ?_
    (runSteps_boardStep b rest) hC' h
  rintro b op b' hq ⟨hund, hdel⟩ hb'
  cases hb'
  obtain ⟨m, hm, hmq⟩ := find_some hq
  have hcreate : ∀ now instruction posed, op = .create now instruction posed →
      (newMissionID now b.store).1 ≠ id := by
    rintro now instruction posed rfl heq
    exact hund.1 (heq ▸ mem_missions_iff.2 ⟨m, hm⟩)
  rcases find_apply hm hmq hcreate (by rintro rfl; exact hdel) (by rintro rfl; exact hdel) with
    hkept | ⟨now, bop, rfl, hfound⟩
  · exact hkept
  · revert hfound
    generalize (StoreOp.apply b (.update now id bop)).find id x = found
    intro hfound
    cases hfound with
    | kept => rfl
    | one hx =>
      cases bop with
      | mission f hf => exact nomatch hx
      | _ => exact hdel.elim
    | failed => exact hdel.elim
    | filled => exact hdel.elim

theorem oneInFlight_step {sys sys' : System} {act : SysAct} (h : OneInFlight sys)
    (hC : EachOp (Undisturbed (Busy sys)) sys act) (hstep : sysStep sys act = some sys') :
    OneInFlight sys' := by
  by_cases hact : act = .restart
  · subst hact
    cases hstep
    intro id x
    have hzero : executions (restart sys) id x = 0 := rfl
    rw [hzero]
    exact ⟨Nat.zero_le 1, fun hpos => absurd hpos (Nat.lt_irrefl 0)⟩
  have hrec := sysStep_recount hact hstep
  have hrun : ∀ id x, Busy sys id x → (∀ res, ends sys act ≠ some (id, x, res)) →
      Running id x sys'.boards := fun id x hbusy hends =>
    running_step hact hbusy ((h id x).2 hbusy) hends hC hstep
  revert hrec hrun
  generalize ends sys act = e
  intro hrec hrun id x
  have hone := (h id x).1
  cases hrec with
  | kept hkept =>
    have hx := hkept id x
    refine ⟨by omega, fun hpos => hrun id x ?_ nofun⟩
    unfold Busy
    omega
  | @ended i y res hminus =>
    have hx := hminus id x
    by_cases heq : i = id ∧ y = x
    · rw [if_pos heq] at hx
      refine ⟨by omega, fun hpos => ?_⟩
      omega
    · rw [if_neg heq] at hx
      refine ⟨by omega, fun hpos => hrun id x ?_ ?_⟩
      · unfold Busy
        omega
      · intro res' hres
        cases hres
        exact heq ⟨rfl, rfl⟩
  | @started i y hstart hplus =>
    obtain ⟨now, op, rest, hops, hrest, hs⟩ := hstart
    have hx := hplus id x
    have hC' := hC
    unfold EachOp at hC'
    rw [hops] at hC'
    obtain ⟨hfirst, hafter⟩ := hC'
    by_cases heq : i = id ∧ y = x
    · obtain ⟨rfl, rfl⟩ := heq
      rw [if_pos ⟨rfl, rfl⟩] at hx
      -- A tool that runs already is not started: its quest runs.
      have hidle : ¬ Busy sys i y := by
        intro hbusy
        cases hs with
        | run hm hq hok =>
          rcases (h i y).2 hbusy with hnone | ⟨q', hq', hrunning⟩
          · rw [show getMission i sys.boards.store = getMission i sys.store from rfl, hm] at hnone
            exact nomatch hnone
          · obtain ⟨m', hm', hmq'⟩ := find_some hq'
            cases hm.symm.trans hm'
            cases hq.symm.trans hmq'
            obtain ⟨hst, -⟩ := runStartOne_ok hok
            rw [hrunning] at hst
            rcases hst with hst | hst <;> exact nomatch hst
        | research => exact hfirst.1 y hbusy ⟨rfl, rfl⟩
      have hzero : executions sys i y = 0 := Nat.eq_zero_of_not_pos hidle
      refine ⟨by omega, fun _ => .inr ?_⟩
      rw [sysStep_ops hstep, hops]
      obtain ⟨q, hq, hrunning⟩ := starts_running hs hfirst.2
      show FoundWith (fun q => q.status = .running) i y ((StoreOp.apply sys.boards (.update now i op)).run rest)
      exact ⟨q, find_rest hq hrest (hafter _ rfl), hrunning⟩
    · rw [if_neg heq] at hx
      refine ⟨by omega, fun hpos => hrun id x ?_ nofun⟩
      unfold Busy
      omega

/-! ## What is recorded -/

/-- The operation records this outcome. -/
inductive Recording (x : GoString) : Except GoString (Option Json) → BoardOp → Prop
  | call {res : Except GoString Json} : Recording x (res.map some) (.runFinish x res)
  | done {v : Option Json} : Recording x (.ok v) (.research x .done v [])
  | failed {e : GoString} : Recording x (.error e) (.research x .failed none e)

/-- A goroutine that ends an execution reports nothing yet. -/
theorem tool_event (r : Run) (h : Host) (q : Quest) (st : Store) (attempt : Nat) :
    ((WorkerPc.tool attempt).step r h q st).2.2 = none := by
  unfold WorkerPc.step
  dsimp only
  rcases updateMission h.now r.missionID (runQuestFinish q.id h.tool) st with ⟨e | m, st'⟩
  · rfl
  · dsimp only
    cases m.findQuest q.id with
    | none => rfl
    | some rq =>
      dsimp only
      split_ifs <;> rfl

/-- The step that ends an execution records its outcome, and does nothing else on the boards. -/
theorem ends_ops {sys sys' : System} {act : SysAct} {id x : GoString}
    {res : Except GoString (Option Json)} (hends : ends sys act = some (id, x, res))
    (hstep : sysStep sys act = some sys') :
    ∃ now op, ops sys act = [.update now id op] ∧ Recording x res op := by
  cases act with
  | callFinish now id' y res' =>
    cases hends
    exact ⟨now, _, rfl, .call⟩
  | thread now k act =>
    have hcases := sysStep_cases hstep
    generalize sys'.threads = threads at hcases
    generalize sys'.calls = calls at hcases
    cases hcases with
    | other hthread => exact absurd rfl (hthread now k act)
    | @thread _ _ _ t t' st es new ht hts hnew =>
      unfold ends at hends
      dsimp only at hends
      rw [ht] at hends
      have hends' : t.ends act = some (id, x, res) := hends
      unfold ops threadOps
      dsimp only
      rw [ht]
      dsimp only
      rw [hts]
      cases thread_step_cases hts with
      | quiet hidle hto => rw [ends_idle hidle] at hends'; exact nomatch hends'
      | execute hpc => exact nomatch hends'
      | research hpc hstage => exact nomatch hends'
      | @stage now k res' stage pc st' hpc hstage hto =>
        rw [ends_stage hpc hstage] at hends'
        cases hends'
        rw [hpc]
        unfold Thread.ops
        dsimp only
        rw [hpc]
        dsimp only
        rw [hstage]
        cases res with
        | ok v => exact ⟨now, _, rfl, .done⟩
        | error e => exact ⟨now, _, rfl, .failed⟩
      | @level r s s' act st' hpc hlevel =>
        cases act with
        | work k h =>
          cases hk : s.phase.workers[k]? with
          | none =>
            unfold Thread.ends at hends'
            dsimp only at hends'
            rw [hpc] at hends'
            dsimp only at hends'
            rw [hk] at hends'
            exact nomatch hends'
          | some w =>
            obtain ⟨q, pc⟩ := w
            obtain ⟨attempt, rfl⟩ : ∃ attempt, pc = .tool attempt := by
              unfold Thread.ends at hends'
              dsimp only at hends'
              rw [hpc] at hends'
              dsimp only at hends'
              rw [hk] at hends'
              cases pc with
              | tool attempt => exact ⟨attempt, rfl⟩
              | _ => exact nomatch hends'
            rw [ends_tool hpc hk] at hends'
            cases hends'
            have hlog : s'.log = s.log := by
              cases step_cases hlevel with
              | @work workers _ _ q' pc' hp hk' hsem =>
                rw [hp] at hk
                have heq : (q', pc') = (q, WorkerPc.tool attempt) :=
                  Option.some.inj (hk'.symm.trans hk)
                cases heq
                rw [tool_event]
                rfl
            rw [hpc, hlog, List.drop_length]
            unfold Thread.ops
            dsimp only
            rw [hpc]
            dsimp only
            rw [show Act.under sys.perm (.work k h) = .work k { h with perm := sys.perm } from rfl,
              work_ops hk]
            exact ⟨h.now, _, rfl, .call⟩
        | _ => exact nomatch hends'
  | _ => exact nomatch hends

/-- The recorded outcome is on the board, unless the mission is gone. -/
theorem ends_records {sys sys' : System} {act : SysAct} {id x : GoString}
    {res : Except GoString (Option Json)} (h : OneInFlight sys)
    (hends : ends sys act = some (id, x, res)) (hstep : sysStep sys act = some sys') :
    executions sys' id x = 0 ∧ StillWith (Records res) id x sys'.boards := by
  have hact : act ≠ .restart := by
    rintro rfl
    exact nomatch hends
  have hrec := sysStep_recount hact hstep
  rw [hends] at hrec
  have hone := (h id x).1
  have hminus : executions sys' id x + 1 = executions sys id x := by
    cases hrec with
    | ended hminus =>
      have hx := hminus id x
      rwa [if_pos ⟨rfl, rfl⟩] at hx
  refine ⟨by omega, ?_⟩
  obtain ⟨now, op, hops, hrecord⟩ := ends_ops hends hstep
  rw [sysStep_ops hstep, hops]
  show StillWith (Records res) id x (StoreOp.apply sys.boards (.update now id op))
  rcases (h id x).2 (by omega) with hnone | ⟨q, hq, -⟩
  · exact .inl (getMission_apply_none hnone nofun nofun)
  · right
    obtain ⟨m, hm, hmq⟩ := find_some hq
    cases hrecord with
    | @call res =>
      refine ⟨_, find_update_local (runQuestFinish_local x res) hm hmq, ?_⟩
      cases res with
      | ok v => exact ⟨rfl, rfl⟩
      | error e => exact ⟨rfl, rfl, rfl⟩
    | done => exact ⟨_, find_update_local (research_local x _ _ _) hm hmq, rfl, rfl⟩
    | failed => exact ⟨_, find_update_local (research_local x _ _ _) hm hmq, rfl, rfl, rfl⟩

/-- A stage of the research starts an execution. -/
theorem research_starts {sys sys' : System} {act : SysAct} {now : Nat} {id x : GoString}
    {result : Option Json} {err : GoString}
    (hop : StoreOp.update now id (.research x .running result err) ∈ ops sys act)
    (hstep : sysStep sys act = some sys') : executions sys' id x = executions sys id x + 1 := by
  cases ops_executes hop trivial with
  | @thread now k act t id' op' ht hexec =>
    cases hexec with
    | @start now k stage hpc hstage =>
      have hsum : executions sys' t.missionID stage.1 = sys'.calls.count (t.missionID, stage.1) +
          (sys'.threads.map (Thread.executions t.missionID stage.1)).sum := rfl
      have hcases := sysStep_cases hstep
      revert hsum
      generalize sys'.threads = threads at hcases ⊢
      generalize sys'.calls = calls at hcases ⊢
      intro hsum
      cases hcases with
      | other hthread => exact absurd rfl (hthread _ _ _)
      | @thread _ _ _ t₀ t' st es new ht₀ hts hnew =>
        cases ht.symm.trans ht₀
        simp only [Thread.step, hpc, hstage] at hts
        cases hts
        have hset := sum_map_set ht { t with pc := .researchWork k }
          (Thread.executions t.missionID stage.1)
        have hidle : t.executions t.missionID stage.1 = 0 := executions_idle (by rw [hpc]; rfl) _ _
        have hwork : Thread.executions t.missionID stage.1 { t with pc := .researchWork k } = 1 := by
          unfold Thread.executions
          dsimp only
          rw [hstage]
          exact if_pos ⟨rfl, rfl⟩
        rw [hsum, List.map_append, List.sum_append, sum_executions_toolFree hnew]
        unfold executions
        omega

/-! ## What stays recorded -/

/-- The operation leaves the quest `x` of the mission `id` with its result. -/
def KeepsResult (id x : GoString) (b : Boards) : StoreOp → Prop
  | .update _ i op =>
    i = id → ¬ op.Finishes x ∧ (∀ result err, op ≠ .research x .running result err) ∧
      ∀ quests, op ≠ .fill quests
  | .create now _ _ => (newMissionID now b.store).1 ∉ b.store.missions
  | .delete i => i ≠ id
  | .reload => False
  | _ => True

theorem result_quest {op : BoardOp} {x : GoString} {μ : MissionStatus} {q : Quest}
    (hx : op.target = some x) (hfin : ¬ op.Finishes x)
    (hstart : ∀ result err, op ≠ .research x .running result err) :
    (op.quest μ q).result = q.result := by
  cases op with
  | claim y karakaID =>
    show (claimOne karakaID μ q).1.result = _
    unfold claimOne
    split_ifs <;> rfl
  | runStart perm y =>
    show (runStartOne perm μ q).1.result = _
    unfold runStartOne
    split_ifs <;> rfl
  | runFinish y res => exact absurd (Option.some.inj hx) hfin
  | reward y verdict score reason autoAdd =>
    cases verdict with
    | done =>
      show (rewardOne true score reason μ q).1.result = _
      unfold rewardOne
      split_ifs <;> rfl
    | failed => rfl
    | _ => rfl
  | approve y ok reason =>
    unfold BoardOp.quest
    dsimp only
    split_ifs <;> rfl
  | reset y =>
    unfold BoardOp.quest
    dsimp only
    split_ifs <;> rfl
  | research y status result err =>
    obtain rfl : y = x := Option.some.inj hx
    by_cases hs : status = .running
    · subst hs
      exact absurd rfl (hstart result err)
    · exact absurd ⟨rfl, hs⟩ hfin
  | _ => rfl

theorem result_apply {b : Boards} {op : StoreOp} {id x : GoString}
    {res : Except GoString (Option Json)} (h : FoundWith (HasResult res) id x b)
    (hC : KeepsResult id x b op) : FoundWith (HasResult res) id x (op.apply b) := by
  have hkeep : ∀ {q q' : Quest}, q'.result = q.result → HasResult res q → HasResult res q' := by
    intro q q' heq hq
    cases res with
    | ok v => exact heq.trans hq
    | error e => exact heq.trans hq
  have hid : id ∈ b.store.missions := by
    obtain ⟨q, hq, -⟩ := h
    obtain ⟨m, hm, -⟩ := find_some hq
    exact mem_missions_iff.2 ⟨m, hm⟩
  refine found_apply h ?_ ?_ ?_ ?_ ?_ ?_
  · rintro now instruction posed rfl rfl
    exact hC hid
  · rintro rfl
    exact hC rfl
  · rintro rfl
    exact hC
  · rintro now bop rfl hx μ q hq
    obtain ⟨hfin, hstart, -⟩ := hC rfl
    exact hkeep (result_quest hx hfin hstart) hq
  · intro now summary err hop q hq
    refine hkeep ?_ hq
    unfold failRunning
    split_ifs <;> rfl
  · rintro now quests rfl
    exact (hC rfl).2.2 quests rfl

/-- A quest keeps its result in a step that neither ends nor starts an execution of it. -/
theorem result_step {sys sys' : System} {act : SysAct} {id x : GoString}
    {res : Except GoString (Option Json)} (hact : act ≠ .restart) (hdelete : act ≠ .delete id)
    (h : FoundWith (HasResult res) id x sys.boards)
    (hends : ∀ res, ends sys act ≠ some (id, x, res)) (hstart : executions sys' id x = executions sys id x)
    (hC : EachOp (Undisturbed (Busy sys)) sys act) (hstep : sysStep sys act = some sys') :
    FoundWith (HasResult res) id x sys'.boards := by
  have hid : id ∈ sys.store.missions := by
    obtain ⟨q, hq, -⟩ := h
    obtain ⟨m, hm, -⟩ := find_some hq
    exact mem_missions_iff.2 ⟨m, hm⟩
  -- What the step itself creates is another mission.
  have hnew : ∀ now instruction posed rest, ops sys act = .create now instruction posed :: rest →
      (newMissionID now sys.store).1 ≠ id := by
    rintro now instruction posed rest hops rfl
    unfold EachOp at hC
    rw [hops] at hC
    exact hC.1.1 hid
  refine boards_step (C := KeepsResult id x) (fun b op => result_apply) h ?_ hstep
  refine stepsMeet_imp_of_invariant (P := fun _ => True) (fun _ _ _ _ _ _ => trivial) ?_ trivial hC
  intro b op hop _ hund
  cases op with
  | update now i bop =>
    rintro rfl
    refine ⟨fun hfin => ?_, ?_, ?_⟩
    · obtain ⟨res', hres'⟩ := ops_finish hop hfin
      exact hends res' hres'
    · rintro result err rfl
      have hstarts := research_starts hop hstep
      omega
    · rintro quests rfl
      cases ops_of hop with
      | thread ht hop =>
        cases thread_ops_of hop with
        | worker hpc hk hop => exact worker_ops_fill hop
      | delegated h => exact h
      | filled hops => exact hnew _ _ _ _ hops rfl
      | refused hops hop => rcases hop with hop | hop <;> exact nomatch hop
      | deleted hop => rcases hop with hop | hop <;> exact nomatch hop
  | create now instruction posed => exact hund.1
  | delete i =>
    rintro rfl
    cases ops_of hop with
    | thread ht hop =>
      obtain ⟨_, _, _, heq⟩ := thread_ops_updates hop
      exact nomatch heq
    | delegated h => exact h
    | refused hops hop =>
      rcases hop with hop | hop
      · cases hop
        exact hnew _ _ _ _ hops rfl
      · exact nomatch hop
    | deleted hop =>
      rcases hop with hop | hop
      · cases hop
        exact hdelete rfl
      · exact nomatch hop
  | reload => exact reload_notMem_ops hact hop
  | _ => trivial

/-- A mission that is missing while one of its tools runs stays missing. -/
theorem missing_step {sys sys' : System} {act : SysAct} {id x : GoString} (hact : act ≠ .restart)
    (hbusy : Busy sys id x) (h : getMission id sys.store = none)
    (hC : EachOp (Undisturbed (Busy sys)) sys act) (hstep : sysStep sys act = some sys') :
    getMission id sys'.store = none := by
  refine boards_step (P := fun b => getMission id b.store = none)
    (C := fun b op => (∀ now instruction posed, op = .create now instruction posed →
      (newMissionID now b.store).1 ≠ id) ∧ op ≠ .reload)
    (fun b op h hC => getMission_apply_none h hC.1 hC.2) h ?_ hstep
  refine stepsMeet_imp_of_invariant (P := fun _ => True) (fun _ _ _ _ _ _ => trivial) ?_ trivial hC
  rintro b op hop _ hund
  refine ⟨?_, ?_⟩
  · rintro now instruction posed rfl heq
    exact hund.2 x (heq ▸ hbusy)
  · rintro rfl
    exact reload_notMem_ops hact hop

theorem resultsLatest_step {sys sys' : System} {act : SysAct}
    {latest : GoString → GoString → Latest} (hone : OneInFlight sys) (h : ResultsLatest sys latest)
    (hC : EachOp (Undisturbed (Busy sys)) sys act) (hstep : sysStep sys act = some sys') :
    ResultsLatest sys' (noteExecution sys act latest) := by
  have hone' := oneInFlight_step hone hC hstep
  unfold ResultsLatest noteExecution
  rw [hstep]
  intro id x
  dsimp only
  by_cases hact : act = .restart
  · subst hact
    cases hstep
    rw [if_pos (.inl rfl)]
    exact fun _ => rfl
  by_cases hstore : id ∉ sys'.store.missions
  · rw [if_pos (.inr hstore)]
    exact fun hid => absurd hid hstore
  have hgo : ¬ (act.isRestart = true ∨ id ∉ sys'.store.missions) := by
    rintro (hr | hid)
    · cases act with
      | restart => exact hact rfl
      | _ => exact nomatch hr
    · exact hstore hid
  rw [if_neg hgo]
  rw [not_not] at hstore
  obtain ⟨m', hm'⟩ := mem_missions_iff.1 hstore
  have hthere : ∀ {P : Quest → Prop}, StillWith P id x sys'.boards → FoundWith P id x sys'.boards := by
    intro P hstill
    rcases hstill with hnone | hfound
    · exact nomatch hm'.symm.trans hnone
    · exact hfound
  have hle' := (hone' id x).1
  by_cases hlt : executions sys id x < executions sys' id x
  · rw [if_pos hlt]
    have hpos : 0 < executions sys' id x := by omega
    exact ⟨by omega, hthere ((hone' id x).2 hpos)⟩
  rw [if_neg hlt]
  by_cases hends : ∃ res, ends sys act = some (id, x, res)
  · obtain ⟨res, hres⟩ := hends
    rw [hres]
    dsimp only
    rw [if_pos ⟨rfl, rfl⟩]
    obtain ⟨hzero, hrecords⟩ := ends_records hone hres hstep
    obtain ⟨q, hq, hrec⟩ := hthere hrecords
    refine ⟨hzero, q, hq, ?_⟩
    cases res with
    | ok v => exact hrec.2
    | error e => exact hrec.2.1
  have hends' : ∀ res, ends sys act ≠ some (id, x, res) := fun res hres => hends ⟨res, hres⟩
  -- Nothing has ended or begun here.
  have hsame : executions sys' id x = executions sys id x := by
    have hrec := sysStep_recount hact hstep
    revert hrec hends'
    generalize ends sys act = e
    intro hends' hrec
    cases hrec with
    | kept hkept => exact hkept id x
    | @ended i y res hminus =>
      have hx := hminus id x
      have hne : ¬ (i = id ∧ y = x) := by
        rintro ⟨rfl, rfl⟩
        exact hends' res rfl
      rw [if_neg hne] at hx
      exact hx
    | @started i y hstart hplus =>
      have hx := hplus id x
      omega
  suffices hshown : (latest id x).Shown sys' id x by
    cases he : ends sys act with
    | none => exact hshown
    | some p =>
      obtain ⟨i, y, res⟩ := p
      have hne : ¬ (i = id ∧ y = x) := by
        rintro ⟨rfl, rfl⟩
        exact hends' res he
      dsimp only
      rw [if_neg hne]
      exact hshown
  have hold := h id x
  revert hold
  cases latest id x with
  | none =>
    intro hold _
    rw [hsame]
    by_cases hid : id ∈ sys.store.missions
    · exact hold hid
    · by_contra hpos
      have hmissing : getMission id sys.store = none := AList.lookup_eq_none.2 hid
      have hgone := missing_step hact (Nat.pos_of_ne_zero hpos) hmissing hC hstep
      exact nomatch hm'.symm.trans hgone
  | running =>
    rintro ⟨hexec, -⟩
    have hpos : 0 < executions sys' id x := by omega
    exact ⟨by omega, hthere ((hone' id x).2 hpos)⟩
  | returned res =>
    rintro ⟨hzero, hfound⟩
    refine ⟨by omega, ?_⟩
    refine result_step hact ?_ hfound hends' hsame hC hstep
    rintro rfl
    have hid : id ∈ sys.store.missions := by
      obtain ⟨q, hq, -⟩ := hfound
      obtain ⟨m, hm, -⟩ := find_some hq
      exact mem_missions_iff.2 ⟨m, hm⟩
    cases hstep
    unfold deleteHandler deleteMission at hstore
    rw [if_pos hid] at hstore
    exact absurd hstore (by simp)

/-- As long as nothing takes the status away from a quest whose tool runs, and new missions and stages
of the research come as they should, no tool runs twice, and a quest has the result of its latest
execution. The step that ends an execution also records its status. -/
theorem one_execution {store : Store} {saved : AList fun _ : GoString => Mission}
    {perm : GoString → GoString → Permission} {acts : List SysAct} {sys : System}
    {latest : GoString → GoString → Latest}
    (hrun : runWithLatest (.boot store saved perm) acts = some (sys, latest))
    (hC : StepsMeet sysStep (fun sys => EachOp (Undisturbed (Busy sys)) sys)
      (.boot store saved perm) acts) :
    (∀ id x, executions sys id x ≤ 1) ∧ ResultsLatest sys latest ∧
      ∀ act sys' id x res, sysStep sys act = some sys' → ends sys act = some (id, x, res) →
        executions sys' id x = 0 ∧ ∀ q, sys'.boards.find id x = some q → Records res q := by
  have hinv : OneInFlight sys ∧ ResultsLatest sys latest := by
    refine runSteps_invariant_of_meet
      (P := fun p : System × (GoString → GoString → Latest) => OneInFlight p.1 ∧ ResultsLatest p.1 p.2)
      ?_ hrun (stepsMeet_withHistory.2 hC) ⟨?_, ?_⟩
    · rintro ⟨sys, latest⟩ act ⟨sys', latest'⟩ ⟨hone, hres⟩ hC hstep
      obtain ⟨hstep, hnote⟩ := withHistory_eq_some.1 hstep
      cases hnote
      exact ⟨oneInFlight_step hone hC hstep, resultsLatest_step hone hres hC hstep⟩
    · intro id x
      exact ⟨Nat.zero_le 1, fun hpos => absurd hpos (Nat.lt_irrefl 0)⟩
    · intro id x _
      rfl
  obtain ⟨hone, hres⟩ := hinv
  refine ⟨fun id x => (hone id x).1, hres, fun act sys' id x res hstep hends => ?_⟩
  obtain ⟨hzero, hrec⟩ := ends_records hone hends hstep
  refine ⟨hzero, fun q hq => ?_⟩
  rcases hrec with hnone | ⟨q', hq', hrec⟩
  · obtain ⟨m, hm, -⟩ := find_some hq
    exact nomatch hm.symm.trans hnone
  · cases hq.symm.trans hq'
    exact hrec

/-- A quest is posed, claimed and run. -/
def claimAndRun : List SysAct :=
  [.create 0 "read" [boardQuest "q1" []], .claim 0 "m0-1" "q1" "suparna_vpc",
    .callStart 0 "m0-1" "q1"]

theorem claimAndRun_one : ∃ sys latest, runWithLatest openRelay claimAndRun = some (sys, latest) ∧
    executions sys "m0-1" "q1" = 1 ∧ (∀ id x, executions sys id x ≤ 1) ∧ ResultsLatest sys latest := by
  have hC : StepsMeet sysStep (fun sys => EachOp (Undisturbed (Busy sys)) sys) openRelay
      claimAndRun := by
    refine stepsMeet_cons ?_ rfl (stepsMeet_cons ?_ rfl (stepsMeet_cons ?_ rfl trivial))
    · have hidle : ∀ id x, ¬ Busy openRelay id x := fun id x h => Nat.lt_irrefl 0 h
      refine ⟨⟨by decide, fun x => hidle _ x⟩, fun _ _ => ⟨⟨fun x h => absurd h (hidle _ x), nofun⟩, ?_⟩⟩
      exact fun _ _ => trivial
    · exact ⟨⟨fun _ _ h => h, nofun⟩, fun _ _ => trivial⟩
    · exact ⟨⟨fun _ _ h => h, nofun⟩, fun _ _ => trivial⟩
  exact ⟨_, _, rfl, rfl, (one_execution rfl hC).1, (one_execution rfl hC).2.1⟩

/-- A reward with the verdict `failed` for a quest that runs, and its tool is started once more. -/
theorem claimAndRun_twice : ∃ sys,
    runSteps sysStep openRelay (claimAndRun ++
      [.reward 0 "m0-1" "q1" "failed" 0 [] false, .callStart 0 "m0-1" "q1"]) = some sys ∧
      executions sys "m0-1" "q1" = 2 := ⟨_, rfl, rfl⟩

end Gafam.Orchestrator
