import Gafam.Orchestrator.Proofs.FlightProofs
import Gafam.Orchestrator.Executions

/-!
# Boards whose verdicts agree

Between the success of a tool and the verdict of `runOne`, the quest may have a verdict of an earlier
attempt. All other quests agree with theirs.
-/

namespace Gafam.Orchestrator

open Gafam.Go Gafam.Lib Gafam.Moksa

/-- The verdicts of the board agree, except for the first quests with an exempt id. -/
def AgreeExcept (exempt : GoString → Prop) (quests : List Quest) : Prop :=
  ∀ (i : Nat) (q : Quest), quests[i]? = some q →
    VerdictAgrees q ∨ (exempt q.id ∧ i = quests.findIdx fun p => p.id = q.id)

theorem AgreeExcept.mono {exempt exempt' : GoString → Prop} {quests : List Quest}
    (h : AgreeExcept exempt quests) (himp : ∀ x, exempt x → exempt' x) :
    AgreeExcept exempt' quests := by
  intro i q hq
  rcases h i q hq with hagree | ⟨hex, hi⟩
  · exact .inl hagree
  · exact .inr ⟨himp _ hex, hi⟩

theorem agreeExcept_of_forall {exempt : GoString → Prop} {quests : List Quest}
    (h : ∀ q ∈ quests, VerdictAgrees q) : AgreeExcept exempt quests :=
  fun _ q hq => .inl (h q (List.mem_of_getElem? hq))

/-- A status without a verdict to fit. -/
theorem agrees_of_status {q : Quest} (hd : q.status ≠ .done) (hf : q.status ≠ .failed) :
    VerdictAgrees q := ⟨fun h => absurd h hd, fun h => absurd h hf⟩

/-- The same status and the same reward. -/
theorem agrees_congr {q q' : Quest} (hst : q'.status = q.status) (hr : q'.reward = q.reward)
    (h : VerdictAgrees q) : VerdictAgrees q' := by
  unfold VerdictAgrees
  rw [hst, hr]
  exact h

/-- A quest that has not failed agrees with the verdict `done`. -/
theorem agrees_rewarded {μ : MissionStatus} {q : Quest} (h : q.status ≠ .failed) (score : Rat)
    (reason : GoString) : VerdictAgrees (rewardOne true score reason μ q).1 := by
  unfold rewardOne
  rw [if_pos rfl]
  split_ifs
  · exact ⟨fun _ r hr => by cases hr; exact nofun, nofun⟩
  · exact ⟨fun _ r hr => by cases hr; exact nofun, fun hst => absurd hst h⟩

/-- What an operation makes of a quest whose verdict agrees. The tool of a goroutine may leave it
behind. -/
theorem agrees_quest {op : BoardOp} {x : GoString} {m : Mission} {goroutine : Bool} {q : Quest}
    (hx : op.target = some x) (hq : m.findQuest x = some q) (h : VerdictAgrees q)
    (hC : op.KeepsVerdicts goroutine m) :
    VerdictAgrees (op.quest m.status q) ∨ goroutine = true ∧ ∃ v, op = .runFinish x (.ok v) := by
  cases op with
  | claim y karakaID =>
    left
    show VerdictAgrees (claimOne karakaID m.status q).1
    unfold claimOne
    split_ifs
    · exact h
    · exact h
    · exact h
    · exact agrees_of_status nofun nofun
  | runStart perm y =>
    left
    show VerdictAgrees (runStartOne perm m.status q).1
    unfold runStartOne
    split_ifs
    · exact h
    · exact h
    · exact h
    · exact h
    · exact agrees_of_status nofun nofun
  | runFinish y res =>
    obtain rfl : y = x := Option.some.inj hx
    cases res with
    | ok v =>
      rcases hC with hgo | hnot
      · exact .inr ⟨hgo, v, rfl⟩
      · exact .inl ⟨fun _ => hnot q hq, nofun⟩
    | error e => exact .inl ⟨nofun, fun _ => ⟨_, rfl, nofun⟩⟩
  | reward y verdict score reason autoAdd =>
    obtain rfl : y = x := Option.some.inj hx
    left
    cases verdict with
    | done => exact agrees_rewarded (hC q hq) score reason
    | failed => exact ⟨nofun, fun _ => ⟨_, rfl, nofun⟩⟩
    | needsMore => exact ⟨fun _ r hr => by cases hr; exact nofun, fun _ => ⟨_, rfl, nofun⟩⟩
    | other s => exact ⟨fun _ r hr => by cases hr; exact nofun, fun _ => ⟨_, rfl, nofun⟩⟩
  | approve y ok reason =>
    left
    unfold BoardOp.quest
    dsimp only
    split_ifs
    · exact h
    · exact agrees_of_status nofun nofun
    · exact agrees_of_status nofun nofun
    · exact agrees_of_status nofun nofun
  | cancel y reason => exact .inl (agrees_of_status nofun nofun)
  | park y => exact .inl (agrees_of_status nofun nofun)
  | reset y =>
    left
    unfold BoardOp.quest
    dsimp only
    split_ifs
    · exact agrees_of_status nofun nofun
    · exact h
  | research y status result err =>
    obtain rfl : y = x := Option.some.inj hx
    left
    by_cases hd : status = .done
    · subst hd
      exact ⟨fun _ => hC q hq, nofun⟩
    by_cases hf : status = .failed
    · subst hf
      exact ⟨nofun, fun _ => hC q hq⟩
    · exact agrees_of_status hd hf
  | params y p => exact .inl (agrees_congr rfl rfl h)
  | repair y p => exact .inl (agrees_congr rfl rfl h)
  | wire y deps => exact .inl (agrees_congr rfl rfl h)
  | add title organHint tool p dependsOn eta => exact nomatch hx
  | researchFail summary err => exact nomatch hx
  | fill quests => exact nomatch hx
  | mission f hf => exact nomatch hx

/-- The first quest with an id, by its index. -/
theorem getElem?_findIdx {m : Mission} {x : GoString} {q : Quest} (h : m.findQuest x = some q) :
    m.quests[m.quests.findIdx fun p => p.id = x]? = some q := by
  have h' : m.quests.find? (fun p => p.id = x) = some q := h
  rw [List.find?_eq_getElem?_findIdx] at h'
  exact h'

/-- Changing the first quest with an id moves no first quest. -/
theorem findIdx_updateFirst {x : GoString} {f : Quest → Quest} {quests : List Quest}
    (hf : ∀ q, q.id = x → (f q).id = x) (y : GoString) :
    (updateFirst x f quests).findIdx (fun p => p.id = y) = quests.findIdx fun p => p.id = y := by
  induction quests with
  | nil => rfl
  | cons q quests ih =>
    unfold updateFirst
    split_ifs with hq
    · rw [List.findIdx_cons, List.findIdx_cons, hf q hq, hq]
    · rw [List.findIdx_cons, List.findIdx_cons, ih]

theorem findIdx_append {quests : List Quest} {i : Nat} {q : Quest} (hi : quests[i]? = some q)
    (quests' : List Quest) :
    (quests ++ quests').findIdx (fun p => p.id = q.id) = quests.findIdx fun p => p.id = q.id := by
  have hlt : quests.findIdx (fun p => p.id = q.id) < quests.length :=
    List.findIdx_lt_length_of_exists ⟨q, List.mem_of_getElem? hi, by simp⟩
  rw [List.findIdx_append, if_pos hlt]

/-- A board after a change of the quest that an operation is about. -/
theorem agreeExcept_touched {exempt : GoString → Prop} {m : Mission} {op : BoardOp}
    {goroutine : Bool} {qs : List Quest} (h : AgreeExcept exempt m.quests) (ht : Touched m op qs)
    (hC : op.KeepsVerdicts goroutine m)
    (hex : goroutine = true → ∀ x v q, op = .runFinish x (.ok v) → m.findQuest x = some q → exempt x) :
    AgreeExcept exempt qs := by
  cases ht with
  | kept => exact h
  | @one x p hx hp =>
    have hid : (op.quest m.status p).id = x := (quest_id op m.status p).trans (findQuest_id hp)
    intro i q hq
    rw [getElem?_updateFirst] at hq
    split_ifs at hq with hi
    · rw [hi, getElem?_findIdx hp] at hq
      obtain rfl : op.quest m.status p = q := Option.some.inj hq
      have hfirst : i = (updateFirst x (fun _ => op.quest m.status p) m.quests).findIdx
          fun q => q.id = (op.quest m.status p).id := by
        rw [findIdx_updateFirst (fun _ _ => hid), hid]
        exact hi
      rcases h _ p (getElem?_findIdx hp) with hagree | ⟨hp', -⟩
      · rcases agrees_quest hx hp hagree hC with hagree' | ⟨hgo, v, hop⟩
        · exact .inl hagree'
        · rw [hid] at hfirst ⊢
          exact .inr ⟨hex hgo x v p hop hp, hfirst⟩
      · rw [findQuest_id hp] at hp'
        rw [hid] at hfirst ⊢
        exact .inr ⟨hp', hfirst⟩
    · rcases h i q hq with hagree | ⟨hq', hfirst⟩
      · exact .inl hagree
      · refine .inr ⟨hq', ?_⟩
        rw [findIdx_updateFirst fun _ _ => hid]
        exact hfirst

/-- An operation on a board. -/
theorem agreeExcept_fn {exempt : GoString → Prop} {m : Mission} {op : BoardOp} {goroutine : Bool}
    (h : AgreeExcept exempt m.quests) (hC : op.KeepsVerdicts goroutine m)
    (hex : goroutine = true → ∀ x v q, op = .runFinish x (.ok v) → m.findQuest x = some q → exempt x) :
    AgreeExcept exempt (op.fn m).1.quests := by
  have heffect := fn_effect op m
  revert heffect
  generalize (op.fn m).1.quests = qs
  intro heffect
  cases heffect with
  | touched ht => exact agreeExcept_touched h ht hC hex
  | @added _ qs q hadd ht hid hst hr =>
    have hold := agreeExcept_touched h ht hC hex
    intro i p hp
    by_cases hi : i < qs.length
    · rw [List.getElem?_append_left hi] at hp
      rcases hold i p hp with hagree | ⟨hex', hfirst⟩
      · exact .inl hagree
      · exact .inr ⟨hex', by rw [findIdx_append hp]; exact hfirst⟩
    · rw [List.getElem?_append_right (Nat.le_of_not_lt hi)] at hp
      obtain rfl := List.mem_singleton.1 (List.mem_of_getElem? hp)
      exact .inl (agrees_of_status (by rw [hst]; nofun) (by rw [hst]; nofun))
  | @failed summary err =>
    intro i p hp
    rw [List.getElem?_map] at hp
    obtain ⟨q, hq, rfl⟩ := Option.map_eq_some_iff.1 hp
    have hid := failRunning_id err q
    by_cases hst : q.status = .running ∨ q.status = .claimed
    · left
      unfold failRunning
      rw [if_pos hst]
      exact ⟨nofun, fun _ => hC q (List.mem_of_getElem? hq) hst⟩
    · rcases h i q hq with hagree | ⟨hex', hfirst⟩
      · left
        unfold failRunning
        rw [if_neg hst]
        exact hagree
      · right
        rw [hid]
        refine ⟨hex', ?_⟩
        rw [List.findIdx_map, hfirst]
        congr 1
        funext p
        show decide (p.id = q.id) = decide ((failRunning err p).id = q.id)
        rw [failRunning_id]
  | filled => exact agreeExcept_of_forall hC

/-- The verdict of `runOne` on a quest that has not failed. The quest needs no exemption any more. -/
theorem agreeExcept_rewarded {exempt : GoString → Prop} {m : Mission} {x : GoString} {score : Rat}
    {reason : GoString} {autoAdd : Bool} (h : AgreeExcept exempt m.quests)
    (hC : ∀ q, m.findQuest x = some q → q.status ≠ .failed) :
    AgreeExcept (fun y => exempt y ∧ y ≠ x)
      ((BoardOp.reward x .done score reason autoAdd).fn m).1.quests := by
  have hother : ∀ i q, m.quests[i]? = some q → i ≠ m.quests.findIdx (fun p => p.id = x) →
      VerdictAgrees q ∨
        ((exempt q.id ∧ q.id ≠ x) ∧ i = m.quests.findIdx fun p => p.id = q.id) := by
    intro i q hq hi
    rcases h i q hq with hagree | ⟨hex, hfirst⟩
    · exact .inl hagree
    · refine .inr ⟨⟨hex, ?_⟩, hfirst⟩
      intro hx
      rw [hx] at hfirst
      exact hi hfirst
  show AgreeExcept _ (applyReward x .done score reason autoAdd m).1.quests
  cases hp : m.findQuest x with
  | none =>
    have hkept : (applyReward x .done score reason autoAdd m).1 = m := by
      unfold applyReward
      rw [hp]
    rw [hkept]
    intro i q hq
    refine hother i q hq ?_
    rintro rfl
    have hnone : m.quests.find? (fun p => p.id = x) = none := hp
    rw [List.find?_eq_getElem?_findIdx, hq] at hnone
    exact nomatch hnone
  | some p =>
    have heq : (applyReward x .done score reason autoAdd m).1.quests =
        updateFirst x (fun _ => (rewardOne true score reason m.status p).1) m.quests :=
      congrArg (fun r => r.1.quests) ((applyReward_done_local x score reason autoAdd).eq m p hp)
    rw [heq]
    have hid : (rewardOne true score reason m.status p).1.id = x :=
      ((applyReward_done_local x score reason autoAdd).key m.status p).id.trans (findQuest_id hp)
    intro i q hq
    rw [getElem?_updateFirst] at hq
    split_ifs at hq with hi
    · left
      rw [hi, getElem?_findIdx hp] at hq
      obtain rfl : (rewardOne true score reason m.status p).1 = q := Option.some.inj hq
      exact agrees_rewarded (hC p hp) score reason
    · rcases hother i q hq hi with hagree | ⟨hex, hfirst⟩
      · exact .inl hagree
      · refine .inr ⟨hex, ?_⟩
        rw [findIdx_updateFirst fun _ _ => hid]
        exact hfirst

/-! ## Goroutines with a verdict to come -/

/-- The step is the verdict of `runOne` on a success. -/
def Rewards (sys : System) (act : SysAct) (id x : GoString) : Prop :=
  ∃ now k j h t r s q, act = .thread now k (.level (.work j h)) ∧ sys.threads[k]? = some t ∧
    t.pc = .levels r s ∧ r.missionID = id ∧ s.phase.workers[j]? = some (q, .rewardDone) ∧ q.id = x

/-- A goroutine with a verdict to come stays where it is until it gives it. -/
theorem rewarding_step {sys sys' : System} {act : SysAct} {id x : GoString} (hact : act ≠ .restart)
    (hstep : sysStep sys act = some sys') (h : Rewarding sys id x) :
    Rewarding sys' id x ∨ Rewards sys act id x := by
  have hcases := sysStep_cases hstep
  have hsub : (∀ t ∈ sys.threads, t ∈ sys'.threads) → Rewarding sys' id x := by
    obtain ⟨t, ht, hrew⟩ := h
    exact fun hsub => ⟨t, hsub t ht, hrew⟩
  unfold Rewarding at hsub ⊢
  revert hsub
  generalize sys'.threads = threads at hcases ⊢
  generalize sys'.calls = calls at hcases
  intro hsub
  cases hcases with
  | restarted => exact absurd rfl hact
  | called => exact .inl (hsub fun t ht => List.mem_append_left _ ht)
  | returned => exact .inl (hsub fun t ht => ht)
  | other => exact .inl (hsub fun t ht => List.mem_append_left _ ht)
  | @thread now k act t t' st es new ht hts hnew =>
    obtain ⟨t₀, ht₀, r, s, hpc, hid, w, hw, hwid, hwpc⟩ := h
    obtain ⟨i, hi⟩ := List.mem_iff_getElem?.1 ht₀
    by_cases hik : i = k
    · subst hik
      cases hi.symm.trans ht
      cases thread_step_cases hts with
      | quiet hidle hto =>
        rw [hpc] at hidle
        rw [returned_of_idle hidle] at hw
        exact absurd hw List.not_mem_nil
      | execute hpc' => exact nomatch hpc.symm.trans hpc'
      | research hpc' hstage => exact nomatch hpc.symm.trans hpc'
      | stage hpc' hstage hto => exact nomatch hpc.symm.trans hpc'
      | @level r' s' s'' act st' hpc' hlevel =>
        cases hpc.symm.trans hpc'
        rcases stepped_workers (step_cases hlevel) with ⟨-, -, hfinished, -⟩ |
          ⟨j, host, q, pc, hact', hj, hworkers, -, -⟩
        · rw [hfinished w hw] at hwpc
          exact nomatch hwpc
        · obtain ⟨n, hn⟩ := List.mem_iff_getElem?.1 hw
          by_cases hnj : n = j
          · subst hnj
            cases hn.symm.trans hj
            right
            obtain ⟨h₀, rfl⟩ : ∃ h₀, act = .work n h₀ := by
              cases act with
              | work j' h₀ => cases hact'; exact ⟨h₀, rfl⟩
              | _ => exact nomatch hact'
            have hpc'' : pc = .rewardDone := hwpc
            exact ⟨now, i, n, h₀, _, r, s, q, rfl, ht, hpc, hid, by rw [hj, hpc''], hwid⟩
          · left
            have hlt : i < sys.threads.length := (List.getElem?_eq_some_iff.1 ht).1
            refine ⟨_, List.mem_append_left _ (List.mem_set hlt _), r, s'', rfl, hid, w, ?_, hwid, hwpc⟩
            rw [hworkers]
            refine List.mem_of_getElem? (i := n) ?_
            rw [List.getElem?_set_ne fun h => hnj h.symm]
            exact hn
    · left
      refine ⟨t₀, List.mem_append_left _ ?_, r, s, hpc, hid, w, hw, hwid, hwpc⟩
      refine List.mem_of_getElem? (i := i) ?_
      rw [List.getElem?_set_ne fun h => hik h.symm]
      exact hi

/-- The verdict is all that the step does to the boards. -/
theorem rewards_ops {sys sys' : System} {act : SysAct} {id x : GoString}
    (h : Rewards sys act id x) (hstep : sysStep sys act = some sys') :
    ∃ now, ops sys act = [.update now id (.reward x .done 1 "auto: tool executed" false)] := by
  obtain ⟨now, k, j, h, t, r, s, q, rfl, ht, hpc, rfl, hj, rfl⟩ := h
  obtain ⟨t₀, t', st, es, ht₀, -, hts, -⟩ := threadStep_cases hstep
  cases ht.symm.trans ht₀
  unfold ops threadOps
  dsimp only
  rw [ht]
  dsimp only
  rw [hts]
  cases thread_step_cases hts with
  | quiet hidle hto =>
    rw [hpc] at hidle
    rw [returned_of_idle hidle] at hj
    exact nomatch hj
  | @level r' s' s'' act st' hpc' hlevel =>
    cases hpc.symm.trans hpc'
    have hlog : s''.log = s.log ++ [.completed q.id] := by
      rcases stepped_workers (step_cases hlevel) with ⟨-, hact, -⟩ |
        ⟨j', host, q', pc, hact', hj', -, hlog, -⟩
      · exact absurd rfl (hact j _)
      · cases hact'
        cases hj.symm.trans hj'
        exact hlog
    rw [hpc, hlog, List.drop_left]
    unfold Thread.ops
    dsimp only
    rw [hpc]
    dsimp only
    rw [show Act.under sys.perm (.work j h) = .work j { h with perm := sys.perm } from rfl,
      work_ops hj]
    exact ⟨h.now, rfl⟩

/-- A goroutine whose tool has succeeded comes to its verdict, if the quest is there. -/
theorem rewarding_tool {sys sys' : System} {act : SysAct} {now : Nat} {id x : GoString} {v : Json}
    {m : Mission} {q : Quest} (hthread : act.isThread = true)
    (hop : StoreOp.update now id (.runFinish x (.ok v)) ∈ ops sys act)
    (hm : getMission id sys.store = some m) (hq : m.findQuest x = some q)
    (hstep : sysStep sys act = some sys') : Rewarding sys' id x := by
  generalize hfin : BoardOp.runFinish x (.ok v) = op at hop
  cases ops_executes hop (by rw [← hfin]; trivial) with
  | call => exact nomatch hthread
  | @thread now k act t id op ht hexec =>
    cases hexec with
    | start => exact nomatch hfin
    | done => exact nomatch hfin
    | failed => exact nomatch hfin
    | @tool r s j h p attempt hpc hj =>
      obtain ⟨rfl, htool⟩ := BoardOp.runFinish.inj hfin
      have hcases := sysStep_cases hstep
      unfold Rewarding
      generalize sys'.threads = threads at hcases ⊢
      generalize sys'.calls = calls at hcases
      cases hcases with
      | other hno => exact absurd rfl (hno _ _ _)
      | @thread _ _ _ t₀ t' st es new ht₀ hts hnew =>
        cases ht.symm.trans ht₀
        cases thread_step_cases hts with
        | quiet hidle hto =>
          rw [hpc] at hidle
          rw [returned_of_idle hidle] at hj
          exact nomatch hj
        | @level r' s' s'' act st' hpc' hlevel =>
          cases hpc.symm.trans hpc'
          rcases stepped_workers (step_cases hlevel) with ⟨-, hact, -⟩ |
            ⟨j', host, p', pc, hact', hj', hworkers, -, -⟩
          · exact absurd rfl (hact j _)
          · cases hact'
            cases hj.symm.trans hj'
            have hpc'' : ((WorkerPc.tool attempt).step r { h with perm := sys.perm } p sys.store).1 =
                .rewardDone := by
              unfold WorkerPc.step
              dsimp only
              rw [← htool, updateMission_local h.now (runQuestFinish_local p.id (.ok v)) hm hq]
              dsimp only [runFinishOne]
              have hid := findQuest_id hq
              rw [after_findQuest_self h.now hq hid]
              rfl
            have hlt : k < sys.threads.length := (List.getElem?_eq_some_iff.1 ht).1
            have hjlt : j < s.phase.workers.length := (List.getElem?_eq_some_iff.1 hj).1
            refine ⟨_, List.mem_append_left _ (List.mem_set hlt _), r, s'', rfl, rfl,
              (p, .rewardDone), ?_, rfl, rfl⟩
            rw [hworkers, hpc'']
            exact List.mem_set hjlt _

/-! ## Runs -/

/-- The verdicts of all quests agree, except where a goroutine has one to give. -/
def VerdictsAgree (sys : System) : Prop :=
  ∀ id m, getMission id sys.store = some m → AgreeExcept (Rewarding sys id) m.quests

/-- A step that does one operation on one mission. -/
theorem verdicts_single {sys sys' : System} {act : SysAct} {now : Nat} {id : GoString} {op : BoardOp}
    (h : VerdictsAgree sys) (hops : ops sys act = [.update now id op])
    (hstep : sysStep sys act = some sys')
    (hmono : ∀ i x, i ≠ id → Rewarding sys i x → Rewarding sys' i x)
    (hone : ∀ m, getMission id sys.store = some m → AgreeExcept (Rewarding sys id) m.quests →
      AgreeExcept (Rewarding sys' id) (op.fn m).1.quests) : VerdictsAgree sys' := by
  have hboards := sysStep_ops hstep
  rw [hops] at hboards
  have hstore : sys'.store = (updateMission now id op.fn sys.store).2 :=
    congrArg Boards.store hboards
  intro i m' hm'
  rw [hstore] at hm'
  by_cases hi : i = id
  · subst hi
    cases hm : getMission i sys.store with
    | none => rw [updateMission_missing hm] at hm'; exact nomatch hm.symm.trans hm'
    | some m =>
      obtain ⟨m₁, hm₁, -, hq⟩ := getMission_update_self now op.fn hm
      cases hm'.symm.trans hm₁
      rw [hq]
      exact hone m hm (h i m hm)
  · rw [getMission_update_ne now op.fn sys.store hi] at hm'
    exact (h i m' hm').mono fun x => hmono i x hi

/-- What a restart loads agrees if the row does. -/
theorem recoverMission_agrees {m : Mission} (h : ∀ q ∈ m.quests, VerdictAgrees q) :
    ∀ q ∈ (recoverMission m).quests, VerdictAgrees q := by
  intro q hq
  unfold recoverMission at hq
  split_ifs at hq with hst
  · obtain ⟨p, hp, rfl⟩ := List.mem_map.1 hq
    split_ifs
    · exact agrees_of_status nofun nofun
    · exact h p hp
  · exact h q hq

/-- An operation on the boards, when no goroutine has just come to its verdict. -/
theorem verdicts_apply {exempt : GoString → GoString → Prop} {goroutine : Bool} {b : Boards}
    {op : StoreOp}
    (h : ∀ id m, getMission id b.store = some m → AgreeExcept (exempt id) m.quests)
    (hC : KeepsVerdicts goroutine b op)
    (hno : goroutine = true → ∀ now id x v, op ≠ .update now id (.runFinish x (.ok v))) :
    ∀ id m, getMission id (op.apply b).store = some m → AgreeExcept (exempt id) m.quests := by
  intro i m' hm'
  cases stored_cases hm' with
  | kept hm => exact h i m' hm
  | updated hm hst hq =>
    rw [hq]
    refine agreeExcept_fn (h i _ hm) (hC _ hm) ?_
    rintro hgo x v q rfl
    exact absurd rfl (hno hgo _ _ _ _)
  | @created now instruction posed hi hst hq =>
    rw [hq]
    refine agreeExcept_of_forall fun q hq' => ?_
    have hpending : ∀ q ∈ poseBoard instruction, q.status = .pending := by
      refine poseBoard_induct (P := fun quests => ∀ q ∈ quests, q.status = .pending) ?_ ?_ instruction
      · exact fun q hq => absurd hq List.not_mem_nil
      · intro p hp title organHint tool params dependsOn eta q hq
        rcases List.mem_append.1 hq with hq | hq
        · exact hp q hq
        · rw [List.mem_singleton.1 hq]
    have hst : q.status = .pending := by
      cases posed with
      | true => exact hpending q hq'
      | false => exact absurd hq' List.not_mem_nil
    exact agrees_of_status (by rw [hst]; nofun) (by rw [hst]; nofun)
  | @reloaded m hm hrel =>
    refine agreeExcept_of_forall fun q hq' => ?_
    rw [hrel] at hq'
    exact recoverMission_agrees (hC i m hm) q hq'

theorem verdicts_step {sys sys' : System} {act : SysAct} (h : VerdictsAgree sys)
    (hC : EachOp (KeepsVerdicts act.isThread) sys act) (hstep : sysStep sys act = some sys') :
    VerdictsAgree sys' := by
  by_cases hact : act = .restart
  · subst hact
    cases hstep
    intro i m' hm'
    have hm'' : (loadMissions sys.saved).lookup i = some m' := hm'
    rw [lookup_loadMissions] at hm''
    obtain ⟨m, hm, rfl⟩ := Option.map_eq_some_iff.1 hm''
    exact agreeExcept_of_forall (recoverMission_agrees (hC.1 i m hm))
  by_cases hrewards : ∃ id x, Rewards sys act id x
  · obtain ⟨id, x, hrew⟩ := hrewards
    obtain ⟨now, hops⟩ := rewards_ops hrew hstep
    have hC' := hC
    unfold EachOp at hC'
    rw [hops] at hC'
    -- A step gives the verdict on one quest.
    have hsame : ∀ i y, Rewards sys act i y → i = id ∧ y = x := by
      intro i y h
      obtain ⟨_, hops'⟩ := rewards_ops h hstep
      rw [hops] at hops'
      cases hops'
      exact ⟨rfl, rfl⟩
    refine verdicts_single h hops hstep ?_ ?_
    · intro i y hi hrew'
      rcases rewarding_step hact hstep hrew' with hkept | hnow
      · exact hkept
      · exact absurd (hsame i y hnow).1 hi
    · intro m hm hagree
      refine (agreeExcept_rewarded hagree (hC'.1 m hm)).mono ?_
      rintro y ⟨hrew', hy⟩
      rcases rewarding_step hact hstep hrew' with hkept | hnow
      · exact hkept
      · exact absurd (hsame id y hnow).2 hy
  have hmono : ∀ i y, Rewarding sys i y → Rewarding sys' i y := by
    intro i y hrew
    rcases rewarding_step hact hstep hrew with hkept | hnow
    · exact hkept
    · exact absurd ⟨i, y, hnow⟩ hrewards
  by_cases htool : act.isThread = true ∧
      ∃ now id x v, StoreOp.update now id (.runFinish x (.ok v)) ∈ ops sys act
  · obtain ⟨hthread, now, id, x, v, hop⟩ := htool
    obtain ⟨res, hends⟩ := ops_finish (x := x) hop rfl
    obtain ⟨now', op, hops, -⟩ := ends_ops hends hstep
    have hC' := hC
    unfold EachOp at hC'
    rw [hops] at hC'
    have hop' := hop
    rw [hops] at hop'
    obtain ⟨rfl, -, rfl⟩ := StoreOp.update.inj (List.mem_singleton.1 hop')
    refine verdicts_single h hops hstep (fun i y _ => hmono i y) fun m hm hagree => ?_
    refine agreeExcept_fn (hagree.mono (hmono id)) (hC'.1 m hm) ?_
    intro _ y w q hfin hq
    obtain ⟨rfl, -⟩ := BoardOp.runFinish.inj hfin
    exact rewarding_tool hthread hop hm hq hstep
  · refine boards_step
      (P := fun b => ∀ id m, getMission id b.store = some m → AgreeExcept (Rewarding sys' id) m.quests)
      (C := fun b op => KeepsVerdicts act.isThread b op ∧
        (act.isThread = true → ∀ now id x v, op ≠ .update now id (.runFinish x (.ok v))))
      (fun b op hb hC => verdicts_apply hb hC.1 hC.2) ?_ ?_ hstep
    · intro i m hm
      exact (h i m hm).mono (hmono i)
    · refine stepsMeet_imp_of_invariant (P := fun _ => True) (fun _ _ _ _ _ _ => trivial) ?_ trivial hC
      rintro b op hop - hkeeps
      refine ⟨hkeeps, ?_⟩
      rintro hthread now id x v rfl
      exact htool ⟨hthread, now, id, x, v, hop⟩

/-- In every state that a relay reaches whose operations find fitting verdicts, the verdicts of the
quests agree with their status, unless they are in flight. -/
theorem verdicts_agree {saved : AList fun _ : GoString => Mission}
    {perm : GoString → GoString → Permission} {acts : List SysAct} {sys : System}
    (hrun : runSteps sysStep (.boot ⟨∅, 0⟩ saved perm) acts = some sys)
    (hC : StepsMeet sysStep (fun sys act => EachOp (KeepsVerdicts act.isThread) sys act)
      (.boot ⟨∅, 0⟩ saved perm) acts) {id : GoString} {m : Mission} {q : Quest}
    (hm : getMission id sys.store = some m) (hq : q ∈ m.quests) (hquiet : ¬ InFlight sys id q.id) :
    VerdictAgrees q := by
  have hagree : VerdictsAgree sys :=
    runSteps_invariant_of_meet (fun _ _ _ h hC hstep => verdicts_step h hC hstep) hrun hC
      fun _ _ hm => nomatch hm
  obtain ⟨i, hi⟩ := List.mem_iff_getElem?.1 hq
  rcases hagree id m hm i q hi with h | ⟨hrew, -⟩
  · exact h
  · exact absurd (.inr hrew) hquiet

/-- A tool that succeeds at once. -/
def runOnce : List SysAct := claimAndRun ++ [.callFinish 0 "m0-1" "q1" (.ok .null)]

/-- A tool that fails, and then succeeds. -/
def runTwice : List SysAct :=
  claimAndRun ++ [.callFinish 0 "m0-1" "q1" (.error "timeout"), .callStart 0 "m0-1" "q1",
    .callFinish 0 "m0-1" "q1" (.ok .null)]

/-- The quest after the run. -/
def ranQuest : Quest :=
  { boardQuest "q1" [] with status := .done, claim := "suparna_vpc", result := some .null }

/-- Its mission. -/
def ranMission : Mission := ⟨"m0-1", "read", [ranQuest], .active, [], [], none, 0, 0⟩

/-- The relay after the run. -/
def ranSystem : System :=
  { openRelay with store := ⟨AList.singleton (str "m0-1") ranMission, 1⟩, log := [.created "m0-1"] }

theorem runOnce_agrees : ∃ sys m, runSteps sysStep openRelay runOnce = some sys ∧
    getMission "m0-1" sys.store = some m ∧ ranQuest ∈ m.quests ∧ VerdictAgrees ranQuest := by
  have hC : StepsMeet sysStep (fun sys act => EachOp (KeepsVerdicts act.isThread) sys act)
      openRelay runOnce := by
    refine stepsMeet_cons ?_ rfl (stepsMeet_cons ?_ rfl (stepsMeet_cons ?_ rfl
      (stepsMeet_cons ?_ rfl trivial)))
    · refine ⟨trivial, fun _ _ => ⟨fun m _ q hq => ?_, fun _ _ => trivial⟩⟩
      obtain rfl := List.mem_singleton.1 hq
      exact agrees_of_status nofun nofun
    · exact ⟨fun _ _ => trivial, fun _ _ => trivial⟩
    · exact ⟨fun _ _ => trivial, fun _ _ => trivial⟩
    · refine ⟨fun m hm => .inr fun q hq => ?_, fun _ _ => trivial⟩
      cases hm
      cases hq
      exact nofun
  have hmem : ranQuest ∈ ranMission.quests := List.mem_singleton_self _
  have hm : getMission "m0-1" ranSystem.store = some ranMission := rfl
  refine ⟨ranSystem, ranMission, rfl, hm, hmem, verdicts_agree rfl hC hm hmem ?_⟩
  rintro (hrun | ⟨t, ht, -⟩)
  · exact absurd hrun (Nat.lt_irrefl 0)
  · exact absurd ht List.not_mem_nil

/-- The first failure leaves its verdict on the quest. -/
theorem runTwice_disagrees : ∃ sys q, runSteps sysStep openRelay runTwice = some sys ∧
    boardFind sys "m0-1" "q1" = some q ∧ ¬ InFlight sys "m0-1" "q1" ∧ ¬ VerdictAgrees q := by
  refine ⟨_, _, rfl, rfl, ?_, fun h => h.1 rfl _ rfl rfl⟩
  rintro (hrun | ⟨t, ht, -⟩)
  · exact absurd hrun (Nat.lt_irrefl 0)
  · exact absurd ht List.not_mem_nil

end Gafam.Orchestrator
