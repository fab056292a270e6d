import Gafam.Orchestrator.Board
import Gafam.Orchestrator.Proofs.BoardProofs

/-!
# What an operation does to the quests of a board

Apart from two of them, the operations of the relay look for the first quest with an id, change it,
and append one quest at most. `BoardOp.quest` is what becomes of the quest they look for, and
`fn_effect` says that nothing else happens.
-/

namespace Gafam.Orchestrator

open Gafam.Go Gafam.Moksa

/-- The id of the quest that the operation is about. -/
def BoardOp.target : BoardOp → Option GoString
  | claim x _ | runStart _ x | runFinish x _ | reward x _ _ _ _ | approve x _ _ | cancel x _ | park x
  | params x _ | reset x | repair x _ | wire x _ | research x _ _ _ => some x
  | add .. | researchFail .. | fill .. | mission .. => none

/-- What the operation makes of this quest on a mission with the status `μ`. -/
def BoardOp.quest (μ : MissionStatus) (q : Quest) : BoardOp → Quest
  | claim _ karakaID => (claimOne karakaID μ q).1
  | runStart perm _ => (runStartOne perm μ q).1
  | runFinish _ res => (runFinishOne res μ q).1
  | reward _ .done score reason _ => (rewardOne true score reason μ q).1
  | reward _ .failed score reason _ => (rewardOne false score reason μ q).1
  | reward _ verdict score reason _ => { q with reward := some ⟨verdict, score, reason⟩ }
  | approve _ ok reason =>
    if q.status ≠ .waitingApproval then q
    else if ok then { q with status := .pending }
    else
      { q with
        status := .cancelled
        error := if reason = [] then str "rejected by human" else "rejected by human: " ++ reason }
  | cancel _ reason => { q with status := .cancelled, error := reason }
  | park _ => { q with status := .waitingApproval }
  | params _ p => { q with params := p }
  | reset _ => if q.status = .failed then { q with status := .pending, error := [] } else q
  | repair _ p => { q with params := p, error := [] }
  | wire _ deps => { q with dependsOn := deps }
  | research _ status result err =>
    { q with
      status := status
      result := result
      error := err
      claim := if status = .running ∨ status = .claimed then "suparna_vpc" else q.claim }
  | add .. | researchFail .. | fill .. | mission .. => q

/-- The board after the operation has changed the quest it is about. -/
inductive Touched (m : Mission) (op : BoardOp) : List Quest → Prop
  | kept : Touched m op m.quests
  | one {x : GoString} {q : Quest} (hx : op.target = some x) (hq : m.findQuest x = some q) :
    Touched m op (updateFirst x (fun _ => op.quest m.status q) m.quests)

/-- What a quest of a research board becomes when the research fails. -/
def failRunning (err : GoString) (q : Quest) : Quest :=
  if q.status = .running ∨ q.status = .claimed then { q with status := .failed, error := err } else q

/-- The board after the operation. -/
inductive Effect (m : Mission) : BoardOp → List Quest → Prop
  | touched {op : BoardOp} {qs : List Quest} (h : Touched m op qs) : Effect m op qs
  | added {op : BoardOp} {qs : List Quest} {q : Quest} (hadd : op.Adds m) (h : Touched m op qs)
    (hid : q.id = m.nextQuestID) (hst : q.status = .pending) (hr : q.reward = none) :
    Effect m op (qs ++ [q])
  | failed {summary err : GoString} : Effect m (.researchFail summary err) (m.quests.map (failRunning err))
  | filled {quests : List Quest} : Effect m (.fill quests) quests

/-- An operation on one quest that is there. -/
theorem touched_local {m : Mission} {op : BoardOp} {x : GoString} {φ : QuestFn} (hx : op.target = some x)
    (hfn : LocalTo x op.fn φ) (hφ : ∀ q, (φ m.status q).1 = op.quest m.status q) {q : Quest}
    (hq : m.findQuest x = some q) : Touched m op (op.fn m).1.quests := by
  have h := congrArg (fun p => p.1.quests) (hfn.eq m q hq)
  dsimp only at h
  rw [h, hφ]
  exact .one hx hq

/-- A change of one quest, if it is there. -/
theorem touched_setQuest {m : Mission} {op : BoardOp} {x : GoString} {f : Quest → Quest}
    (hx : op.target = some x) (hfn : op.fn = setQuest x f) (hf : ∀ q, f q = op.quest m.status q) :
    Touched m op (op.fn m).1.quests := by
  have h : (op.fn m).1.quests = updateFirst x f m.quests := by rw [hfn]; rfl
  rw [h]
  cases hq : m.findQuest x with
  | none =>
    rw [updateFirst_none hq]
    exact .kept
  | some q =>
    rw [updateFirst_congr (g := fun _ => op.quest m.status q) hq (hf q)]
    exact .one hx hq

/-- What an operation does to the quests. -/
theorem fn_effect (op : BoardOp) (m : Mission) : Effect m op (op.fn m).1.quests := by
  cases op with
  | claim x karakaID =>
    refine .touched ?_
    cases hq : m.findQuest x with
    | none =>
      have h : (claimQuest x karakaID m).1 = m := by
        unfold claimQuest
        rw [hq]
        dsimp only
        split_ifs <;> rfl
      show Touched m _ (claimQuest x karakaID m).1.quests
      rw [h]
      exact .kept
    | some q => exact touched_local rfl (claimQuest_local x karakaID) (fun _ => rfl) hq
  | runStart perm x =>
    refine .touched ?_
    cases hq : m.findQuest x with
    | none =>
      have h : (runQuestStart perm x m).1 = m := by
        unfold runQuestStart
        rw [hq]
      show Touched m _ (runQuestStart perm x m).1.quests
      rw [h]
      exact .kept
    | some q => exact touched_local rfl (runQuestStart_local perm x) (fun _ => rfl) hq
  | runFinish x res =>
    refine .touched ?_
    cases hq : m.findQuest x with
    | none =>
      have h : (runQuestFinish x res m).1 = m := by
        unfold runQuestFinish
        rw [hq]
      show Touched m _ (runQuestFinish x res m).1.quests
      rw [h]
      exact .kept
    | some q => exact touched_local rfl (runQuestFinish_local x res) (fun _ => rfl) hq
  | reward x verdict score reason autoAdd =>
    cases hq : m.findQuest x with
    | none =>
      have h : (applyReward x verdict score reason autoAdd m).1 = m := by
        unfold applyReward
        rw [hq]
      show Effect m _ (applyReward x verdict score reason autoAdd m).1.quests
      rw [h]
      exact .touched .kept
    | some q =>
      have hother : ∀ v, (∀ s, BoardOp.quest m.status q (.reward x v score reason s) =
          { q with reward := some ⟨v, score, reason⟩ }) → ∀ s,
          Touched m (.reward x v score reason s)
            (m.updateQuest x fun q => { q with reward := some ⟨v, score, reason⟩ }).quests := by
        intro v hv s
        rw [updateQuest_found hq, ← hv s]
        exact .one rfl hq
      cases verdict with
      | done =>
        exact .touched (touched_local rfl (applyReward_done_local x score reason autoAdd)
          (fun _ => rfl) hq)
      | failed =>
        exact .touched (touched_local rfl (applyReward_failed_local x score reason autoAdd)
          (fun _ => rfl) hq)
      | needsMore =>
        have h := hother .needsMore (fun _ => rfl) autoAdd
        show Effect m _ (applyReward x .needsMore score reason autoAdd m).1.quests
        unfold applyReward
        rw [hq]
        cases autoAdd with
        | false => exact .touched h
        | true =>
          refine .added ⟨q, hq⟩ h ?_ rfl rfl
          show Mission.nextQuestID _ = _
          unfold Mission.nextQuestID Mission.updateQuest
          rw [length_updateFirst]
      | other s =>
        have h := hother (.other s) (fun _ => rfl) autoAdd
        show Effect m _ (applyReward x (.other s) score reason autoAdd m).1.quests
        unfold applyReward
        rw [hq]
        exact .touched h
  | add title organHint tool p dependsOn eta =>
    show Effect m _ (addQuest title organHint tool p dependsOn eta m).1.quests
    unfold addQuest
    by_cases hst : m.status = .cancelled
    · rw [if_pos hst]
      exact .touched .kept
    rw [if_neg hst]
    by_cases htitle : title = []
    · rw [if_pos htitle]
      exact .touched .kept
    · rw [if_neg htitle]
      exact .added ⟨hst, htitle⟩ .kept rfl rfl rfl
  | approve x ok reason =>
    refine .touched ?_
    show Touched m _ (approveQuest x ok reason m).1.quests
    unfold approveQuest
    cases hq : m.findQuest x with
    | none => exact .kept
    | some q =>
      dsimp only
      have hone : Touched m (.approve x ok reason) (updateFirst x
          (fun _ => BoardOp.quest m.status q (.approve x ok reason)) m.quests) := .one rfl hq
      unfold BoardOp.quest at hone
      dsimp only at hone
      by_cases hst : q.status ≠ .waitingApproval
      · rw [if_pos hst]
        exact .kept
      rw [if_neg hst] at hone ⊢
      cases ok with
      | true =>
        rw [updateQuest_found hq]
        rw [if_pos rfl] at hone ⊢
        split_ifs <;> exact hone
      | false =>
        rw [if_neg (by simp)] at hone ⊢
        rw [updateQuest_found hq]
        exact hone
  | cancel x reason => exact .touched (touched_setQuest rfl rfl fun _ => rfl)
  | park x => exact .touched (touched_setQuest rfl rfl fun _ => rfl)
  | params x p => exact .touched (touched_setQuest rfl rfl fun _ => rfl)
  | reset x => exact .touched (touched_setQuest rfl rfl fun _ => rfl)
  | repair x p => exact .touched (touched_setQuest rfl rfl fun _ => rfl)
  | wire x deps => exact .touched (touched_setQuest rfl rfl fun _ => rfl)
  | research x status result err => exact .touched (touched_setQuest rfl rfl fun _ => rfl)
  | researchFail summary err => exact .failed
  | fill quests => exact .filled
  | mission f hf =>
    show Effect m _ (f m).quests
    rw [hf]
    exact .touched .kept

/-! ## What an operation keeps -/

/-- A quest keeps its id. -/
theorem quest_id (op : BoardOp) (μ : MissionStatus) (q : Quest) : (op.quest μ q).id = q.id := by
  cases op with
  | claim x karakaID => exact ((claimQuest_local x karakaID).key μ q).id
  | runStart perm x => exact ((runQuestStart_local perm x).key μ q).id
  | runFinish x res => exact ((runQuestFinish_local x res).key μ q).id
  | reward x verdict score reason autoAdd =>
    cases verdict with
    | done => exact ((applyReward_done_local x score reason autoAdd).key μ q).id
    | failed => exact ((applyReward_failed_local x score reason autoAdd).key μ q).id
    | _ => rfl
  | approve x ok reason =>
    unfold BoardOp.quest
    dsimp only
    split_ifs <;> rfl
  | reset x =>
    unfold BoardOp.quest
    dsimp only
    split_ifs <;> rfl
  | _ => rfl

theorem Touched.ids {m : Mission} {op : BoardOp} {qs : List Quest} (h : Touched m op qs) :
    qs.map Quest.id = m.quests.map Quest.id := by
  cases h with
  | kept => rfl
  | one hx hp => exact map_updateFirst hp (quest_id op _ _)

theorem failRunning_id (err : GoString) (q : Quest) : (failRunning err q).id = q.id := by
  unfold failRunning
  split_ifs <;> rfl

/-! ## The first quest with an id -/

theorem find_append_of_some {qs qs' : List Quest} {x : GoString} {q : Quest}
    (h : qs.find? (fun q => q.id = x) = some q) :
    (qs ++ qs').find? (fun q => q.id = x) = some q := by
  rw [List.find?_append, h]
  rfl

theorem Touched.find {m : Mission} {op : BoardOp} {qs : List Quest} (h : Touched m op qs)
    {x : GoString} {q : Quest} (hq : m.findQuest x = some q) :
    qs.find? (fun q => q.id = x) = some q ∨
      op.target = some x ∧ qs.find? (fun q => q.id = x) = some (op.quest m.status q) := by
  cases h with
  | kept => exact .inl hq
  | @one y p hy hp =>
    have hid : (op.quest m.status p).id = y := (quest_id op m.status p).trans (findQuest_id hp)
    by_cases hxy : x = y
    · subst hxy
      have hpq : p = q := Option.some.inj (hp.symm.trans hq)
      subst hpq
      refine .inr ⟨hy, ?_⟩
      have h := find_updateFirst_self (f := fun _ => op.quest m.status p) (fun _ _ => hid) m.quests
      have hp' : m.quests.find? (fun q => q.id = x) = some p := hp
      rw [h, hp']
      rfl
    · left
      exact (find_updateFirst_ne hxy (fun _ _ => hid) m.quests).trans hq

/-- What becomes of the first quest with an id. -/
inductive Found (m : Mission) (x : GoString) (q : Quest) : BoardOp → Option Quest → Prop
  | kept {op : BoardOp} : Found m x q op (some q)
  | one {op : BoardOp} (hx : op.target = some x) : Found m x q op (some (op.quest m.status q))
  | failed {summary err : GoString} : Found m x q (.researchFail summary err) (some (failRunning err q))
  | filled {quests : List Quest} {found : Option Quest} : Found m x q (.fill quests) found

theorem fn_found (op : BoardOp) {m : Mission} {x : GoString} {q : Quest}
    (hq : m.findQuest x = some q) :
    Found m x q op ((op.fn m).1.quests.find? fun q => q.id = x) := by
  have h := fn_effect op m
  revert h
  generalize (op.fn m).1.quests = qs
  intro h
  cases h with
  | touched h =>
    rcases h.find hq with h | ⟨hx, h⟩
    · rw [h]
      exact .kept
    · rw [h]
      exact .one hx
  | added hadd h =>
    rcases h.find hq with h | ⟨hx, h⟩
    · rw [find_append_of_some h]
      exact .kept
    · rw [find_append_of_some h]
      exact .one hx
  | @failed summary err =>
    have hq' : m.quests.find? (fun q => q.id = x) = some q := hq
    have hmap : (m.quests.map (failRunning err)).find? (fun q => q.id = x) =
        some (failRunning err q) := by
      rw [List.find?_map]
      have hcomp : ((fun q : Quest => decide (q.id = x)) ∘ failRunning err) =
          fun q : Quest => decide (q.id = x) := by
        funext p
        show decide ((failRunning err p).id = x) = _
        rw [failRunning_id]
      rw [hcomp, hq']
      rfl
    rw [hmap]
    exact .failed
  | filled => exact .filled

/-- An operation on the store, other than a restart and the creation or the deletion of the mission,
and the first quest with an id. -/
theorem find_apply {b : Boards} {op : StoreOp} {id x : GoString} {m : Mission} {q : Quest}
    (hm : getMission id b.store = some m) (hq : m.findQuest x = some q)
    (hcreate : ∀ now instruction posed, op = .create now instruction posed →
      (newMissionID now b.store).1 ≠ id)
    (hdelete : op ≠ .delete id) (hreload : op ≠ .reload) :
    (op.apply b).find id x = some q ∨
      ∃ now bop, op = .update now id bop ∧ Found m x q bop ((op.apply b).find id x) := by
  have hfind : b.find id x = some q := by
    unfold Boards.find
    rw [hm]
    exact hq
  cases op with
  | update now i bop =>
    by_cases hi : i = id
    · subst hi
      refine .inr ⟨now, bop, rfl, ?_⟩
      obtain ⟨m', hm', -, hqs⟩ := getMission_update_self now bop.fn hm
      have heq : (StoreOp.apply b (.update now i bop)).find i x =
          (bop.fn m).1.quests.find? fun q => q.id = x := by
        unfold Boards.find
        show (getMission i (updateMission now i bop.fn b.store).2).bind _ = _
        rw [hm', ← hqs]
        rfl
      rw [heq]
      exact fn_found bop hq
    · left
      unfold Boards.find at hfind ⊢
      show (getMission id (updateMission now i bop.fn b.store).2).bind _ = _
      rw [getMission_update_ne now bop.fn b.store fun h => hi h.symm]
      exact hfind
  | create now instruction posed =>
    left
    have hne := hcreate now instruction posed rfl
    unfold Boards.find at hfind ⊢
    have hget : getMission id (StoreOp.apply b (.create now instruction posed)).store =
        getMission id b.store := AList.lookup_insert_ne fun h => hne h.symm
    rw [hget]
    exact hfind
  | delete i =>
    left
    have hne : i ≠ id := by
      rintro rfl
      exact hdelete rfl
    have hget : getMission id (deleteMission i b.store).2 = getMission id b.store := by
      unfold deleteMission getMission
      split_ifs
      · exact AList.lookup_erase_ne fun h => hne h.symm
      · rfl
    unfold Boards.find at hfind ⊢
    show (getMission id (deleteMission i b.store).2).bind _ = _
    rw [hget]
    exact hfind
  | erase i => exact .inl hfind
  | persist i =>
    left
    unfold StoreOp.apply
    dsimp only
    cases getMission i b.store <;> exact hfind
  | reload => exact absurd rfl hreload

theorem find_some {b : Boards} {id x : GoString} {q : Quest} (h : b.find id x = some q) :
    ∃ m, getMission id b.store = some m ∧ m.findQuest x = some q :=
  Option.bind_eq_some_iff.1 h

/-- The first quest with the id is there and meets `P`. -/
def FoundWith (P : Quest → Prop) (id x : GoString) (b : Boards) : Prop :=
  ∃ q, b.find id x = some q ∧ P q

/-- What keeps the quest of a mission that stays. -/
theorem found_apply {P : Quest → Prop} {b : Boards} {op : StoreOp} {id x : GoString}
    (h : FoundWith P id x b)
    (hcreate : ∀ now instruction posed, op = .create now instruction posed →
      (newMissionID now b.store).1 ≠ id)
    (hdelete : op ≠ .delete id) (hreload : op ≠ .reload)
    (hone : ∀ now bop, op = .update now id bop → bop.target = some x →
      ∀ μ q, P q → P (bop.quest μ q))
    (hfailed : ∀ now summary err, op = .update now id (.researchFail summary err) →
      ∀ q, P q → P (failRunning err q))
    (hfill : ∀ now quests, op ≠ .update now id (.fill quests)) :
    FoundWith P id x (op.apply b) := by
  obtain ⟨q, hq, hP⟩ := h
  obtain ⟨m, hm, hmq⟩ := find_some hq
  rcases find_apply hm hmq hcreate hdelete hreload with hkept | ⟨now, bop, rfl, hfound⟩
  · exact ⟨q, hkept, hP⟩
  · unfold FoundWith
    revert hfound
    generalize (StoreOp.apply b (.update now id bop)).find id x = found
    intro hfound
    cases hfound with
    | kept => exact ⟨q, rfl, hP⟩
    | one hx => exact ⟨_, rfl, hone now bop rfl hx m.status q hP⟩
    | failed => exact ⟨_, rfl, hfailed _ _ _ rfl q hP⟩
    | filled => exact absurd rfl (hfill _ _)

end Gafam.Orchestrator
