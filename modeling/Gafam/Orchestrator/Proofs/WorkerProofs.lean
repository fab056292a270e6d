import Gafam.Moksa.Proofs.ExecutorProofs
import Gafam.Orchestrator.Levels

/-!
# The goroutine of a quest, on its own

A goroutine of a level reads and writes one quest of the board only, the first one with the id it was
started for. `WorkerPc.solo` is the goroutine as a machine on that quest alone, and `step_solo` says
that the goroutine on the store does what this machine does, whatever the rest of the store is.
-/

namespace Gafam.Orchestrator

open Gafam.Go Gafam.Moksa

theorem setQuest_local (x : GoString) {f : Quest → Quest} (hf : ∀ q, SameKey q (f q)) :
    LocalTo x (setQuest x f) fun _ q => (f q, none) := by
  constructor
  · intro m q hq
    unfold setQuest
    rw [updateQuest_found hq]
  · intro μ q
    exact hf q

/-- One step of `runOne` for the snapshot `q`, the quest of the board being `f` and the status of the
mission `μ`. -/
def WorkerPc.solo (r : Run) (h : Host) (q : Quest) (μ : MissionStatus) (f : Quest) :
    WorkerPc → WorkerPc × Quest × Option Event
  | queued => (gate, f, none)
  | gate =>
    match h.perm r.karakaID q.tool with
    | .deny =>
      (finished,
        { f with
          status := .cancelled
          error := "permission deny: " ++ r.karakaID ++ " cannot use " ++ q.tool },
        some (.failed q.id))
    | .ask =>
      if r.approvalMode then
        (finished, { f with status := .waitingApproval }, some (.parked q.id))
      else (interpolate, f, none)
    | .allow => (interpolate, f, none)
  | interpolate =>
    (if q.status = .failed then reset else claim, { f with params := h.interpolated }, none)
  | reset =>
    (claim, if f.status = .failed then { f with status := .pending, error := [] } else f, none)
  | claim =>
    match claimOne r.karakaID μ f with
    | (f, some _) => (finished, f, some (.failed q.id))
    | (f, none) => (run 0, f, none)
  | run attempt =>
    match runStartOne h.perm μ f with
    | (f, some e) => (observe attempt e, f, none)
    | (f, none) => (tool attempt, f, some (.started f))
  | tool attempt =>
    let f := (runFinishOne h.tool μ f).1
    if f.status = .done then (rewardDone, f, none)
    else (observe attempt (if f.error = [] then str "unknown error" else f.error), f, none)
  | repair attempt lastErr =>
    match h.repair with
    | none => (rewardFailed lastErr, f, none)
    | some params => (run (attempt + 1), { f with params := params, error := [] }, none)
  | rewardDone => (finished, (rewardOne true 1 "auto: tool executed" μ f).1, some (.completed q.id))
  | rewardFailed lastErr =>
    (finished, (rewardOne false 0 ("auto: " ++ truncateStr lastErr 120) μ f).1,
      some (.failed q.id))
  | finished => (finished, f, none)

theorem solo_key (r : Run) (h : Host) (q : Quest) (μ : MissionStatus) (f : Quest) (pc : WorkerPc) :
    SameKey f (pc.solo r h q μ f).2.1 := by
  cases pc with
  | gate =>
    unfold WorkerPc.solo
    dsimp only
    cases h.perm r.karakaID q.tool with
    | ask => dsimp only; split_ifs <;> exact ⟨rfl, rfl, rfl⟩
    | allow => exact .refl f
    | deny => exact ⟨rfl, rfl, rfl⟩
  | reset =>
    unfold WorkerPc.solo
    dsimp only
    split_ifs <;> exact ⟨rfl, rfl, rfl⟩
  | claim =>
    have hkey := (claimQuest_local q.id r.karakaID).key μ f
    unfold WorkerPc.solo
    dsimp only
    revert hkey
    rcases claimOne r.karakaID μ f with ⟨f', e | e⟩ <;> exact fun hkey => hkey
  | run attempt =>
    have hkey := (runQuestStart_local h.perm q.id).key μ f
    unfold WorkerPc.solo
    dsimp only
    revert hkey
    rcases runStartOne h.perm μ f with ⟨f', e | e⟩ <;> exact fun hkey => hkey
  | tool attempt =>
    have hkey := (runQuestFinish_local q.id h.tool).key μ f
    unfold WorkerPc.solo
    dsimp only
    split_ifs <;> exact hkey
  | repair attempt lastErr =>
    unfold WorkerPc.solo
    dsimp only
    cases h.repair <;> exact ⟨rfl, rfl, rfl⟩
  | rewardDone => exact (applyReward_done_local q.id 1 _ false).key μ f
  | rewardFailed lastErr => exact (applyReward_failed_local q.id 0 _ false).key μ f
  | _ => exact ⟨rfl, rfl, rfl⟩

/-- The store `st'` is `st` with `f` for the first quest `x` on the board of the mission. -/
structure Rewrites (id x : GoString) (m : Mission) (f : Quest) (st st' : Store) : Prop where
  board : ∃ m', getMission id st' = some m' ∧ m'.status = m.status ∧
    m'.quests = updateFirst x (fun _ => f) m.quests
  others : ∀ i, i ≠ id → getMission i st' = getMission i st

theorem Rewrites.refl {id x : GoString} {m : Mission} {f : Quest} {st : Store}
    (hm : getMission id st = some m) (hf : m.findQuest x = some f) : Rewrites id x m f st st where
  board := ⟨m, hm, rfl, (updateFirst_self hf).symm⟩
  others _ _ := rfl

/-- What `UpdateMission` does to the store with an operation on one quest. -/
theorem updateMission_rewrites (now : Nat) {id x : GoString} {fn : MissionFn} {φ : QuestFn}
    {st : Store} {m : Mission} {q : Quest} (hfn : LocalTo x fn φ) (hm : getMission id st = some m)
    (hq : m.findQuest x = some q) :
    Rewrites id x m (φ m.status q).1 st (updateMission now id fn st).2 := by
  rw [updateMission_local now hfn hm hq]
  refine ⟨⟨m.after now x (φ m.status q), AList.lookup_insert _, after_status .., after_quests ..⟩, ?_⟩
  intro i hi
  exact AList.lookup_insert_ne hi

theorem setQuest_rewrites {id x : GoString} {st : Store} {m : Mission} {q : Quest}
    (g : Quest → Quest) (hg : ∀ q, SameKey q (g q)) (now : Nat) (hm : getMission id st = some m)
    (hq : m.findQuest x = some q) :
    Rewrites id x m (g q) st (updateMission now id (setQuest x g) st).2 :=
  updateMission_rewrites now (setQuest_local x hg) hm hq

theorem cancelQuest_rewrites {r : Run} {x : GoString} {st : Store} {m : Mission} {q : Quest}
    (now : Nat) (reason : GoString) (hm : getMission r.missionID st = some m)
    (hq : m.findQuest x = some q) :
    Rewrites r.missionID x m { q with status := .cancelled, error := reason } st
      (cancelQuest r now x reason st) :=
  setQuest_rewrites (fun q => { q with status := .cancelled, error := reason })
    (fun _ => ⟨rfl, rfl, rfl⟩) now hm hq

/-- The goroutine on the store. -/
theorem step_solo {r : Run} {h : Host} {q : Quest} {st : Store} {m : Mission} {f : Quest}
    (pc : WorkerPc) (hm : getMission r.missionID st = some m) (hf : m.findQuest q.id = some f) :
    (pc.step r h q st).1 = (pc.solo r h q m.status f).1 ∧
      (pc.step r h q st).2.2 = (pc.solo r h q m.status f).2.2 ∧
      Rewrites r.missionID q.id m (pc.solo r h q m.status f).2.1 st (pc.step r h q st).2.1 := by
  have hid : f.id = q.id := findQuest_id hf
  have same : Rewrites r.missionID q.id m f st st := .refl hm hf
  cases pc with
  | queued => exact ⟨rfl, rfl, same⟩
  | gate =>
    unfold WorkerPc.step WorkerPc.solo
    dsimp only
    cases h.perm r.karakaID q.tool with
    | allow => exact ⟨rfl, rfl, same⟩
    | ask =>
      dsimp only
      split_ifs
      · refine ⟨rfl, rfl, setQuest_rewrites (fun q => { q with status := .waitingApproval }) ?_ _ hm hf⟩
        exact fun _ => ⟨rfl, rfl, rfl⟩
      · exact ⟨rfl, rfl, same⟩
    | deny =>
      refine ⟨rfl, rfl, setQuest_rewrites (fun q => { q with status := .cancelled, error := _ }) ?_ _
        hm hf⟩
      exact fun _ => ⟨rfl, rfl, rfl⟩
  | interpolate =>
    refine ⟨rfl, rfl, setQuest_rewrites (fun q => { q with params := h.interpolated }) ?_ _ hm hf⟩
    exact fun _ => ⟨rfl, rfl, rfl⟩
  | reset =>
    refine ⟨rfl, rfl, setQuest_rewrites (fun q =>
      if q.status = .failed then { q with status := .pending, error := [] } else q) ?_ _ hm hf⟩
    intro q
    split_ifs <;> exact ⟨rfl, rfl, rfl⟩
  | claim =>
    have hl := claimQuest_local q.id r.karakaID
    have hrw := updateMission_rewrites h.now hl hm hf
    have heq := updateMission_local h.now hl hm hf
    unfold WorkerPc.step WorkerPc.solo
    dsimp only
    revert hrw heq
    generalize updateMission h.now r.missionID (claimQuest q.id r.karakaID) st = u
    intro hrw heq
    subst heq
    revert hrw
    rcases claimOne r.karakaID m.status f with ⟨f', e | e⟩ <;> exact fun hrw => ⟨rfl, rfl, hrw⟩
  | run attempt =>
    have hl := runQuestStart_local h.perm q.id
    have hrw := updateMission_rewrites h.now hl hm hf
    have heq := updateMission_local h.now hl hm hf
    have hfind := after_findQuest_self h.now (r := runStartOne h.perm m.status f) hf
      ((hl.key m.status f).id.trans hid)
    unfold WorkerPc.step WorkerPc.solo
    dsimp only
    revert hrw heq hfind
    generalize updateMission h.now r.missionID (runQuestStart h.perm q.id) st = u
    intro hrw heq hfind
    subst heq
    revert hrw hfind
    rcases runStartOne h.perm m.status f with ⟨f', e | e⟩
    · intro hfind hrw
      dsimp only
      rw [hfind]
      exact ⟨rfl, rfl, hrw⟩
    · exact fun _ hrw => ⟨rfl, rfl, hrw⟩
  | tool attempt =>
    have hl := runQuestFinish_local q.id h.tool
    have hrw := updateMission_rewrites h.now hl hm hf
    have heq := updateMission_local h.now hl hm hf
    have hfind := after_findQuest_self h.now (r := runFinishOne h.tool m.status f) hf
      ((hl.key m.status f).id.trans hid)
    have hnone : (runFinishOne h.tool m.status f).2 = none := by
      unfold runFinishOne
      cases h.tool <;> rfl
    unfold WorkerPc.step WorkerPc.solo
    dsimp only
    revert hrw heq
    generalize updateMission h.now r.missionID (runQuestFinish q.id h.tool) st = u
    intro hrw heq
    subst heq
    rw [hnone]
    dsimp only
    rw [hfind]
    dsimp only
    split_ifs <;> exact ⟨rfl, rfl, hrw⟩
  | repair attempt lastErr =>
    unfold WorkerPc.step WorkerPc.solo
    dsimp only
    cases h.repair with
    | none => exact ⟨rfl, rfl, same⟩
    | some params =>
      have hk : ∀ q : Quest, SameKey q { q with params := params, error := [] } :=
        fun _ => ⟨rfl, rfl, rfl⟩
      have hrw := setQuest_rewrites _ hk h.now hm hf
      have heq := updateMission_local h.now (setQuest_local q.id hk) hm hf
      dsimp only
      revert hrw heq
      generalize updateMission h.now r.missionID (setQuest q.id _) st = u
      intro hrw heq
      subst heq
      exact ⟨rfl, rfl, hrw⟩
  | rewardDone =>
    exact ⟨rfl, rfl, updateMission_rewrites _ (applyReward_done_local q.id 1 _ false) hm hf⟩
  | rewardFailed lastErr =>
    exact ⟨rfl, rfl, updateMission_rewrites _ (applyReward_failed_local q.id 0 _ false) hm hf⟩
  | finished => exact ⟨rfl, rfl, same⟩

/-! ## What a step of a goroutine reports -/

/-- A goroutine at the gate of an ask tool parks its quest. -/
theorem step_gate_ask {r : Run} {h : Host} {q : Quest} {st : Store} (hmode : r.approvalMode = true)
    (hask : h.perm r.karakaID q.tool = .ask) :
    WorkerPc.gate.step r h q st = (.finished, parkQuest r h.now q.id st, some (.parked q.id)) := by
  unfold WorkerPc.step
  dsimp only
  rw [hask]
  dsimp only
  rw [if_pos hmode]

/-- A step reports a start from `run`, that the quest is parked from the gate, its own id from the last
step, and nothing else. -/
theorem step_event {r : Run} {h : Host} {q : Quest} {st : Store} {pc : WorkerPc} {e : Event}
    (he : (pc.step r h q st).2.2 = some e) :
    (∃ attempt m f, pc = .run attempt ∧
      (updateMission h.now r.missionID (runQuestStart h.perm q.id) st).1 = .ok m ∧
        m.findQuest q.id = some f ∧ e = .started f) ∨
      e = .completed q.id ∨ e = .failed q.id ∨
      (e = .parked q.id ∧ pc = .gate ∧ h.perm r.karakaID q.tool = .ask ∧
        r.approvalMode = true) := by
  cases pc with
  | queued => exact nomatch he
  | gate =>
    unfold WorkerPc.step at he
    dsimp only at he
    cases hp : h.perm r.karakaID q.tool with
    | allow => rw [hp] at he; exact nomatch he
    | ask =>
      rw [hp] at he
      dsimp only at he
      split_ifs at he with hmode
      cases he
      exact .inr (.inr (.inr ⟨rfl, rfl, rfl, hmode⟩))
    | deny => rw [hp] at he; cases he; exact .inr (.inr (.inl rfl))
  | interpolate => exact nomatch he
  | reset => exact nomatch he
  | claim =>
    unfold WorkerPc.step at he
    dsimp only at he
    rcases hu : updateMission h.now r.missionID (claimQuest q.id r.karakaID) st with ⟨e' | m, st'⟩
    · rw [hu] at he
      cases he
      exact .inr (.inr (.inl rfl))
    · rw [hu] at he
      exact nomatch he
  | run attempt =>
    unfold WorkerPc.step at he
    dsimp only at he
    rcases hu : updateMission h.now r.missionID (runQuestStart h.perm q.id) st with ⟨e' | m, st'⟩
    · rw [hu] at he
      exact nomatch he
    · rw [hu] at he
      dsimp only at he
      cases hf : m.findQuest q.id with
      | none => rw [hf] at he; exact nomatch he
      | some f =>
        rw [hf] at he
        cases he
        exact .inl ⟨attempt, m, f, rfl, rfl, hf, rfl⟩
  | tool attempt =>
    unfold WorkerPc.step at he
    dsimp only at he
    rcases hu : updateMission h.now r.missionID (runQuestFinish q.id h.tool) st with ⟨e' | m, st'⟩
    · rw [hu] at he
      exact nomatch he
    · rw [hu] at he
      dsimp only at he
      cases hf : m.findQuest q.id with
      | none => rw [hf] at he; exact nomatch he
      | some f =>
        rw [hf] at he
        dsimp only at he
        split_ifs at he
  | repair attempt lastErr =>
    unfold WorkerPc.step at he
    dsimp only at he
    cases hr : h.repair with
    | none => rw [hr] at he; exact nomatch he
    | some params =>
      rw [hr] at he
      dsimp only at he
      revert he
      rcases updateMission h.now r.missionID (setQuest q.id _) st with ⟨e' | m, st'⟩ <;>
        exact fun he => nomatch he
  | rewardDone => cases he; exact .inr (.inl rfl)
  | rewardFailed lastErr => cases he; exact .inr (.inr (.inl rfl))
  | finished => exact nomatch he

end Gafam.Orchestrator
