import Gafam.Orchestrator.Proofs.LevelsProofs
import Gafam.Orchestrator.System

/-!
# What a step of a thread does

Only three kinds of steps of a thread report something or enter the levels: the start of the levels, a
step of the levels, and the start of a stage of the research. All others are `quiet`.
-/

namespace Gafam.Orchestrator

open Gafam.Go Gafam.Moksa

/-- No tool can run where a thread stands then. -/
def ThreadPc.toolFree : ThreadPc → Bool
  | levels _ _ | researchWork _ => false
  | _ => true

/-- No tool runs while a thread stands there. -/
def ThreadPc.idle : ThreadPc → Bool
  | levels _ s => (s.phase matches .returned)
  | researchWork _ => false
  | _ => true

theorem idle_returned {r : Run} {s : Levels} (h : s.phase = .returned) :
    (ThreadPc.levels r s).idle = true := by
  unfold ThreadPc.idle
  dsimp only
  rw [h]

/-- The steps of a thread, by what they report. -/
inductive ThreadStepped (perm : GoString → GoString → Permission) (approval : Bool) (t : Thread)
    (st : Store) : ThreadAct → Thread → Store → List Event → Prop
  | quiet {act : ThreadAct} {pc : ThreadPc} {iteration : Nat} {st' : Store}
    (hidle : t.pc.idle = true) (hpc : pc.toolFree = true) :
    ThreadStepped perm approval t st act { t with pc := pc, iteration := iteration } st' []
  | execute {now : Nat} (hpc : t.pc = .execute) :
    ThreadStepped perm approval t st (.tick now)
      { t with pc := .levels (t.run approval) (.start (t.run approval) st) } st []
  | level {r : Run} {s s' : Levels} {act : Act} {st' : Store} (hpc : t.pc = .levels r s)
    (hstep : Orchestrator.step r (s, st) (act.under perm) = some (s', st')) :
    ThreadStepped perm approval t st (.level act) { t with pc := .levels r s' } st'
      (s'.log.drop s.log.length)
  | research {now k : Nat} {stage : GoString × GoString × GoString} (hpc : t.pc = .researchStart k)
    (hstage : researchSteps[k]? = some stage) :
    ThreadStepped perm approval t st (.tick now) { t with pc := .researchWork k }
      (updateMission now t.missionID (researchSetQuest stage.1 .running none []) st).2
      (((getMission t.missionID
        (updateMission now t.missionID (researchSetQuest stage.1 .running none []) st).2).bind
          fun m => m.findQuest stage.1).toList.map .started)
  | stage {now k : Nat} {res : Except GoString (Option Json)}
    {stage : GoString × GoString × GoString} {pc : ThreadPc} {st' : Store}
    (hpc : t.pc = .researchWork k) (hstage : researchSteps[k]? = some stage)
    (hto : pc.toolFree = true) :
    ThreadStepped perm approval t st (.stage now res) { t with pc := pc } st' []

theorem ne_levels_of_toolFree {pc : ThreadPc} (h : pc.toolFree = true) (r : Run) (s : Levels) :
    pc ≠ .levels r s := by
  rintro rfl
  exact nomatch h

theorem planned_toolFree (t : Thread) (m : Mission) (reply : Option (List PlannedQuest)) :
    (t.planned m reply).toolFree = true := by
  unfold Thread.planned
  split
  · split_ifs
    · rfl
    · split <;> rfl
  · split_ifs
    · rfl
    · split <;> rfl
    · split <;> rfl
    · rfl

theorem observeMission_toolFree (iteration : Nat) (m : Mission) :
    (observeMission iteration m).1.toolFree = true := by
  unfold observeMission
  dsimp only
  split_ifs <;> rfl

theorem thread_step_cases {perm : GoString → GoString → Permission} {approval : Bool}
    {t t' : Thread} {st st' : Store} {act : ThreadAct} {es : List Event}
    (h : t.step perm approval st act = some (t', st', es)) :
    ThreadStepped perm approval t st act t' st' es := by
  cases hpc : t.pc with
  | execute =>
    cases act with
    | tick now =>
      simp only [Thread.step, hpc] at h
      cases h
      exact .execute hpc
    | _ => simp [Thread.step, hpc] at h
  | levels r s =>
    cases act with
    | level a =>
      simp only [Thread.step, hpc] at h
      cases hs : Orchestrator.step r (s, st) (a.under perm) with
      | none => rw [hs] at h; exact nomatch h
      | some p =>
        rw [hs] at h
        cases h
        exact .level hpc hs
    | tick now =>
      simp only [Thread.step, hpc] at h
      cases hp : s.phase with
      | returned => rw [hp] at h; cases h; exact .quiet (by rw [hpc]; exact idle_returned hp) rfl
      | _ => rw [hp] at h; exact nomatch h
    | _ => simp [Thread.step, hpc] at h
  | researchStart k =>
    cases act with
    | tick now =>
      simp only [Thread.step, hpc] at h
      cases hs : researchSteps[k]? with
      | none => rw [hs] at h; cases h; exact .quiet (by rw [hpc]; rfl) rfl
      | some stage => rw [hs] at h; cases h; exact .research hpc hs
    | _ => simp [Thread.step, hpc] at h
  | plan =>
    cases act with
    | reply reply =>
      simp only [Thread.step, hpc] at h
      cases hm : getMission t.missionID st with
      | none => rw [hm] at h; cases h; exact .quiet (by rw [hpc]; rfl) rfl
      | some m => rw [hm] at h; cases h; exact .quiet (by rw [hpc]; rfl) (planned_toolFree t m reply)
    | _ => simp [Thread.step, hpc] at h
  | observe =>
    cases act with
    | tick now =>
      simp only [Thread.step, hpc] at h
      split_ifs at h
      · cases h; exact .quiet (by rw [hpc]; rfl) rfl
      · cases h; exact .quiet (by rw [hpc]; rfl) rfl
      · cases hm : getMission t.missionID st with
        | none => rw [hm] at h; cases h; exact .quiet (by rw [hpc]; rfl) rfl
        | some m => rw [hm] at h; cases h; exact .quiet (by rw [hpc]; rfl) (observeMission_toolFree _ _)
    | _ => simp [Thread.step, hpc] at h
  | add todo plan ids =>
    cases act with
    | tick now =>
      cases todo with
      | nil =>
        simp only [Thread.step, hpc] at h
        split at h
        · cases h; exact .quiet (by rw [hpc]; rfl) rfl
        · cases h; exact .quiet (by rw [hpc]; rfl) rfl
      | cons pq todo =>
        simp only [Thread.step, hpc] at h
        split_ifs at h
        · cases h; exact .quiet (by rw [hpc]; rfl) rfl
        · split at h
          · cases h; exact .quiet (by rw [hpc]; rfl) rfl
          · cases h; exact .quiet (by rw [hpc]; rfl) rfl
    | _ => cases todo <;> simp [Thread.step, hpc] at h
  | wire todo =>
    cases act with
    | tick now =>
      cases todo <;> (simp only [Thread.step, hpc] at h; cases h; exact .quiet (by rw [hpc]; rfl) rfl)
    | _ => cases todo <;> simp [Thread.step, hpc] at h
  | judge =>
    cases act with
    | verdict now j =>
      cases j <;> (simp only [Thread.step, hpc] at h; cases h; exact .quiet (by rw [hpc]; rfl) rfl)
    | _ => simp [Thread.step, hpc] at h
  | researchOpen =>
    cases act with
    | tick now =>
      simp only [Thread.step, hpc] at h
      split at h
      · cases h; exact .quiet (by rw [hpc]; rfl) rfl
      · cases h; exact .quiet (by rw [hpc]; rfl) rfl
    | _ => simp [Thread.step, hpc] at h
  | researchAdd k =>
    cases act with
    | tick now =>
      simp only [Thread.step, hpc] at h
      split at h
      · cases h; exact .quiet (by rw [hpc]; rfl) rfl
      · cases h; exact .quiet (by rw [hpc]; rfl) rfl
    | _ => simp [Thread.step, hpc] at h
  | researchWork k =>
    cases act with
    | stage now res =>
      simp only [Thread.step, hpc] at h
      cases hs : researchSteps[k]? with
      | none => rw [hs] at h; exact nomatch h
      | some stage =>
        rw [hs] at h
        cases res with
        | ok v => cases h; exact .stage hpc hs rfl
        | error e =>
          dsimp only at h
          split_ifs at h
          cases h
          exact .stage hpc hs rfl
    | _ => simp [Thread.step, hpc] at h
  | _ =>
    cases act <;>
      first
        | (simp [Thread.step, hpc] at h; done)
        | (simp only [Thread.step, hpc] at h; cases h; exact .quiet (by rw [hpc]; rfl) rfl)

/-- A step of the level loop notes one event at most, and a start comes from a goroutine. -/
theorem stepped_log {r : Run} {s s' : Levels} {st st' : Store} {act : Act}
    (h : Stepped r s st act s' st') :
    s'.log = s.log ∨ ∃ e, s'.log = s.log ++ [e] ∧
      ∃ host q pc, st' = (WorkerPc.step r host q st pc).2.1 ∧
        (WorkerPc.step r host q st pc).2.2 = some e := by
  cases h with
  | @work workers k host q pc hp hk hsem =>
    cases he : (pc.step r host q st).2.2 with
    | none => exact .inl rfl
    | some e =>
      refine .inr ⟨e, ?_, host, q, pc, rfl, he⟩
      show (s.record (some e)).log = s.log ++ [e]
      unfold Levels.record
      cases e <;> rfl
  | _ => exact .inl rfl

/-- A step of a thread in the levels starts one tool at most, and no mission gets a number by it. -/
theorem startedQuests_step {perm : GoString → GoString → Permission} {approval : Bool}
    {t t' : Thread} {r : Run} {s : Levels} {st st' : Store} {act : ThreadAct} {es : List Event}
    (h : t.step perm approval st act = some (t', st', es)) (hpc : t.pc = .levels r s) :
    startedQuests es = [] ∨ ∃ q, startedQuests es = [q] ∧ st'.seq = st.seq := by
  cases thread_step_cases h with
  | quiet => exact .inl rfl
  | stage => exact .inl rfl
  | execute => exact .inl rfl
  | research hpc' => rw [hpc] at hpc'; exact nomatch hpc'
  | level hpc' hstep =>
    rcases stepped_log (step_cases hstep) with hlog | ⟨e, hlog, host, q, pc, hst, he⟩
    · rw [hlog, List.drop_length]
      exact .inl rfl
    · rw [hlog, List.drop_left]
      cases e with
      | started f =>
        obtain ⟨-, -, hseq, -⟩ := step_started he
        exact .inr ⟨f, rfl, by rw [hst]; exact hseq⟩
      | completed x => exact .inl rfl
      | failed x => exact .inl rfl
      | parked x => exact .inl rfl

theorem threadStep_cases {now k : Nat} {act : ThreadAct} {sys sys' : System}
    (h : threadStep now k act sys = some sys') :
    ∃ t t' st es, sys.threads[k]? = some t ∧ waits sys t act = false ∧
      t.step sys.perm sys.approval sys.store act = some (t', st, es) ∧
      sys' = unlock t' (delegateAll now t es
        { sys with
          store := st
          threads := sys.threads.set k t'
          log := sys.log ++ es.filterMap (SysEvent.ofEvent sys.perm t) }) := by
  unfold threadStep at h
  cases ht : sys.threads[k]? with
  | none => rw [ht] at h; exact nomatch h
  | some t =>
    rw [ht] at h
    dsimp only at h
    split_ifs at h with hwait
    cases hts : t.step sys.perm sys.approval sys.store act with
    | none => rw [hts] at h; exact nomatch h
    | some p =>
      obtain ⟨t', st, es⟩ := p
      rw [hts] at h
      exact ⟨t, t', st, es, rfl, by simpa using hwait, hts, (Option.some.inj h).symm⟩

end Gafam.Orchestrator
