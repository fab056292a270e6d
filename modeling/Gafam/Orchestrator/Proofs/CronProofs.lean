import Gafam.Orchestrator.Cron
import Mathlib.Data.List.Induction

/-!
# Which jobs get their turn

Whether a job is due depends on the ticks alone, since a job that is refused is marked as run all the same. If missions
last, the first of the jobs that are due at a tick is launched, and no other; so the jobs that are sure to be launched
are those that are the first at some tick.
-/

namespace Gafam.Orchestrator

open Gafam.Go Gafam.Lib

namespace CronJob

theorem after_append (j : CronJob) (ticks : List Int) (now : Int) :
    j.after (ticks ++ [now]) =
      if (j.after ticks).isDue now then { j.after ticks with lastRun := now } else j.after ticks := by
  unfold after
  rw [List.foldl_append]
  rfl

theorem after_same (ticks : List Int) (j : CronJob) : (j.after ticks).id = j.id ∧ (j.after ticks).enabled = j.enabled := by
  induction ticks using List.reverseRecOn with
  | nil => exact ⟨rfl, rfl⟩
  | append_singleton ticks now ih =>
    rw [after_append]
    split_ifs
    · exact ih
    · exact ih

theorem after_id (ticks : List Int) (j : CronJob) : (j.after ticks).id = j.id := (after_same ticks j).1

/-- The row of the job after these ticks. -/
def current (ticks : List Int) (j : CronJob) : CronJob := if j.enabled then j.after ticks else j

theorem current_same (ticks : List Int) (j : CronJob) :
    (j.current ticks).id = j.id ∧ (j.current ticks).enabled = j.enabled := by
  unfold current
  split_ifs
  · exact after_same ticks j
  · exact ⟨rfl, rfl⟩

end CronJob

namespace CronTable

theorem mem_enabled {t : CronTable} {j : CronJob} : j ∈ t.enabled ↔ j ∈ t.jobs ∧ j.enabled = true := List.mem_filter

theorem jobs_inj {t : CronTable} {i j : CronJob} (hi : i ∈ t.jobs) (hj : j ∈ t.jobs) (h : i.id = j.id) : i = j :=
  List.inj_on_of_nodup_map t.ids hi hj h

theorem enabled_nodup (t : CronTable) : t.enabled.Nodup := (List.Nodup.of_map _ t.ids).filter _

/-- The query between two ticks. -/
theorem enabled_current {t u : CronTable} {ticks : List Int} (h : u.jobs = t.jobs.map (CronJob.current ticks)) :
    u.enabled = t.enabled.map (·.after ticks) := by
  have henabled : (fun j : CronJob => j.enabled) ∘ CronJob.current ticks = fun j => j.enabled :=
    funext fun j => (CronJob.current_same ticks j).2
  unfold enabled
  rw [h, List.filter_map, henabled]
  refine List.map_congr_left fun j hj => ?_
  exact if_pos (List.mem_filter.1 hj).2

end CronTable

namespace Cron

/-! ## The loop -/

/-- Between two ticks all enabled jobs have gone through the same ticks. -/
structure Idle (T : CronTable) (s : Cron) : Prop where
  loop : s.loop = none
  table : s.table.jobs = T.jobs.map (CronJob.current s.ticks)

/-- In the tick `now` behind `before`, the loop has gone through the jobs in `done`. -/
structure InLoop (T : CronTable) (s : Cron) (before : List Int) (now : Int) (done todo : List CronJob) : Prop where
  loop : s.loop = some (now, todo.map (·.after before))
  ticks : s.ticks = before ++ [now]
  enabled : T.enabled = done ++ todo
  table : s.table.jobs = T.jobs.map fun j => if j ∈ done then j.after (before ++ [now]) else j.current before

theorem InLoop.notMem_done {T : CronTable} {s : Cron} {before : List Int} {now : Int} {done todo : List CronJob}
    {j : CronJob} (h : InLoop T s before now done (j :: todo)) : j ∉ done := by
  intro hj
  have hnodup := T.enabled_nodup
  rw [h.enabled] at hnodup
  exact (List.nodup_append.1 hnodup).2.2 j hj j (List.mem_cons_self ..) rfl

theorem InLoop.mem_enabled {T : CronTable} {s : Cron} {before : List Int} {now : Int} {done todo : List CronJob}
    {j : CronJob} (h : InLoop T s before now done (j :: todo)) : j ∈ T.enabled := by
  rw [h.enabled]
  exact List.mem_append_right _ (List.mem_cons_self ..)

theorem fire_not_due {s : Cron} {now : Int} {j : CronJob} (h : ¬ j.isDue now) : s.fire now j = s := if_neg h

theorem fire_busy {s : Cron} {now : Int} {j : CronJob} (h : j.isDue now) (hbusy : s.busy = true) :
    s.fire now j = { s with table := s.table.setLastRun j.id now } := by
  unfold fire
  rw [if_pos h]
  exact if_pos hbusy

theorem fire_free {s : Cron} {now : Int} {j : CronJob} (h : j.isDue now) (hbusy : s.busy = false) :
    s.fire now j =
      { s with table := s.table.setLastRun j.id now, busy := true, launched := s.launched ++ [j] } := by
  unfold fire
  rw [if_pos h]
  exact if_neg (by simp [hbusy])

theorem fire_same (s : Cron) (now : Int) (j : CronJob) :
    (s.fire now j).ticks = s.ticks ∧ (s.fire now j).table.jobs =
      if j.isDue now then s.table.jobs.map (CronTable.mark j.id now) else s.table.jobs := by
  by_cases hdue : j.isDue now = true
  · rw [if_pos hdue]
    cases hbusy : s.busy
    · rw [fire_free hdue hbusy]
      exact ⟨rfl, rfl⟩
    · rw [fire_busy hdue hbusy]
      exact ⟨rfl, rfl⟩
  · rw [if_neg hdue, fire_not_due hdue]
    exact ⟨rfl, rfl⟩

/-- One job more has gone through the tick. -/
theorem InLoop.table_fire {T : CronTable} {s : Cron} {before : List Int} {now : Int} {done todo : List CronJob}
    {j : CronJob} (h : InLoop T s before now done (j :: todo)) :
    (s.fire now (j.after before)).table.jobs =
      T.jobs.map fun i => if i ∈ done ++ [j] then i.after (before ++ [now]) else i.current before := by
  have hj := CronTable.mem_enabled.1 h.mem_enabled
  have hnot := h.notMem_done
  have hcurrent : j.current before = j.after before := if_pos hj.2
  have hmem : ∀ i, i ≠ j → (i ∈ done ++ [j] ↔ i ∈ done) := fun i hij => by simp [hij]
  rw [(fire_same s now _).2]
  by_cases hdue : (j.after before).isDue now = true
  · -- the mark changes the row of this job, and no other
    rw [if_pos hdue, h.table, List.map_map]
    refine List.map_congr_left fun i hi => ?_
    by_cases hij : i = j
    · subst hij
      simp [hnot, hcurrent, CronTable.mark, CronJob.after_append, hdue]
    · have hne : i.id ≠ (j.after before).id := by
        rw [CronJob.after_id]
        exact fun hid => hij (CronTable.jobs_inj hi hj.1 hid)
      have hid : (if i ∈ done then i.after (before ++ [now]) else i.current before).id = i.id := by
        split_ifs
        · exact CronJob.after_id _ i
        · exact (CronJob.current_same before i).1
      simp only [Function.comp_apply, CronTable.mark, hid, hne, if_false, hmem i hij]
  · rw [if_neg hdue, h.table]
    refine List.map_congr_left fun i hi => ?_
    by_cases hij : i = j
    · subst hij
      simp [hnot, hcurrent, CronJob.after_append, hdue]
    · simp only [hmem i hij]

/-! ## Invariants along the loop -/

/-- `I` holds between two ticks, and `L` in the loop, for the ticks before, the time and the jobs that are done. -/
def Along (T : CronTable) (I : Cron → Prop) (L : Cron → List Int → Int → List CronJob → Prop) (s : Cron) : Prop :=
  Idle T s ∧ I s ∨ ∃ before now done todo, InLoop T s before now done todo ∧ L s before now done

/-- What each kind of step has to preserve. -/
theorem along_step {T : CronTable} {I : Cron → Prop} {L : Cron → List Int → Int → List CronJob → Prop}
    {C : Cron → CronEvent → Prop}
    (htick : ∀ s now, Idle T s → I s → C s (.tick now) →
      L { s with loop := some (now, s.table.enabled), ticks := s.ticks ++ [now] } s.ticks now [])
    (hnext : ∀ s before now done j todo loop, InLoop T s before now done (j :: todo) → L s before now done →
      L { s.fire now (j.after before) with loop := loop } before now (done ++ [j]))
    (hend : ∀ s before now, s.ticks = before ++ [now] → L s before now T.enabled → I { s with loop := none })
    (hfinish : ∀ s, Idle T s → I s → I { s with busy := false })
    (hfinish' : ∀ s before now done todo, InLoop T s before now done todo → C s .finish → L s before now done →
      L { s with busy := false } before now done)
    {s s' : Cron} {e : CronEvent} (h : Along T I L s) (hC : C s e) (hstep : step s e = some s') :
    Along T I L s' := by
  rcases h with ⟨hidle, hI⟩ | ⟨before, now, done, todo, hloop, hL⟩
  · cases e with
    | tick now =>
      simp only [step, hidle.loop] at hstep
      cases hstep
      refine .inr ⟨s.ticks, now, [], T.enabled, ?_, htick s now hidle hI hC⟩
      refine ⟨?_, rfl, rfl, ?_⟩
      · show some (now, s.table.enabled) = _
        rw [CronTable.enabled_current hidle.table]
      · simpa using hidle.table
    | next =>
      simp only [step, hidle.loop] at hstep
      cases hstep
    | finish =>
      obtain ⟨-, hs'⟩ := Option.ite_none_right_eq_some.1 hstep
      cases hs'
      exact .inl ⟨⟨hidle.loop, hidle.table⟩, hfinish s hidle hI⟩
  · cases e with
    | tick now' =>
      simp only [step, hloop.loop] at hstep
      cases hstep
    | next =>
      cases todo with
      | nil =>
        simp only [step, hloop.loop, List.map_nil] at hstep
        cases hstep
        have hdone : done = T.enabled := by rw [hloop.enabled, List.append_nil]
        subst hdone
        refine .inl ⟨⟨rfl, ?_⟩, hend s before now hloop.ticks hL⟩
        show s.table.jobs = T.jobs.map (CronJob.current s.ticks)
        rw [hloop.table, hloop.ticks]
        refine List.map_congr_left fun i hi => ?_
        unfold CronJob.current
        simp only [CronTable.mem_enabled, hi, true_and]
        split_ifs <;> rfl
      | cons j todo =>
        simp only [step, hloop.loop, List.map_cons] at hstep
        cases hstep
        refine .inr ⟨before, now, done ++ [j], todo, ⟨rfl, ?_, ?_, hloop.table_fire⟩,
          hnext s before now done j todo _ hloop hL⟩
        · exact (fire_same s now _).1.trans hloop.ticks
        · rw [hloop.enabled, List.append_assoc]
          rfl
    | finish =>
      obtain ⟨-, hs'⟩ := Option.ite_none_right_eq_some.1 hstep
      cases hs'
      exact .inr ⟨before, now, done, todo, ⟨hloop.loop, hloop.ticks, hloop.enabled, hloop.table⟩,
        hfinish' s before now done todo hloop hC hL⟩

theorem idle_start (T : CronTable) : Idle T (start T) where
  loop := rfl
  table := by
    have hcurrent : CronJob.current [] = fun j => j := by
      funext j
      exact ite_self j
    show T.jobs = T.jobs.map (CronJob.current [])
    rw [hcurrent, List.map_id']

/-! ## Jobs that are the first to be due -/

open CronJob (FirstDue)

/-- The job is the first one to be due at one of the ticks. -/
def Chosen (T : CronTable) (ticks : List Int) (j : CronJob) : Prop :=
  ∃ before now later, ticks = before ++ now :: later ∧ FirstDue T.enabled before now j

theorem chosen_append {T : CronTable} {ticks : List Int} {now : Int} {j : CronJob} :
    Chosen T (ticks ++ [now]) j ↔ Chosen T ticks j ∨ FirstDue T.enabled ticks now j := by
  constructor
  · rintro ⟨before, now', later, heq, hdue⟩
    rcases snoc_split heq with ⟨later', rfl⟩ | ⟨rfl, rfl⟩
    · exact .inl ⟨before, now', later', rfl, hdue⟩
    · exact .inr hdue
  · rintro (⟨before, now', later, rfl, hdue⟩ | hdue)
    · exact ⟨before, now', later ++ [now], by simp, hdue⟩
    · exact ⟨ticks, now, [], rfl, hdue⟩

/-- In the loop, the jobs before this one are those that are done. -/
theorem InLoop.firstDue_iff {T : CronTable} {s : Cron} {before : List Int} {now : Int} {done todo : List CronJob}
    {j : CronJob} (h : InLoop T s before now done (j :: todo)) :
    FirstDue T.enabled before now j ↔
      (j.after before).isDue now ∧ ∀ i ∈ done, ¬ (i.after before).isDue now := by
  constructor
  · rintro ⟨earlier, later, hsplit, hdue, hnone⟩
    have hnodup := T.enabled_nodup
    rw [h.enabled] at hnodup
    have htodo : j ∉ todo := (List.nodup_cons.1 (List.nodup_append.1 hnodup).2.1).1
    have heq : done = earlier := by
      have hsame : done ++ j :: todo = earlier ++ j :: later := h.enabled.symm.trans hsplit
      exact ((List.append_cons_inj_of_notMem h.notMem_done htodo).1 hsame).1
    subst heq
    exact ⟨hdue, hnone⟩
  · rintro ⟨hdue, hnone⟩
    exact ⟨done, todo, h.enabled, hdue, hnone⟩

/-- The launches that have happened include one of this job. -/
def HasLaunched (s : Cron) (j : CronJob) : Prop := ∃ m ∈ s.launched, m.id = j.id

/-! ## Missions that end in time -/

/-- Up to here every chosen job was launched. -/
def ServedIdle (T : CronTable) (s : Cron) : Prop := ∀ j ∈ T.enabled, Chosen T s.ticks j → s.HasLaunched j

/-- The lock is free as long as no job was due in this tick. -/
structure ServedLoop (T : CronTable) (s : Cron) (before : List Int) (now : Int) (done : List CronJob) : Prop where
  past : ∀ j ∈ T.enabled, Chosen T before j → s.HasLaunched j
  present : ∀ j ∈ done, FirstDue T.enabled before now j → s.HasLaunched j
  free : (∃ j ∈ T.enabled, (j.after before).isDue now) → (∀ i ∈ done, ¬ (i.after before).isDue now) → s.busy = false

theorem served_next {T : CronTable} {s : Cron} {before : List Int} {now : Int} {done todo : List CronJob}
    {j : CronJob} (loop : Option (Int × List CronJob)) (h : InLoop T s before now done (j :: todo))
    (hL : ServedLoop T s before now done) :
    ServedLoop T { s.fire now (j.after before) with loop := loop } before now (done ++ [j]) := by
  by_cases hdue : (j.after before).isDue now = true
  · have hfree : ∀ i ∈ done ++ [j], ¬ (i.after before).isDue now → i ≠ j := by
      rintro i - hnot rfl
      exact hnot hdue
    cases hbusy : s.busy
    · rw [fire_free hdue hbusy]
      have hgrow : ∀ i, s.HasLaunched i →
          HasLaunched { s with
            table := s.table.setLastRun (j.after before).id now
            busy := true
            launched := s.launched ++ [j.after before]
            loop := loop } i := fun i ⟨m, hm, hid⟩ => ⟨m, List.mem_append_left _ hm, hid⟩
      constructor
      · exact fun i hi hchosen => hgrow i (hL.past i hi hchosen)
      · intro i hi hfirst
        rcases List.mem_append.1 hi with hi | hi
        · exact hgrow i (hL.present i hi hfirst)
        · rw [List.mem_singleton.1 hi]
          exact ⟨j.after before, List.mem_append_right _ (List.mem_singleton.2 rfl), CronJob.after_id before j⟩
      · intro _ hnone
        exact absurd hdue (hnone j (List.mem_append_right _ (List.mem_singleton.2 rfl)))
    · rw [fire_busy hdue hbusy]
      constructor
      · exact hL.past
      · intro i hi hfirst
        rcases List.mem_append.1 hi with hi | hi
        · exact hL.present i hi hfirst
        · -- the lock was free at the tick, so a job before this one was due and took it
          rw [List.mem_singleton.1 hi] at hfirst
          have hfree := hL.free ⟨j, h.mem_enabled, hdue⟩ (h.firstDue_iff.1 hfirst).2
          rw [hbusy] at hfree
          cases hfree
      · intro _ hnone
        exact absurd hdue (hnone j (List.mem_append_right _ (List.mem_singleton.2 rfl)))
  · rw [fire_not_due hdue]
    constructor
    · exact hL.past
    · intro i hi hfirst
      rcases List.mem_append.1 hi with hi | hi
      · exact hL.present i hi hfirst
      · rw [List.mem_singleton.1 hi] at hfirst
        exact absurd (h.firstDue_iff.1 hfirst).1 hdue
    · exact fun hsome hnone => hL.free hsome fun i hi => hnone i (List.mem_append_left _ hi)

theorem served_step {T : CronTable} {s s' : Cron} {e : CronEvent}
    (h : Along T (ServedIdle T) (ServedLoop T) s) (hC : Timely s e) (hstep : step s e = some s') :
    Along T (ServedIdle T) (ServedLoop T) s' := by
  refine along_step ?_ ?_ ?_ ?_ ?_ h hC hstep
  · intro s now hidle hI htimely
    refine ⟨hI, fun j hj => absurd hj List.not_mem_nil, fun hdue _ => htimely ?_⟩
    obtain ⟨j, hj, hdue⟩ := hdue
    refine ⟨j.after s.ticks, ?_, hdue⟩
    rw [CronTable.enabled_current hidle.table]
    exact List.mem_map_of_mem hj
  · exact fun s before now done j todo loop hloop hL => served_next loop hloop hL
  · intro s before now hticks hL j hj hchosen
    change Chosen T s.ticks j at hchosen
    rw [hticks, chosen_append] at hchosen
    exact hchosen.elim (hL.past j hj) (hL.present j hj)
  · exact fun s _ hI => hI
  · exact fun s before now done todo _ _ hL => ⟨hL.past, hL.present, fun _ _ => rfl⟩

/-! ## Missions that last -/

/-- Missions end between two ticks, and before the next one. -/
def Slow (s : Cron) : CronEvent → Prop
  | .tick _ => s.busy = false
  | .next => True
  | .finish => s.loop = none

/-- Only chosen jobs were launched. -/
def StarvedIdle (T : CronTable) (s : Cron) : Prop := ∀ m ∈ s.launched, ∃ j ∈ T.enabled, m.id = j.id ∧ Chosen T s.ticks j

/-- The first job that is due in this tick keeps the lock. -/
structure StarvedLoop (T : CronTable) (s : Cron) (before : List Int) (now : Int) (done : List CronJob) : Prop where
  launched : ∀ m ∈ s.launched, ∃ j ∈ T.enabled, m.id = j.id ∧
    (Chosen T before j ∨ FirstDue T.enabled before now j)
  busy : (∃ i ∈ done, (i.after before).isDue now) → s.busy = true

theorem starved_next {T : CronTable} {s : Cron} {before : List Int} {now : Int} {done todo : List CronJob}
    {j : CronJob} (loop : Option (Int × List CronJob)) (h : InLoop T s before now done (j :: todo))
    (hL : StarvedLoop T s before now done) :
    StarvedLoop T { s.fire now (j.after before) with loop := loop } before now (done ++ [j]) := by
  by_cases hdue : (j.after before).isDue now = true
  · cases hbusy : s.busy
    · rw [fire_free hdue hbusy]
      -- no job before this one was due
      have hnone : ∀ i ∈ done, ¬ (i.after before).isDue now := by
        intro i hi hi'
        have htaken := hL.busy ⟨i, hi, hi'⟩
        rw [hbusy] at htaken
        cases htaken
      refine ⟨fun m hm => ?_, fun _ => rfl⟩
      rcases List.mem_append.1 hm with hm | hm
      · exact hL.launched m hm
      · rw [List.mem_singleton.1 hm]
        exact ⟨j, h.mem_enabled, CronJob.after_id before j, .inr (h.firstDue_iff.2 ⟨hdue, hnone⟩)⟩
    · rw [fire_busy hdue hbusy]
      exact ⟨hL.launched, fun _ => hbusy⟩
  · rw [fire_not_due hdue]
    refine ⟨hL.launched, ?_⟩
    rintro ⟨i, hi, hi'⟩
    rcases List.mem_append.1 hi with hi | hi
    · exact hL.busy ⟨i, hi, hi'⟩
    · rw [List.mem_singleton.1 hi] at hi'
      exact absurd hi' hdue

theorem starved_step {T : CronTable} {s s' : Cron} {e : CronEvent}
    (h : Along T (StarvedIdle T) (StarvedLoop T) s) (hC : Slow s e) (hstep : step s e = some s') :
    Along T (StarvedIdle T) (StarvedLoop T) s' := by
  refine along_step ?_ ?_ ?_ ?_ ?_ h hC hstep
  · intro s now _ hI _
    refine ⟨fun m hm => ?_, ?_⟩
    · obtain ⟨j, hj, hid, hchosen⟩ := hI m hm
      exact ⟨j, hj, hid, .inl hchosen⟩
    · rintro ⟨i, hi, -⟩
      cases hi
  · exact fun s before now done j todo loop hloop hL => starved_next loop hloop hL
  · intro s before now hticks hL m hm
    obtain ⟨j, hj, hid, hchosen⟩ := hL.launched m hm
    refine ⟨j, hj, hid, ?_⟩
    show Chosen T s.ticks j
    rw [hticks, chosen_append]
    exact hchosen
  · exact fun s _ hI => hI
  · intro s before now done todo hloop hslow _
    change s.loop = none at hslow
    rw [hloop.loop] at hslow
    cases hslow

/-- The loop runs to its end, and then the mission ends. -/
theorem exists_rest_of_loop (now : Int) (todo : List CronJob) {s : Cron} (h : s.loop = some (now, todo)) :
    ∃ es s', runSteps step s es = some s' ∧ s'.loop = none ∧ s'.busy = false ∧ s'.ticks = s.ticks ∧
      StepsMeet step Slow s es := by
  induction todo generalizing s with
  | nil =>
    have hend : step s .next = some { s with loop := none } := by simp only [step, h]
    cases hbusy : s.busy
    · exact ⟨[.next], _, runSteps_cons_eq_some.2 ⟨_, hend, rfl⟩, rfl, hbusy, rfl,
        stepsMeet_cons trivial hend trivial⟩
    · have hfinish : step { s with loop := none } .finish = some { s with loop := none, busy := false } := if_pos hbusy
      exact ⟨[.next, .finish], _, runSteps_cons_eq_some.2 ⟨_, hend, runSteps_cons_eq_some.2 ⟨_, hfinish, rfl⟩⟩,
        rfl, rfl, rfl, stepsMeet_cons trivial hend (stepsMeet_cons rfl hfinish trivial)⟩
  | cons j todo ih =>
    have hnext : step s .next = some { s.fire now j with loop := some (now, todo) } := by simp only [step, h]
    obtain ⟨es, s', hrun, hloop, hbusy, hticks, hslow⟩ :=
      ih (s := { s.fire now j with loop := some (now, todo) }) rfl
    exact ⟨.next :: es, s', runSteps_cons_eq_some.2 ⟨_, hnext, hrun⟩, hloop, hbusy,
      hticks.trans (fire_same s now j).1, stepsMeet_cons trivial hnext hslow⟩

/-- There is a slow run over any ticks. -/
theorem exists_slow_run (ticks : List Int) {s : Cron} (hloop : s.loop = none) (hbusy : s.busy = false) :
    ∃ es s', runSteps step s es = some s' ∧ s'.loop = none ∧ s'.ticks = s.ticks ++ ticks ∧
      StepsMeet step Slow s es := by
  induction ticks generalizing s with
  | nil => exact ⟨[], s, rfl, hloop, (List.append_nil _).symm, trivial⟩
  | cons now ticks ih =>
    have htick : step s (.tick now) =
        some { s with loop := some (now, s.table.enabled), ticks := s.ticks ++ [now] } := by
      simp only [step, hloop]
    obtain ⟨es, t, hrun, hloop', hbusy', hticks, hslow⟩ := exists_rest_of_loop now s.table.enabled
      (s := { s with loop := some (now, s.table.enabled), ticks := s.ticks ++ [now] }) rfl
    obtain ⟨es', s', hrun', hloop'', hticks', hslow'⟩ := ih hloop' hbusy'
    refine ⟨.tick now :: (es ++ es'), s', ?_, hloop'', ?_, ?_⟩
    · exact runSteps_cons_eq_some.2 ⟨_, htick, runSteps_append_eq_some.2 ⟨t, hrun, hrun'⟩⟩
    · rw [hticks', hticks, List.append_assoc]
      rfl
    · exact stepsMeet_cons hbusy htick (stepsMeet_append hrun hslow hslow')

theorem slow_timely (s : Cron) (e : CronEvent) (h : Slow s e) : Timely s e := by
  cases e with
  | tick now => exact fun _ => h
  | next => trivial
  | finish => trivial

/-! ## Which jobs are sure to be launched -/

theorem along_idle {T : CronTable} {I : Cron → Prop} {L : Cron → List Int → Int → List CronJob → Prop} {s : Cron}
    (h : Along T I L s) (hloop : s.loop = none) : I s := by
  rcases h with ⟨-, hI⟩ | ⟨before, now, done, todo, h, -⟩
  · exact hI
  · have hbusy := h.loop
    rw [hloop] at hbusy
    cases hbusy

theorem chosen_of_serves {table : CronTable} {ticks : List Int} (h : Serves table ticks) :
    ∀ j ∈ table.enabled, Chosen table ticks j := by
  intro j hj
  obtain ⟨es, s, hrun, hloop, hticks, hslow⟩ := exists_slow_run ticks (s := start table) rfl rfl
  obtain ⟨m, hm, hid⟩ := h es s hrun hticks hloop (hslow.mono slow_timely) j hj
  have hstart : Along table (StarvedIdle table) (StarvedLoop table) (start table) :=
    .inl ⟨idle_start table, fun m hm => absurd hm List.not_mem_nil⟩
  have halong := runSteps_invariant_of_meet (fun s e s' h hC hstep => starved_step h hC hstep) hrun hslow hstart
  obtain ⟨i, hi, hid', hchosen⟩ := along_idle halong hloop m hm
  have hij : i = j := by
    refine CronTable.jobs_inj (CronTable.mem_enabled.1 hi).1 (CronTable.mem_enabled.1 hj).1 ?_
    rw [← hid', hid]
  rw [hij, hticks] at hchosen
  exact hchosen

theorem serves_of_chosen {table : CronTable} {ticks : List Int} (h : ∀ j ∈ table.enabled, Chosen table ticks j) :
    Serves table ticks := by
  intro es s hrun hticks hloop htimely j hj
  have hstart : Along table (ServedIdle table) (ServedLoop table) (start table) := by
    refine .inl ⟨idle_start table, ?_⟩
    rintro j - ⟨before, now, later, hsplit, -⟩
    exact absurd hsplit (by simp [start])
  have halong := runSteps_invariant_of_meet (fun s e s' h hC hstep => served_step h hC hstep) hrun htimely hstart
  refine along_idle halong hloop j hj ?_
  rw [hticks]
  exact h j hj

/-- No enabled job starves over these ticks iff every one of them is the first to be due at one of the ticks. -/
theorem serves_iff (table : CronTable) (ticks : List Int) :
    Serves table ticks ↔ ∀ j ∈ table.enabled, ∃ before now later,
      ticks = before ++ now :: later ∧ CronJob.FirstDue table.enabled before now j :=
  ⟨chosen_of_serves, serves_of_chosen⟩

/-- Jobs of one period that start together are due together. -/
theorem isDue_twins {i j : CronJob} (hperiod : i.everyMinutes = j.everyMinutes) (hlast : i.lastRun = j.lastRun)
    (ticks : List Int) (now : Int) : (i.after ticks).isDue now = (j.after ticks).isDue now := by
  have hsame : ∀ a b : CronJob, a.everyMinutes = b.everyMinutes → a.lastRun = b.lastRun →
      ∀ t, a.isDue t = b.isDue t := by
    intro a b hab hab' t
    unfold CronJob.isDue CronJob.period
    rw [hab, hab']
  have hafter : (i.after ticks).everyMinutes = (j.after ticks).everyMinutes ∧
      (i.after ticks).lastRun = (j.after ticks).lastRun := by
    induction ticks using List.reverseRecOn with
    | nil => exact ⟨hperiod, hlast⟩
    | append_singleton ticks t ih =>
      rw [CronJob.after_append, CronJob.after_append, hsame _ _ ih.1 ih.2 t]
      split_ifs
      · exact ⟨ih.1, rfl⟩
      · exact ih
  exact hsame _ _ hafter.1 hafter.2 now

def twin (id : GoString) : CronJob := ⟨id, "report", "write a report", [], 5, true, [], 0⟩

/-- Two new jobs, each for every five minutes. -/
def twins : CronTable := ⟨[twin "cron-1", twin "cron-2"], by decide⟩

theorem twins_starve : ¬ ∃ ticks, Serves twins ticks := by
  rintro ⟨ticks, hserves⟩
  have hmem : twin "cron-2" ∈ twins.enabled := by decide
  obtain ⟨before, now, later, -, earlier, later', hsplit, hdue, hnone⟩ := chosen_of_serves hserves _ hmem
  have hjobs : twins.enabled = [twin "cron-1"] ++ twin "cron-2" :: [] := by decide
  have hearlier : [twin "cron-1"] = earlier :=
    ((List.append_cons_inj_of_notMem (by decide) (by decide)).1 (hjobs.symm.trans hsplit)).1
  refine hnone (twin "cron-1") (hearlier ▸ List.mem_singleton.2 rfl) ?_
  rw [isDue_twins (i := twin "cron-1") (j := twin "cron-2") rfl rfl before now]
  exact hdue

end Cron

end Gafam.Orchestrator
