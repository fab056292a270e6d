import Gafam.Suparna.Jobs

/-!
# Proofs: one analysis at a time, one goroutine for a job

No section waits for the lock of the analysis, and the map of jobs is left between the look at a job and its end. What
carries the proof is that a day whose job runs gets no second one, so that a goroutine finds its own job at the end.
-/

namespace Gafam.Suparna

open Gafam.Go Gafam.Lib

variable {ρ : Type} {s s' : State ρ} {p p' q : Goroutine ρ} {e : Answer ρ} {o : Option (Goroutine ρ)}

/-! ## One step -/

/-- What a step does to the lock of the analysis. -/
def LockStep (s s' : State ρ) (p p' : Goroutine ρ) : Prop :=
  (s'.analyzeMu = s.analyzeMu ∧ (p'.Inside → p.Inside)) ∨
    (s.analyzeMu = false ∧ s'.analyzeMu = true) ∨
    (p.Inside ∧ ¬p'.Inside)

/-- What a step does to the jobs: nothing, a new one for a day that has none that runs, or the end of one. -/
def JobStep (s s' : State ρ) (p p' : Goroutine ρ) (o : Option (Goroutine ρ)) : Prop :=
  (s'.heap = s.heap ∧ s'.jobs = s.jobs ∧ p'.worksFor = p.worksFor ∧ o = none) ∨
    (∃ day force, (s.job? day).any Job.running = false ∧ s' = s.newJob day ∧ p.worksFor = none ∧ p'.worksFor = none ∧
      o = some (.waiting s.heap.length day force)) ∨
    ∃ i day res, p.worksFor = some (i, day) ∧ p'.worksFor = none ∧ o = none ∧ s'.jobs = s.jobs ∧
      ∀ j, s.jobs day = some j → s'.heap = s.heap.modify j (Job.finish res)

/-- What a step does to the container: it runs for those who use it, unless a call has failed. -/
def QwenStep (s s' : State ρ) (p p' : Goroutine ρ) : Prop :=
  s'.qwenRuns = true ∧ s'.stray = false → p'.Uses ∨ ((s.qwenRuns = true ∧ s.stray = false) ∧ ¬p.Uses)

theorem inside_iff {job : Nat} {day : GoString} {force : Bool} {st : Stage ρ} :
    (Goroutine.inside job day force st).Uses ↔
      st = .wait ∨ st = .complete ∨ (∃ r, st = .save r) ∨ ∃ res, st = .stop res := by
  constructor
  · rintro ⟨job', day', force', st', heq, h⟩
    cases heq
    exact h
  · exact fun h => ⟨job, day, force, st, rfl, h⟩

theorem Goroutine.Uses.inside (h : p.Uses) : p.Inside := by
  obtain ⟨job, day, force, st, rfl, -⟩ := h
  exact ⟨job, day, force, st, rfl⟩

theorem not_inside_of_worksFor_none (h : p.worksFor = none) : ¬p.Inside := by
  rintro ⟨job, day, force, st, rfl⟩
  exact nomatch h

theorem not_inside_waiting {job : Nat} {day : GoString} {force : Bool} :
    ¬(Goroutine.waiting job day force : Goroutine ρ).Inside := by
  rintro ⟨_, _, _, _, heq⟩
  exact nomatch heq

theorem not_inside_report {job : Nat} {day : GoString} {res : Except GoString ρ} :
    ¬(Goroutine.report job day res).Inside := by
  rintro ⟨_, _, _, _, heq⟩
  exact nomatch heq

/-- The steps under the lock leave the lock and the jobs alone. -/
theorem analyzeDaySync_spec {force : Bool} {st st' : Stage ρ} {job : Nat} {day : GoString}
    (h : analyzeDaySync s force st e = some (s', st')) :
    s'.analyzeMu = s.analyzeMu ∧ s'.heap = s.heap ∧ s'.jobs = s.jobs ∧
      QwenStep s s' (.inside job day force st) (.inside job day force st') := by
  unfold QwenStep
  rw [inside_iff, inside_iff]
  cases st with
  | look =>
    cases e with
    | cached reading =>
      simp only [analyzeDaySync] at h
      split at h <;> cases h <;> exact ⟨rfl, rfl, rfl, fun hw => .inr ⟨hw, by simp⟩⟩
    | ok | fail | yes | reading | failed => cases h
  | busy | model =>
    cases e with
    | yes b =>
      simp only [analyzeDaySync] at h
      split at h <;> cases h <;> exact ⟨rfl, rfl, rfl, fun hw => .inr ⟨hw, by simp⟩⟩
    | ok | fail | cached | reading | failed => cases h
  | inspect =>
    cases e with
    | ok | fail =>
      cases h
      exact ⟨rfl, rfl, rfl, fun hw => .inr ⟨hw, by simp⟩⟩
    | cached | yes | reading | failed => cases h
  | wake =>
    cases e with
    | ok =>
      cases h
      exact ⟨rfl, rfl, rfl, fun _ => .inl (.inl rfl)⟩
    | failed err runs =>
      cases h
      exact ⟨rfl, rfl, rfl, fun hw => Bool.noConfusion (hw.1.symm.trans hw.2)⟩
    | fail | cached | yes | reading => cases h
  | wait =>
    cases e with
    | ok | fail =>
      cases h
      exact ⟨rfl, rfl, rfl, fun _ => .inl (by simp)⟩
    | cached | yes | reading | failed => cases h
  | complete =>
    cases e with
    | reading | fail =>
      cases h
      exact ⟨rfl, rfl, rfl, fun _ => .inl (by simp)⟩
    | ok | cached | yes | failed => cases h
  | save r =>
    cases e with
    | ok =>
      cases h
      exact ⟨rfl, rfl, rfl, fun _ => .inl (by simp)⟩
    | fail | cached | yes | reading | failed => cases h
  | stop res =>
    cases e with
    | ok =>
      cases h
      exact ⟨rfl, rfl, rfl, fun hw => Bool.noConfusion hw.1⟩
    | failed err runs =>
      cases h
      exact ⟨rfl, rfl, rfl, fun hw => Bool.noConfusion (hw.1.symm.trans hw.2)⟩
    | fail | cached | yes | reading => cases h
  | unlock res => cases e <;> cases h

/-- **What a step does.** -/
theorem advance_spec (h : advance s p e = some (s', p', o)) :
    LockStep s s' p p' ∧ JobStep s s' p p' o ∧ QwenStep s s' p p' := by
  have hnot : ∀ {p : Goroutine ρ}, p.worksFor = none → ¬p.Uses := fun hp hu =>
    not_inside_of_worksFor_none hp hu.inside
  cases p with
  | request day force =>
    cases e with
    | cached reading =>
      simp only [advance] at h
      split at h <;> cases h <;>
        exact ⟨.inl ⟨rfl, fun hi => absurd hi (not_inside_of_worksFor_none rfl)⟩, .inl ⟨rfl, rfl, rfl, rfl⟩,
          fun hw => .inr ⟨hw, hnot rfl⟩⟩
    | ok | fail | yes | reading | failed => cases h
  | register day force =>
    cases e with
    | ok =>
      simp only [advance] at h
      split at h
      · cases h
        exact ⟨.inl ⟨rfl, fun hi => absurd hi (not_inside_of_worksFor_none rfl)⟩, .inl ⟨rfl, rfl, rfl, rfl⟩,
          fun hw => .inr ⟨hw, hnot rfl⟩⟩
      · rename_i hrunning
        cases h
        exact ⟨.inl ⟨rfl, fun hi => absurd hi (not_inside_of_worksFor_none rfl)⟩,
          .inr (.inl ⟨day, force, Bool.eq_false_iff.2 hrunning, rfl, rfl, rfl, rfl⟩), fun hw => .inr ⟨hw, hnot rfl⟩⟩
    | fail | cached | yes | reading | failed => cases h
  | answered cached status => cases e <;> cases h
  | waiting job day force =>
    have hp : ¬(Goroutine.waiting job day force : Goroutine ρ).Uses := fun hu => not_inside_waiting hu.inside
    cases e with
    | ok =>
      simp only [advance] at h
      split at h
      · cases h
        exact ⟨.inl ⟨rfl, fun hi => absurd hi not_inside_report⟩, .inl ⟨rfl, rfl, rfl, rfl⟩, fun hw => .inr ⟨hw, hp⟩⟩
      · rename_i hfree
        cases h
        exact ⟨.inr (.inl ⟨Bool.eq_false_iff.2 hfree, rfl⟩), .inl ⟨rfl, rfl, rfl, rfl⟩, fun hw => .inr ⟨hw, hp⟩⟩
    | fail | cached | yes | reading | failed => cases h
  | inside job day force st =>
    have hstep : ∀ {st' : Stage ρ}, analyzeDaySync s force st e = some (s', st') →
        LockStep s s' (.inside job day force st) (.inside job day force st') ∧
          JobStep s s' (.inside job day force st) (.inside job day force st') none ∧
          QwenStep s s' (.inside job day force st) (.inside job day force st') := by
      intro st' hst
      obtain ⟨hmu, hheap, hjobs, hqwen⟩ := analyzeDaySync_spec hst
      exact ⟨.inl ⟨hmu, fun _ => ⟨job, day, force, st, rfl⟩⟩, .inl ⟨hheap, hjobs, rfl, rfl⟩, hqwen⟩
    cases st with
    | unlock res =>
      cases e with
      | ok =>
        cases h
        exact ⟨.inr (.inr ⟨⟨job, day, force, _, rfl⟩, not_inside_report⟩), .inl ⟨rfl, rfl, rfl, rfl⟩,
          fun hw => .inr ⟨hw, by rw [inside_iff]; simp⟩⟩
      | fail | cached | yes | reading | failed => cases h
    | look | busy | model | inspect | wake | wait | complete | save | stop =>
      obtain ⟨m, hm, heq⟩ := Option.map_eq_some_iff.1 h
      cases heq
      exact hstep hm
  | report job day res =>
    have hp : ¬(Goroutine.report job day res).Uses := fun hu => not_inside_report hu.inside
    cases e with
    | ok =>
      simp only [advance] at h
      split at h
      · rename_i j hj
        cases h
        refine ⟨.inl ⟨rfl, fun hi => absurd hi (not_inside_of_worksFor_none rfl)⟩,
          .inr (.inr ⟨job, day, res, rfl, rfl, rfl, rfl, fun k hk => ?_⟩), fun hw => .inr ⟨hw, hp⟩⟩
        cases hj.symm.trans hk
        rfl
      · rename_i hj
        cases h
        exact ⟨.inl ⟨rfl, fun hi => absurd hi (not_inside_of_worksFor_none rfl)⟩,
          .inr (.inr ⟨job, day, res, rfl, rfl, rfl, rfl, fun k hk => absurd (hj.symm.trans hk) (Option.some_ne_none k).symm⟩),
          fun hw => .inr ⟨hw, hp⟩⟩
    | fail | cached | yes | reading | failed => cases h
  | ended => cases e <;> cases h

/-! ## The rule -/

/-- Jobs of two days are not the same one. -/
theorem day_of_fresh {i : Nat} {day day' : GoString} (h : s.heap[i]? = some (.fresh day))
    (h' : s.heap[i]? = some (.fresh day')) : day = day' :=
  congrArg Job.day (Option.some.inj (h.symm.trans h'))

/-- A job that runs has not ended. -/
theorem fresh_ne_finish {day : GoString} {res : Except GoString ρ} {j : Job ρ} : .fresh day ≠ j.finish res := by
  intro h
  have hrun := congrArg Job.running h
  cases res <;> exact Bool.noConfusion hrun

/-- A goroutine works for a day: nobody gets a second job for it. -/
theorem Owns.running {i : Nat} {day : GoString} (hq : Owns s q) (h : q.worksFor = some (i, day)) :
    (s.job? day).any Job.running = true := by
  obtain ⟨hjobs, hheap⟩ := hq.2 i day h
  rw [State.job?, hjobs, Option.bind_some, hheap]
  rfl

theorem getElem?_newJob {i : Nat} {day : GoString} {j : Job ρ} (h : s.heap[i]? = some j) :
    (s.newJob day).heap[i]? = some j := by
  show (s.heap ++ [.fresh day])[i]? = some j
  rw [List.getElem?_append_left (List.getElem?_eq_some_iff.1 h).1, h]

theorem jobs_newJob_self (s : State ρ) (day : GoString) :
    (s.newJob day).jobs day = some s.heap.length ∧ (s.newJob day).heap[s.heap.length]? = some (.fresh day) :=
  ⟨Function.update_self .., List.getElem?_concat_length ..⟩

theorem jobs_newJob_ne {day day' : GoString} (h : day' ≠ day) : (s.newJob day).jobs day' = s.jobs day' :=
  Function.update_of_ne h ..

theorem Kept.step (hk : Kept s) (hp : Owns s p) (h : JobStep s s' p p' o) : Kept s' := by
  intro day' i' hi'
  rcases h with ⟨hheap, hjobs, -⟩ | ⟨day, force, -, rfl, -⟩ | ⟨i, day, res, hw, -, -, hjobs, hheap⟩
  · rw [hjobs] at hi'
    rw [hheap]
    exact hk day' i' hi'
  · by_cases hday : day' = day
    · subst hday
      rw [(jobs_newJob_self s day').1] at hi'
      cases hi'
      exact .inl (jobs_newJob_self s day').2
    · rw [jobs_newJob_ne hday] at hi'
      exact (hk day' i' hi').imp getElem?_newJob fun ⟨res, hres⟩ => ⟨res, getElem?_newJob hres⟩
  · obtain ⟨hday, hfresh⟩ := hp.2 i day hw
    rw [hheap i hday, List.getElem?_modify]
    rw [hjobs] at hi'
    by_cases hii : i = i'
    · subst hii
      rcases hk day' i hi' with hfresh' | ⟨res', hended⟩
      · rw [day_of_fresh hfresh' hfresh, hfresh]
        exact .inr ⟨res, by simp⟩
      · exact absurd (Option.some.inj (hfresh.symm.trans hended)) fresh_ne_finish
    · simpa [hii] using hk day' i' hi'

/-- The lock of one who is there is not taken from him. -/
theorem LockStep.inside (h : LockStep s s' p p') (hq : Owns s q) (hpq : ¬(p.Inside ∧ q.Inside)) (hi : q.Inside) :
    s'.analyzeMu = true ∧ ¬p'.Inside := by
  rcases h with ⟨hmu, hp'⟩ | ⟨hfree, -⟩ | ⟨hp, -⟩
  · exact ⟨hmu.trans (hq.1 hi), fun h => hpq ⟨hp' h, hi⟩⟩
  · exact Bool.noConfusion ((hq.1 hi).symm.trans hfree)
  · exact absurd ⟨hp, hi⟩ hpq

/-- The job of one who works is not taken from him. -/
theorem JobStep.other (h : JobStep s s' p p' o) (hp : Owns s p) (hq : Owns s q) (hpq : Apart s p q) {i : Nat}
    {day : GoString} (hw : q.worksFor = some (i, day)) :
    s'.jobs day = some i ∧ s'.heap[i]? = some (.fresh day) := by
  obtain ⟨hday, hfresh⟩ := hq.2 i day hw
  rcases h with ⟨hheap, hjobs, -⟩ | ⟨day', force, hnone, rfl, -⟩ | ⟨i', day', res, hw', -, -, hjobs, hheap⟩
  · rw [hheap, hjobs]
    exact ⟨hday, hfresh⟩
  · have hne : day ≠ day' := by
      rintro rfl
      exact Bool.noConfusion (hnone.symm.trans (hq.running hw))
    rw [jobs_newJob_ne hne]
    exact ⟨hday, getElem?_newJob hfresh⟩
  · obtain ⟨hday', hfresh'⟩ := hp.2 i' day' hw'
    have hne : i' ≠ i := by
      rintro rfl
      exact hpq.2 i' i' day' hw' (day_of_fresh hfresh hfresh' ▸ hw)
    rw [hheap i' hday', hjobs, List.getElem?_modify]
    exact ⟨hday, by simp [hne, hfresh]⟩

/-- **No goroutine breaks what another one relies on.** -/
theorem free : FreeOfInterference entry advance (Kept (ρ := ρ)) Owns Apart where
  enter s p hp _ := by
    have hw : p.worksFor = none := by cases p <;> first | rfl | exact nomatch hp
    have hi := not_inside_of_worksFor_none hw
    refine ⟨⟨fun h => absurd h hi, fun i day h => nomatch hw.symm.trans h⟩, fun q _ => ?_⟩
    refine ⟨⟨fun h => hi h.1, ?_⟩, fun h => hi h.2, ?_⟩
    · exact fun i j day h => nomatch hw.symm.trans h
    · exact fun i j day _ h => nomatch hw.symm.trans h
  own s p e s' p' o h hk hp := by
    obtain ⟨hlock, hjob, -⟩ := advance_spec h
    refine ⟨hk.step hp hjob, ⟨fun hi => ?_, fun i day hw => ?_⟩, fun n hn => ?_⟩
    · rcases hlock with ⟨hmu, hp'⟩ | ⟨-, hmu⟩ | ⟨-, hout⟩
      · exact hmu.trans (hp.1 (hp' hi))
      · exact hmu
      · exact absurd hi hout
    · rcases hjob with ⟨hheap, hjobs, hsame, -⟩ | ⟨_, _, -, -, -, hnone, -⟩ | ⟨_, _, _, -, hnone, -⟩
      · rw [hheap, hjobs]
        exact hp.2 i day (hsame.symm.trans hw)
      · exact nomatch hnone.symm.trans hw
      · exact nomatch hnone.symm.trans hw
    · rcases hjob with ⟨-, -, -, ho⟩ | ⟨day, force, -, rfl, -, hnone, ho⟩ | ⟨_, _, _, -, -, ho, -⟩
      · exact nomatch ho.symm.trans hn
      · cases ho.symm.trans hn
        have hw : ∀ i day', (Goroutine.waiting s.heap.length day force : Goroutine ρ).worksFor = some (i, day') →
            i = s.heap.length ∧ day' = day := by
          rintro i day' hw
          cases hw
          exact ⟨rfl, rfl⟩
        refine ⟨⟨fun hi => absurd hi not_inside_waiting, fun i day' hi => ?_⟩,
          ⟨fun hi => not_inside_waiting hi.2, fun i j day' hi => nomatch hnone.symm.trans hi⟩,
          fun hi => not_inside_waiting hi.1, fun i j day' _ hi => nomatch hnone.symm.trans hi⟩
        obtain ⟨rfl, rfl⟩ := hw i day' hi
        exact jobs_newJob_self s day'
      · exact nomatch ho.symm.trans hn
  other s p e s' p' o q h _ hp hq hpq _ := by
    obtain ⟨hlock, hjob, -⟩ := advance_spec h
    have hdays : ∀ i j day, p'.worksFor = some (i, day) → q.worksFor ≠ some (j, day) := by
      intro i j day hi
      rcases hjob with ⟨-, -, hsame, -⟩ | ⟨_, _, -, -, -, hnone, -⟩ | ⟨_, _, _, -, hnone, -⟩
      · exact hpq.2 i j day (hsame.symm.trans hi)
      · exact nomatch hnone.symm.trans hi
      · exact nomatch hnone.symm.trans hi
    refine ⟨⟨fun hi => (hlock.inside hq hpq.1 hi).1, fun i day hw => hjob.other hp hq hpq hw⟩,
      ⟨fun hi => (hlock.inside hq hpq.1 hi.2).2 hi.1, hdays⟩,
      ⟨fun hi => (hlock.inside hq hpq.1 hi.1).2 hi.2, fun i j day hi hj => hdays j i day hj hi⟩, fun n hn => ?_⟩
    rcases hjob with ⟨-, -, -, ho⟩ | ⟨day, force, hnone, -, -, -, ho⟩ | ⟨_, _, _, -, -, ho, -⟩
    · exact nomatch ho.symm.trans hn
    · cases ho.symm.trans hn
      have hne : ∀ i, q.worksFor ≠ some (i, day) := fun i hi =>
        Bool.noConfusion (hnone.symm.trans (hq.running hi))
      refine ⟨⟨fun hi => not_inside_waiting hi.1, fun i j day' hi hj => ?_⟩,
        fun hi => not_inside_waiting hi.2, fun i j day' hi hj => ?_⟩
      · cases hi
        exact hne j hj
      · cases hj
        exact hne i hi
    · exact nomatch ho.symm.trans hn
  rest s p e s' p' o q r _ _ _ _ _ hqr := hqr

/-! ## Results -/

theorem safe_boot (qwenRuns : Bool) : Safe (Kept (ρ := ρ)) Owns Apart (boot qwenRuns) :=
  .of_nil fun _ _ h => nomatch h

/-- The step does not end a job that still runs behind it, and the thread that ends one works for it. -/
theorem backed_job_step {day : GoString} {i : Nat} (h : advance s p e = some (s', p', o)) (hk : Kept s) (hp : Owns s p)
    (hw : s'.jobs day = some i ∧ s'.heap[i]? = some (.fresh day)) :
    p'.worksFor = some (i, day) ∨ (∃ n, o = some n ∧ n.worksFor = some (i, day)) ∨
      ((s.jobs day = some i ∧ s.heap[i]? = some (.fresh day)) ∧ p.worksFor ≠ some (i, day)) := by
  obtain ⟨hjob, hfresh⟩ := hw
  obtain ⟨-, hstep, -⟩ := advance_spec h
  rcases hstep with ⟨hheap, hjobs, hsame, -⟩ | ⟨day', force, -, rfl, hnone, -, rfl⟩ |
    ⟨i', day', res, hworks, -, -, hjobs, hheap⟩
  · by_cases hworks : p.worksFor = some (i, day)
    · exact .inl (hsame.trans hworks)
    · exact .inr (.inr ⟨⟨hjobs ▸ hjob, hheap ▸ hfresh⟩, hworks⟩)
  · by_cases hday : day = day'
    · subst hday
      rw [(jobs_newJob_self s day).1] at hjob
      cases hjob
      exact .inr (.inl ⟨_, rfl, rfl⟩)
    · rw [jobs_newJob_ne hday] at hjob
      refine .inr (.inr ⟨⟨hjob, ?_⟩, fun hworks => nomatch hnone.symm.trans hworks⟩)
      rcases hk day i hjob with hold | ⟨res, hold⟩
      · exact hold
      · exact absurd (Option.some.inj (hfresh.symm.trans (getElem?_newJob hold))) fresh_ne_finish
  · obtain ⟨hday', hfresh'⟩ := hp.2 i' day' hworks
    rw [hheap i' hday', List.getElem?_modify] at hfresh
    have hne : i' ≠ i := by
      rintro rfl
      rw [hfresh'] at hfresh
      exact fresh_ne_finish (Option.some.inj (by simpa using hfresh)).symm
    refine .inr (.inr ⟨⟨hjobs ▸ hjob, by simpa [hne] using hfresh⟩, fun hw => hne ?_⟩)
    exact congrArg Prod.fst (Option.some.inj (hworks.symm.trans hw))

/-- What the map and the container say of the goroutines. -/
def AllBacked (s : Threads (State ρ) (Goroutine ρ)) : Prop :=
  Backed (fun s : State ρ => s.qwenRuns = true ∧ s.stray = false) (fun _ p => p.Uses) s ∧
    ∀ day i, Backed (fun s : State ρ => s.jobs day = some i ∧ s.heap[i]? = some (.fresh day))
      (fun _ p => p.worksFor = some (i, day)) s

theorem runs {qwenRuns : Bool} {as : List (Turn (Goroutine ρ) (Answer ρ))} {s : Threads (State ρ) (Goroutine ρ)}
    (hrun : runSteps step (boot qwenRuns) as = some s) : Safe Kept Owns Apart s ∧ AllBacked s := by
  refine runSteps_invariant (P := fun s => Safe Kept Owns Apart s ∧ AllBacked s) ?_ hrun
    ⟨safe_boot qwenRuns, fun h => ?_, fun _ _ h => nomatch h.1⟩
  · rintro s a t ⟨hs, hqwen, hjobs⟩ hstep
    refine ⟨free.step hs hstep, Backed.step ?_ hs hqwen hstep, fun day i => Backed.step ?_ hs (hjobs day i) hstep⟩
    · intro s p e s' p' o h _ _ hw
      rcases (advance_spec h).2.2 hw with huses | ⟨hw, hnot⟩
      · exact .inl huses
      · exact .inr (.inr ⟨hw, hnot, fun _ => id⟩)
    · intro s p e s' p' o h hk hp hw
      rcases backed_job_step h hk hp hw with hworks | hnew | ⟨hw, hnot⟩
      · exact .inl hworks
      · exact .inr (.inl hnew)
      · exact .inr (.inr ⟨hw, hnot, fun _ => id⟩)
  · exact Bool.noConfusion (h.1.symm.trans h.2)

/-- **One analysis at a time has the container**, and the container runs only for an analysis that is going to stop it,
unless a call to Docker has failed and left it running. -/
theorem container_for_analysis {qwenRuns : Bool} {as : List (Turn (Goroutine ρ) (Answer ρ))}
    {s : Threads (State ρ) (Goroutine ρ)} (hrun : runSteps step (boot qwenRuns) as = some s) :
    (∀ (i j : Nat) p q, s.threads[i]? = some p → s.threads[j]? = some q → p.Inside → q.Inside → i = j) ∧
    (s.shared.qwenRuns = true → s.shared.stray = false →
      ∃ (k : Nat) (p : Goroutine ρ), s.threads[k]? = some p ∧ p.Uses) := by
  obtain ⟨hs, hqwen, -⟩ := runs hrun
  refine ⟨fun i j p q hi hj hp hq => ?_, fun h h' => hqwen ⟨h, h'⟩⟩
  by_contra hij
  exact (hs.pair i j p q hij hi hj).1 ⟨hp, hq⟩

/-- **A job of the map runs for one goroutine, or has ended.** It is that of a day, one goroutine works for a day at
most, and it works for the job in the map. -/
theorem job_for_goroutine {qwenRuns : Bool} {as : List (Turn (Goroutine ρ) (Answer ρ))}
    {s : Threads (State ρ) (Goroutine ρ)} (hrun : runSteps step (boot qwenRuns) as = some s) {day : GoString} {i : Nat}
    (hi : s.shared.jobs day = some i) :
    (s.shared.heap[i]? = some (.fresh day) ∧ ∃ (k : Nat) (p : Goroutine ρ), s.threads[k]? = some p ∧
      p.worksFor = some (i, day) ∧ ∀ (k' : Nat) p' i', s.threads[k']? = some p' → p'.worksFor = some (i', day) → k' = k) ∨
    (∃ res, s.shared.heap[i]? = some ((Job.fresh day).finish res) ∧
      ∀ (k' : Nat) p' i', s.threads[k']? = some p' → p'.worksFor ≠ some (i', day)) := by
  obtain ⟨hs, -, hjobs⟩ := runs hrun
  rcases hs.shared day i hi with hfresh | ⟨res, hended⟩
  · obtain ⟨k, p, hk, hw⟩ := hjobs day i ⟨hi, hfresh⟩
    refine .inl ⟨hfresh, k, p, hk, hw, fun k' p' i' hk' hw' => ?_⟩
    by_contra hne
    exact (hs.pair k' k p' p hne hk' hk).2 i' i day hw' hw
  · refine .inr ⟨res, hended, fun k' p' i' hk' hw' => ?_⟩
    obtain ⟨hday, hfresh⟩ := (hs.each k' p' hk').2 i' day hw'
    cases hi.symm.trans hday
    exact fresh_ne_finish (Option.some.inj (hfresh.symm.trans hended))

/-- A first analysis that has woken the container, and a second day that finds the lock taken. -/
def twoDays : List (Turn (Goroutine Unit) (Answer Unit)) :=
  [.enter (.request "2026-01-01" false), .run 0 (.cached none), .run 0 .ok, .run 1 .ok, .run 1 (.cached none),
    .run 1 (.yes false), .run 1 (.yes true), .run 1 .ok, .run 1 .ok, .enter (.request "2026-01-02" true),
    .run 2 (.cached none), .run 2 .ok, .run 3 .ok, .run 3 .ok]

theorem twoDays_runs : ∃ s, runSteps step (boot false) twoDays = some s :=
  Option.isSome_iff_exists.1 (show (runSteps step (boot false) twoDays).isSome = true by decide)

theorem container_for_analysis_twoDays : ∃ s, runSteps step (boot false) twoDays = some s ∧
    ∃ (k : Nat) (p : Goroutine Unit), s.threads[k]? = some p ∧ p.Uses := by
  obtain ⟨s, hs⟩ := twoDays_runs
  refine ⟨s, hs, (container_for_analysis hs).2 ?_ ?_⟩ <;>
    · rw [← Option.get_of_eq_some (by decide) hs]
      rfl

theorem job_for_goroutine_twoDays : ∃ s, runSteps step (boot false) twoDays = some s ∧
    ∀ (k : Nat) p i, s.threads[k]? = some p → p.worksFor ≠ some (i, str "2026-01-02") := by
  obtain ⟨s, hs⟩ := twoDays_runs
  have hjob : s.shared.jobs "2026-01-02" = some 1 ∧ (s.shared.heap[1]?.map Job.running) = some false := by
    rw [← Option.get_of_eq_some (by decide) hs]
    decide
  rcases job_for_goroutine hs hjob.1 with ⟨hfresh, -⟩ | ⟨res, -, hnone⟩
  · rw [hfresh] at hjob
    exact nomatch hjob.2
  · exact ⟨s, hs, hnone⟩

end Gafam.Suparna
