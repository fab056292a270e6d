import Gafam.Moksa.Proofs.DurabilityProofs
import Gafam.Orchestrator.Refusal

/-!
# What a refused launch leaves behind

A request works on no mission but its own, so the others are as they were. Its own mission is in the store until it is
deleted, and only the launches that come from an SMS or a cron job delete it.
-/

namespace Gafam.Orchestrator

open Gafam.Go Gafam.Moksa Gafam.Lib

/-! ## The other missions -/

theorem Same.trans {d₀ d d' : Durable} {id : GoString} (h : Same d₀ d id) (h' : Same d d' id) : Same d₀ d' id :=
  ⟨h'.1.trans h.1, h'.2.trans h.2⟩

/-- An action leaves every mission but one alone. -/
theorem durableStep_elsewhere {d d' : Durable} {act : DurableAct} {id : GoString} (hw : d.WellFormed)
    (hstep : durableStep d act = some d') (h : affects d act ≠ some id) :
    KeepsMission d d' id ∧ d'.table.lookup id = d.table.lookup id := by
  cases durableStep_cases hstep with
  | same => exact ⟨⟨rfl, fun _ _ hm _ => hm⟩, rfl⟩
  | @saved now m =>
    have hne : id ≠ m.id := fun heq => h (congrArg some heq.symm)
    exact ⟨⟨AList.lookup_insert_ne hne, fun _ _ hm _ => deref_append hm⟩, rfl⟩
  | @updated now id' u ref m href hm =>
    obtain ⟨m', hm', hid'⟩ := hw id' ref href
    rw [hm] at hm'
    cases hm'
    refine ⟨⟨rfl, fun ref' m' hm' hid => ?_⟩, rfl⟩
    -- the pointer shows a mission of another id
    have hne : ref' ≠ ref := by
      rintro rfl
      rw [hm] at hm'
      cases hm'
      exact h (congrArg some (hid'.symm.trans hid))
    exact (deref_set_ne hne).trans hm'
  | @deleted id' =>
    have hne : id ≠ id' := fun heq => h (congrArg some heq.symm)
    exact ⟨⟨AList.lookup_erase_ne hne, fun _ _ hm _ => hm⟩, rfl⟩
  | marshalled hk hm => exact ⟨⟨rfl, fun _ _ hm _ => hm⟩, rfl⟩
  | @written k ref data m hk hm =>
    have htarget : affects d (.hook k) = some m.id := by
      show d.hooks[k]?.bind d.target = _
      rw [hk]
      show (d.deref ref).map Mission.id = _
      rw [hm]
      rfl
    rw [htarget] at h
    exact ⟨⟨rfl, fun _ _ hm _ => hm⟩, AList.lookup_insert_ne fun heq => h (congrArg some heq.symm)⟩
  | @erased k id' hk =>
    have htarget : affects d (.hook k) = some id' := by
      show d.hooks[k]?.bind d.target = _
      rw [hk]
      rfl
    rw [htarget] at h
    exact ⟨⟨rfl, fun _ _ hm _ => hm⟩, AList.lookup_erase_ne fun heq => h (congrArg some heq.symm)⟩

theorem same_elsewhere {d d' : Durable} {act : DurableAct} {id : GoString} (hw : d.WellFormed)
    (hstep : durableStep d act = some d') (h : affects d act ≠ some id) : Same d d' id := by
  obtain ⟨hkeeps, htable⟩ := durableStep_elsewhere hw hstep h
  exact ⟨hkeeps.current hw, htable⟩

/-- A step of the hook changes at most the row of the mission that it has been given. -/
theorem persist_step {d : Durable} {ok : Bool} {p : Persist} {r : Durable × Option Persist} {id : GoString}
    (hw : d.WellFormed) (hlookup : d.missions.lookup id = some p.ref) (h : p.step d ok = some r) :
    r.1.objects = d.objects ∧ r.1.missions = d.missions ∧
      (∀ id', id' ≠ id → r.1.table.lookup id' = d.table.lookup id') ∧ ∀ p', r.2 = some p' → p'.ref = p.ref := by
  cases p with
  | marshal ref =>
    obtain ⟨m, hm, rfl⟩ := Option.map_eq_some_iff.1 h
    refine ⟨rfl, rfl, fun _ _ => rfl, fun p' hp' => ?_⟩
    cases hp'
    rfl
  | insert ref data n =>
    obtain ⟨m, hm, rfl⟩ := Option.map_eq_some_iff.1 h
    obtain ⟨m', hm', hid⟩ := hw id ref hlookup
    rw [hm] at hm'
    cases hm'
    cases ok with
    | true =>
      refine ⟨rfl, rfl, fun id' hne => ?_, fun _ hp' => by cases hp'⟩
      exact AList.lookup_insert_ne (hid ▸ hne)
    | false =>
      refine ⟨rfl, rfl, fun _ _ => rfl, fun p' hp' => ?_⟩
      have hp' : (if n + 1 < 5 then some (Persist.insert ref data (n + 1)) else none) = some p' := hp'
      split_ifs at hp' with hn
      cases hp'
      rfl

/-! ## The mission of the request -/

/-- The request has created a mission that was not there when it came in, and it has left the others alone. -/
structure Begun (d₀ : Durable) (s : Launch) (id : GoString) : Prop where
  mission : d₀.current id = none
  row : d₀.table.lookup id = none
  others : ∀ id', id' ≠ id → id' ∉ s.touched → Same d₀ s.d id'

/-- The mission is in the store. -/
def InStore (s : Launch) (id : GoString) : Prop := ∃ ref, s.d.missions.lookup id = some ref

/-- How things stand while a request is on its way. -/
def Stands (entry : LaunchEntry) (d₀ : Durable) (s : Launch) : Prop :=
  match s.pc with
  | .arrived => ∀ id, id ∉ s.touched → Same d₀ s.d id
  | .creating id p => Begun d₀ s id ∧ s.d.missions.lookup id = some p.ref
  | .modeless id => Begun d₀ s id ∧ InStore s id
  | .setting id p => Begun d₀ s id ∧ s.d.missions.lookup id = some p.ref
  | .launching id => Begun d₀ s id ∧ InStore s id
  | .deleting id => Begun d₀ s id ∧ InStore s id ∧ entry ≠ .web
  | .erasing id => Begun d₀ s id ∧ s.d.missions.lookup id = none ∧ entry ≠ .web
  | .refused id =>
    Begun d₀ s id ∧ (entry = .web ∧ InStore s id ∨
      entry ≠ .web ∧ s.d.missions.lookup id = none ∧ s.d.table.lookup id = none)
  | .launched _ => True

/-- A step of the request that leaves other missions alone. -/
theorem Begun.own {d₀ : Durable} {s s' : Launch} {id : GoString} (h : Begun d₀ s id) (htouched : s'.touched = s.touched)
    (hsame : ∀ id', id' ≠ id → Same s.d s'.d id') : Begun d₀ s' id := by
  refine ⟨h.mission, h.row, fun id' hne hid' => ?_⟩
  rw [htouched] at hid'
  exact (h.others id' hne hid').trans (hsame id' hne)

/-- A step of the hook. -/
theorem Begun.persist {d₀ : Durable} {s : Launch} {id : GoString} {ok : Bool} {p : Persist}
    {r : Durable × Option Persist} (hw : s.d.WellFormed) (h : Begun d₀ s id)
    (hlookup : s.d.missions.lookup id = some p.ref) (hr : p.step s.d ok = some r) (pc : LaunchPc) :
    r.1.WellFormed ∧ Begun d₀ { s with d := r.1, pc := pc } id := by
  obtain ⟨hobjects, hmissions, htable, -⟩ := persist_step hw hlookup hr
  have hcurrent : ∀ id', r.1.current id' = s.d.current id' := by
    intro id'
    unfold Durable.current Durable.deref
    rw [hobjects, hmissions]
  constructor
  · intro id' ref href
    rw [hmissions] at href
    show ∃ m, r.1.objects[ref]? = some m ∧ m.id = id'
    rw [hobjects]
    exact hw id' ref href
  · exact h.own rfl fun id' hne => ⟨hcurrent id', htable id' hne⟩

/-- A step of another. -/
theorem stands_other {entry : LaunchEntry} {d₀ : Durable} {s s' : Launch} (h : Stands entry d₀ s) (hpc : s'.pc = s.pc)
    (hown : ∀ id, s.pc.id = some id →
      s'.d.missions.lookup id = s.d.missions.lookup id ∧ s'.d.table.lookup id = s.d.table.lookup id)
    (hothers : ∀ id, id ∉ s'.touched → id ∉ s.touched ∧ Same s.d s'.d id) : Stands entry d₀ s' := by
  have hbegun : ∀ id, Begun d₀ s id → Begun d₀ s' id := by
    refine fun id hb => ⟨hb.mission, hb.row, fun id' hne hid' => ?_⟩
    exact (hb.others id' hne (hothers id' hid').1).trans (hothers id' hid').2
  have hstored : ∀ id, s.pc.id = some id → InStore s id → InStore s' id := by
    rintro id hid ⟨ref, href⟩
    exact ⟨ref, (hown id hid).1.trans href⟩
  unfold Stands at h ⊢
  rw [hpc]
  cases hcase : s.pc <;> rw [hcase] at h hown hstored
  case arrived => exact fun id hid => (h id (hothers id hid).1).trans (hothers id hid).2
  case creating id p => exact ⟨hbegun id h.1, (hown id rfl).1.trans h.2⟩
  case modeless id => exact ⟨hbegun id h.1, hstored id rfl h.2⟩
  case setting id p => exact ⟨hbegun id h.1, (hown id rfl).1.trans h.2⟩
  case launching id => exact ⟨hbegun id h.1, hstored id rfl h.2⟩
  case deleting id => exact ⟨hbegun id h.1, hstored id rfl h.2.1, h.2.2⟩
  case erasing id => exact ⟨hbegun id h.1, (hown id rfl).1.trans h.2.1, h.2.2⟩
  case refused id =>
    refine ⟨hbegun id h.1, h.2.imp (fun hweb => ⟨hweb.1, hstored id rfl hweb.2⟩) fun hgone => ?_⟩
    exact ⟨hgone.1, (hown id rfl).1.trans hgone.2.1, (hown id rfl).2.trans hgone.2.2⟩
  case launched => trivial

/-- A step of the request. -/
theorem stands_own {entry : LaunchEntry} {instruction : GoString} {now : Nat} {ok : Bool} {d₀ : Durable} {s s' : Launch}
    (hw : s.d.WellFormed) (h : Stands entry d₀ s) (hcare : Unshared s (.own now ok))
    (hstep : s.own entry instruction now ok = some s') : s'.d.WellFormed ∧ Stands entry d₀ s' := by
  unfold Launch.own at hstep
  unfold Stands at h
  unfold Unshared at hcare
  cases hpc : s.pc <;> rw [hpc] at hstep h hcare <;> dsimp only at hstep h hcare
  case arrived =>
    obtain ⟨hmission, hrow, htouched⟩ := hcare
    cases hstep
    let m := (createEmptyMission now instruction ⟨∅, s.seq⟩).1
    have hsave : durableStep s.d (.save now m) =
        some { s.d with
          objects := s.d.objects ++ [m]
          missions := s.d.missions.insert m.id s.d.objects.length
          hooks := s.d.hooks ++ [.marshal s.d.objects.length] } := rfl
    have hsame : Same d₀ s.d m.id := h _ htouched
    have hmission : s.d.current m.id = none := by
      have hlookup : s.d.missions.lookup m.id = none := AList.lookup_eq_none.2 hmission
      unfold Durable.current
      rw [hlookup]
      rfl
    have hw' := wellFormed_step hw hsave
    refine ⟨hw', ⟨hsame.1.symm.trans hmission, ?_, fun id' hne hid' => ?_⟩, AList.lookup_insert _⟩
    · exact hsame.2.symm.trans (AList.lookup_eq_none.2 hrow)
    · have hother := same_elsewhere hw hsave fun heq => hne (Option.some.inj heq).symm
      exact (h id' hid').trans hother
  case creating id p =>
    obtain ⟨r, hr, rfl⟩ := Option.map_eq_some_iff.1 hstep
    obtain ⟨hw', hbegun⟩ := h.1.persist hw h.2 hr
      (r.2.elim (if entry = .cron then .modeless id else .launching id) (.creating id))
    obtain ⟨-, hmissions, -, href⟩ := persist_step hw h.2 hr
    refine ⟨hw', ?_⟩
    have hlookup : r.1.missions.lookup id = some p.ref := by rw [hmissions, h.2]
    cases hp : r.2 with
    | some p' =>
      rw [hp] at hbegun
      exact ⟨hbegun, by rw [href p' hp]; exact hlookup⟩
    | none =>
      rw [hp] at hbegun
      by_cases hcron : entry = .cron
      · simp only [Option.elim_none, if_pos hcron] at hbegun ⊢
        exact ⟨hbegun, p.ref, hlookup⟩
      · simp only [Option.elim_none, if_neg hcron] at hbegun ⊢
        exact ⟨hbegun, p.ref, hlookup⟩
  case modeless id =>
    obtain ⟨hbegun, ref, href⟩ := h
    rw [href] at hstep
    obtain ⟨m, hm, rfl⟩ := Option.map_eq_some_iff.1 hstep
    have hset : durableStep s.d (.update now id ⟨fun m => ({ m with mode := "cron" }, none), fun _ => ⟨rfl, nofun⟩⟩) =
        some { s.d with
          objects := s.d.objects.set ref { m with mode := "cron", updatedAt := now }
          hooks := s.d.hooks ++ [.marshal ref] } := by
      simp only [durableStep, href, hm, Option.map_some]
    have hw' := wellFormed_step hw hset
    refine ⟨hw', hbegun.own rfl fun id' hne => ?_, href⟩
    have hother := same_elsewhere hw hset fun heq => hne (Option.some.inj heq).symm
    exact hother
  case setting id p =>
    obtain ⟨r, hr, rfl⟩ := Option.map_eq_some_iff.1 hstep
    obtain ⟨hw', hbegun⟩ := h.1.persist hw h.2 hr (r.2.elim (.launching id) (.setting id))
    obtain ⟨-, hmissions, -, href⟩ := persist_step hw h.2 hr
    refine ⟨hw', ?_⟩
    have hlookup : r.1.missions.lookup id = some p.ref := by rw [hmissions, h.2]
    cases hp : r.2 with
    | some p' =>
      rw [hp] at hbegun
      exact ⟨hbegun, by rw [href p' hp]; exact hlookup⟩
    | none =>
      rw [hp] at hbegun
      exact ⟨hbegun, p.ref, hlookup⟩
  case launching id =>
    obtain ⟨hbegun, hstored⟩ := h
    by_cases hbusy : s.busy
    · rw [if_pos hbusy] at hstep
      cases hstep
      refine ⟨hw, ?_⟩
      by_cases hweb : entry = .web
      · rw [if_pos hweb]
        exact ⟨⟨hbegun.mission, hbegun.row, hbegun.others⟩, .inl ⟨hweb, hstored⟩⟩
      · rw [if_neg hweb]
        exact ⟨⟨hbegun.mission, hbegun.row, hbegun.others⟩, hstored, hweb⟩
    · rw [if_neg hbusy] at hstep
      cases hstep
      exact ⟨hw, trivial⟩
  case deleting id =>
    obtain ⟨hbegun, ⟨ref, href⟩, hweb⟩ := h
    have hmem : id ∈ s.d.missions := AList.lookup_isSome.1 (by rw [href]; rfl)
    have hdelete : durableStep s.d (.delete id) =
        some { s.d with missions := s.d.missions.erase id, hooks := s.d.hooks ++ [.erase id] } :=
      congrArg some (if_pos hmem)
    rw [if_pos hmem] at hstep
    cases hstep
    have hw' := wellFormed_step hw hdelete
    refine ⟨hw', hbegun.own rfl fun id' hne => ?_, AList.lookup_erase .., hweb⟩
    have hother := same_elsewhere hw hdelete fun heq => hne (Option.some.inj heq).symm
    exact hother
  case erasing id =>
    obtain ⟨hbegun, hgone, hweb⟩ := h
    cases hstep
    cases ok with
    | true =>
      refine ⟨hw, hbegun.own rfl fun id' hne => ⟨rfl, AList.lookup_erase_ne hne⟩, .inr ⟨hweb, hgone, ?_⟩⟩
      exact AList.lookup_erase ..
    | false =>
      have hnorow : id ∉ s.d.table := hcare.resolve_left Bool.false_ne_true
      exact ⟨hw, ⟨hbegun.mission, hbegun.row, hbegun.others⟩, .inr ⟨hweb, hgone, AList.lookup_eq_none.2 hnorow⟩⟩
  case refused id => cases hstep
  case launched id => cases hstep

/-- One step. -/
theorem stands_step {entry : LaunchEntry} {instruction : GoString} {d₀ : Durable} {s s' : Launch} {e : LaunchEvent}
    (hw : s.d.WellFormed) (h : Stands entry d₀ s) (hcare : Unshared s e)
    (hstep : Launch.step entry instruction s e = some s') : s'.d.WellFormed ∧ Stands entry d₀ s' := by
  cases e with
  | own now ok => exact stands_own hw h hcare hstep
  | other act =>
    obtain ⟨d, hd, rfl⟩ := Option.map_eq_some_iff.1 hstep
    refine ⟨wellFormed_step hw hd, stands_other h rfl (fun id hid => ?_) fun id hid => ?_⟩
    · have helse : s.pc.id = none ∨ affects s.d act ≠ s.pc.id := hcare
      rw [hid] at helse
      obtain ⟨hkeeps, htable⟩ := durableStep_elsewhere hw hd (helse.resolve_left (Option.some_ne_none id))
      exact ⟨hkeeps.lookup, htable⟩
    · rw [List.mem_append, not_or] at hid
      refine ⟨hid.2, same_elsewhere hw hd fun haffects => hid.1 ?_⟩
      rw [haffects]
      exact List.mem_singleton_self _
  | lost k =>
    cases hstep
    exact ⟨hw, stands_other h rfl (fun _ _ => ⟨rfl, rfl⟩) fun _ hid => ⟨hid, rfl, rfl⟩⟩
  | number =>
    cases hstep
    exact ⟨hw, stands_other h rfl (fun _ _ => ⟨rfl, rfl⟩) fun _ hid => ⟨hid, rfl, rfl⟩⟩
  | lock busy =>
    cases hstep
    exact ⟨hw, stands_other h rfl (fun _ _ => ⟨rfl, rfl⟩) fun _ hid => ⟨hid, rfl, rfl⟩⟩

/-! ## Refused -/

/-- A refused launch leaves no trace if it comes from an SMS or a cron job, and it does leave one if it comes from the
web. -/
theorem refused_traceless_iff (entry : LaunchEntry) (instruction : GoString) {d₀ : Durable} (seq : Nat) (busy : Bool)
    {es : List LaunchEvent} {s : Launch} {id : GoString} (hw : d₀.WellFormed)
    (hrun : runSteps (Launch.step entry instruction) (Launch.begin d₀ seq busy) es = some s) (hrefused : s.pc = .refused id)
    (hcare : StepsMeet (Launch.step entry instruction) Unshared (Launch.begin d₀ seq busy) es) :
    Traceless d₀ s id ↔ entry ≠ .web := by
  have hstart : (Launch.begin d₀ seq busy).d.WellFormed ∧ Stands entry d₀ (Launch.begin d₀ seq busy) :=
    ⟨hw, fun _ _ => ⟨rfl, rfl⟩⟩
  obtain ⟨hw', hstands⟩ := runSteps_invariant_of_meet (P := fun s => s.d.WellFormed ∧ Stands entry d₀ s)
    (fun s e s' hs hC hstep => stands_step hs.1 hs.2 hC hstep) hrun hcare hstart
  unfold Stands at hstands
  rw [hrefused] at hstands
  obtain ⟨hbegun, hstored | ⟨hweb, hmission, hrow⟩⟩ := hstands
  · obtain ⟨hweb, ref, href⟩ := hstored
    refine iff_of_false (fun htraceless => ?_) fun hne => hne hweb
    have hcurrent := (htraceless id (.inl rfl)).1
    obtain ⟨m, hm, -⟩ := hw' id ref href
    rw [hbegun.mission] at hcurrent
    unfold Durable.current at hcurrent
    rw [href, Option.bind_some, hm] at hcurrent
    cases hcurrent
  · refine iff_of_true (fun id' hid' => ?_) hweb
    by_cases heq : id' = id
    · subst heq
      refine ⟨?_, hrow.trans hbegun.row.symm⟩
      rw [hbegun.mission]
      unfold Durable.current
      rw [hmission]
      rfl
    · exact hbegun.others id' heq (hid'.resolve_left heq)

/-! ## Refused while another mission runs -/

/-- A request from the web: its mission is created and saved, and the lock is taken. -/
def webRefused : List LaunchEvent := [.own 0 true, .own 0 true, .own 0 true, .own 0 true]

/-- The mission of a request from the web stays. -/
theorem webRefused_stays : ¬∀ (entry : LaunchEntry) (instruction : GoString) (d₀ : Durable) (seq : Nat) (busy : Bool)
    (es : List LaunchEvent) (s : Launch) (id : GoString), d₀.WellFormed →
    runSteps (Launch.step entry instruction) (Launch.begin d₀ seq busy) es = some s → s.pc = .refused id →
      Traceless d₀ s id := by
  intro h
  have htraceless := h .web "again" Durable.empty 0 true webRefused _ _ (by rintro id ref ⟨⟩) rfl rfl
  have hcurrent := (htraceless _ (.inl rfl)).1
  cases hcurrent

/-- A cron job: the second attempt to insert the row succeeds, and the mode is set. Meanwhile another saves a mission. -/
def cronRefused : List LaunchEvent :=
  [.own 0 true, .own 0 true, .own 0 false, .other (.save 1 board), .own 1 true, .own 1 true, .own 1 true, .own 1 true,
    .own 1 true, .other (.hook 0), .own 1 true, .own 1 true]

theorem cronRefused_unshared :
    StepsMeet (Launch.step .cron "again") Unshared (Launch.begin Durable.empty 0 true) cronRefused := by
  refine stepsMeet_cons ⟨by decide, by decide, by decide⟩ rfl ?_
  refine stepsMeet_cons trivial rfl (stepsMeet_cons trivial rfl ?_)
  refine stepsMeet_cons (.inr (by decide)) rfl ?_
  refine stepsMeet_cons trivial rfl (stepsMeet_cons trivial rfl (stepsMeet_cons trivial rfl ?_))
  refine stepsMeet_cons trivial rfl (stepsMeet_cons trivial rfl ?_)
  refine stepsMeet_cons (.inr (by decide)) rfl ?_
  exact stepsMeet_cons trivial rfl (stepsMeet_cons (.inl rfl) rfl trivial)

/-- Nothing is left of the mission of the cron job. -/
theorem cronRefused_traceless : ∃ s, runSteps (Launch.step .cron "again") (Launch.begin Durable.empty 0 true) cronRefused =
    some s ∧ Traceless Durable.empty s "m0-1" := by
  refine ⟨_, rfl, ?_⟩
  have hw : Durable.empty.WellFormed := by
    rintro id ref ⟨⟩
  exact (@refused_traceless_iff .cron "again" _ 0 true cronRefused _ _ hw rfl rfl cronRefused_unshared).2 (by decide)

end Gafam.Orchestrator
