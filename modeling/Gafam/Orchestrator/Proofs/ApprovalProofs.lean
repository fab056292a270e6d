import Gafam.Orchestrator.Proofs.LevelsProofs

/-!
# An approved quest is parked again

`ApproveHandler` puts a parked quest back to pending and leaves no other trace on the board. The gate
of the next run in approval mode asks the permission table again, gets the same answer and parks the
quest again.
-/

namespace Gafam.Orchestrator

open Gafam.Go Gafam.Lib Gafam.Moksa

/-- The context is not cancelled and the permissions do not change. -/
def Steady (perm : GoString → GoString → Permission) : Levels × Store → Act → Prop
  | _, .head cancelled => cancelled = false
  | _, .work _ h => h.perm = perm
  | _, _ => True

/-- The run executes the tool of the quest and does not park it. -/
def Executes (r : Run) (perm : GoString → GoString → Permission) (st : Store) (x : GoString) : Prop :=
  ∀ acts s st', runSteps (step r) (.start r st, st) acts = some (s, st') →
    StepsMeet (step r) (Steady perm) (.start r st, st) acts →
      .parked x ∉ s.log ∧ (s.phase = .returned → ∃ q, .started q ∈ s.log ∧ q.id = x)

/-- The quest was parked, `ApproveHandler` has approved it, and in `st` it is as the handler left
it. -/
def ApprovedIn (r : Run) (x : GoString) (st : Store) : Prop :=
  ∃ st₀ m₀ f₀ now reason m₁ m, getMission r.missionID st₀ = some m₀ ∧
    m₀.findQuest x = some f₀ ∧ f₀.status = .waitingApproval ∧
    (updateMission now r.missionID (approveQuest x true reason) st₀).1 = .ok m₁ ∧
    getMission r.missionID st = some m ∧ m.findQuest x = m₁.findQuest x

/-- Every dependency of the quest is on the board and done. -/
def DepsAllDone (m : Mission) (q : Quest) : Prop :=
  ∀ d ∈ q.dependsOn, (∃ p ∈ m.quests, p.id = d) ∧ ∀ p ∈ m.quests, p.id = d → p.status = .done

/-- Approval makes the quest pending. -/
theorem approveQuest_pending {r : Run} {x reason : GoString} {now : Nat} {st : Store}
    {m m' : Mission} {f : Quest} (hm : getMission r.missionID st = some m)
    (hf : m.findQuest x = some f) (hw : f.status = .waitingApproval)
    (hu : (updateMission now r.missionID (approveQuest x true reason) st).1 = .ok m') :
    ∃ f', m'.findQuest x = some f' ∧ f'.status = .pending := by
  have hid : f.id = x := findQuest_id hf
  have hm' : st.missions.lookup r.missionID = some m := hm
  have hfirst : (m.updateQuest x fun q => { q with status := .pending }).findQuest x =
      some { f with status := .pending } := by
    rw [updateQuest_found hf]
    exact findQuest_updateQuest_self hf hid
  unfold updateMission at hu
  rw [hm'] at hu
  simp only [approveQuest, hf, hw, ne_eq, not_true_eq_false, if_false, if_true] at hu
  cases hu
  refine ⟨_, Eq.trans ?_ hfirst, rfl⟩
  split_ifs <;> rfl

/-! ## No run executes it -/

/-- As long as the quest is parked at its gate, its goroutine comes to nothing else. -/
structure Gated (x : GoString) (s₀ s : Levels) : Prop where
  pending : ∀ id q, s.pending.lookup id = some q → s₀.pending.lookup id = some q
  taken : ∀ q ∈ s.phase.quests, s₀.pending.lookup q.id = some q
  pcs : ∀ ws, s.phase = .level ws → ∀ w ∈ ws, w.1.id = x →
    w.2 = .queued ∨ w.2 = .gate ∨ w.2 = .finished
  log : ∀ q, .started q ∈ s.log → q.id ≠ x

theorem Gated.quiet {x : GoString} {s₀ s s' : Levels} (h : Gated x s₀ s)
    (hp : ∀ id q, s'.pending.lookup id = some q → s.pending.lookup id = some q)
    (hlog : s'.log = s.log) (htaken : ∀ q ∈ s'.phase.quests, s₀.pending.lookup q.id = some q)
    (hpcs : ∀ ws, s'.phase = .level ws → ∀ w ∈ ws, w.2 = .queued) : Gated x s₀ s' where
  pending id q hq := h.pending id q (hp id q hq)
  taken := htaken
  pcs ws hw w hmem _ := .inl (hpcs ws hw w hmem)
  log := by rw [hlog]; exact h.log

theorem Gated.idle {x : GoString} {s₀ s s' : Levels} (h : Gated x s₀ s)
    (hp : ∀ id q, s'.pending.lookup id = some q → s.pending.lookup id = some q)
    (hlog : s'.log = s.log) (hnone : s'.phase.quests = []) (hlevel : ∀ ws, s'.phase ≠ .level ws) :
    Gated x s₀ s' := by
  refine h.quiet hp hlog (fun q hq => ?_) fun ws hws => absurd hws (hlevel ws)
  rw [hnone] at hq
  exact absurd hq List.not_mem_nil

theorem mem_record_log {s : Levels} {e : Option Event} {e' : Event}
    (h : e' ∈ (s.record e).log) : e' ∈ s.log ∨ e = some e' := by
  unfold Levels.record at h
  rcases e with _ | (_ | _ | _ | _)
  · exact .inl h
  all_goals
    rcases List.mem_append.1 h with h | h
    · exact .inl h
    · exact .inr (by rw [List.mem_singleton.1 h])

theorem record_pending (s : Levels) (e : Option Event) : (s.record e).pending = s.pending := by
  unfold Levels.record
  rcases e with _ | (_ | _ | _ | _) <;> rfl

theorem gated_step {r : Run} {perm : GoString → GoString → Permission} {x : GoString}
    {st₀ : Store} {q₀ : Quest} {act : Act} {p p' : Levels × Store} (hmode : r.approvalMode = true)
    (hq₀ : (Levels.start r st₀).pending.lookup x = some q₀)
    (hask : perm r.karakaID q₀.tool = .ask) (h : Gated x (.start r st₀) p.1)
    (hmeet : Steady perm p act) (hstep : step r p act = some p') :
    Gated x (.start r st₀) p'.1 := by
  obtain ⟨s, st⟩ := p
  obtain ⟨s', st'⟩ := p'
  dsimp only at h ⊢
  cases step_cases hstep with
  | stop hp hc => exact h.idle (fun _ _ h => h) rfl rfl fun _ => Phase.noConfusion
  | scan hp hc => exact h.idle (fun _ _ h => h) rfl rfl fun _ => Phase.noConfusion
  | doomed hp hid hq hr =>
    refine h.quiet (fun _ _ h => lookup_erase_some h) rfl (fun q hq => h.taken q ?_)
      fun _ => Phase.noConfusion
    rw [hp]
    exact hq
  | @ready todo level id now q hp hid hq hr =>
    refine h.quiet (fun _ _ h => h) rfl (fun p hp' => ?_) fun _ => Phase.noConfusion
    rcases List.mem_append.1 hp' with hp' | hp'
    · refine h.taken p ?_
      rw [hp]
      exact hp'
    · obtain rfl : p = q := by simpa using hp'
      have hentry := h.pending id p hq
      obtain ⟨m, -, -, -, hid'⟩ := start_lookup hentry
      subst hid'
      exact hentry
  | blocked hp hid hq hr =>
    refine h.quiet (fun _ _ h => h) rfl (fun q hq => h.taken q ?_) fun _ => Phase.noConfusion
    rw [hp]
    exact hq
  | pause hp hw => exact h.idle (fun _ _ h => h) rfl rfl fun _ => Phase.noConfusion
  | stuck hp hw => exact h.idle (fun _ _ h => h) rfl rfl fun _ => Phase.noConfusion
  | @launch level hp hl =>
    refine h.quiet (fun _ _ h => lookup_foldl_erase h) rfl (fun q hq => h.taken q ?_)
      fun ws hw w hmem => ?_
    · rw [hp]
      simpa [Phase.quests] using hq
    · cases hw
      obtain ⟨q, -, rfl⟩ := List.mem_map.1 hmem
      rfl
  | drop hp hid =>
    exact h.idle (fun _ _ h => lookup_erase_some h) rfl rfl fun _ => Phase.noConfusion
  | dropped hp hk => exact h.idle (fun _ _ h => h) rfl rfl fun _ => Phase.noConfusion
  | @work workers k host q pc hp hk hsem =>
    have hmem : (q, pc) ∈ workers := List.mem_of_getElem? hk
    have hentry : ∀ w ∈ workers, (Levels.start r st₀).pending.lookup w.1.id = some w.1 := by
      intro w hw
      refine h.taken w.1 ?_
      rw [hp]
      exact List.mem_map_of_mem hw
    have hperm : host.perm = perm := hmeet
    -- the goroutine of the quest stays at its gate or ends there
    have hown : q.id = x → (pc.step r host q st).1 = .gate ∨ (pc.step r host q st).1 = .finished := by
      intro hid
      have hq : some q = some q₀ := (hentry _ hmem).symm.trans (hid ▸ hq₀)
      rcases h.pcs workers hp _ hmem hid with hpc | hpc | hpc
      · obtain rfl : pc = .queued := hpc
        exact .inl rfl
      · obtain rfl : pc = .gate := hpc
        refine .inr ?_
        rw [step_gate_ask hmode (by rw [hperm, Option.some.inj hq]; exact hask)]
      · obtain rfl : pc = .finished := hpc
        exact .inr rfl
    refine ⟨fun id p hp' => h.pending id p ?_, fun p hp' => ?_, fun ws hw w hwm hid => ?_,
      fun f hf => ?_⟩
    · rw [← record_pending s (pc.step r host q st).2.2]
      exact hp'
    · obtain ⟨w, hw, rfl⟩ := List.mem_map.1 hp'
      rcases List.mem_or_eq_of_mem_set hw with hw | rfl
      · exact hentry w hw
      · exact hentry (q, pc) hmem
    · cases hw
      rcases List.mem_or_eq_of_mem_set hwm with hwm | rfl
      · exact h.pcs workers hp w hwm hid
      · exact .inr (hown hid)
    · rcases mem_record_log hf with hf | he
      · exact h.log f hf
      · rcases step_event he with ⟨attempt, m', f', rfl, hu, hf', hff⟩ | hc | hc | ⟨hc, -⟩
        · cases hff
          intro hid
          rcases h.pcs workers hp _ hmem ((findQuest_id hf').symm.trans hid) with hpc | hpc | hpc
          · cases hpc
          · cases hpc
          · cases hpc
        · cases hc
        · cases hc
        · cases hc
  | join hp hw => exact h.idle (fun _ _ h => h) rfl rfl fun _ => Phase.noConfusion

theorem gated_start (r : Run) (st : Store) (x : GoString) :
    Gated x (.start r st) (.start r st) := by
  have hquests : (Levels.start r st).phase.quests = [] := by
    rcases start_phase r st with hp | hp <;> rw [hp] <;> rfl
  refine ⟨fun _ _ h => h, fun q hq => ?_, fun ws hw => ?_, fun q hq => ?_⟩
  · rw [hquests] at hq
    exact nomatch hq
  · rcases start_phase r st with hp | hp <;> rw [hp] at hw <;> exact nomatch hw
  · rw [start_log] at hq
    exact nomatch hq

/-! ## A run that parks it -/

theorem mem_enter_pending {s : Levels} {q : Quest} {id : GoString}
    (h : id ∈ s.pending ∨ Schedulable q ∧ q.id = id) : id ∈ (s.enter q).pending := by
  unfold Levels.enter
  unfold Schedulable at h
  cases hs : q.status with
  | pending =>
    refine (AList.mem_insert _).2 ?_
    rcases h with h | ⟨-, h⟩
    · exact .inr h
    · exact .inl h.symm
  | failed =>
    refine (AList.mem_insert _).2 ?_
    rcases h with h | ⟨-, h⟩
    · exact .inr h
    · exact .inl h.symm
  | _ =>
    rw [hs] at h
    rcases h with h | ⟨h | h, -⟩
    · exact h
    · exact nomatch h
    · exact nomatch h

/-- A pending or failed quest puts its id into the snapshot. -/
theorem mem_foldl_enter_pending {qs : List Quest} {s : Levels} {id : GoString}
    (h : id ∈ s.pending ∨ ∃ q ∈ qs, Schedulable q ∧ q.id = id) :
    id ∈ (qs.foldl Levels.enter s).pending := by
  induction qs generalizing s with
  | nil =>
    rcases h with h | ⟨q, hq, -⟩
    · exact h
    · exact nomatch hq
  | cons q qs ih =>
    refine ih ?_
    rcases h with h | ⟨p, hp, hs⟩
    · exact .inl (mem_enter_pending (.inl h))
    · rcases List.mem_cons.1 hp with rfl | hp
      · exact .inl (mem_enter_pending (.inr hs))
      · exact .inr ⟨p, hp, hs⟩

theorem mem_enter_failed {s : Levels} {q : Quest} {d : GoString} :
    d ∈ (s.enter q).failed ↔ d ∈ s.failed ∨ q.status = .cancelled ∧ q.id = d := by
  unfold Levels.enter
  cases q.status <;> simp [eq_comm]

theorem mem_foldl_enter_failed {qs : List Quest} {s : Levels} {d : GoString} :
    d ∈ (qs.foldl Levels.enter s).failed ↔
      d ∈ s.failed ∨ ∃ q ∈ qs, q.status = .cancelled ∧ q.id = d := by
  induction qs generalizing s with
  | nil => simp
  | cons q qs ih => simp [ih, mem_enter_failed, or_assoc]

theorem readiness_of_done {done failed deps : List GoString}
    (h : ∀ d ∈ deps, d ∈ done ∧ d ∉ failed) : readiness done failed deps = .ready := by
  induction deps with
  | nil => rfl
  | cons d deps ih =>
    obtain ⟨h1, h2⟩ := h d (List.mem_cons_self ..)
    have := ih fun d hd => h d (List.mem_cons_of_mem _ hd)
    simp [readiness, h1, h2, this]

/-- A scan can be brought to its end, and the level it has keeps what it has. -/
theorem exists_scan {r : Run} (todo : List GoString) :
    ∀ (s : Levels) (st : Store) (level : List Quest), s.phase = .scan todo level → todo.Nodup →
      (∀ id ∈ todo, ∃ q, s.pending.lookup id = some q ∧ q.id = id) →
      ∃ acts s' st' level', runSteps (step r) (s, st) acts = some (s', st') ∧
        (∀ act ∈ acts, ∃ id, act = .visit id 0) ∧ s'.phase = .scan [] level' ∧
        level <+: level' := by
  induction todo with
  | nil =>
    intro s st level hp _ _
    exact ⟨[], s, st, level, rfl, fun _ h => (nomatch h), hp, List.prefix_rfl⟩
  | cons id todo ih =>
    intro s st level hp hnd hlook
    obtain ⟨q, hq, hid⟩ := hlook id (List.mem_cons_self ..)
    subst hid
    have hnd' := List.nodup_cons.1 hnd
    have hstep : step r (s, st) (.visit q.id 0) =
        some (s.visit r 0 st (q.id :: todo) level q) := by
      simp [step, hp, hq]
    obtain ⟨level₁, hlevel, hphase, hkeep⟩ : ∃ level₁, level <+: level₁ ∧
        (s.visit r 0 st (q.id :: todo) level q).1.phase = .scan todo level₁ ∧
        ∀ y ∈ todo, (s.visit r 0 st (q.id :: todo) level q).1.pending.lookup y =
          s.pending.lookup y := by
      unfold Levels.visit
      rw [List.erase_cons_head]
      cases readiness s.done s.failed q.dependsOn with
      | ready => exact ⟨level ++ [q], List.prefix_append .., rfl, fun _ _ => rfl⟩
      | blocked => exact ⟨level, List.prefix_rfl, rfl, fun _ _ => rfl⟩
      | doomed =>
        refine ⟨level, List.prefix_rfl, rfl, fun y hy => AList.lookup_erase_ne ?_⟩
        rintro rfl
        exact hnd'.1 hy
    obtain ⟨acts, s', st', level', hrun, hacts, hp', hle⟩ :=
      ih (s.visit r 0 st (q.id :: todo) level q).1 (s.visit r 0 st (q.id :: todo) level q).2 level₁
        hphase hnd'.2 fun y hy => by
          rw [hkeep y hy]
          exact hlook y (List.mem_cons_of_mem _ hy)
    refine ⟨.visit q.id 0 :: acts, s', st', level', ?_, ?_, hp', hlevel.trans hle⟩
    · exact runSteps_cons_eq_some.2 ⟨_, hstep, hrun⟩
    · intro act hact
      rcases List.mem_cons.1 hact with rfl | hact
      · exact ⟨q.id, rfl⟩
      · exact hacts act hact

/-- A quest that is ready at once and whose tool needs a human can be parked by the first goroutine
of the first level. -/
theorem exists_parked {r : Run} {st : Store} {q : Quest} {h : Host} (hmode : r.approvalMode = true)
    (hp : (Levels.start r st).phase = .head)
    (hq : (Levels.start r st).pending.lookup q.id = some q)
    (hready : readiness (Levels.start r st).done (Levels.start r st).failed q.dependsOn = .ready)
    (hask : h.perm r.karakaID q.tool = .ask) :
    ∃ acts s st', runSteps (step r) (.start r st, st) acts = some (s, st') ∧
      (∀ act ∈ acts, act = .head false ∨ (∃ id, act = .visit id 0) ∨ act = .endScan ∨
        act = .work 0 h) ∧ .parked q.id ∈ s.log := by
  let s₀ := Levels.start r st
  have hmem : q.id ∈ s₀.pending.keys := AList.mem_keys.1 (AList.lookup_isSome.1 (by rw [hq]; rfl))
  have hne : s₀.pending.keys ≠ [] := List.ne_nil_of_mem hmem
  -- the scan visits the quest first
  let s₁ : Levels := { s₀ with phase := .scan s₀.pending.keys [] }
  let s₂ : Levels := { s₀ with phase := .scan (s₀.pending.keys.erase q.id) [q] }
  have h₁ : step r (s₀, st) (.head false) = some (s₁, st) := by
    simp [step, s₀, s₁, hp, hne]
  have h₂ : step r (s₁, st) (.visit q.id 0) = some (s₂, st) := by
    simp [step, s₁, s₂, hmem, hq, Levels.visit, s₀, hready]
  obtain ⟨acts, s₃, st₃, level, hrun, hacts, hp₃, hle⟩ := exists_scan (r := r)
    (s₀.pending.keys.erase q.id) s₂ st [q] rfl (s₀.pending.keys_nodup.erase _) fun id hid => by
      have hid' : id ∈ s₀.pending := AList.mem_keys.2 (List.mem_of_mem_erase hid)
      obtain ⟨p, hp'⟩ := Option.isSome_iff_exists.1 (AList.lookup_isSome.2 hid')
      obtain ⟨m, -, -, -, hpid⟩ := start_lookup hp'
      exact ⟨p, hp', hpid⟩
  obtain ⟨rest, rfl⟩ := hle
  -- its goroutine is the first of the level
  let ws : List (Quest × WorkerPc) := ([q] ++ rest).map fun p => (p, .queued)
  let s₄ : Levels :=
    { s₃ with
      pending := ([q] ++ rest).foldl (fun p q => p.erase q.id) s₃.pending
      phase := .level ws }
  have h₄ : step r (s₃, st₃) .endScan = some (s₄, st₃) := by
    simp [step, hp₃, Levels.endScan, s₄, ws]
  have hidle : active ws = 0 := by
    refine List.countP_eq_zero.2 fun w hw => ?_
    obtain ⟨p, -, rfl⟩ := List.mem_map.1 hw
    simp
  let s₅ : Levels := { s₄ with phase := .level (ws.set 0 (q, .gate)) }
  have h₅ : step r (s₄, st₃) (.work 0 h) = some (s₅, st₃) := by
    have hk : ws[0]? = some (q, .queued) := rfl
    simp [step, s₄, s₅, hk, hidle, maxParallel, WorkerPc.step, Levels.record]
  have hgate : WorkerPc.gate.step r h q st₃ =
      (.finished, parkQuest r h.now q.id st₃, some (.parked q.id)) := step_gate_ask hmode hask
  let s₆ : Levels :=
    { s₅.record (some (.parked q.id)) with
      phase := .level ((ws.set 0 (q, .gate)).set 0 (q, .finished)) }
  have h₆ : step r (s₅, st₃) (.work 0 h) = some (s₆, parkQuest r h.now q.id st₃) := by
    have hk : (ws.set 0 (q, .gate))[0]? = some (q, .gate) := rfl
    simp [step, s₅, s₆, hk, hgate, Levels.record]
  have hlog : .parked q.id ∈ s₆.log := List.mem_append_right _ (List.mem_singleton_self _)
  refine ⟨.head false :: .visit q.id 0 :: (acts ++ [.endScan, .work 0 h, .work 0 h]), s₆,
    parkQuest r h.now q.id st₃, ?_, ?_, hlog⟩
  · refine runSteps_cons_eq_some.2 ⟨_, h₁, runSteps_cons_eq_some.2 ⟨_, h₂, ?_⟩⟩
    refine runSteps_append_eq_some.2 ⟨_, hrun, ?_⟩
    refine runSteps_cons_eq_some.2 ⟨_, h₄, runSteps_cons_eq_some.2 ⟨_, h₅, ?_⟩⟩
    exact runSteps_cons_eq_some.2 ⟨_, h₆, rfl⟩
  · intro act hact
    simp only [List.mem_cons, List.mem_append, List.not_mem_nil, or_false] at hact
    rcases hact with rfl | rfl | hact | rfl | rfl | rfl
    · exact .inl rfl
    · exact .inr (.inl ⟨_, rfl⟩)
    · exact .inr (.inl (hacts act hact))
    · exact .inr (.inr (.inl rfl))
    · exact .inr (.inr (.inr rfl))
    · exact .inr (.inr (.inr rfl))

/-- The launch of an approved quest in approval mode never executes its tool, and can park it again. -/
theorem approved_not_executed {r : Run} {perm : GoString → GoString → Permission} {st : Store}
    {m : Mission} {x : GoString} (hmode : r.approvalMode = true) (happ : ApprovedIn r x st)
    (hm : getMission r.missionID st = some m)
    (hask : ∀ q ∈ m.quests, q.id = x → perm r.karakaID q.tool = .ask)
    (hdeps : ∀ q ∈ m.quests, q.id = x → DepsAllDone m q) :
    ¬ Executes r perm st x ∧
      ∀ acts s st', runSteps (step r) (.start r st, st) acts = some (s, st') →
        StepsMeet (step r) (Steady perm) (.start r st, st) acts →
          ∀ q, .started q ∈ s.log → q.id ≠ x := by
  obtain ⟨st₀, m₀, f₀, now, reason, m₁, m', hm₀, hf₀, hw, hu, hm', hsame⟩ := happ
  have hmm : some m' = some m := hm'.symm.trans hm
  cases hmm
  obtain ⟨f, hf, hpend⟩ := approveQuest_pending hm₀ hf₀ hw hu
  rw [← hsame] at hf
  have hid : f.id = x := findQuest_id hf
  have hfmem : f ∈ m.quests := List.mem_of_find?_eq_some hf
  have hstart : Levels.start r st = .ofBoard m.quests := by
    unfold Levels.start
    rw [hm]
  -- the id is in the snapshot, and the entry is ready at once
  have hmem : x ∈ (Levels.start r st).pending := by
    rw [hstart]
    exact mem_foldl_enter_pending (.inr ⟨f, hfmem, .inl hpend, hid⟩)
  obtain ⟨q, hq⟩ := Option.isSome_iff_exists.1 (AList.lookup_isSome.2 hmem)
  obtain ⟨m'', hm'', hqmem, -, hqid⟩ := start_lookup hq
  have hmm : some m'' = some m := hm''.symm.trans hm
  cases hmm
  have hqask : perm r.karakaID q.tool = .ask := hask q hqmem hqid
  have hready : readiness (Levels.start r st).done (Levels.start r st).failed q.dependsOn =
      .ready := by
    refine readiness_of_done fun d hd => ?_
    obtain ⟨⟨p, hp, hpd⟩, hall⟩ := hdeps q hqmem hqid d hd
    rw [hstart]
    refine ⟨mem_foldl_enter_done.2 (.inr ⟨p, hp, hall p hp hpd, hpd⟩), fun hfail => ?_⟩
    rcases mem_foldl_enter_failed.1 hfail with h | ⟨p', hp', hc, hpd'⟩
    · exact nomatch h
    · rw [hall p' hp' hpd'] at hc
      exact nomatch hc
  refine ⟨fun hex => ?_, fun acts s st' hrun hmeet => ?_⟩
  · have hphase : (Levels.start r st).phase = .head := by
      rw [hstart]
      exact (foldl_enter_phase m.quests _).1
    obtain ⟨acts, s, st', hrun, hacts, hlog⟩ := exists_parked
      (h := ⟨0, perm, none, .ok .null, none⟩) hmode hphase (by rw [hqid]; exact hq) hready hqask
    rw [hqid] at hlog
    refine (hex acts s st' hrun (stepsMeet_of_forall (fun act hact p => ?_) _)).1 hlog
    rcases hacts act hact with rfl | ⟨id, rfl⟩ | rfl | rfl
    · exact rfl
    · trivial
    · trivial
    · exact rfl
  · exact (runSteps_invariant_of_meet
      (P := fun p : Levels × Store => Gated x (.start r st) p.1)
      (fun p act p' h hC hstep => gated_step hmode hq hqask h hC hstep) hrun hmeet
      (gated_start r st x)).log

/-- A board with one quest that is parked. -/
def parkedBoard : List Quest := [{ boardQuest "q1" [] with status := .waitingApproval }]

/-- The store after `ApproveHandler` has approved it. -/
def approvedStore : Store :=
  (updateMission 0 "m1" (approveQuest "q1" true []) (boardStore parkedBoard)).2

theorem approved_not_executed_one :
    ¬ Executes (boardRun true) (fun _ _ => .ask) approvedStore "q1" ∧
      ∀ acts s st', runSteps (step (boardRun true))
          (.start (boardRun true) approvedStore, approvedStore) acts = some (s, st') →
        StepsMeet (step (boardRun true)) (Steady fun _ _ => .ask)
          (.start (boardRun true) approvedStore, approvedStore) acts →
          ∀ q, .started q ∈ s.log → q.id ≠ str "q1" := by
  have happ : ApprovedIn (boardRun true) "q1" approvedStore :=
    ⟨boardStore parkedBoard, _, _, 0, [], _, _, rfl, rfl, rfl, rfl, rfl, rfl⟩
  refine approved_not_executed rfl happ rfl (fun _ _ _ => rfl) fun q hq _ d hd => ?_
  obtain rfl := List.mem_singleton.1 hq
  exact nomatch hd

/-- Launched again in approval mode, the run parks the approved quest and returns without having
started its tool. -/
theorem approved_parked_again :
    ∃ s st, runSteps (step (boardRun true)) (.start (boardRun true) approvedStore, approvedStore)
        [.head false, .visit "q1" 0, .endScan, .work 0 (boardHost .ask), .work 0 (boardHost .ask),
          .join, .head false] = some (s, st) ∧
      (getMission "m1" approvedStore).map (fun m => m.quests.map Quest.status) = some [.pending] ∧
      s.phase = .returned ∧ (∀ q, .started q ∉ s.log) ∧
      (getMission "m1" st).map (fun m => m.quests.map Quest.status) = some [.waitingApproval] := by
  refine ⟨_, _, rfl, rfl, rfl, fun q hq => ?_, rfl⟩
  have hlog := List.mem_singleton.1 hq
  exact nomatch hlog

end Gafam.Orchestrator
