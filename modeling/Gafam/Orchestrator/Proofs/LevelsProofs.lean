import Gafam.Orchestrator.Proofs.WorkerProofs

/-!
# A quest starts when what it needs is done

The level loop decides with the entry of a quest in the snapshot, which is the last pending or failed
quest with its id, while the goroutine runs the first quest with this id. As long as the first one
needs nothing that the entry does not need as well, no tool starts before the dependencies of its
quest are done.
-/

namespace Gafam.Orchestrator

open Gafam.Go Gafam.Lib Gafam.Moksa

/-! ## One step of the level loop -/

/-- The steps of `executeQuestLevels`, one constructor for each branch. -/
inductive Stepped (r : Run) (s : Levels) (st : Store) : Act → Levels → Store → Prop
  | stop {cancelled : Bool} (hp : s.phase = .head) (h : s.pending.keys = [] ∨ cancelled = true) :
    Stepped r s st (.head cancelled) { s with phase := .returned } st
  | scan {cancelled : Bool} (hp : s.phase = .head)
    (h : ¬ (s.pending.keys = [] ∨ cancelled = true)) :
    Stepped r s st (.head cancelled) { s with phase := .scan s.pending.keys [] } st
  | doomed {todo : List GoString} {level : List Quest} {id : GoString} {now : Nat} {q : Quest}
    (hp : s.phase = .scan todo level) (hid : id ∈ todo) (hq : s.pending.lookup id = some q)
    (hr : readiness s.done s.failed q.dependsOn = .doomed) :
    Stepped r s st (.visit id now)
      { s with
        pending := s.pending.erase q.id
        failed := s.failed ++ [q.id]
        phase := .scan (todo.erase q.id) level }
      (cancelQuest r now q.id "dependency failed" st)
  | ready {todo : List GoString} {level : List Quest} {id : GoString} {now : Nat} {q : Quest}
    (hp : s.phase = .scan todo level) (hid : id ∈ todo) (hq : s.pending.lookup id = some q)
    (hr : readiness s.done s.failed q.dependsOn = .ready) :
    Stepped r s st (.visit id now)
      { s with phase := .scan (todo.erase q.id) (level ++ [q]) } st
  | blocked {todo : List GoString} {level : List Quest} {id : GoString} {now : Nat} {q : Quest}
    (hp : s.phase = .scan todo level) (hid : id ∈ todo) (hq : s.pending.lookup id = some q)
    (hr : readiness s.done s.failed q.dependsOn = .blocked) :
    Stepped r s st (.visit id now) { s with phase := .scan (todo.erase q.id) level } st
  | pause (hp : s.phase = .scan [] []) (hw : hasWaiting r st = true) :
    Stepped r s st .endScan { s with phase := .returned } st
  | stuck (hp : s.phase = .scan [] []) (hw : hasWaiting r st = false) :
    Stepped r s st .endScan { s with phase := .drop } st
  | launch {level : List Quest} (hp : s.phase = .scan [] level) (hl : level ≠ []) :
    Stepped r s st .endScan
      { s with
        pending := level.foldl (fun p q => p.erase q.id) s.pending
        phase := .level (level.map fun q => (q, .queued)) } st
  | drop {id : GoString} {now : Nat} (hp : s.phase = .drop) (hid : id ∈ s.pending) :
    Stepped r s st (.drop id now)
      { s with pending := s.pending.erase id, failed := s.failed ++ [id], phase := .drop }
      (cancelQuest r now id "dependency cycle — unsatisfiable" st)
  | dropped (hp : s.phase = .drop) (h : s.pending.keys = []) :
    Stepped r s st .endDrop { s with phase := .returned } st
  | work {workers : List (Quest × WorkerPc)} {k : Nat} {h : Host} {q : Quest} {pc : WorkerPc}
    (hp : s.phase = .level workers) (hk : workers[k]? = some (q, pc))
    (hsem : ¬ (pc = .queued ∧ maxParallel ≤ active workers)) :
    Stepped r s st (.work k h)
      { s.record (pc.step r h q st).2.2 with
        phase := .level (workers.set k (q, (pc.step r h q st).1)) }
      (pc.step r h q st).2.1
  | join {workers : List (Quest × WorkerPc)} (hp : s.phase = .level workers)
    (h : ∀ w ∈ workers, w.2 = .finished) : Stepped r s st .join { s with phase := .head } st

theorem step_cases {r : Run} {s s' : Levels} {st st' : Store} {act : Act}
    (h : step r (s, st) act = some (s', st')) : Stepped r s st act s' st' := by
  cases hp : s.phase with
  | head =>
    cases act with
    | head cancelled =>
      simp only [step, hp] at h
      split_ifs at h with hc
      · cases h; exact .stop hp hc
      · cases h; exact .scan hp hc
    | _ => simp [step, hp] at h
  | scan todo level =>
    cases act with
    | visit id now =>
      simp only [step, hp] at h
      split_ifs at h with hid
      obtain ⟨q, hq, hv⟩ := Option.map_eq_some_iff.1 h
      unfold Levels.visit at hv
      cases hr : readiness s.done s.failed q.dependsOn with
      | doomed => rw [hr] at hv; cases hv; exact .doomed hp hid hq hr
      | ready => rw [hr] at hv; cases hv; exact .ready hp hid hq hr
      | blocked => rw [hr] at hv; cases hv; exact .blocked hp hid hq hr
    | endScan =>
      cases todo with
      | cons id todo => simp [step, hp] at h
      | nil =>
        simp only [step, hp, Levels.endScan] at h
        split_ifs at h with hl hw
        · cases h; subst hl; exact .pause hp hw
        · cases h; subst hl; exact .stuck hp (by simpa using hw)
        · cases h; exact .launch hp hl
    | _ => cases todo <;> simp [step, hp] at h
  | drop =>
    cases act with
    | drop id now =>
      simp only [step, hp] at h
      split_ifs at h with hid
      cases h
      exact .drop hp hid
    | endDrop =>
      simp only [step, hp] at h
      split_ifs at h with hk
      cases h
      exact .dropped hp hk
    | _ => simp [step, hp] at h
  | level workers =>
    cases act with
    | work k hst =>
      simp only [step, hp] at h
      cases hk : workers[k]? with
      | none => simp [hk] at h
      | some w =>
        obtain ⟨q, pc⟩ := w
        simp only [hk] at h
        split_ifs at h with hsem
        cases h
        exact .work hp hk hsem
    | join =>
      simp only [step, hp] at h
      split_ifs at h with hw
      cases h
      exact .join hp hw
    | _ => simp [step, hp] at h
  | returned => simp [step, hp] at h

/-! ## The snapshot -/

theorem enter_phase (s : Levels) (q : Quest) :
    (s.enter q).phase = s.phase ∧ (s.enter q).log = s.log := by
  unfold Levels.enter
  cases q.status <;> exact ⟨rfl, rfl⟩

theorem foldl_enter_phase (qs : List Quest) (s : Levels) :
    (qs.foldl Levels.enter s).phase = s.phase ∧ (qs.foldl Levels.enter s).log = s.log := by
  induction qs generalizing s with
  | nil => exact ⟨rfl, rfl⟩
  | cons q qs ih =>
    obtain ⟨h1, h2⟩ := ih (s.enter q)
    obtain ⟨h3, h4⟩ := enter_phase s q
    exact ⟨h1.trans h3, h2.trans h4⟩

/-- A quest that gets a chance in the next run. -/
def Schedulable (q : Quest) : Prop := q.status = .pending ∨ q.status = .failed

theorem Schedulable.not_done {q : Quest} (h : Schedulable q) : q.status ≠ .done := by
  intro hst
  unfold Schedulable at h
  rw [hst] at h
  exact h.elim nofun nofun

theorem Schedulable.not_cancelled {q : Quest} (h : Schedulable q) : q.status ≠ .cancelled := by
  intro hst
  unfold Schedulable at h
  rw [hst] at h
  exact h.elim nofun nofun

theorem mem_enter_done {s : Levels} {q : Quest} {d : GoString} :
    d ∈ (s.enter q).done ↔ d ∈ s.done ∨ q.status = .done ∧ q.id = d := by
  unfold Levels.enter
  cases q.status <;> simp [eq_comm]

theorem mem_foldl_enter_done {qs : List Quest} {s : Levels} {d : GoString} :
    d ∈ (qs.foldl Levels.enter s).done ↔
      d ∈ s.done ∨ ∃ q ∈ qs, q.status = .done ∧ q.id = d := by
  induction qs generalizing s with
  | nil => simp
  | cons q qs ih => simp [ih, mem_enter_done, or_assoc]

/-- An entry of the snapshot is a pending or failed quest of the board under its own id. -/
theorem lookup_enter {s : Levels} {q p : Quest} {id : GoString}
    (h : (s.enter q).pending.lookup id = some p) :
    s.pending.lookup id = some p ∨ p = q ∧ Schedulable q ∧ q.id = id := by
  unfold Levels.enter at h
  unfold Schedulable
  revert h
  have insert (h : (s.pending.insert q.id q).lookup id = some p) :
      s.pending.lookup id = some p ∨ p = q ∧ q.id = id := by
    by_cases hid : id = q.id
    · subst hid
      rw [AList.lookup_insert] at h
      exact .inr ⟨(Option.some.inj h).symm, rfl⟩
    · rw [AList.lookup_insert_ne hid] at h
      exact .inl h
  cases hs : q.status with
  | pending => exact fun h => (insert h).imp_right fun ⟨hp, hid⟩ => ⟨hp, .inl rfl, hid⟩
  | failed => exact fun h => (insert h).imp_right fun ⟨hp, hid⟩ => ⟨hp, .inr rfl, hid⟩
  | _ => exact fun h => .inl h

theorem lookup_foldl_enter {qs : List Quest} {s : Levels} {p : Quest} {id : GoString}
    (h : (qs.foldl Levels.enter s).pending.lookup id = some p) :
    s.pending.lookup id = some p ∨ p ∈ qs ∧ Schedulable p ∧ p.id = id := by
  induction qs generalizing s with
  | nil => exact .inl h
  | cons q qs ih =>
    rcases ih h with h | ⟨hp, ho, hid⟩
    · rcases lookup_enter h with h | ⟨rfl, ho, hid⟩
      · exact .inl h
      · exact .inr ⟨List.mem_cons_self .., ho, hid⟩
    · exact .inr ⟨List.mem_cons_of_mem _ hp, ho, hid⟩

/-- A quest of the board was done when the run started. -/
def DoneAtStart (r : Run) (st : Store) (id : GoString) : Prop :=
  ∃ m, getMission r.missionID st = some m ∧ ∃ q ∈ m.quests, q.status = .done ∧ q.id = id

theorem start_done {r : Run} {st : Store} {id : GoString}
    (h : id ∈ (Levels.start r st).done) : DoneAtStart r st id := by
  unfold Levels.start at h
  cases hm : getMission r.missionID st with
  | none => rw [hm] at h; exact nomatch h
  | some m =>
    rw [hm] at h
    rcases mem_foldl_enter_done.1 h with h | h
    · exact nomatch h
    · exact ⟨m, hm, h⟩

theorem start_log (r : Run) (st : Store) : (Levels.start r st).log = [] := by
  unfold Levels.start
  cases getMission r.missionID st with
  | none => rfl
  | some m => exact (foldl_enter_phase m.quests _).2

/-- Where a run starts. -/
theorem start_phase (r : Run) (st : Store) :
    (Levels.start r st).phase = .head ∨ (Levels.start r st).phase = .returned := by
  unfold Levels.start
  cases getMission r.missionID st with
  | none => exact .inr rfl
  | some m => exact .inl (foldl_enter_phase m.quests _).1

theorem start_lookup {r : Run} {st : Store} {id : GoString} {q : Quest}
    (h : (Levels.start r st).pending.lookup id = some q) :
    ∃ m, getMission r.missionID st = some m ∧ q ∈ m.quests ∧ Schedulable q ∧ q.id = id := by
  unfold Levels.start at h
  cases hm : getMission r.missionID st with
  | none => rw [hm] at h; exact nomatch h
  | some m =>
    rw [hm] at h
    rcases lookup_foldl_enter h with h | h
    · exact nomatch h
    · exact ⟨m, rfl, h⟩

/-! ## Starting a tool -/

/-- Every tool of the log started when the dependencies of its quest were done: at the start of the
run, or by a quest that had completed before. -/
def DepsDone (atStart : GoString → Prop) (log : List Event) : Prop :=
  ∀ before q after, log = before ++ .started q :: after →
    ∀ d ∈ q.dependsOn, atStart d ∨ .completed d ∈ before

theorem depsDone_nil (atStart : GoString → Prop) : DepsDone atStart [] := by
  intro before q after h
  exact absurd h (by simp)

theorem depsDone_snoc {atStart : GoString → Prop} {log : List Event} {e : Event}
    (hlog : DepsDone atStart log)
    (he : ∀ q, e = .started q → ∀ d ∈ q.dependsOn, atStart d ∨ .completed d ∈ log) :
    DepsDone atStart (log ++ [e]) := by
  intro before q after h
  rcases snoc_split h with ⟨after', hsplit⟩ | ⟨rfl, rfl⟩
  · exact hlog before q after' hsplit
  · exact he q rfl

/-- The ids that must be done before the quest can run: those of its dependencies, and, going back
over the entries of the snapshot `s₀`, what these need in their turn. -/
inductive Requires (s₀ : Levels) : Quest → GoString → Prop
  | direct {q : Quest} {d : GoString} (h : d ∈ q.dependsOn) : Requires s₀ q d
  | trans {q p : Quest} {x d : GoString} (h : x ∈ q.dependsOn) (hx : x ∉ s₀.done)
    (hp : s₀.pending.lookup x = some p) (hd : Requires s₀ p d) : Requires s₀ q d

/-- The step starts no quest that needs more than the entry of the snapshot it is run for: whenever a
goroutine comes to start the tool of the first quest with its id, the dependencies of this quest were
done at the start or are required by the entry. -/
def StartsRequired (r : Run) (s₀ : Levels) : Levels × Store → Act → Prop
  | (s, st), .work k _ =>
    ∀ workers q attempt m f, s.phase = .level workers → workers[k]? = some (q, .run attempt) →
      getMission r.missionID st = some m → m.findQuest q.id = some f →
      ∀ d ∈ f.dependsOn, d ∈ s₀.done ∨ Requires s₀ q d
  | _, _ => True

/-- The quests that a phase has taken up. -/
def Phase.quests : Phase → List Quest
  | scan _ taken => taken
  | level workers => workers.map Prod.fst
  | _ => []

/-- What a run keeps, `s₀` being its snapshot. -/
structure Sound (atStart : GoString → Prop) (s₀ s : Levels) : Prop where
  pending : ∀ id q, s.pending.lookup id = some q → s₀.pending.lookup id = some q
  done : ∀ id ∈ s.done, id ∈ s₀.done ∨ .completed id ∈ s.log
  closed : ∀ id, .completed id ∈ s.log →
    ∃ q, s₀.pending.lookup id = some q ∧ ∀ d ∈ q.dependsOn, d ∈ s.done
  taken : ∀ q ∈ s.phase.quests,
    s₀.pending.lookup q.id = some q ∧ ∀ d ∈ q.dependsOn, d ∈ s.done
  log : DepsDone atStart s.log

/-- What a scheduled quest requires is done. -/
theorem Sound.requires {atStart : GoString → Prop} {s₀ s : Levels} (hs : Sound atStart s₀ s)
    {q : Quest} {d : GoString} (h : Requires s₀ q d) (hq : ∀ d ∈ q.dependsOn, d ∈ s.done) :
    d ∈ s₀.done ∨ .completed d ∈ s.log := by
  induction h with
  | direct h => exact hs.done _ (hq _ h)
  | @trans q p x d h hx hp hd ih =>
    rcases hs.done x (hq x h) with h0 | hc
    · exact absurd h0 hx
    · obtain ⟨p', hp', hdeps⟩ := hs.closed x hc
      rw [hp] at hp'
      cases hp'
      exact ih hdeps

/-- The dependencies of a ready quest are done. -/
theorem readiness_ready {done failed deps : List GoString}
    (h : readiness done failed deps = .ready) : ∀ d ∈ deps, d ∈ done ∧ d ∉ failed := by
  induction deps with
  | nil => exact fun _ hd => nomatch hd
  | cons dep deps ih =>
    unfold readiness at h
    split_ifs at h with hf hd
    intro d hd'
    rcases List.mem_cons.1 hd' with rfl | hd'
    · exact ⟨hd, hf⟩
    · exact ih h d hd'

theorem lookup_erase_some {β : Type} {p : AList fun _ : GoString => β} {a id : GoString} {q : β}
    (h : (p.erase a).lookup id = some q) : p.lookup id = some q := by
  by_cases ha : id = a
  · subst ha
    rw [AList.lookup_erase] at h
    exact nomatch h
  · rwa [AList.lookup_erase_ne ha] at h

theorem lookup_foldl_erase {level : List Quest} {p : AList fun _ : GoString => Quest}
    {id : GoString} {q : Quest}
    (h : (level.foldl (fun p q => p.erase q.id) p).lookup id = some q) : p.lookup id = some q := by
  induction level generalizing p with
  | nil => exact h
  | cons a level ih => exact lookup_erase_some (ih h)

/-- The facts survive a step that completes nothing and logs nothing. -/
theorem Sound.quiet {atStart : GoString → Prop} {s₀ s s' : Levels} (hs : Sound atStart s₀ s)
    (hpending : ∀ id q, s'.pending.lookup id = some q → s.pending.lookup id = some q)
    (hdone : s'.done = s.done) (hlog : s'.log = s.log)
    (htaken : ∀ q ∈ s'.phase.quests,
      s₀.pending.lookup q.id = some q ∧ ∀ d ∈ q.dependsOn, d ∈ s.done) :
    Sound atStart s₀ s' where
  pending id q hq := hs.pending id q (hpending id q hq)
  done := by rw [hdone, hlog]; exact hs.done
  closed := by rw [hdone, hlog]; exact hs.closed
  taken := by rw [hdone]; exact htaken
  log := by rw [hlog]; exact hs.log

/-- The facts survive an event other than a completion. -/
theorem Sound.event {atStart : GoString → Prop} {s₀ s s' : Levels} {e : Event}
    (hs : Sound atStart s₀ s) (hpending : s'.pending = s.pending) (hdone : s'.done = s.done)
    (hlog : s'.log = s.log ++ [e]) (hc : ∀ id, e ≠ .completed id)
    (htaken : ∀ q ∈ s'.phase.quests,
      s₀.pending.lookup q.id = some q ∧ ∀ d ∈ q.dependsOn, d ∈ s.done)
    (he : ∀ f, e = .started f → ∀ d ∈ f.dependsOn, atStart d ∨ .completed d ∈ s.log) :
    Sound atStart s₀ s' where
  pending := by rw [hpending]; exact hs.pending
  done id hid := by
    rw [hdone] at hid
    rw [hlog]
    exact (hs.done id hid).imp_right fun h => List.mem_append_left _ h
  closed id hid := by
    rw [hlog] at hid
    rw [hdone]
    rcases List.mem_append.1 hid with hid | hid
    · exact hs.closed id hid
    · exact absurd (List.mem_singleton.1 hid).symm (hc id)
  taken := by rw [hdone]; exact htaken
  log := by rw [hlog]; exact depsDone_snoc hs.log he

/-- The facts survive what a goroutine reports. -/
theorem Sound.record {atStart : GoString → Prop} {s₀ s : Levels} {q : Quest}
    {ws : List (Quest × WorkerPc)} {e : Option Event} (hs : Sound atStart s₀ s)
    (hq : s₀.pending.lookup q.id = some q ∧ ∀ d ∈ q.dependsOn, d ∈ s.done)
    (hws : ∀ w ∈ ws, s₀.pending.lookup w.1.id = some w.1 ∧ ∀ d ∈ w.1.dependsOn, d ∈ s.done)
    (he : (∃ f, e = some (.started f) ∧ ∀ d ∈ f.dependsOn, atStart d ∨ .completed d ∈ s.log) ∨
      e = some (.completed q.id) ∨ e = some (.failed q.id) ∨ e = some (.parked q.id) ∨ e = none) :
    Sound atStart s₀ { s.record e with phase := .level ws } := by
  have htaken : ∀ p ∈ (Phase.level ws).quests,
      s₀.pending.lookup p.id = some p ∧ ∀ d ∈ p.dependsOn, d ∈ s.done := by
    intro p hp
    obtain ⟨w, hw, rfl⟩ := List.mem_map.1 hp
    exact hws w hw
  rcases he with ⟨f, rfl, hf⟩ | rfl | rfl | rfl | rfl
  · refine hs.event rfl rfl rfl (fun _ h => nomatch h) htaken fun p hp => ?_
    cases hp
    exact hf
  · refine ⟨hs.pending, ?_, ?_, ?_, depsDone_snoc hs.log fun p hp => nomatch hp⟩
    · intro id hid
      rcases List.mem_append.1 hid with hid | hid
      · exact (hs.done id hid).imp_right fun h => List.mem_append_left _ h
      · obtain rfl : id = q.id := by simpa using hid
        exact .inr (List.mem_append_right _ (List.mem_singleton_self _))
    · intro id hid
      rcases List.mem_append.1 hid with hid | hid
      · obtain ⟨p, hp, hd⟩ := hs.closed id hid
        exact ⟨p, hp, fun d h => List.mem_append_left _ (hd d h)⟩
      · obtain rfl : id = q.id := by simpa using hid
        exact ⟨q, hq.1, fun d h => List.mem_append_left _ (hq.2 d h)⟩
    · intro p hp
      obtain ⟨h1, h2⟩ := htaken p hp
      exact ⟨h1, fun d h => List.mem_append_left _ (h2 d h)⟩
  · exact hs.event rfl rfl rfl (fun _ h => nomatch h) htaken fun _ h => nomatch h
  · exact hs.event rfl rfl rfl (fun _ h => nomatch h) htaken fun _ h => nomatch h
  · exact hs.quiet (fun _ _ h => h) rfl rfl htaken

/-- What the first half of `RunQuest` returns has the quest that was found, marked running. -/
theorem runQuestStart_found {now : Nat} {id x : GoString} {perm : GoString → GoString → Permission}
    {st : Store} {m' : Mission} {f' : Quest}
    (hu : (updateMission now id (runQuestStart perm x) st).1 = .ok m')
    (hf' : m'.findQuest x = some f') :
    ∃ m f, getMission id st = some m ∧ m.findQuest x = some f ∧ SameKey f f' := by
  cases hm : getMission id st with
  | none =>
    have hm' : st.missions.lookup id = none := hm
    unfold updateMission at hu
    rw [hm'] at hu
    exact nomatch hu
  | some m =>
    cases hf : m.findQuest x with
    | none =>
      have hm' : st.missions.lookup id = some m := hm
      unfold updateMission at hu
      rw [hm'] at hu
      simp only [runQuestStart, hf] at hu
      exact nomatch hu
    | some f =>
      have hl := runQuestStart_local perm x
      have hkey := hl.key m.status f
      have hafter := after_findQuest_self now (r := runStartOne perm m.status f) hf
        (hkey.id.trans (findQuest_id hf))
      rw [updateMission_local now hl hm hf] at hu
      cases he : (runStartOne perm m.status f).2 with
      | some e => rw [he] at hu; exact nomatch hu
      | none =>
        rw [he] at hu
        cases hu
        rw [hafter] at hf'
        cases hf'
        exact ⟨m, f, rfl, hf, hkey⟩

/-- A tool is started for the first quest of the board with the id, by a goroutine past the gate. -/
theorem step_started {r : Run} {h : Host} {q f : Quest} {st : Store} {pc : WorkerPc}
    (he : (pc.step r h q st).2.2 = some (.started f)) :
    (∃ attempt, pc = .run attempt) ∧ f.id = q.id ∧ (pc.step r h q st).2.1.seq = st.seq ∧
      ∃ m f₀, getMission r.missionID st = some m ∧ m.findQuest q.id = some f₀ ∧ f.tool = f₀.tool := by
  rcases step_event he with ⟨attempt, m', f', rfl, hu, hf, hff⟩ | hc | hc | ⟨hc, -⟩
  · cases hff
    obtain ⟨m, f₀, hm, hf₀, hkey⟩ := runQuestStart_found hu hf
    refine ⟨⟨attempt, rfl⟩, findQuest_id hf, ?_, m, f₀, hm, hf₀, hkey.tool⟩
    have hseq := updateMission_seq h.now r.missionID (runQuestStart h.perm q.id) st
    unfold WorkerPc.step
    dsimp only
    revert hseq hu
    rcases updateMission h.now r.missionID (runQuestStart h.perm q.id) st with ⟨e' | m₁, st₁⟩
    · exact fun hu => nomatch hu
    · intro hu hseq
      cases hu
      dsimp only
      rw [hf]
      exact hseq
  · exact nomatch hc
  · exact nomatch hc
  · exact nomatch hc

/-- One step of a run keeps the facts. -/
theorem sound_step {r : Run} {st₀ : Store} {act : Act} {p p' : Levels × Store}
    (hs : Sound (DoneAtStart r st₀) (Levels.start r st₀) p.1)
    (hmeet : StartsRequired r (Levels.start r st₀) p act) (h : step r p act = some p') :
    Sound (DoneAtStart r st₀) (Levels.start r st₀) p'.1 := by
  obtain ⟨s, st⟩ := p
  obtain ⟨s', st'⟩ := p'
  dsimp only at hs ⊢
  cases step_cases h with
  | stop hp hc => exact hs.quiet (fun _ _ h => h) rfl rfl fun _ h => nomatch h
  | scan hp hc => exact hs.quiet (fun _ _ h => h) rfl rfl fun _ h => nomatch h
  | doomed hp hid hq hr =>
    refine hs.quiet (fun _ _ h => lookup_erase_some h) rfl rfl fun q hq => hs.taken q ?_
    rw [hp]
    exact hq
  | @ready todo level id now q hp hid hq hr =>
    refine hs.quiet (fun _ _ h => h) rfl rfl fun p hp' => ?_
    rcases List.mem_append.1 hp' with hp' | hp'
    · refine hs.taken p ?_
      rw [hp]
      exact hp'
    · obtain rfl : p = q := by simpa using hp'
      obtain ⟨m, -, -, -, hid'⟩ := start_lookup (hs.pending id p hq)
      subst hid'
      exact ⟨hs.pending _ p hq, fun d hd => (readiness_ready hr d hd).1⟩
  | blocked hp hid hq hr =>
    refine hs.quiet (fun _ _ h => h) rfl rfl fun q hq => hs.taken q ?_
    rw [hp]
    exact hq
  | pause hp hw => exact hs.quiet (fun _ _ h => h) rfl rfl fun _ h => nomatch h
  | stuck hp hw => exact hs.quiet (fun _ _ h => h) rfl rfl fun _ h => nomatch h
  | @launch level hp hl =>
    refine hs.quiet (fun _ _ h => lookup_foldl_erase h) rfl rfl fun q hq => hs.taken q ?_
    rw [hp]
    simpa [Phase.quests] using hq
  | drop hp hid => exact hs.quiet (fun _ _ h => lookup_erase_some h) rfl rfl fun _ h => nomatch h
  | dropped hp h => exact hs.quiet (fun _ _ h => h) rfl rfl fun _ h => nomatch h
  | @work workers k host q pc hp hk hsem =>
    have hws : ∀ w ∈ workers, (Levels.start r st₀).pending.lookup w.1.id = some w.1 ∧
        ∀ d ∈ w.1.dependsOn, d ∈ s.done := by
      intro w hw
      refine hs.taken w.1 ?_
      rw [hp]
      exact List.mem_map_of_mem hw
    have hq := hws (q, pc) (List.mem_of_getElem? hk)
    refine hs.record hq ?_ ?_
    · intro w hw
      rcases List.mem_or_eq_of_mem_set hw with hw | rfl
      · exact hws w hw
      · exact hq
    · cases he : (pc.step r host q st).2.2 with
      | none => exact .inr (.inr (.inr (.inr rfl)))
      | some e =>
        rcases step_event he with ⟨attempt, m', f', rfl, hu, hf', rfl⟩ | rfl | rfl | ⟨rfl, -⟩
        · refine .inl ⟨f', rfl, fun d hd => ?_⟩
          obtain ⟨m, f, hm, hf, hkey⟩ := runQuestStart_found hu hf'
          rw [hkey.dependsOn] at hd
          have hreq := hmeet workers q attempt m f hp hk hm hf d hd
          rcases hreq with h0 | hreq
          · exact .inl (start_done h0)
          · exact (hs.requires hreq hq.2).imp_left start_done
        · exact .inr (.inl rfl)
        · exact .inr (.inr (.inl rfl))
        · exact .inr (.inr (.inr (.inl rfl)))
  | join hp hw => exact hs.quiet (fun _ _ h => h) rfl rfl fun _ h => nomatch h

theorem sound_start (r : Run) (st : Store) :
    Sound (DoneAtStart r st) (Levels.start r st) (Levels.start r st) where
  pending _ _ h := h
  done _ h := .inl h
  closed id h := by rw [start_log] at h; exact nomatch h
  taken q h := by
    rcases start_phase r st with hp | hp
    · rw [hp] at h; exact nomatch h
    · rw [hp] at h; exact nomatch h
  log := by rw [start_log]; exact depsDone_nil _

/-- No run whose steps start required quests only starts a tool too early. -/
theorem depsDone_of_startsRequired {r : Run} {st st' : Store} {s' : Levels} {acts : List Act}
    (hrun : runSteps (step r) (Levels.start r st, st) acts = some (s', st'))
    (hmeet : StepsMeet (step r) (StartsRequired r (Levels.start r st)) (Levels.start r st, st) acts) :
    DepsDone (DoneAtStart r st) s'.log := by
  have h := runSteps_invariant_of_meet
    (P := fun p : Levels × Store => Sound (DoneAtStart r st) (Levels.start r st) p.1)
    (fun p a p' hs hC h => sound_step hs hC h) hrun hmeet (sound_start r st)
  exact h.log

/-! ## Boards with distinct ids -/

/-- The board is still the one of `m₀`, but for what happened to its quests. -/
def OnBoard (r : Run) (m₀ : Mission) (st : Store) : Prop :=
  ∃ m, getMission r.missionID st = some m ∧ m.status = m₀.status ∧
    m.quests.map Quest.key = m₀.quests.map Quest.key

/-- An id of the board has a quest, then and now. -/
theorem exists_findQuest {m m₀ : Mission} (h : m.quests.map Quest.key = m₀.quests.map Quest.key)
    {q : Quest} (hq : q ∈ m₀.quests) : ∃ f, m.findQuest q.id = some f := by
  have hmem : Quest.key q ∈ m.quests.map Quest.key := by
    rw [h]
    exact List.mem_map_of_mem hq
  obtain ⟨p, hp, hkey⟩ := List.mem_map.1 hmem
  have hsome : (m.quests.find? fun p => p.id = q.id).isSome := by
    rw [List.find?_isSome]
    have hid : p.id = q.id := congrArg Prod.fst hkey
    exact ⟨p, hp, by simpa using hid⟩
  exact Option.isSome_iff_exists.1 hsome

theorem Rewrites.onBoard {r : Run} {x : GoString} {m m₀ : Mission} {f f' : Quest} {st st' : Store}
    (h : Rewrites r.missionID x m f' st st') (hf : m.findQuest x = some f) (hkey : SameKey f f')
    (hst : m.status = m₀.status) (hq : m.quests.map Quest.key = m₀.quests.map Quest.key) :
    OnBoard r m₀ st' := by
  obtain ⟨m', hm', hst', hqs⟩ := h.board
  refine ⟨m', hm', hst'.trans hst, ?_⟩
  rw [hqs, ← hq]
  exact map_updateFirst hf hkey.key_eq

/-- A step changes the quests of the board only, and not what the loop decides with. -/
theorem stepped_onBoard {r : Run} {m₀ : Mission} {s s' : Levels} {st st' : Store} {act : Act}
    (h : Stepped r s st act s' st') (hb : OnBoard r m₀ st)
    (hpending : ∀ id q, s.pending.lookup id = some q → q ∈ m₀.quests ∧ q.id = id)
    (htaken : ∀ q ∈ s.phase.quests, q ∈ m₀.quests) : OnBoard r m₀ st' := by
  obtain ⟨m, hm, hst, hq⟩ := hb
  have same : OnBoard r m₀ st := ⟨m, hm, hst, hq⟩
  cases h with
  | @doomed todo level id now q hp hid hl hr =>
    obtain ⟨f, hf⟩ := exists_findQuest hq (hpending id q hl).1
    exact (cancelQuest_rewrites _ _ hm hf).onBoard hf ⟨rfl, rfl, rfl⟩ hst hq
  | @drop id now hp hid =>
    obtain ⟨q, hl⟩ := Option.isSome_iff_exists.1 (AList.lookup_isSome.2 hid)
    obtain ⟨hq', rfl⟩ := hpending id q hl
    obtain ⟨f, hf⟩ := exists_findQuest hq hq'
    exact (cancelQuest_rewrites _ _ hm hf).onBoard hf ⟨rfl, rfl, rfl⟩ hst hq
  | @work workers k host q pc hp hk hsem =>
    have hw : q ∈ s.phase.quests := by
      rw [hp]
      exact List.mem_map_of_mem (f := Prod.fst) (List.mem_of_getElem? hk)
    obtain ⟨f, hf⟩ := exists_findQuest hq (htaken q hw)
    exact (step_solo pc hm hf).2.2.onBoard hf (solo_key ..) hst hq
  | _ => exact same

/-- On a board with distinct ids the scheduled entry is the quest that runs, so every step of every
run meets the condition. -/
theorem startsRequired_of_nodup {r : Run} {st : Store}
    (hnd : ∀ m, getMission r.missionID st = some m → (m.quests.map Quest.id).Nodup)
    (acts : List Act) :
    StepsMeet (step r) (StartsRequired r (Levels.start r st)) (Levels.start r st, st) acts := by
  cases hm₀ : getMission r.missionID st with
  | none =>
    have hret : (Levels.start r st).phase = .returned := by simp [Levels.start, hm₀]
    cases acts with
    | nil => trivial
    | cons act acts =>
      refine ⟨?_, fun p hp => ?_⟩
      · cases act with
        | work k h =>
          intro workers q attempt m f hp
          rw [hret] at hp
          exact nomatch hp
        | _ => trivial
      · simp [step, hret] at hp
  | some m₀ =>
    have hnd := hnd m₀ hm₀
    let s₀ := Levels.start r st
    have hentry : ∀ id q, s₀.pending.lookup id = some q → q ∈ m₀.quests ∧ q.id = id := by
      intro id q hq
      obtain ⟨m, hm, hmem, -, hid⟩ := start_lookup hq
      rw [hm₀] at hm
      cases hm
      exact ⟨hmem, hid⟩
    -- the condition is part of the invariant, since only it keeps the log sound
    have hmeet : ∀ p : Levels × Store, ∀ act,
        Sound (DoneAtStart r st) s₀ p.1 ∧ OnBoard r m₀ p.2 → StartsRequired r s₀ p act := by
      rintro ⟨s, st'⟩ act ⟨hs, m', hm', -, hkeys⟩
      cases act with
      | work k h =>
        intro workers q attempt m f hp hk hm hf d hd
        rw [hm'] at hm
        cases hm
        have htaken := hs.taken q (by
          rw [hp]
          exact List.mem_map_of_mem (f := Prod.fst) (List.mem_of_getElem? hk))
        have hq := (hentry _ q htaken.1).1
        have hmem : Quest.key f ∈ m₀.quests.map Quest.key := by
          rw [← hkeys]
          exact List.mem_map_of_mem (List.mem_of_find?_eq_some hf)
        obtain ⟨p, hp, hkey⟩ := List.mem_map.1 hmem
        have hid : p.id = q.id := (congrArg Prod.fst hkey).trans (findQuest_id hf)
        obtain rfl : p = q := List.inj_on_of_nodup_map hnd hp hq hid
        have hdeps : p.dependsOn = f.dependsOn := congrArg Prod.snd hkey
        exact .inr (.direct (by rw [hdeps]; exact hd))
      | _ => trivial
    refine stepsMeet_of_invariant
      (P := fun p : Levels × Store => Sound (DoneAtStart r st) s₀ p.1 ∧ OnBoard r m₀ p.2)
      ?_ hmeet acts ⟨sound_start r st, m₀, hm₀, rfl, rfl⟩
    rintro ⟨s, st₁⟩ act ⟨s', st₂⟩ ⟨hs, hb⟩ hstep
    refine ⟨sound_step hs (hmeet _ act ⟨hs, hb⟩) hstep, ?_⟩
    refine stepped_onBoard (step_cases hstep) hb (fun id q hq => hentry id q (hs.pending id q hq)) ?_
    exact fun q hq => (hentry _ q (hs.taken q hq).1).1

/-- A quest of the board that calls `sms.history`. -/
def boardQuest (id : GoString) (dependsOn : List GoString) : Quest where
  id := id
  title := id
  organHint := []
  tool := "sms.history"
  params := some []
  dependsOn := dependsOn
  status := .pending
  claim := []
  eta := 30
  result := none
  error := []
  reward := none

/-- A store with one active mission. -/
def boardStore (quests : List Quest) : Store where
  missions := AList.singleton (str "m1") ⟨"m1", "read", quests, .active, [], [], none, 0, 0⟩
  seq := 1

/-- A run of that mission. -/
def boardRun (approvalMode : Bool) : Run := ⟨"m1", "suparna_vpc", approvalMode⟩

/-- A host where tools with one permission succeed. -/
def boardHost (perm : Permission) : Host := ⟨0, fun _ _ => perm, some [], .ok .null, none⟩

/-- A run of the board, from its snapshot. -/
def runBoard (approvalMode : Bool) (quests : List Quest) (acts : List Act) :
    Option (Levels × Store) :=
  runSteps (step (boardRun approvalMode))
    (.start (boardRun approvalMode) (boardStore quests), boardStore quests) acts

/-- The steps that take the worker `k` to the end when its first attempt succeeds. -/
def workOff (k : Nat) (perm : Permission) : List Act := List.replicate 7 (.work k (boardHost perm))

theorem depsDone_chain :
    ∃ s st, runBoard false [boardQuest "q1" [], boardQuest "q2" [str "q1"]]
        ([.head false, .visit "q2" 0, .visit "q1" 0, .endScan] ++ workOff 0 .allow ++
          [.join, .head false, .visit "q2" 0, .endScan] ++ workOff 0 .allow) = some (s, st) ∧
      s.log.length = 4 ∧
      DepsDone (DoneAtStart (boardRun false)
        (boardStore [boardQuest "q1" [], boardQuest "q2" [str "q1"]])) s.log := by
  obtain ⟨⟨s, st⟩, hrun⟩ : ∃ p, runBoard false [boardQuest "q1" [], boardQuest "q2" [str "q1"]]
      ([.head false, .visit "q2" 0, .visit "q1" 0, .endScan] ++ workOff 0 .allow ++
        [.join, .head false, .visit "q2" 0, .endScan] ++ workOff 0 .allow) = some p := ⟨_, rfl⟩
  have hlog : (runBoard false [boardQuest "q1" [], boardQuest "q2" [str "q1"]]
      ([.head false, .visit "q2" 0, .visit "q1" 0, .endScan] ++ workOff 0 .allow ++
        [.join, .head false, .visit "q2" 0, .endScan] ++ workOff 0 .allow)).map
      (fun p => p.1.log.length) = some 4 := rfl
  refine ⟨s, st, hrun, ?_, depsDone_of_startsRequired hrun (startsRequired_of_nodup ?_ _)⟩
  · rw [hrun] at hlog
    exact Option.some.inj hlog
  · intro m hm
    cases hm
    decide

/-- The board lists `q1` twice. The entry of the snapshot is the second one, which needs nothing, and
the quest that runs is the first one, which needs `q2`. -/
theorem twin_starts_early :
    ∃ s st, runBoard false [boardQuest "q1" [str "q2"], boardQuest "q2" [], boardQuest "q1" []]
        ([.head false, .visit "q1" 0, .visit "q2" 0, .endScan] ++
          List.replicate 5 (.work 0 (boardHost .allow))) = some (s, st) ∧
      ¬ DepsDone (DoneAtStart (boardRun false)
        (boardStore [boardQuest "q1" [str "q2"], boardQuest "q2" [], boardQuest "q1" []])) s.log := by
  refine ⟨_, _, rfl, fun h => ?_⟩
  rcases h [] _ [] rfl (str "q2") (List.mem_singleton_self _) with ⟨m, hm, q, hq, hst, -⟩ | hc
  · cases hm
    simp only [List.mem_cons, List.not_mem_nil, or_false] at hq
    rcases hq with rfl | rfl | rfl <;> exact nomatch hst
  · exact nomatch hc

end Gafam.Orchestrator
