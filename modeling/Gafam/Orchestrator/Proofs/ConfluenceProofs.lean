import Gafam.Orchestrator.Fate
import Gafam.Orchestrator.Proofs.LevelsProofs

/-!
# The final board does not depend on the schedule

The goroutines of a level commute, since each of them works on its own quest, and which quests get
into a level is the same for every order in which a scan ranges over the pending map. What depends on
this order is whether a quest behind a failed one is cancelled in the same scan or left for the next
one, and there is no next one when the loop stops for a parked quest. A run that does not stop like
that leaves the board that the abstract model says.
-/

namespace Gafam.Orchestrator

open Gafam.Go Gafam.Lib Gafam.Moksa

/-! ## Boards that differ in first quests only -/

/-- The board is the one of `m₀`, but for the first quest of each id. -/
structure Variant (m₀ m : Mission) : Prop where
  status : m.status = m₀.status
  keys : m.quests.map Quest.key = m₀.quests.map Quest.key
  rest : ∀ (i : Nat) (q : Quest), m₀.quests[i]? = some q →
    i ≠ m₀.quests.findIdx (fun p => p.id = q.id) → m.quests[i]? = some q

theorem Variant.refl (m : Mission) : Variant m m := ⟨rfl, rfl, fun _ _ h _ => h⟩

theorem findQuest_eq_getElem? (m : Mission) (x : GoString) :
    m.findQuest x = m.quests[m.quests.findIdx (fun p => p.id = x)]? := by
  unfold Mission.findQuest
  induction m.quests with
  | nil => rfl
  | cons q qs ih =>
    by_cases hq : q.id = x
    · simp [hq, List.findIdx_cons]
    · simp [hq, List.findIdx_cons, ih]

/-- The first quest of an id stands in the same place. -/
theorem findIdx_of_keys {qs qs' : List Quest} (h : qs.map Quest.key = qs'.map Quest.key)
    (x : GoString) : qs.findIdx (fun p => p.id = x) = qs'.findIdx (fun p => p.id = x) := by
  have h1 := List.findIdx_map qs Quest.key (fun k => decide (k.1 = x))
  have h2 := List.findIdx_map qs' Quest.key (fun k => decide (k.1 = x))
  rw [h] at h1
  exact h1.symm.trans h2

theorem getElem?_of_keys {qs qs' : List Quest} (h : qs.map Quest.key = qs'.map Quest.key) {i : Nat}
    {q : Quest} (hq : qs[i]? = some q) : ∃ q', qs'[i]? = some q' ∧ q'.id = q.id := by
  have h1 : (qs.map Quest.key)[i]? = some q.key := by simp [hq]
  rw [h, List.getElem?_map] at h1
  obtain ⟨q', hq', hkey⟩ := Option.map_eq_some_iff.1 h1
  exact ⟨q', hq', congrArg Prod.fst hkey⟩

/-- Two variants of a board agree on a quest, or it is the first quest of its id in both. -/
theorem Variant.compare {m₀ m m' : Mission} (h : Variant m₀ m) (h' : Variant m₀ m') {i : Nat}
    {q : Quest} (hq : m.quests[i]? = some q) :
    m'.quests[i]? = some q ∨
      m.findQuest q.id = some q ∧ m'.quests[i]? = m'.findQuest q.id := by
  obtain ⟨q₀, hq₀, hid⟩ := getElem?_of_keys h.keys hq
  by_cases hi : i = m₀.quests.findIdx (fun p => p.id = q₀.id)
  · rw [hid] at hi
    right
    have hm : i = m.quests.findIdx (fun p => p.id = q.id) :=
      hi.trans (findIdx_of_keys h.keys q.id).symm
    have hm' : i = m'.quests.findIdx (fun p => p.id = q.id) :=
      hi.trans (findIdx_of_keys h'.keys q.id).symm
    rw [findQuest_eq_getElem?, findQuest_eq_getElem?, ← hm, ← hm']
    exact ⟨hq, rfl⟩
  · left
    have h1 := h.rest i q₀ hq₀ hi
    rw [hq] at h1
    cases h1
    exact h'.rest i q hq₀ hi

theorem Variant.findQuest {m₀ m : Mission} (h : Variant m₀ m) {x : GoString} {f : Quest}
    (hf : m₀.findQuest x = some f) : ∃ f', m.findQuest x = some f' := by
  rw [findQuest_eq_getElem?] at hf ⊢
  rw [findIdx_of_keys h.keys]
  obtain ⟨f', hf', -⟩ := getElem?_of_keys h.keys.symm hf
  exact ⟨f', hf'⟩

/-- Writing the first quest of an id makes a variant. -/
theorem Variant.rewrites {r : Run} {m₀ m : Mission} {x : GoString} {f f' : Quest} {st st' : Store}
    (h : Variant m₀ m) (hw : Rewrites r.missionID x m f' st st') (hf : m.findQuest x = some f)
    (hkey : SameKey f f') :
    ∃ m', getMission r.missionID st' = some m' ∧ Variant m₀ m' ∧ m'.findQuest x = some f' ∧
      ∀ y, y ≠ x → m'.findQuest y = m.findQuest y := by
  obtain ⟨m', hm', hst, hqs⟩ := hw.board
  have hid : f'.id = x := hkey.id.trans (findQuest_id hf)
  have hfind (y : GoString) : m'.findQuest y = (m.updateQuest x fun _ => f').findQuest y := by
    unfold Mission.findQuest
    rw [hqs]
    rfl
  refine ⟨m', hm', ⟨hst.trans h.status, ?_, ?_⟩, ?_, ?_⟩
  · rw [hqs, ← h.keys]
    exact map_updateFirst hf hkey.key_eq
  · intro i q hq hi
    rw [hqs, getElem?_updateFirst]
    split_ifs with hx
    · rw [findIdx_of_keys h.keys] at hx
      have hq₀ : m₀.findQuest x = some q := by
        rw [findQuest_eq_getElem?, ← hx]
        exact hq
      rw [findQuest_id hq₀] at hi
      exact absurd hx hi
    · exact h.rest i q hq hi
  · rw [hfind]
    exact findQuest_updateQuest_self hf hid
  · intro y hy
    rw [hfind]
    exact findQuest_updateQuest_ne hy hid

/-- The statuses of a board. -/
def statuses (r : Run) (st : Store) : Option (List QuestStatus) :=
  (getMission r.missionID st).map fun m => m.quests.map Quest.status

theorem statuses_eq_of_variant {m₀ m m' : Mission} (h : Variant m₀ m) (h' : Variant m₀ m')
    (hfirst : ∀ x f f', m.findQuest x = some f → m'.findQuest x = some f' → f'.status = f.status) :
    m.quests.map Quest.status = m'.quests.map Quest.status := by
  have hkeys := h.keys.trans h'.keys.symm
  apply List.ext_getElem?
  intro i
  rw [List.getElem?_map, List.getElem?_map]
  cases hq : m.quests[i]? with
  | none =>
    cases hq' : m'.quests[i]? with
    | none => rfl
    | some q' =>
      obtain ⟨q, hq1, -⟩ := getElem?_of_keys hkeys.symm hq'
      rw [hq] at hq1
      exact nomatch hq1
  | some q =>
    rcases h.compare h' hq with hq' | ⟨hf, hq'⟩
    · rw [hq']
    · obtain ⟨q', hq1, hid⟩ := getElem?_of_keys hkeys hq
      rw [hq1] at hq'
      rw [hq1, Option.map_some, Option.map_some, hfirst q.id q q' hf hq'.symm]

/-- Some quest of the board waits for a human. -/
def Waiting (m : Mission) : Prop := ∃ q ∈ m.quests, q.status = .waitingApproval

theorem hasWaiting_iff {r : Run} {st : Store} {m : Mission}
    (hm : getMission r.missionID st = some m) : hasWaiting r st = true ↔ Waiting m := by
  unfold hasWaiting Waiting
  rw [hm]
  simp

theorem Waiting.of_variant {m₀ m m' : Mission} (h : Variant m₀ m) (h' : Variant m₀ m')
    (hfirst : ∀ x f f', m.findQuest x = some f → m'.findQuest x = some f' →
      f.status = .waitingApproval → f'.status = .waitingApproval)
    (hw : Waiting m) : Waiting m' := by
  obtain ⟨q, hq, hst⟩ := hw
  obtain ⟨i, hi⟩ := List.getElem?_of_mem hq
  rcases h.compare h' hi with hq' | ⟨hf, hq'⟩
  · exact ⟨q, List.mem_of_getElem? hq', hst⟩
  · obtain ⟨q', hq1, -⟩ := getElem?_of_keys (h.keys.trans h'.keys.symm) hi
    rw [hq1] at hq'
    exact ⟨q', List.mem_of_getElem? hq1, hfirst q.id q q' hf hq'.symm hst⟩

/-! ## What the loop finds out about a quest -/

theorem readiness_doomed {done failed deps : List GoString}
    (h : readiness done failed deps = .doomed) :
    ∃ before b after, deps = before ++ b :: after ∧ (∀ d ∈ before, d ∈ done) ∧ b ∈ failed := by
  induction deps with
  | nil => cases h
  | cons dep deps ih =>
    unfold readiness at h
    split_ifs at h with hf hd
    · exact ⟨[], dep, deps, rfl, fun _ hd => absurd hd List.not_mem_nil, hf⟩
    · obtain ⟨before, b, after, rfl, hbefore, hb⟩ := ih h
      refine ⟨dep :: before, b, after, rfl, fun d hd' => ?_, hb⟩
      rcases List.mem_cons.1 hd' with rfl | hd'
      · exact hd
      · exact hbefore d hd'

theorem readiness_blocked {done failed deps : List GoString}
    (h : readiness done failed deps = .blocked) : ∃ d ∈ deps, d ∉ done := by
  induction deps with
  | nil => exact nomatch h
  | cons dep deps ih =>
    unfold readiness at h
    split_ifs at h with hf hd
    · obtain ⟨d, hd', hn⟩ := ih h
      exact ⟨d, List.mem_cons_of_mem _ hd', hn⟩
    · exact ⟨dep, List.mem_cons_self .., hd⟩

theorem readiness_of_split {done failed before after : List GoString} {b : GoString}
    (hbefore : ∀ d ∈ before, d ∈ done) (hb : b ∈ failed) :
    readiness done failed (before ++ b :: after) = .doomed := by
  induction before with
  | nil => simp [readiness, hb]
  | cons d before ih =>
    have hd := hbefore d (List.mem_cons_self ..)
    have := ih fun d hd => hbefore d (List.mem_cons_of_mem _ hd)
    rw [List.cons_append, readiness, this]
    simp [hd]

/-! ## Where a quest stands during a run -/

/-- What a step takes from outside is fixed, and the context is not cancelled. -/
def Fixed (env : Outcomes) : Levels × Store → Act → Prop
  | _, .head cancelled => cancelled = false
  | (s, _), .work k h =>
    ∀ ws q pc, s.phase = .level ws → ws[k]? = some (q, pc) → h = env q.id pc
  | _, _ => True

/-- The order of the scan shows nowhere: a scan visits no quest with a dependency that was done at the
start and has failed since, and the loop does not stop for a parked quest while a pending quest comes
to a failed dependency. -/
def OrderFree (r : Run) (s₀ : Levels) : Levels × Store → Act → Prop
  | (s, _), .visit id _ =>
    ∀ q, s.pending.lookup id = some q →
      ∀ d ∈ q.dependsOn, d ∈ s₀.done → d ∈ s.failed → d ∈ s₀.failed
  | (s, st), .endScan =>
    s.phase = .scan [] [] → hasWaiting r st = true →
      ∀ id q, s.pending.lookup id = some q → readiness s.done s.failed q.dependsOn ≠ .doomed
  | _, _ => True

/-- There is a goroutine for `q` and it stands at `pc`. -/
def At (s : Levels) (q : Quest) (pc : WorkerPc) : Prop := ∃ ws, s.phase = .level ws ∧ (q, pc) ∈ ws

theorem not_at {s : Levels} (h : ∀ ws, s.phase ≠ .level ws) (q : Quest) (pc : WorkerPc) :
    ¬ At s q pc := fun ⟨ws, hp, _⟩ => h ws hp

/-- Where the first quest with the id `x` stands. -/
inductive Standing (S : Setup) (s : Levels) (m : Mission) (x : GoString) : Prop
  /-- The run does not schedule the id. -/
  | untouched (hx : S.snapshot.pending.lookup x = none)
    (hf : m.findQuest x = S.board.findQuest x)
  | idle {q : Quest} (hq : s.pending.lookup x = some q) (hf : m.findQuest x = S.board.findQuest x)
  /-- Its goroutine has made `n` steps. -/
  | worked {q f : Quest} {n : Nat} (hs : S.Scheduled x q f) (hp : x ∉ s.pending) (hr : S.Runs x)
    (hf : m.findQuest x = some (soloRun S.run S.env S.board.status q f n).2)
    (hpc : ∀ pc, At s q pc → (soloRun S.run S.env S.board.status q f n).1 = pc)
    (hend : (∃ pc, At s q pc) ∨ (soloRun S.run S.env S.board.status q f n).1 = .finished)
    (hdone : ∀ k, k < n → soloReport S.run S.env S.board.status q f k = some (.completed x) →
      x ∈ s.done)
    (hfail : ∀ k, k < n → soloReport S.run S.env S.board.status q f k = some (.failed x) →
      x ∈ s.failed)
  /-- A scan has cancelled it. -/
  | scrapped {f : Quest} (hp : x ∉ s.pending) (hd : S.Doomed x) (hf : m.findQuest x = some f)
    (hst : f.status = .cancelled) (hfail : x ∈ s.failed)

/-- The state of a scan. -/
structure Scanning (S : Setup) (s : Levels) (todo : List GoString) (level : List Quest) : Prop where
  todo_nodup : todo.Nodup
  level_nodup : (level.map Quest.id).Nodup
  taken : ∀ q ∈ level, s.pending.lookup q.id = some q ∧ S.Runs q.id ∧ q.id ∉ todo
  visited : ∀ x q, s.pending.lookup x = some q → x ∉ todo → q ∉ level →
    ∃ d ∈ q.dependsOn, d ∉ s.done

/-- The state of a level. -/
structure Working (S : Setup) (s : Levels) (ws : List (Quest × WorkerPc)) : Prop where
  nodup : (ws.map fun w => w.1.id).Nodup
  entry : ∀ w ∈ ws, S.snapshot.pending.lookup w.1.id = some w.1 ∧ w.1.id ∉ s.pending ∧
    S.Runs w.1.id

/-- What holds as long as the loop goes on. -/
structure Live (S : Setup) (s : Levels) (st : Store) : Prop where
  board : ∃ m, getMission S.run.missionID st = some m ∧ Variant S.board m ∧ ∀ x, Standing S s m x
  pending : ∀ x q, s.pending.lookup x = some q → S.snapshot.pending.lookup x = some q
  done : ∀ x ∈ s.done, S.Finishes x
  failed : ∀ x ∈ s.failed, S.Fails x
  start : (∀ x ∈ S.snapshot.done, x ∈ s.done) ∧ ∀ x ∈ S.snapshot.failed, x ∈ s.failed
  scanning : ∀ todo level, s.phase = .scan todo level → Scanning S s todo level
  working : ∀ ws, s.phase = .level ws → Working S s ws

theorem snapshot_entry {S : Setup} {x : GoString} {q : Quest}
    (h : S.snapshot.pending.lookup x = some q) : q ∈ S.board.quests ∧ q.id = x := by
  rcases lookup_foldl_enter h with h | ⟨hq, -, hid⟩
  · exact nomatch h
  · exact ⟨hq, hid⟩

/-- A scheduled id has a quest on the board. -/
theorem exists_scheduled {S : Setup} {x : GoString} {q : Quest}
    (h : S.snapshot.pending.lookup x = some q) : ∃ f, S.Scheduled x q f := by
  obtain ⟨hmem, hid⟩ := snapshot_entry h
  obtain ⟨f, hf⟩ := exists_findQuest (m := S.board) rfl hmem
  rw [hid] at hf
  exact ⟨f, h, hf⟩

/-- The standing of an id survives a step that is not about it. -/
theorem Standing.mono {S : Setup} {s s' : Levels} {m m' : Mission} {x : GoString}
    (h : Standing S s m x) (hp : s'.pending.lookup x = s.pending.lookup x)
    (hf : m'.findQuest x = m.findQuest x) (hdone : x ∈ s.done → x ∈ s'.done)
    (hfail : x ∈ s.failed → x ∈ s'.failed)
    (hat : ∀ q pc, q.id = x → (At s' q pc ↔ At s q pc)) : Standing S s' m' x := by
  have hmem : x ∉ s.pending → x ∉ s'.pending := by
    intro hx
    rw [← AList.lookup_eq_none] at hx ⊢
    rw [hp, hx]
  cases h with
  | untouched hx hf' => exact .untouched hx (hf.trans hf')
  | idle hq hf' => exact .idle (hp.trans hq) (hf.trans hf')
  | @worked q f n hs hp' hr hf' hpc hend hdone' hfail' =>
    have hid : q.id = x := (snapshot_entry hs.1).2
    refine .worked hs (hmem hp') hr (hf.trans hf') ?_ ?_ ?_ ?_
    · exact fun pc h => hpc pc ((hat q pc hid).1 h)
    · exact hend.imp_left fun ⟨pc, h⟩ => ⟨pc, (hat q pc hid).2 h⟩
    · exact fun k hk h => hdone (hdone' k hk h)
    · exact fun k hk h => hfail (hfail' k hk h)
  | scrapped hp' hd hf' hst hfail' => exact .scrapped (hmem hp') hd (hf.trans hf') hst (hfail hfail')

/-- A step from a phase without goroutines to another that leaves the variables alone. -/
theorem Live.quiet {S : Setup} {s s' : Levels} {st : Store} (h : Live S s st)
    (hp : s'.pending = s.pending) (hd : s'.done = s.done) (hf : s'.failed = s.failed)
    (hs : ∀ ws, s.phase ≠ .level ws) (hs' : ∀ ws, s'.phase ≠ .level ws)
    (hscan : ∀ todo level, s'.phase = .scan todo level → Scanning S s' todo level) :
    Live S s' st where
  board := by
    obtain ⟨m, hm, hv, hx⟩ := h.board
    refine ⟨m, hm, hv, fun x => (hx x).mono (by rw [hp]) rfl (by rw [hd]; exact id)
      (by rw [hf]; exact id) fun q pc _ => ?_⟩
    exact iff_of_false (not_at hs' q pc) (not_at hs q pc)
  pending := by rw [hp]; exact h.pending
  done := by rw [hd]; exact h.done
  failed := by rw [hf]; exact h.failed
  start := by rw [hd, hf]; exact h.start
  scanning := hscan
  working ws hw := absurd hw (hs' ws)

/-! ## The steps of the loop -/

/-- A scan begins with every pending quest to visit. -/
theorem live_scan {S : Setup} {s : Levels} {st : Store} (h : Live S s st) (hp : s.phase = .head) :
    Live S { s with phase := .scan s.pending.keys [] } st := by
  refine h.quiet rfl rfl rfl (fun ws hw => ?_) (fun ws hw => nomatch hw) fun todo level he => ?_
  · rw [hp] at hw
    exact nomatch hw
  · cases he
    refine ⟨s.pending.keys_nodup, List.nodup_nil, fun _ h => (nomatch h), fun x q hq hx => ?_⟩
    have hmem : x ∈ s.pending := AList.lookup_isSome.1 (by rw [hq]; rfl)
    exact absurd (AList.mem_keys.1 hmem) hx

theorem live_ready {S : Setup} {s : Levels} {st : Store} {todo : List GoString} {level : List Quest}
    {id : GoString} {q : Quest} (h : Live S s st) (hp : s.phase = .scan todo level)
    (hid : id ∈ todo) (hq : s.pending.lookup id = some q)
    (hr : readiness s.done s.failed q.dependsOn = .ready) :
    Live S { s with phase := .scan (todo.erase q.id) (level ++ [q]) } st := by
  obtain rfl : q.id = id := (snapshot_entry (h.pending id q hq)).2
  have hs := h.scanning todo level hp
  refine h.quiet rfl rfl rfl (fun ws hw => ?_) (fun ws hw => nomatch hw) fun todo' level' he => ?_
  · rw [hp] at hw
    exact nomatch hw
  · cases he
    have hruns : S.Runs q.id := by
      refine ⟨q, h.pending q.id q hq, fun d hd => ?_⟩
      obtain ⟨hdone, hfail⟩ := readiness_ready hr d hd
      exact ⟨fun h0 => hfail (h.start.2 d h0), h.done d hdone⟩
    have hnew : ∀ p ∈ level, p.id ≠ q.id := fun p hp' heq =>
      (hs.taken p hp').2.2 (by rw [heq]; exact hid)
    refine ⟨hs.todo_nodup.erase _, ?_, ?_, ?_⟩
    · rw [List.map_append, List.nodup_append]
      refine ⟨hs.level_nodup, by simp, fun a ha b hb => ?_⟩
      obtain ⟨p, hp', rfl⟩ := List.mem_map.1 ha
      obtain rfl : b = q.id := by simpa using hb
      exact hnew p hp'
    · intro p hp'
      rcases List.mem_append.1 hp' with hp' | hp'
      · obtain ⟨h1, h2, h3⟩ := hs.taken p hp'
        exact ⟨h1, h2, fun hmem => h3 (List.mem_of_mem_erase hmem)⟩
      · obtain rfl : p = q := by simpa using hp'
        exact ⟨hq, hruns, hs.todo_nodup.not_mem_erase⟩
    · intro x p hx hnot hlevel
      have hne : x ≠ q.id := by
        rintro rfl
        have hpq : some q = some p := hq.symm.trans hx
        cases hpq
        exact hlevel (List.mem_append_right _ (List.mem_singleton_self _))
      exact hs.visited x p hx (fun hmem => hnot ((List.mem_erase_of_ne hne).2 hmem))
        fun hmem => hlevel (List.mem_append_left _ hmem)

theorem live_blocked {S : Setup} {s : Levels} {st : Store} {todo : List GoString}
    {level : List Quest} {id : GoString} {q : Quest} (h : Live S s st)
    (hp : s.phase = .scan todo level) (hq : s.pending.lookup id = some q)
    (hr : readiness s.done s.failed q.dependsOn = .blocked) :
    Live S { s with phase := .scan (todo.erase q.id) level } st := by
  obtain rfl : q.id = id := (snapshot_entry (h.pending id q hq)).2
  have hs := h.scanning todo level hp
  refine h.quiet rfl rfl rfl (fun ws hw => ?_) (fun ws hw => nomatch hw) fun todo' level' he => ?_
  · rw [hp] at hw
    exact nomatch hw
  · cases he
    refine ⟨hs.todo_nodup.erase _, hs.level_nodup, ?_, ?_⟩
    · intro p hp'
      obtain ⟨h1, h2, h3⟩ := hs.taken p hp'
      exact ⟨h1, h2, fun hmem => h3 (List.mem_of_mem_erase hmem)⟩
    · intro x p hx hnot hlevel
      by_cases hne : x = q.id
      · subst hne
        have hpq : some q = some p := hq.symm.trans hx
        cases hpq
        exact readiness_blocked hr
      · exact hs.visited x p hx (fun hmem => hnot ((List.mem_erase_of_ne hne).2 hmem)) hlevel

/-- A quest that everything lets run comes to no failed dependency. -/
theorem Live.not_runs {S : Setup} {s : Levels} {st : Store} (h : Live S s st) {x b : GoString}
    {q : Quest} (hq : S.snapshot.pending.lookup x = some q) (hb : b ∈ q.dependsOn)
    (hfail : b ∈ s.failed) (hstart : b ∈ S.snapshot.done → b ∈ S.snapshot.failed) : ¬ S.Runs x := by
  rintro ⟨q', hq', hdeps⟩
  have hqq : some q' = some q := hq'.symm.trans hq
  cases hqq
  obtain ⟨hn, hfin⟩ := hdeps b hb
  rcases hfin.cases with h0 | ⟨hr, hc⟩
  · exact hn (hstart h0)
  · exact hn ((h.failed b hfail).not_completed hr hc)

theorem live_doomed {S : Setup} {s : Levels} {st : Store} {todo : List GoString}
    {level : List Quest} {id : GoString} {q : Quest} {now : Nat} {reason : GoString}
    (h : Live S s st) (hp : s.phase = .scan todo level) (hid : id ∈ todo)
    (hq : s.pending.lookup id = some q) (hr : readiness s.done s.failed q.dependsOn = .doomed)
    (horder : ∀ d ∈ q.dependsOn, d ∈ S.snapshot.done → d ∈ s.failed → d ∈ S.snapshot.failed) :
    Live S
      { s with
        pending := s.pending.erase q.id
        failed := s.failed ++ [q.id]
        phase := .scan (todo.erase q.id) level }
      (cancelQuest S.run now q.id reason st) := by
  have hentry := h.pending id q hq
  obtain rfl : q.id = id := (snapshot_entry hentry).2
  have hs := h.scanning todo level hp
  obtain ⟨before, b, after, hdeps, hbefore, hb⟩ := readiness_doomed hr
  have hbmem : b ∈ q.dependsOn := by rw [hdeps]; simp
  have hn : ¬ S.Runs q.id := h.not_runs hentry hbmem hb fun h0 => horder b hbmem h0 hb
  have hdoomed : S.Doomed q.id :=
    ⟨hn, q, before, b, after, hentry, hdeps, fun d hd => h.done d (hbefore d hd), h.failed b hb⟩
  obtain ⟨m, hm, hv, hx⟩ := h.board
  obtain ⟨f₀, hsch⟩ := exists_scheduled hentry
  obtain ⟨f, hf⟩ := hv.findQuest hsch.2
  obtain ⟨m', hm', hv', hf', hother⟩ :=
    hv.rewrites (cancelQuest_rewrites now reason hm hf) hf ⟨rfl, rfl, rfl⟩
  refine ⟨⟨m', hm', hv', fun x => ?_⟩, ?_, h.done, ?_, ?_, ?_, fun ws hw => nomatch hw⟩
  · by_cases hne : x = q.id
    · subst hne
      refine .scrapped ?_ hdoomed hf' rfl (List.mem_append_right _ (List.mem_singleton_self _))
      exact AList.lookup_eq_none.1 (AList.lookup_erase _ _)
    · refine (hx x).mono (AList.lookup_erase_ne hne) (hother x hne) (fun h => h)
        (fun h => List.mem_append_left _ h) fun p pc _ => ?_
      refine iff_of_false (fun ⟨ws, hw, _⟩ => (nomatch hw)) fun ⟨ws, hw, _⟩ => ?_
      rw [hp] at hw
      exact nomatch hw
  · exact fun x p hp' => h.pending x p (lookup_erase_some hp')
  · intro x hx'
    rcases List.mem_append.1 hx' with hx' | hx'
    · exact h.failed x hx'
    · obtain rfl : x = q.id := by simpa using hx'
      exact hdoomed.fails
  · exact ⟨h.start.1, fun x h0 => List.mem_append_left _ (h.start.2 x h0)⟩
  · intro todo' level' he
    cases he
    refine ⟨hs.todo_nodup.erase _, hs.level_nodup, ?_, ?_⟩
    · intro p hp'
      obtain ⟨h1, h2, h3⟩ := hs.taken p hp'
      have hne : p.id ≠ q.id := fun heq => h3 (by rw [heq]; exact hid)
      exact ⟨(AList.lookup_erase_ne hne).trans h1, h2, fun hmem => h3 (List.mem_of_mem_erase hmem)⟩
    · intro x p hx' hnot hlevel
      have hne : x ≠ q.id := by
        rintro rfl
        rw [AList.lookup_erase] at hx'
        exact nomatch hx'
      exact hs.visited x p (lookup_erase_some hx')
        (fun hmem => hnot ((List.mem_erase_of_ne hne).2 hmem)) hlevel

/-- What is left of the pending quests when a level starts. -/
theorem lookup_foldl_erase_of_mem {level : List Quest} {p : AList fun _ : GoString => Quest}
    {x : GoString} (hx : x ∈ level.map Quest.id) :
    (level.foldl (fun p q => p.erase q.id) p).lookup x = none := by
  induction level generalizing p with
  | nil => exact nomatch hx
  | cons q level ih =>
    by_cases hl : x ∈ level.map Quest.id
    · exact ih hl
    · have hq : x = q.id := by simpa [hl] using hx
      cases hlook : ((q :: level).foldl (fun p q => p.erase q.id) p).lookup x with
      | none => rfl
      | some f =>
        have h := lookup_foldl_erase (p := p.erase q.id) hlook
        rw [hq, AList.lookup_erase] at h
        exact nomatch h

theorem lookup_foldl_erase_of_not_mem {level : List Quest} {p : AList fun _ : GoString => Quest}
    {x : GoString} (hx : x ∉ level.map Quest.id) :
    (level.foldl (fun p q => p.erase q.id) p).lookup x = p.lookup x := by
  induction level generalizing p with
  | nil => rfl
  | cons q level ih =>
    rw [List.map_cons, List.mem_cons, not_or] at hx
    exact (ih hx.2).trans (AList.lookup_erase_ne hx.1)

theorem live_launch {S : Setup} {s : Levels} {st : Store} {level : List Quest} (h : Live S s st)
    (hp : s.phase = .scan [] level) :
    Live S
      { s with
        pending := level.foldl (fun p q => p.erase q.id) s.pending
        phase := .level (level.map fun q => (q, .queued)) } st := by
  have hs := h.scanning [] level hp
  obtain ⟨m, hm, hv, hx⟩ := h.board
  have hnot : ∀ q pc, ¬ At s q pc := by
    refine not_at fun ws hw => ?_
    rw [hp] at hw
    exact nomatch hw
  have hat : ∀ {q : Quest} {pc : WorkerPc}, At
      { s with
        pending := level.foldl (fun p q => p.erase q.id) s.pending
        phase := .level (level.map fun q => (q, .queued)) } q pc ↔ q ∈ level ∧ pc = .queued := by
    intro q pc
    constructor
    · rintro ⟨ws, hw, hmem⟩
      cases hw
      obtain ⟨p, hp', he⟩ := List.mem_map.1 hmem
      cases he
      exact ⟨hp', rfl⟩
    · rintro ⟨hq, rfl⟩
      exact ⟨_, rfl, List.mem_map_of_mem hq⟩
  refine ⟨⟨m, hm, hv, fun x => ?_⟩, ?_, h.done, h.failed, h.start, fun _ _ hw => (nomatch hw), ?_⟩
  · by_cases hl : x ∈ level.map Quest.id
    · obtain ⟨q, hq, rfl⟩ := List.mem_map.1 hl
      obtain ⟨hlook, hruns, -⟩ := hs.taken q hq
      obtain ⟨f, hsch⟩ := exists_scheduled (h.pending q.id q hlook)
      have hfirst : m.findQuest q.id = S.board.findQuest q.id := by
        cases hx q.id with
        | untouched hx' hf => exact hf
        | idle hq' hf => exact hf
        | worked hs' hp' =>
          exact absurd (AList.lookup_isSome.1 (by rw [hlook]; rfl)) hp'
        | scrapped hp' =>
          exact absurd (AList.lookup_isSome.1 (by rw [hlook]; rfl)) hp'
      refine .worked (n := 0) hsch ?_ hruns (hfirst.trans hsch.2) ?_ ?_ ?_ ?_
      · exact AList.lookup_eq_none.1 (lookup_foldl_erase_of_mem hl)
      · exact fun pc hpc => (hat.1 hpc).2.symm
      · exact .inl ⟨.queued, hat.2 ⟨hq, rfl⟩⟩
      · exact fun k hk => absurd hk (Nat.not_lt_zero k)
      · exact fun k hk => absurd hk (Nat.not_lt_zero k)
    · refine (hx x).mono (lookup_foldl_erase_of_not_mem hl) rfl (fun h => h) (fun h => h)
        fun q pc hid => iff_of_false (fun h => ?_) (hnot q pc)
      exact hl (hid ▸ List.mem_map_of_mem (hat.1 h).1)
  · exact fun x q hq => h.pending x q (lookup_foldl_erase hq)
  · intro ws hw
    cases hw
    constructor
    · rw [List.map_map]
      exact hs.level_nodup
    · intro w hw
      obtain ⟨q, hq, rfl⟩ := List.mem_map.1 hw
      obtain ⟨hlook, hruns, -⟩ := hs.taken q hq
      refine ⟨h.pending q.id q hlook, ?_, hruns⟩
      exact AList.lookup_eq_none.1 (lookup_foldl_erase_of_mem (List.mem_map_of_mem hq))

/-- When the goroutines of a level have ended, the loop goes on. -/
theorem live_join {S : Setup} {s : Levels} {st : Store} {ws : List (Quest × WorkerPc)}
    (h : Live S s st) (hp : s.phase = .level ws) (hend : ∀ w ∈ ws, w.2 = .finished) :
    Live S { s with phase := .head } st := by
  obtain ⟨m, hm, hv, hx⟩ := h.board
  have hnot := not_at (s := { s with phase := .head }) fun ws hw => nomatch hw
  refine ⟨⟨m, hm, hv, fun x => ?_⟩, h.pending, h.done, h.failed, h.start,
    fun _ _ hw => (nomatch hw), fun _ hw => (nomatch hw)⟩
  cases hx x with
  | untouched hx' hf => exact .untouched hx' hf
  | idle hq hf => exact .idle hq hf
  | @worked q f n hs hp' hr hf hpc hend' hdone hfail =>
    refine .worked hs hp' hr hf (fun pc hat => absurd hat (hnot q pc)) (.inr ?_) hdone hfail
    rcases hend' with ⟨pc, hat⟩ | hfin
    · obtain ⟨ws', hw, hmem⟩ := hat
      have hws : ws' = ws := by
        rw [hp] at hw
        cases hw
        rfl
      subst hws
      have hfin : pc = .finished := hend (q, pc) hmem
      rw [← hfin]
      exact hpc pc ⟨ws', hw, hmem⟩
    · exact hfin
  | scrapped hp' hd hf hst hfail => exact .scrapped hp' hd hf hst hfail

/-- What a report leaves in the variables. -/
theorem record_spec (s : Levels) (e : Option Event) :
    (s.record e).pending = s.pending ∧
      (∀ x, x ∈ (s.record e).done ↔ x ∈ s.done ∨ e = some (.completed x)) ∧
      ∀ x, x ∈ (s.record e).failed ↔ x ∈ s.failed ∨ e = some (.failed x) := by
  unfold Levels.record
  rcases e with _ | (_ | _ | _ | _) <;> simp [eq_comm]

/-- The ids of the goroutines do not change. -/
theorem map_set_worker {ws : List (Quest × WorkerPc)} {k : Nat} {q : Quest} {pc : WorkerPc}
    (hk : ws[k]? = some (q, pc)) (pc' : WorkerPc) :
    (ws.set k (q, pc')).map (fun w => w.1.id) = ws.map fun w => w.1.id := by
  apply List.ext_getElem?
  intro i
  rw [List.getElem?_map, List.getElem?_map, List.getElem?_set]
  split_ifs with hi hlt
  · subst hi
    rw [hk]
    rfl
  · subst hi
    rw [List.getElem?_eq_none (Nat.not_lt.1 hlt)] at hk
    exact nomatch hk
  · rfl

/-- A goroutine of a level is where the abstract model has it. -/
theorem Live.worker {S : Setup} {s : Levels} {m : Mission} {q : Quest} {pc : WorkerPc}
    (hx : Standing S s m q.id) (hat : At s q pc)
    (hentry : S.snapshot.pending.lookup q.id = some q) (hnp : q.id ∉ s.pending)
    (hruns : S.Runs q.id) :
    ∃ f n, S.Scheduled q.id q f ∧
      m.findQuest q.id = some (soloRun S.run S.env S.board.status q f n).2 ∧
      (soloRun S.run S.env S.board.status q f n).1 = pc ∧
      (∀ k, k < n → soloReport S.run S.env S.board.status q f k = some (.completed q.id) →
        q.id ∈ s.done) ∧
      ∀ k, k < n → soloReport S.run S.env S.board.status q f k = some (.failed q.id) →
        q.id ∈ s.failed := by
  cases hx with
  | untouched hx' => exact absurd (hx'.symm.trans hentry) (by simp)
  | idle hq => exact absurd (AList.lookup_isSome.1 (by rw [hq]; rfl)) hnp
  | @worked q' f n hs _ _ hf hpc _ hdone hfail =>
    have hqq : some q' = some q := hs.1.symm.trans hentry
    cases hqq
    exact ⟨f, n, hs, hf, hpc pc hat, hdone, hfail⟩
  | scrapped _ hd => exact absurd hruns hd.1

/-- The other goroutines stay where they are. -/
theorem at_set {s : Levels} {ws : List (Quest × WorkerPc)} {k : Nat} {q p : Quest}
    {pc pc' pc'' : WorkerPc} (hp : s.phase = .level ws) (hk : ws[k]? = some (q, pc))
    (hne : p ≠ q) (t : Levels) :
    At { t with phase := .level (ws.set k (q, pc')) } p pc'' ↔ At s p pc'' := by
  have hpq (c : WorkerPc) : (p, pc'') ≠ (q, c) := fun heq => hne (congrArg Prod.fst heq)
  constructor
  · rintro ⟨ws', hw, hmem⟩
    cases hw
    exact ⟨ws, hp, (List.mem_or_eq_of_mem_set hmem).resolve_right (hpq pc')⟩
  · rintro ⟨ws', hw, hmem⟩
    rw [hp] at hw
    cases hw
    refine ⟨_, rfl, ?_⟩
    obtain ⟨i, hi⟩ := List.getElem?_of_mem hmem
    have hik : k ≠ i := by
      rintro rfl
      rw [hk] at hi
      exact hpq pc (Option.some.inj hi).symm
    exact List.mem_of_getElem? ((List.getElem?_set_ne hik).trans hi)

theorem live_work {S : Setup} {s : Levels} {st : Store} {ws : List (Quest × WorkerPc)} {k : Nat}
    {q : Quest} {pc : WorkerPc} (h : Live S s st) (hp : s.phase = .level ws)
    (hk : ws[k]? = some (q, pc)) :
    Live S
      { s.record (pc.step S.run (S.env q.id pc) q st).2.2 with
        phase := .level (ws.set k (q, (pc.step S.run (S.env q.id pc) q st).1)) }
      (pc.step S.run (S.env q.id pc) q st).2.1 := by
  have hw := h.working ws hp
  have hmem : (q, pc) ∈ ws := List.mem_of_getElem? hk
  have hklt : k < ws.length := (List.getElem?_eq_some_iff.1 hk).1
  obtain ⟨hentry, hnp, hruns⟩ : S.snapshot.pending.lookup q.id = some q ∧ q.id ∉ s.pending ∧
    S.Runs q.id := hw.entry _ hmem
  obtain ⟨m, hm, hv, hx⟩ := h.board
  obtain ⟨f, n, hsch, hf, hpc, hdone, hfail⟩ :=
    Live.worker (hx q.id) ⟨ws, hp, hmem⟩ hentry hnp hruns
  obtain ⟨hnext, hreport⟩ := soloRun_next hpc
  obtain ⟨hpc', he, hrw⟩ := step_solo (h := S.env q.id pc) pc hm hf
  rw [hv.status] at hpc' he hrw
  obtain ⟨m', hm', hv', hf', hother⟩ := hv.rewrites hrw hf (solo_key ..)
  obtain ⟨hrp, hrd, hrf⟩ := record_spec s (pc.step S.run (S.env q.id pc) q st).2.2
  have hevent {e : Event} (he : (pc.step S.run (S.env q.id pc) q st).2.2 = some e) := step_event he
  generalize pc.step S.run (S.env q.id pc) q st = next at *
  obtain ⟨pcn, stn, e⟩ := next
  dsimp only at hpc' he hrw hm' hrp hrd hrf hevent ⊢
  rw [← hpc'] at hnext
  rw [← he] at hreport
  have hids := map_set_worker hk pcn
  have hnd : ((ws.set k (q, pcn)).map fun w => w.1.id).Nodup := by rw [hids]; exact hw.nodup
  have hset : (q, pcn) ∈ ws.set k (q, pcn) := List.mem_set hklt _
  refine ⟨⟨m', hm', hv', fun x => ?_⟩, ?_, ?_, ?_, ?_, fun _ _ hw => (nomatch hw), ?_⟩
  · by_cases hne : x = q.id
    · subst hne
      refine .worked (n := n + 1) hsch ?_ hruns ?_ ?_ ?_ ?_ ?_
      · show q.id ∉ (s.record e).pending
        rw [hrp]
        exact hnp
      · rw [hf', hnext]
      · rintro pc'' ⟨ws', hw', hmem'⟩
        cases hw'
        have heq := List.inj_on_of_nodup_map hnd hset hmem' rfl
        rw [hnext]
        exact congrArg Prod.snd heq
      · exact .inl ⟨pcn, ws.set k (q, pcn), rfl, hset⟩
      · intro j hj hje
        rcases Nat.lt_succ_iff_lt_or_eq.1 hj with hj | rfl
        · exact (hrd q.id).2 (.inl (hdone j hj hje))
        · exact (hrd q.id).2 (.inr (hreport.symm.trans hje))
      · intro j hj hje
        rcases Nat.lt_succ_iff_lt_or_eq.1 hj with hj | rfl
        · exact (hrf q.id).2 (.inl (hfail j hj hje))
        · exact (hrf q.id).2 (.inr (hreport.symm.trans hje))
    · refine (hx x).mono ?_ (hother x hne) (fun h => (hrd x).2 (.inl h))
        (fun h => (hrf x).2 (.inl h)) fun p pc'' hid => ?_
      · show (s.record e).pending.lookup x = s.pending.lookup x
        rw [hrp]
      · exact at_set hp hk (fun heq => hne (by rw [← hid, heq])) _
  · intro x p hp'
    refine h.pending x p ?_
    rw [← hrp]
    exact hp'
  · intro x hx'
    rcases (hrd x).1 hx' with hx' | rfl
    · exact h.done x hx'
    · rcases hevent rfl with ⟨_, _, _, _, _, _, h'⟩ | h' | h' | ⟨h', -⟩
      · exact nomatch h'
      · cases h'
        exact Setup.finishes_of_runs hruns ⟨q, f, n, hsch, hreport⟩
      · exact nomatch h'
      · exact nomatch h'
  · intro x hx'
    rcases (hrf x).1 hx' with hx' | rfl
    · exact h.failed x hx'
    · rcases hevent rfl with ⟨_, _, _, _, _, _, h'⟩ | h' | h' | ⟨h', -⟩
      · exact nomatch h'
      · exact nomatch h'
      · cases h'
        exact .run hruns ⟨q, f, n, hsch, hreport⟩
      · exact nomatch h'
  · exact ⟨fun x h0 => (hrd x).2 (.inl (h.start.1 x h0)),
      fun x h0 => (hrf x).2 (.inl (h.start.2 x h0))⟩
  · intro ws' hw'
    cases hw'
    refine ⟨hnd, fun w hwm => ?_⟩
    show _ ∧ w.1.id ∉ (s.record e).pending ∧ _
    rw [hrp]
    rcases List.mem_or_eq_of_mem_set hwm with hwm | rfl
    · exact hw.entry w hwm
    · exact ⟨hentry, hnp, hruns⟩

/-! ## The end of a run -/

/-- The quests that run are as their goroutines leave them. -/
def RunsDone (S : Setup) (m : Mission) : Prop :=
  ∀ x, S.Runs x → ∃ f, m.findQuest x = some f ∧ S.Leaves x f

/-- Of the quests that do not run, those with the property are cancelled, and the others are as they
were. -/
def Rest (S : Setup) (m : Mission) (P : GoString → Prop) : Prop :=
  ∀ x, ¬ S.Runs x → ¬ P x ∧ m.findQuest x = S.board.findQuest x ∨
    P x ∧ ∃ f, m.findQuest x = some f ∧ f.status = .cancelled

/-- The id is in the snapshot. -/
def Listed (S : Setup) (x : GoString) : Prop := ∃ q, S.snapshot.pending.lookup x = some q

/-- The board when there is nothing more to run. -/
structure Halted (S : Setup) (m : Mission) : Prop where
  board : Variant S.board m
  runs : RunsDone S m
  rest : ∀ x, ¬ S.Runs x → m.findQuest x = S.board.findQuest x ∨
    S.Doomed x ∧ ∃ f, m.findQuest x = some f ∧ f.status = .cancelled

/-- The three ways in which the loop ends. -/
inductive Exit (S : Setup) (m : Mission) : Prop
  | stopped (hp : Rest S m S.Doomed) (hd : Rest S m (Listed S))
  | paused (hp : Rest S m S.Doomed) (hw : Waiting m)
  | dropped {m₁ : Mission} (h₁ : Halted S m₁) (hw : ¬ Waiting m₁) (hd : Rest S m (Listed S))

theorem listed_of_runs {S : Setup} {x : GoString} (h : S.Runs x) : Listed S x :=
  h.imp fun _ h => h.1

theorem listed_of_doomed {S : Setup} {x : GoString} (h : S.Doomed x) : Listed S x := by
  obtain ⟨-, q, -, -, -, hq, -⟩ := h
  exact ⟨q, hq⟩

/-- A goroutine that has run to its end leaves its quest as the abstract model says, and its report
is in the variables. -/
theorem Standing.ended {S : Setup} {s : Levels} {m : Mission} {x : GoString}
    (h : Standing S s m x) (hat : ∀ q pc, ¬ At s q pc) (hr : S.Runs x) (hp : x ∉ s.pending) :
    (∃ f, m.findQuest x = some f ∧ S.Leaves x f) ∧
      (S.Reports x (.completed x) → x ∈ s.done) ∧ (S.Reports x (.failed x) → x ∈ s.failed) := by
  cases h with
  | untouched hx =>
    obtain ⟨q, hq⟩ := listed_of_runs hr
    exact absurd (hx.symm.trans hq) (by simp)
  | idle hq => exact absurd (AList.lookup_isSome.1 (by rw [hq]; rfl)) hp
  | scrapped _ hd => exact absurd hr hd.1
  | @worked q f n hs _ _ hf hpc hend hdone hfail =>
    have hfin : (soloRun S.run S.env S.board.status q f n).1 = .finished :=
      hend.resolve_left fun ⟨pc, h⟩ => hat q pc h
    -- nothing is reported after the end
    have hlt {e : Event} (he : S.Reports x e) :
        ∃ k, k < n ∧ soloReport S.run S.env S.board.status q f k = some e := by
      obtain ⟨q', f', k, hs', hk⟩ := he
      obtain ⟨rfl, rfl⟩ := Setup.scheduled_unique hs hs'
      refine ⟨k, Nat.lt_of_not_le fun hle => ?_, hk⟩
      have hpck : (soloRun S.run S.env S.board.status q' f' k).1 = .finished := by
        rw [soloRun_of_finished hfin hle, hfin]
      rw [(soloRun_succ_of_finished hpck).2] at hk
      exact nomatch hk
    refine ⟨⟨_, hf, q, f, n, hs, Prod.ext hfin rfl⟩, fun he => ?_, fun he => ?_⟩
    · obtain ⟨k, hk, he⟩ := hlt he
      exact hdone k hk he
    · obtain ⟨k, hk, he⟩ := hlt he
      exact hfail k hk he

/-- A quest that is not run is where it was, or a scan has cancelled it. -/
theorem Standing.not_run {S : Setup} {s : Levels} {m : Mission} {x : GoString}
    (h : Standing S s m x) (hr : ¬ S.Runs x) :
    m.findQuest x = S.board.findQuest x ∧ (Listed S x → x ∈ s.pending) ∨
      S.Doomed x ∧ x ∈ s.failed ∧ x ∉ s.pending ∧
        ∃ f, m.findQuest x = some f ∧ f.status = .cancelled := by
  cases h with
  | untouched hx hf =>
    refine .inl ⟨hf, fun ⟨q, hq⟩ => ?_⟩
    rw [hx] at hq
    exact nomatch hq
  | idle hq hf => exact .inl ⟨hf, fun _ => AList.lookup_isSome.1 (by rw [hq]; rfl)⟩
  | worked _ _ hr' => exact absurd hr' hr
  | scrapped hp hd hf hst hfail => exact .inr ⟨hd, hfail, hp, _, hf, hst⟩

theorem Live.lookup_pending {S : Setup} {s : Levels} {st : Store} (h : Live S s st) {x : GoString}
    {q : Quest} (hx : x ∈ s.pending) (hq : S.snapshot.pending.lookup x = some q) :
    s.pending.lookup x = some q := by
  obtain ⟨p, hp⟩ := Option.isSome_iff_exists.1 (AList.lookup_isSome.2 hx)
  rw [hp]
  exact (h.pending x p hp).symm.trans hq

/-- When a scan has found nothing to run, what is going to finish has finished. -/
theorem Live.done_of_finishes {S : Setup} {s : Levels} {st : Store} (h : Live S s st)
    (hp : s.phase = .scan [] []) {x : GoString} (hx : S.Finishes x) : x ∈ s.done := by
  have hs := h.scanning [] [] hp
  obtain ⟨m, -, -, hstand⟩ := h.board
  have hat : ∀ q pc, ¬ At s q pc := not_at fun ws hw => by rw [hp] at hw; exact nomatch hw
  induction hx with
  | atStart h0 => exact h.start.1 _ h0
  | @run x q hq hf hd hc ih =>
    have hr : S.Runs x := ⟨q, hq, fun d h => ⟨hf d h, hd d h⟩⟩
    refine ((hstand x).ended hat hr fun hmem => ?_).2.1 hc
    have hlook := h.lookup_pending hmem hq
    obtain ⟨d, hd', hn⟩ := hs.visited x q hlook List.not_mem_nil List.not_mem_nil
    exact hn (ih d hd')

/-- So what is still pending is never run. -/
theorem Live.not_runs_of_pending {S : Setup} {s : Levels} {st : Store} (h : Live S s st)
    (hp : s.phase = .scan [] []) {x : GoString} (hx : x ∈ s.pending) : ¬ S.Runs x := by
  rintro ⟨q, hq, hdeps⟩
  have hlook := h.lookup_pending hx hq
  obtain ⟨d, hd, hn⟩ := (h.scanning [] [] hp).visited x q hlook List.not_mem_nil List.not_mem_nil
  exact hn (h.done_of_finishes hp (hdeps d hd).2)

/-- The board when a scan has found nothing to run. -/
theorem Live.halted {S : Setup} {s : Levels} {st : Store} (h : Live S s st)
    (hp : s.phase = .scan [] []) {m : Mission} (hm : getMission S.run.missionID st = some m) :
    Halted S m := by
  obtain ⟨m', hm', hv, hstand⟩ := h.board
  have hmm : some m' = some m := hm'.symm.trans hm
  cases hmm
  have hat : ∀ q pc, ¬ At s q pc := not_at fun ws hw => by rw [hp] at hw; exact nomatch hw
  refine ⟨hv, fun x hr => ?_, fun x hr => ?_⟩
  · exact ((hstand x).ended hat hr fun hmem => h.not_runs_of_pending hp hmem hr).1
  · rcases (hstand x).not_run hr with ⟨hf, -⟩ | ⟨hd, -, -, hf⟩
    · exact .inl hf
    · exact .inr ⟨hd, hf⟩

/-- When no pending quest comes to a failed dependency, everything that fails has failed. -/
theorem Live.failed_of_fails {S : Setup} {s : Levels} {st : Store} (h : Live S s st)
    (hp : s.phase = .scan [] [])
    (hnone : ∀ x q, s.pending.lookup x = some q → readiness s.done s.failed q.dependsOn ≠ .doomed)
    {x : GoString} (hx : S.Fails x) : x ∈ s.failed := by
  obtain ⟨m, -, -, hstand⟩ := h.board
  have hat : ∀ q pc, ¬ At s q pc := not_at fun ws hw => by rw [hp] at hw; exact nomatch hw
  induction hx with
  | atStart h0 => exact h.start.2 _ h0
  | @run x hr hf =>
    exact ((hstand x).ended hat hr fun hmem => h.not_runs_of_pending hp hmem hr).2.2 hf
  | @doomed x b q before after hn hq hdeps hbefore hb ih =>
    rcases (hstand x).not_run hn with ⟨-, hmem⟩ | ⟨-, hfail, -⟩
    · refine absurd ?_ (hnone x q (h.lookup_pending (hmem ⟨q, hq⟩) hq))
      rw [hdeps]
      exact readiness_of_split (fun d hd => h.done_of_finishes hp (hbefore d hd)) ih
    · exact hfail

/-- The loop stops for a parked quest. -/
theorem exit_pause {S : Setup} {s : Levels} {st : Store} (h : Live S s st)
    (hp : s.phase = .scan [] []) (hw : hasWaiting S.run st = true)
    (hnone : ∀ x q, s.pending.lookup x = some q → readiness s.done s.failed q.dependsOn ≠ .doomed) :
    ∃ m, getMission S.run.missionID st = some m ∧ Variant S.board m ∧ RunsDone S m ∧ Exit S m := by
  obtain ⟨m, hm, hv, hstand⟩ := h.board
  have hh := h.halted hp hm
  refine ⟨m, hm, hv, hh.runs, .paused (fun x hr => ?_) ((hasWaiting_iff hm).1 hw)⟩
  rcases (hstand x).not_run hr with ⟨hf, hmem⟩ | ⟨hd, -, -, hf⟩
  · refine .inl ⟨fun hd => ?_, hf⟩
    obtain ⟨-, q, before, b, after, hq, hdeps, hbefore, hb⟩ := hd
    refine hnone x q (h.lookup_pending (hmem ⟨q, hq⟩) hq) ?_
    rw [hdeps]
    exact readiness_of_split (fun d hd => h.done_of_finishes hp (hbefore d hd))
      (h.failed_of_fails hp hnone hb)
  · exact .inr ⟨hd, hf⟩

/-- The loop ends with nothing pending. -/
theorem exit_stop {S : Setup} {s : Levels} {st : Store} (h : Live S s st) (hp : s.phase = .head)
    (hk : s.pending.keys = []) :
    ∃ m, getMission S.run.missionID st = some m ∧ Variant S.board m ∧ RunsDone S m ∧ Exit S m := by
  obtain ⟨m, hm, hv, hstand⟩ := h.board
  have hat : ∀ q pc, ¬ At s q pc := not_at fun ws hw => by rw [hp] at hw; exact nomatch hw
  have hempty : ∀ x, x ∉ s.pending := fun x hx => by
    rw [AList.mem_keys, hk] at hx
    exact nomatch hx
  refine ⟨m, hm, hv, fun x hr => ((hstand x).ended hat hr (hempty x)).1,
    .stopped (fun x hr => ?_) fun x hr => ?_⟩
  · rcases (hstand x).not_run hr with ⟨hf, hmem⟩ | ⟨hd, -, -, hf⟩
    · exact .inl ⟨fun hd => hempty x (hmem (listed_of_doomed hd)), hf⟩
    · exact .inr ⟨hd, hf⟩
  · rcases (hstand x).not_run hr with ⟨hf, hmem⟩ | ⟨hd, -, -, hf⟩
    · exact .inl ⟨fun hl => hempty x (hmem hl), hf⟩
    · exact .inr ⟨listed_of_doomed hd, hf⟩

/-- What holds while the rest of the board is being cancelled. -/
structure Dropping (S : Setup) (s : Levels) (st : Store) : Prop where
  board : ∃ m, getMission S.run.missionID st = some m ∧ Variant S.board m ∧ RunsDone S m ∧
    ∀ x, ¬ S.Runs x → m.findQuest x = S.board.findQuest x ∧ (Listed S x → x ∈ s.pending) ∨
      Listed S x ∧ ∃ f, m.findQuest x = some f ∧ f.status = .cancelled
  pending : ∀ x ∈ s.pending, ¬ S.Runs x ∧ Listed S x
  before : ∃ m₁, Halted S m₁ ∧ ¬ Waiting m₁

/-- The loop has found nothing to run and nothing to wait for. -/
theorem dropping_stuck {S : Setup} {s : Levels} {st : Store} (h : Live S s st)
    (hp : s.phase = .scan [] []) (hw : hasWaiting S.run st = false) :
    Dropping S { s with phase := .drop } st := by
  obtain ⟨m, hm, hv, hstand⟩ := h.board
  have hh := h.halted hp hm
  refine ⟨⟨m, hm, hv, hh.runs, fun x hr => ?_⟩, fun x hx => ⟨h.not_runs_of_pending hp hx, ?_⟩,
    m, hh, fun hwait => ?_⟩
  · rcases (hstand x).not_run hr with hf | ⟨hd, -, -, hf⟩
    · exact .inl hf
    · exact .inr ⟨listed_of_doomed hd, hf⟩
  · obtain ⟨q, hq⟩ := Option.isSome_iff_exists.1 (AList.lookup_isSome.2 hx)
    exact ⟨q, h.pending x q hq⟩
  · rw [(hasWaiting_iff hm).2 hwait] at hw
    exact nomatch hw

theorem dropping_drop {S : Setup} {s : Levels} {st : Store} {id reason : GoString} {now : Nat}
    (h : Dropping S s st) (hid : id ∈ s.pending) :
    Dropping S { s with pending := s.pending.erase id, failed := s.failed ++ [id], phase := .drop }
      (cancelQuest S.run now id reason st) := by
  obtain ⟨m, hm, hv, hr, hrest⟩ := h.board
  obtain ⟨hn, q, hq⟩ := h.pending id hid
  obtain ⟨f₀, hsch⟩ := exists_scheduled hq
  obtain ⟨f, hf⟩ := hv.findQuest hsch.2
  obtain ⟨m', hm', hv', hf', hother⟩ :=
    hv.rewrites (cancelQuest_rewrites now reason hm hf) hf ⟨rfl, rfl, rfl⟩
  refine ⟨⟨m', hm', hv', fun x hx => ?_, fun x hx => ?_⟩, fun x hx => ?_, h.before⟩
  · have hne : x ≠ id := by
      rintro rfl
      exact hn hx
    rw [hother x hne]
    exact hr x hx
  · by_cases hne : x = id
    · subst hne
      exact .inr ⟨⟨q, hq⟩, _, hf', rfl⟩
    · rw [hother x hne]
      rcases hrest x hx with ⟨hu, hmem⟩ | hc
      · exact .inl ⟨hu, fun hl => AList.mem_erase.2 ⟨hne, hmem hl⟩⟩
      · exact .inr hc
  · exact h.pending x (AList.mem_erase.1 hx).2

theorem exit_dropped {S : Setup} {s : Levels} {st : Store} (h : Dropping S s st)
    (hk : s.pending.keys = []) :
    ∃ m, getMission S.run.missionID st = some m ∧ Variant S.board m ∧ RunsDone S m ∧ Exit S m := by
  obtain ⟨m, hm, hv, hr, hrest⟩ := h.board
  obtain ⟨m₁, h₁, hw⟩ := h.before
  refine ⟨m, hm, hv, hr, .dropped h₁ hw fun x hx => ?_⟩
  rcases hrest x hx with ⟨hu, hmem⟩ | hc
  · refine .inl ⟨fun hl => ?_, hu⟩
    have hx' := hmem hl
    rw [AList.mem_keys, hk] at hx'
    exact nomatch hx'
  · exact .inr hc

/-- What a run keeps. -/
def Tracked (S : Setup) (p : Levels × Store) : Prop :=
  match p.1.phase with
  | .returned =>
    ∃ m, getMission S.run.missionID p.2 = some m ∧ Variant S.board m ∧ RunsDone S m ∧ Exit S m
  | .drop => Dropping S p.1 p.2
  | _ => Live S p.1 p.2

theorem tracked_step {S : Setup} {p p' : Levels × Store} {act : Act} (h : Tracked S p)
    (hmeet : Fixed S.env p act ∧ OrderFree S.run S.snapshot p act)
    (hstep : step S.run p act = some p') : Tracked S p' := by
  obtain ⟨s, st⟩ := p
  obtain ⟨s', st'⟩ := p'
  obtain ⟨hfix, horder⟩ := hmeet
  unfold Tracked at h
  cases step_cases hstep with
  | @stop cancelled hp hc =>
    dsimp only at h
    rw [hp] at h
    have hkeys : s.pending.keys = [] := by
      rcases hc with hk | hc
      · exact hk
      · rw [show cancelled = false from hfix] at hc
        exact nomatch hc
    exact exit_stop h hp hkeys
  | scan hp hc =>
    dsimp only at h
    rw [hp] at h
    exact live_scan h hp
  | doomed hp hid hq hr =>
    dsimp only at h
    rw [hp] at h
    exact live_doomed h hp hid hq hr (horder _ hq)
  | ready hp hid hq hr =>
    dsimp only at h
    rw [hp] at h
    exact live_ready h hp hid hq hr
  | blocked hp hid hq hr =>
    dsimp only at h
    rw [hp] at h
    exact live_blocked h hp hq hr
  | pause hp hw =>
    dsimp only at h
    rw [hp] at h
    exact exit_pause h hp hw (horder hp hw)
  | stuck hp hw =>
    dsimp only at h
    rw [hp] at h
    exact dropping_stuck h hp hw
  | launch hp hl =>
    dsimp only at h
    rw [hp] at h
    exact live_launch h hp
  | drop hp hid =>
    dsimp only at h
    rw [hp] at h
    exact dropping_drop h hid
  | dropped hp hk =>
    dsimp only at h
    rw [hp] at h
    exact exit_dropped h hk
  | @work workers k host q pc hp hk hsem =>
    dsimp only at h
    rw [hp] at h
    obtain rfl : host = S.env q.id pc := hfix workers q pc hp hk
    exact live_work h hp hk
  | join hp hend =>
    dsimp only at h
    rw [hp] at h
    exact live_join h hp hend

/-! ## Two runs -/

/-- The quests that do not run end with the same status on two boards that treat the rest alike. -/
theorem status_of_rest {S : Setup} {m m' : Mission} {P : GoString → Prop} (h : Rest S m P)
    (h' : Rest S m' P) {x : GoString} (hx : ¬ S.Runs x) {f f' : Quest}
    (hf : m.findQuest x = some f) (hf' : m'.findQuest x = some f') : f'.status = f.status := by
  rcases h x hx with ⟨hp, hu⟩ | ⟨hp, g, hg, hst⟩
  · rcases h' x hx with ⟨-, hu'⟩ | ⟨hp', -⟩
    · have heq : some f' = some f := hf'.symm.trans (hu'.trans (hu.symm.trans hf))
      rw [Option.some.inj heq]
    · exact absurd hp' hp
  · rcases h' x hx with ⟨hp', -⟩ | ⟨-, g', hg', hst'⟩
    · exact absurd hp hp'
    · obtain rfl : g = f := Option.some.inj (hg.symm.trans hf)
      obtain rfl : g' = f' := Option.some.inj (hg'.symm.trans hf')
      rw [hst, hst']

/-- What one run waits for, the other would have waited for too. -/
theorem waiting_of_paused {S : Setup} {m m₁ : Mission} (hv : Variant S.board m)
    (hr : RunsDone S m) (hp : Rest S m S.Doomed) (hw : Waiting m) (h₁ : Halted S m₁) :
    Waiting m₁ := by
  refine hw.of_variant hv h₁.board fun x f f' hf hf' hst => ?_
  by_cases hx : S.Runs x
  · obtain ⟨g, hg, hl⟩ := hr x hx
    obtain ⟨g', hg', hl'⟩ := h₁.runs x hx
    obtain rfl : g = f := Option.some.inj (hg.symm.trans hf)
    obtain rfl : g' = f' := Option.some.inj (hg'.symm.trans hf')
    rw [← hl.unique hl']
    exact hst
  · rcases hp x hx with ⟨hn, hu⟩ | ⟨-, g, hg, hc⟩
    · rcases h₁.rest x hx with hu' | ⟨hd, -⟩
      · have heq : some f' = some f := hf'.symm.trans (hu'.trans (hu.symm.trans hf))
        rw [Option.some.inj heq]
        exact hst
      · exact absurd hd hn
    · obtain rfl : g = f := Option.some.inj (hg.symm.trans hf)
      rw [hc] at hst
      exact nomatch hst

/-- Two ends of the loop agree on every quest that does not run. -/
theorem status_of_exit {S : Setup} {m m' : Mission} (hv : Variant S.board m)
    (hv' : Variant S.board m') (hr : RunsDone S m) (hr' : RunsDone S m') (h : Exit S m)
    (h' : Exit S m') {x : GoString} (hx : ¬ S.Runs x) {f f' : Quest} (hf : m.findQuest x = some f)
    (hf' : m'.findQuest x = some f') : f'.status = f.status := by
  cases h with
  | stopped hp hd =>
    cases h' with
    | stopped hp' hd' => exact status_of_rest hp hp' hx hf hf'
    | paused hp' hw' => exact status_of_rest hp hp' hx hf hf'
    | dropped h₁ hw hd' => exact status_of_rest hd hd' hx hf hf'
  | paused hp hw =>
    cases h' with
    | stopped hp' hd' => exact status_of_rest hp hp' hx hf hf'
    | paused hp' hw' => exact status_of_rest hp hp' hx hf hf'
    | dropped h₁ hw' hd' => exact absurd (waiting_of_paused hv hr hp hw h₁) hw'
  | dropped h₁ hw hd =>
    cases h' with
    | stopped hp' hd' => exact status_of_rest hd hd' hx hf hf'
    | paused hp' hw' => exact absurd (waiting_of_paused hv' hr' hp' hw' h₁) hw
    | dropped h₁' hw' hd' => exact status_of_rest hd hd' hx hf hf'

theorem statuses_eq_of_tracked {S : Setup} {p p' : Levels × Store} (h : Tracked S p)
    (h' : Tracked S p') (hp : p.1.phase = .returned) (hp' : p'.1.phase = .returned) :
    statuses S.run p.2 = statuses S.run p'.2 := by
  unfold Tracked at h h'
  rw [hp] at h
  rw [hp'] at h'
  obtain ⟨m, hm, hv, hr, he⟩ := h
  obtain ⟨m', hm', hv', hr', he'⟩ := h'
  unfold statuses
  rw [hm, hm', Option.map_some, Option.map_some]
  congr 1
  refine statuses_eq_of_variant hv hv' fun x f f' hf hf' => ?_
  by_cases hx : S.Runs x
  · obtain ⟨g, hg, hl⟩ := hr x hx
    obtain ⟨g', hg', hl'⟩ := hr' x hx
    obtain rfl : g = f := Option.some.inj (hg.symm.trans hf)
    obtain rfl : g' = f' := Option.some.inj (hg'.symm.trans hf')
    rw [hl.unique hl']
  · exact status_of_exit hv hv' hr hr' he he' hx hf hf'

/-- At the start nothing has been run. -/
theorem tracked_start {S : Setup} {st : Store}
    (hm : getMission S.run.missionID st = some S.board) :
    Tracked S (.start S.run st, st) := by
  have hstart : Levels.start S.run st = S.snapshot := by
    unfold Levels.start
    rw [hm]
    rfl
  have hphase : S.snapshot.phase = .head := (foldl_enter_phase S.board.quests _).1
  unfold Tracked
  rw [hstart, hphase]
  refine ⟨⟨S.board, hm, .refl _, fun x => ?_⟩, fun _ _ h => h, fun _ h => .atStart h,
    fun _ h => .atStart h, ⟨fun _ h => h, fun _ h => h⟩, fun _ _ h => ?_, fun _ h => ?_⟩
  · cases hx : S.snapshot.pending.lookup x with
    | none => exact .untouched hx rfl
    | some q => exact .idle hx rfl
  · rw [hphase] at h
    exact nomatch h
  · rw [hphase] at h
    exact nomatch h

/-- Two runs with the same outcomes that stop for no parked quest too early leave the same statuses. -/
theorem statuses_confluent {r : Run} (env : Outcomes) {st st₁ st₂ : Store} {s₁ s₂ : Levels}
    {as bs : List Act}
    (ha : runSteps (step r) (Levels.start r st, st) as = some (s₁, st₁))
    (hb : runSteps (step r) (Levels.start r st, st) bs = some (s₂, st₂))
    (h₁ : s₁.phase = .returned) (h₂ : s₂.phase = .returned)
    (hma : StepsMeet (step r)
      (fun p act => Fixed env p act ∧ OrderFree r (Levels.start r st) p act)
      (Levels.start r st, st) as)
    (hmb : StepsMeet (step r)
      (fun p act => Fixed env p act ∧ OrderFree r (Levels.start r st) p act)
      (Levels.start r st, st) bs) :
    statuses r st₁ = statuses r st₂ := by
  cases hm : getMission r.missionID st with
  | none =>
    have hret : (Levels.start r st).phase = .returned := by simp [Levels.start, hm]
    have hnil : ∀ {acts p}, runSteps (step r) (Levels.start r st, st) acts = some p → p.2 = st := by
      intro acts p hrun
      cases acts with
      | nil => cases hrun; rfl
      | cons act acts =>
        obtain ⟨t, ht, -⟩ := runSteps_cons_eq_some.1 hrun
        simp [step, hret] at ht
    rw [show st₁ = st from hnil ha, show st₂ = st from hnil hb]
  | some m =>
    let S : Setup := ⟨r, env, m⟩
    have hsnap : Levels.start r st = S.snapshot := by
      unfold Levels.start
      rw [hm]
      rfl
    have hinv : ∀ p act p', Tracked S p →
        Fixed env p act ∧ OrderFree r (Levels.start r st) p act → step r p act = some p' →
          Tracked S p' := by
      intro p act p' hp hC hstep
      rw [hsnap] at hC
      exact tracked_step hp hC hstep
    have hp₁ := runSteps_invariant_of_meet hinv ha hma (tracked_start hm)
    have hp₂ := runSteps_invariant_of_meet hinv hb hmb (tracked_start hm)
    exact statuses_eq_of_tracked hp₁ hp₂ h₁ h₂

/-- While nothing has failed and nothing was done at the start, the order of the scan is free. -/
theorem orderFree_of_none {r : Run} {s₀ : Levels} {p : Levels × Store} (hd : s₀.done = [])
    (hf : p.1.failed = []) (act : Act) : OrderFree r s₀ p act := by
  cases act with
  | visit id now =>
    intro q _ d _ h
    rw [hd] at h
    exact nomatch h
  | endScan =>
    intro _ _ id q _ hr
    obtain ⟨-, b, -, -, -, hb⟩ := readiness_doomed hr
    rw [hf] at hb
    exact nomatch hb
  | _ => trivial

/-- In approval mode the first quest is parked, and the second one, which the scan visits before or
after it, is left pending. -/
theorem statuses_confluent_parked :
    ∃ as bs s₁ st₁ s₂ st₂,
      runBoard true [boardQuest "q1" [], boardQuest "q2" [str "q1"]] as = some (s₁, st₁) ∧
      runBoard true [boardQuest "q1" [], boardQuest "q2" [str "q1"]] bs = some (s₂, st₂) ∧
      statuses (boardRun true) st₁ = some [.waitingApproval, .pending] ∧
      statuses (boardRun true) st₁ = statuses (boardRun true) st₂ := by
  let board := [boardQuest "q1" [], boardQuest "q2" [str "q1"]]
  let h := boardHost .ask
  let as : List Act := [.head false, .visit "q1" 0, .visit "q2" 0, .endScan, .work 0 h, .work 0 h,
    .join, .head false, .visit "q2" 0, .endScan]
  let bs : List Act := [.head false, .visit "q2" 0, .visit "q1" 0, .endScan, .work 0 h, .work 0 h,
    .join, .head false, .visit "q2" 0, .endScan]
  refine ⟨as, bs, _, _, _, _, rfl, rfl, rfl, ?_⟩
  have ha : runBoard true board as = some (_, _) := rfl
  have hb : runBoard true board bs = some (_, _) := rfl
  have hfree {p : Levels × Store} (hf : p.1.failed = []) (act : Act) :
      OrderFree (boardRun true) (.start (boardRun true) (boardStore board)) p act :=
    orderFree_of_none rfl hf act
  have hfix (p : Levels × Store) (k : Nat) : Fixed (fun _ _ => h) p (.work k h) :=
    fun _ _ _ _ _ => rfl
  refine statuses_confluent (fun _ _ => h) ha hb rfl rfl ?_ ?_
  · refine stepsMeet_cons ⟨rfl, hfree rfl _⟩ rfl ?_
    refine stepsMeet_cons ⟨trivial, hfree rfl _⟩ rfl ?_
    refine stepsMeet_cons ⟨trivial, hfree rfl _⟩ rfl ?_
    refine stepsMeet_cons ⟨trivial, hfree rfl _⟩ rfl ?_
    refine stepsMeet_cons ⟨hfix _ _, hfree rfl _⟩ rfl ?_
    refine stepsMeet_cons ⟨hfix _ _, hfree rfl _⟩ rfl ?_
    refine stepsMeet_cons ⟨trivial, hfree rfl _⟩ rfl ?_
    refine stepsMeet_cons ⟨rfl, hfree rfl _⟩ rfl ?_
    refine stepsMeet_cons ⟨trivial, hfree rfl _⟩ rfl ?_
    exact stepsMeet_cons ⟨trivial, hfree rfl _⟩ rfl trivial
  · refine stepsMeet_cons ⟨rfl, hfree rfl _⟩ rfl ?_
    refine stepsMeet_cons ⟨trivial, hfree rfl _⟩ rfl ?_
    refine stepsMeet_cons ⟨trivial, hfree rfl _⟩ rfl ?_
    refine stepsMeet_cons ⟨trivial, hfree rfl _⟩ rfl ?_
    refine stepsMeet_cons ⟨hfix _ _, hfree rfl _⟩ rfl ?_
    refine stepsMeet_cons ⟨hfix _ _, hfree rfl _⟩ rfl ?_
    refine stepsMeet_cons ⟨trivial, hfree rfl _⟩ rfl ?_
    refine stepsMeet_cons ⟨rfl, hfree rfl _⟩ rfl ?_
    refine stepsMeet_cons ⟨trivial, hfree rfl _⟩ rfl ?_
    exact stepsMeet_cons ⟨trivial, hfree rfl _⟩ rfl trivial

/-- The board lists a cancelled quest, a chain of two quests that need it, and a quest that waits for
a human. The scan cancels the first of the chain and, in the order of the chain, the second one too;
in the other order the second one is left pending. -/
theorem chain_depends_on_order :
    ∃ quests as bs s₁ st₁ s₂ st₂,
      runBoard true quests as = some (s₁, st₁) ∧ runBoard true quests bs = some (s₂, st₂) ∧
      s₁.phase = .returned ∧ s₂.phase = .returned ∧
      (∀ env, StepsMeet (step (boardRun true)) (Fixed env)
        (.start (boardRun true) (boardStore quests), boardStore quests) as) ∧
      (∀ env, StepsMeet (step (boardRun true)) (Fixed env)
        (.start (boardRun true) (boardStore quests), boardStore quests) bs) ∧
      statuses (boardRun true) st₁ = some [.cancelled, .cancelled, .cancelled, .waitingApproval] ∧
      statuses (boardRun true) st₂ = some [.cancelled, .cancelled, .pending, .waitingApproval] := by
  let quests : List Quest := [{ boardQuest "q1" [] with status := .cancelled },
    boardQuest "q2" [str "q1"], boardQuest "q3" [str "q2"],
    { boardQuest "q4" [] with status := .waitingApproval }]
  let as : List Act := [.head false, .visit "q2" 0, .visit "q3" 0, .endScan]
  let bs : List Act := [.head false, .visit "q3" 0, .visit "q2" 0, .endScan]
  refine ⟨quests, as, bs, _, _, _, _, rfl, rfl, rfl, rfl, fun env => ?_, fun env => ?_, rfl, rfl⟩
  · exact ⟨rfl, fun _ _ => ⟨trivial, fun _ _ => ⟨trivial, fun _ _ => ⟨trivial, fun _ _ => trivial⟩⟩⟩⟩
  · exact ⟨rfl, fun _ _ => ⟨trivial, fun _ _ => ⟨trivial, fun _ _ => ⟨trivial, fun _ _ => trivial⟩⟩⟩⟩

end Gafam.Orchestrator
