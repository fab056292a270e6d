import Gafam.Orchestrator.Guard
import Gafam.Orchestrator.Proofs.ThreadProofs

/-!
# Careful runs ask a human first

The invariant is about the goroutines that have passed the gate of a mission under guard: those whose
tools need a human have been approved. A careful step keeps it, and the goroutine that starts a tool
is one of them.
-/

namespace Gafam.Orchestrator

open Gafam.Go Gafam.Lib Gafam.Moksa

/-! ## The log -/

theorem guards_snoc (log : List SysEvent) (e : SysEvent) :
    guards (log ++ [e]) = e.guards (guards log) := by
  unfold guards
  rw [List.foldl_append]
  rfl

theorem approvals_snoc (log : List SysEvent) (e : SysEvent) :
    approvals (log ++ [e]) = e.approvals (approvals log) := by
  unfold approvals
  rw [List.foldl_append]
  rfl

theorem askedFirst_nil : AskedFirst [] := by
  intro before id qid after h
  exact absurd h (by simp)

theorem askedFirst_snoc {log : List SysEvent} {e : SysEvent} (hlog : AskedFirst log)
    (he : ∀ id qid, e = .executed id qid .ask → guards log id = true → approvals log id qid = true) :
    AskedFirst (log ++ [e]) := by
  intro before id qid after h
  rcases snoc_split h with ⟨after', hsplit⟩ | ⟨rfl, rfl⟩
  · exact hlog before id qid after' hsplit
  · exact he id qid rfl

/-! ## The invariant -/

/-- The thread runs its own mission, and what has passed the gate is approved. -/
structure Thread.Watched (perm : GoString → GoString → Permission) (log : List SysEvent)
    (t : Thread) : Prop where
  args : ∀ r s, t.pc = .levels r s → r.missionID = t.missionID ∧ r.karakaID = t.karakaID
  cleared : guards log t.missionID = true → t.Cleared perm log

structure Watched (perm : GoString → GoString → Permission) (log : List SysEvent)
    (threads : List Thread) : Prop where
  asked : AskedFirst log
  each : ∀ t ∈ threads, t.Watched perm log

/-- The event puts no goroutine in the wrong. -/
def Harmless (perm : GoString → GoString → Permission) (log : List SysEvent)
    (threads : List Thread) : SysEvent → Prop
  | .launched id requireApproval =>
    requireApproval = true → ∀ t ∈ threads, t.missionID = id → t.Cleared perm log
  | .delegated parent child =>
    guards log parent = true → ∀ t ∈ threads, t.missionID = child → t.Cleared perm log
  | .parked id qid =>
    guards log id = true → ∀ t ∈ threads, t.missionID = id → ¬ t.HoldsAsk perm qid
  | .executed id qid p => p = .ask → guards log id = true → approvals log id qid = true
  | _ => True

theorem Watched.snoc {perm : GoString → GoString → Permission} {log : List SysEvent}
    {threads : List Thread} {e : SysEvent} (h : Watched perm log threads)
    (he : Harmless perm log threads e) : Watched perm (log ++ [e]) threads := by
  refine ⟨askedFirst_snoc h.asked ?_, fun t ht => ⟨(h.each t ht).args, fun hg qid hold => ?_⟩⟩
  · rintro id qid rfl
    exact he rfl
  · have hc := (h.each t ht).cleared
    rw [guards_snoc] at hg
    rw [approvals_snoc]
    cases e with
    | created id =>
      simp only [SysEvent.guards] at hg
      split_ifs at hg with hid
      simp only [SysEvent.approvals, if_neg hid]
      exact hc hg qid hold
    | launched id requireApproval =>
      simp only [SysEvent.guards] at hg
      split_ifs at hg with hid
      · rcases Bool.or_eq_true_iff.1 hg with hr | hg
        · exact he hr t ht hid qid hold
        · exact hc hg qid hold
      · exact hc hg qid hold
    | delegated parent child =>
      simp only [SysEvent.guards] at hg
      split_ifs at hg with hid
      · exact he hg t ht hid qid hold
      · exact hc hg qid hold
    | parked id y =>
      have ha := hc hg qid hold
      simp only [SysEvent.approvals]
      split_ifs with hid
      · obtain ⟨hid, rfl⟩ := hid
        rw [hid] at hg
        exact absurd hold (he hg t ht hid)
      · exact ha
    | approved id y =>
      have ha := hc hg qid hold
      simp only [SysEvent.approvals]
      split_ifs
      · rfl
      · exact ha
    | executed id y p => exact hc hg qid hold

/-- The threads of a step are the old ones but for those that the invariant is shown for. -/
theorem Watched.replace {perm : GoString → GoString → Permission} {log : List SysEvent}
    {ts ts' : List Thread} (h : Watched perm log ts)
    (hts : ∀ t ∈ ts', t ∈ ts ∨ t.Watched perm log) : Watched perm log ts' :=
  ⟨h.asked, fun t ht => (hts t ht).elim (h.each t) id⟩

theorem Watched.set {perm : GoString → GoString → Permission} {log : List SysEvent}
    {ts : List Thread} {t : Thread} (h : Watched perm log ts) (k : Nat) (ht : t.Watched perm log) :
    Watched perm log (ts.set k t) := by
  refine h.replace fun t₁ ht₁ => ?_
  rcases List.mem_or_eq_of_mem_set ht₁ with ht₁ | rfl
  · exact .inl ht₁
  · exact .inr ht

/-- A thread outside the levels has nothing to answer for. -/
theorem watched_of_not_levels {perm : GoString → GoString → Permission} {log : List SysEvent}
    {t : Thread} (h : ∀ r s, t.pc ≠ .levels r s) : t.Watched perm log := by
  refine ⟨fun r s hp => absurd hp (h r s), fun _ qid hold => ?_⟩
  obtain ⟨w, hw, -⟩ := hold
  unfold Thread.workers at hw
  cases hp : t.pc with
  | levels r s => exact absurd hp (h r s)
  | _ => rw [hp] at hw; exact nomatch hw

/-! ## The gate -/

/-- A goroutine gets past the gate when it was already, or when the gate lets it pass. -/
theorem step_pastGate {r : Run} {h : Host} {q : Quest} {st : Store} {pc : WorkerPc}
    (hpast : (pc.step r h q st).1.pastGate = true) :
    pc.pastGate = true ∨
      pc = .gate ∧ (h.perm r.karakaID q.tool = .ask → r.approvalMode = false) := by
  cases pc with
  | queued => exact nomatch hpast
  | gate =>
    refine .inr ⟨rfl, fun hask => ?_⟩
    unfold WorkerPc.step at hpast
    dsimp only at hpast
    rw [hask] at hpast
    dsimp only at hpast
    split_ifs at hpast with hmode
    · exact nomatch hpast
    · simpa using hmode
  | rewardDone => exact nomatch hpast
  | rewardFailed e => exact nomatch hpast
  | finished => exact nomatch hpast
  | _ => exact .inl rfl

/-! ## A step of the levels -/

/-- A step of the level loop is the step of one goroutine, or else it reports nothing, finds no goroutine
under way and leaves none. -/
theorem stepped_workers {r : Run} {s s' : Levels} {st st' : Store} {act : Act}
    (h : Stepped r s st act s' st') :
    (s'.log = s.log ∧ (∀ k host, act ≠ .work k host) ∧ (∀ w ∈ s.phase.workers, w.2 = .finished) ∧
        ∀ w ∈ s'.phase.workers, w.2 = .queued) ∨
      ∃ k host q pc, act = .work k host ∧ s.phase.workers[k]? = some (q, pc) ∧
        s'.phase.workers = s.phase.workers.set k (q, (pc.step r host q st).1) ∧
        s'.log = s.log ++ (pc.step r host q st).2.2.toList ∧
        st' = (pc.step r host q st).2.1 := by
  have hnone : ∀ {p p' : Phase}, p.workers = [] → p'.workers = [] →
      (∀ w ∈ p.workers, w.2 = .finished) ∧ ∀ w ∈ p'.workers, w.2 = .queued := by
    intro p p' h h'
    rw [h, h']
    exact ⟨fun w hw => absurd hw List.not_mem_nil, fun w hw => absurd hw List.not_mem_nil⟩
  cases h with
  | @launch level hp hl =>
    refine .inl ⟨rfl, nofun, fun w hw => ?_, fun w hw => ?_⟩
    · rw [hp] at hw
      exact absurd hw List.not_mem_nil
    · obtain ⟨q, -, rfl⟩ := List.mem_map.1 hw
      rfl
  | join hp hw =>
    refine .inl ⟨rfl, nofun, fun w hw' => ?_, fun w hw' => absurd hw' List.not_mem_nil⟩
    rw [hp] at hw'
    exact hw w hw'
  | @work workers k host q pc hp hk hsem =>
    refine .inr ⟨k, host, q, pc, rfl, ?_, ?_, ?_, rfl⟩
    · rw [hp]
      exact hk
    · rw [hp]
      rfl
    · show (s.record (pc.step r host q st).2.2).log = _
      unfold Levels.record
      rcases (pc.step r host q st).2.2 with _ | (_ | _ | _ | _)
      · exact (List.append_nil _).symm
      · rfl
      · rfl
      · rfl
      · rfl
  | stop hp => exact .inl ⟨rfl, nofun, hnone (by rw [hp]; rfl) rfl⟩
  | scan hp => exact .inl ⟨rfl, nofun, hnone (by rw [hp]; rfl) rfl⟩
  | doomed hp => exact .inl ⟨rfl, nofun, hnone (by rw [hp]; rfl) rfl⟩
  | ready hp => exact .inl ⟨rfl, nofun, hnone (by rw [hp]; rfl) rfl⟩
  | blocked hp => exact .inl ⟨rfl, nofun, hnone (by rw [hp]; rfl) rfl⟩
  | pause hp => exact .inl ⟨rfl, nofun, hnone (by rw [hp]; rfl) rfl⟩
  | stuck hp => exact .inl ⟨rfl, nofun, hnone (by rw [hp]; rfl) rfl⟩
  | drop hp => exact .inl ⟨rfl, nofun, hnone (by rw [hp]; rfl) rfl⟩
  | dropped hp => exact .inl ⟨rfl, nofun, hnone (by rw [hp]; rfl) rfl⟩

/-- The goroutines of a thread in the levels. -/
theorem workers_levels {t : Thread} {r : Run} {s : Levels} (h : t.pc = .levels r s) :
    t.workers = s.phase.workers := by
  unfold Thread.workers
  rw [h]

/-- What a thread holds past the gate after the step of a goroutine, it held before, or the gate has
just let it pass. -/
theorem holdsAsk_after {perm : GoString → GoString → Permission} {t : Thread} {r : Run}
    {s s' : Levels} {j : Nat} {host : Host} {q : Quest} {pc : WorkerPc} {st : Store} {qid : GoString}
    (hpc : t.pc = .levels r s) (hj : s.phase.workers[j]? = some (q, pc))
    (hworkers : s'.phase.workers = s.phase.workers.set j (q, (pc.step r host q st).1))
    (hperm : host.perm = perm) (hkid : r.karakaID = t.karakaID)
    (hold : ({ t with pc := .levels r s' } : Thread).HoldsAsk perm qid) :
    t.HoldsAsk perm qid ∨
      (pc = .gate ∧ qid = q.id ∧ r.approvalMode = false ∧ perm t.karakaID q.tool = .ask) := by
  obtain ⟨w, hw, hpast, hask, hid⟩ := hold
  rw [workers_levels (r := r) (s := s') rfl, hworkers] at hw
  rcases List.mem_or_eq_of_mem_set hw with hw | rfl
  · refine .inl ⟨w, ?_, hpast, hask, hid⟩
    rw [workers_levels hpc]
    exact hw
  · rcases step_pastGate hpast with hp | ⟨hp, hmode⟩
    · refine .inl ⟨(q, pc), ?_, hp, hask, hid⟩
      rw [workers_levels hpc]
      exact List.mem_of_getElem? hj
    · refine .inr ⟨hp, hid.symm, hmode ?_, hask⟩
      rw [hperm, hkid]
      exact hask

/-- What the system notes of a step of the levels is harmless, and a tool call that starts a sub-agent
stays apart. -/
theorem watched_level {now k : Nat} {sys : System} {t : Thread} {r : Run} {s s' : Levels} {act : Act}
    {st' : Store} (h : Watched sys.perm sys.log sys.threads) (ht : sys.threads[k]? = some t)
    (hpc : t.pc = .levels r s)
    (hcare : guards sys.log t.missionID = true → t.Careful now sys (.level act))
    (hstep : Orchestrator.step r (s, sys.store) (act.under sys.perm) = some (s', st')) :
    Watched sys.perm
        (sys.log ++ (s'.log.drop s.log.length).filterMap (SysEvent.ofEvent sys.perm t))
        (sys.threads.set k { t with pc := .levels r s' }) ∧
      (startedQuests (s'.log.drop s.log.length) = [] ∨
        ∃ q, startedQuests (s'.log.drop s.log.length) = [q] ∧
          (guards sys.log t.missionID = true →
            DelegatesApart now
              { sys with
                store := st'
                threads := sys.threads.set k { t with pc := .levels r s' } } q)) := by
  have hmem : t ∈ sys.threads := List.mem_of_getElem? ht
  obtain ⟨hmid, hkid⟩ := (h.each t hmem).args r s hpc
  have hargs : ∀ r' s₁, ({ t with pc := .levels r s' } : Thread).pc = .levels r' s₁ →
      r'.missionID = t.missionID ∧ r'.karakaID = t.karakaID := by
    intro r' s₁ hp
    cases hp
    exact ⟨hmid, hkid⟩
  rcases stepped_workers (step_cases hstep) with ⟨hlog, -, -, hqueued⟩ |
    ⟨j, host, q, pc, hact, hj, hworkers, hlog, hst⟩
  · rw [hlog, List.drop_length]
    refine ⟨?_, .inl rfl⟩
    rw [List.filterMap_nil, List.append_nil]
    refine h.set k ⟨hargs, fun _ qid hold => ?_⟩
    obtain ⟨w, hw, hpast, -⟩ := hold
    rw [workers_levels (r := r) (s := s') rfl] at hw
    rw [hqueued w hw] at hpast
    exact nomatch hpast
  · -- the goroutine `q` makes a step
    obtain ⟨host₀, rfl, hhost⟩ : ∃ host₀, act = .work j host₀ ∧
        host = { host₀ with perm := sys.perm } := by
      cases act with
      | work j' host₀ => cases hact; exact ⟨host₀, rfl, rfl⟩
      | _ => exact nomatch hact
    have hperm : host.perm = sys.perm := by rw [hhost]
    have hcareful (hg : guards sys.log t.missionID = true) : pc.Careful now sys t r q :=
      hcare hg r s q pc hpc hj
    have hholds : ∀ qid, ({ t with pc := .levels r s' } : Thread).HoldsAsk sys.perm qid →
        t.HoldsAsk sys.perm qid ∨ (pc = .gate ∧ qid = q.id ∧ r.approvalMode = false ∧
          sys.perm t.karakaID q.tool = .ask) :=
      fun qid => holdsAsk_after hpc hj hworkers hperm hkid
    have hthreads : Watched sys.perm sys.log (sys.threads.set k { t with pc := .levels r s' }) := by
      refine h.set k ⟨hargs, fun hg qid hold => ?_⟩
      rcases hholds qid hold with hold | ⟨rfl, rfl, hmode, hask⟩
      · exact (h.each t hmem).cleared hg qid hold
      · rcases hcareful hg hask with ⟨hmode', -⟩ | ⟨-, happ⟩
        · rw [hmode] at hmode'
          exact nomatch hmode'
        · exact happ
    rw [hlog, List.drop_left]
    cases he : (pc.step r host q sys.store).2.2 with
    | none =>
      refine ⟨?_, .inl rfl⟩
      rw [Option.toList_none, List.filterMap_nil, List.append_nil]
      exact hthreads
    | some e =>
      cases e with
      | started f =>
        obtain ⟨⟨attempt, rfl⟩, hid, hseq, m, f₀, hm, hf₀, htool⟩ := step_started he
        have hfind : boardFind sys t.missionID q.id = some f₀ := by
          unfold boardFind
          rw [← hmid, hm]
          exact hf₀
        refine ⟨hthreads.snoc (e := .executed t.missionID f.id (sys.perm t.karakaID f.tool)) ?_,
          .inr ⟨f, rfl, fun hg => ?_⟩⟩
        · intro hask hg
          rw [htool] at hask
          have hsame := (hcareful hg f₀ hfind).1 hask
          rw [hid]
          refine (h.each t hmem).cleared hg q.id ⟨(q, .run attempt), ?_, rfl, ?_, rfl⟩
          · rw [workers_levels hpc]
            exact List.mem_of_getElem? hj
          · rw [← hsame]
            exact hask
        · intro hdel t₁ ht₁ hid₁ qid hold
          rw [htool] at hdel
          have hnew : t₁.missionID = (newMissionID now sys.store).1 := by
            rw [hid₁, hst]
            unfold newMissionID
            rw [hseq]
          have hidle := (hcareful hg f₀ hfind).2 hdel
          rcases List.mem_or_eq_of_mem_set ht₁ with ht₁ | rfl
          · exact hidle t₁ ht₁ hnew qid hold
          · rcases hholds qid hold with hold | ⟨hc, -⟩
            · exact hidle t hmem hnew qid hold
            · exact nomatch hc
      | completed x => exact ⟨(List.append_nil sys.log).symm ▸ hthreads, .inl rfl⟩
      | failed x => exact ⟨(List.append_nil sys.log).symm ▸ hthreads, .inl rfl⟩
      | parked x =>
        rcases step_event he with ⟨_, _, _, -, -, -, hc⟩ | hc | hc | ⟨hx, rfl, hask, hmode⟩
        · exact nomatch hc
        · exact nomatch hc
        · exact nomatch hc
        · cases hx
          rw [hperm, hkid] at hask
          refine ⟨hthreads.snoc (e := .parked t.missionID q.id) ?_, .inl rfl⟩
          intro hg t₁ ht₁ hid hold
          rcases hcareful hg hask with ⟨-, hnone⟩ | ⟨hmode', -⟩
          · rcases List.mem_or_eq_of_mem_set ht₁ with ht₁ | rfl
            · exact hnone t₁ ht₁ hid hold
            · rcases hholds q.id hold with hold | ⟨-, -, hmode', -⟩
              · exact hnone t hmem rfl hold
              · rw [hmode] at hmode'
                exact nomatch hmode'
          · rw [hmode] at hmode'
            exact nomatch hmode'

/-! ## The other steps -/

/-- The quest that a stage of the research marks as running was on the board, with the same tool. -/
theorem researchStart_found {now : Nat} {id qid : GoString} {sys : System} {f : Quest}
    (h : f ∈ ((getMission id (updateMission now id (researchSetQuest qid .running none [])
      sys.store).2).bind fun m => m.findQuest qid).toList) :
    ∃ f₀, boardFind sys id qid = some f₀ ∧ f.id = qid ∧ f.tool = f₀.tool := by
  obtain ⟨m', hm', hf⟩ := Option.bind_eq_some_iff.1 (Option.mem_toList.1 h)
  have hid : f.id = qid := findQuest_id hf
  cases hm : getMission id sys.store with
  | none =>
    have hl : sys.store.missions.lookup id = none := hm
    unfold updateMission at hm'
    rw [hl] at hm'
    rw [hm] at hm'
    exact nomatch hm'
  | some m =>
    have hl : sys.store.missions.lookup id = some m := hm
    unfold updateMission at hm'
    rw [hl] at hm'
    simp only [researchSetQuest, setQuest, getMission, AList.lookup_insert, Option.some.injEq] at hm'
    rw [← hm'] at hf
    unfold Mission.findQuest Mission.updateQuest at hf
    dsimp only at hf
    rw [find_updateFirst_self] at hf
    · obtain ⟨f₀, hf₀, rfl⟩ := Option.map_eq_some_iff.1 hf
      refine ⟨f₀, ?_, hid, rfl⟩
      unfold boardFind
      rw [hm]
      exact hf₀
    · intro q hq
      exact hq

theorem watched_created {perm : GoString → GoString → Permission} {log : List SysEvent}
    {threads : List Thread} (h : Watched perm log threads) (id : GoString) :
    Watched perm (log ++ [.created id]) threads :=
  h.snoc trivial

/-- A tool call starts a sub-agent on a new mission, or does nothing to the system. -/
theorem delegate_cases (now : Nat) (caller : GoString × GoString) (sys : System) (q : Quest) :
    delegate now caller sys q = sys ∨
      q.tool = "karaka.delegate" ∧ ∃ karakaID st,
        delegate now caller sys q =
          { sys with
            store := st
            threads := sys.threads ++
              [⟨.subAgent caller, (newMissionID now sys.store).1, karakaID, 0, .plan⟩]
            log := sys.log ++ [.created (newMissionID now sys.store).1] ++
              [.delegated caller.1 (newMissionID now sys.store).1] } := by
  unfold delegate
  extract_lets instruction given karakaID
  split_ifs with hno
  · exact .inl rfl
  · refine .inr ⟨?_, karakaID, _, rfl⟩
    by_contra hne
    exact hno (.inl hne)

/-- A delegation brings the new mission under the guard of its parent. -/
theorem watched_delegate {now : Nat} {caller : GoString × GoString} {sys : System} {q : Quest}
    (h : Watched sys.perm sys.log sys.threads)
    (hapart : guards sys.log caller.1 = true → DelegatesApart now sys q) :
    Watched (delegate now caller sys q).perm (delegate now caller sys q).log
      (delegate now caller sys q).threads := by
  rcases delegate_cases now caller sys q with hsame | ⟨htool, karakaID, st, hnew⟩
  · rw [hsame]
    exact h
  · rw [hnew]
    dsimp only
    generalize hid : (newMissionID now sys.store).1 = id
    have hw := watched_created h id
    have hw' : Watched sys.perm (sys.log ++ [.created id] ++ [.delegated caller.1 id])
        sys.threads := by
      refine hw.snoc fun hg t ht htid qid hold => ?_
      have hg' : guards sys.log caller.1 = true := by
        rw [guards_snoc] at hg
        simp only [SysEvent.guards] at hg
        split_ifs at hg
        exact hg
      exact absurd hold (hapart hg' htool t ht (htid.trans hid.symm) qid)
    refine hw'.replace fun t ht => ?_
    rcases List.mem_append.1 ht with ht | ht
    · exact .inl ht
    · obtain rfl := List.mem_singleton.1 ht
      exact .inr (watched_of_not_levels nofun)

/-- The thread that a launch starts is outside the levels. -/
theorem launch_cases {id karakaID mode : GoString} {requireApproval : Bool} {sys sys' : System}
    (hl : launchOrchestration id karakaID mode requireApproval sys = some sys') :
    ∃ t : Thread, (∀ r s, t.pc ≠ .levels r s) ∧
      sys' = { sys with
        approval := requireApproval
        busy := true
        threads := sys.threads ++ [t]
        log := sys.log ++ [.launched id requireApproval] } := by
  unfold launchOrchestration at hl
  by_cases hbusy : sys.busy = true
  · rw [if_pos hbusy] at hl
    exact nomatch hl
  · rw [if_neg hbusy] at hl
    extract_lets thread at hl
    refine ⟨thread, fun r s => ?_, (Option.some.inj hl).symm⟩
    show (if mode = "research" then _ else _ : Thread).pc ≠ _
    split_ifs <;> exact nofun

theorem watched_launch {id karakaID mode : GoString} {requireApproval : Bool} {sys sys' : System}
    (h : Watched sys.perm sys.log sys.threads)
    (hclear : requireApproval = true →
      ∀ t ∈ sys.threads, t.missionID = id → t.Cleared sys.perm sys.log)
    (hl : launchOrchestration id karakaID mode requireApproval sys = some sys') :
    Watched sys'.perm sys'.log sys'.threads := by
  obtain ⟨thread, hpc, rfl⟩ := launch_cases hl
  have hw := h.snoc (e := .launched id requireApproval) hclear
  refine hw.replace fun t ht => ?_
  rcases List.mem_append.1 ht with ht | ht
  · exact .inl ht
  · obtain rfl := List.mem_singleton.1 ht
    exact .inr (watched_of_not_levels hpc)

/-- A step of a thread, before the delegations of the tools it starts. -/
theorem watched_step {now k : Nat} {act : ThreadAct} {sys : System} {t t' : Thread} {st : Store}
    {es : List Event} (h : Watched sys.perm sys.log sys.threads) (ht : sys.threads[k]? = some t)
    (hcare : guards sys.log t.missionID = true → t.Careful now sys act)
    (hstep : t.step sys.perm sys.approval sys.store act = some (t', st, es)) :
    Watched sys.perm (sys.log ++ es.filterMap (SysEvent.ofEvent sys.perm t))
        (sys.threads.set k t') ∧
      ((∃ r s, t.pc = .levels r s) → startedQuests es = [] ∨ ∃ q, startedQuests es = [q] ∧
        (guards sys.log t.missionID = true →
          DelegatesApart now { sys with store := st, threads := sys.threads.set k t' } q)) := by
  cases thread_step_cases hstep with
  | quiet _ hpc =>
    refine ⟨?_, fun _ => .inl rfl⟩
    rw [List.filterMap_nil, List.append_nil]
    exact h.set k (watched_of_not_levels (ne_levels_of_toolFree hpc))
  | stage _ _ hpc =>
    refine ⟨?_, fun _ => .inl rfl⟩
    rw [List.filterMap_nil, List.append_nil]
    exact h.set k (watched_of_not_levels (ne_levels_of_toolFree hpc))
  | execute hpc =>
    refine ⟨?_, fun _ => .inl rfl⟩
    rw [List.filterMap_nil, List.append_nil]
    refine h.set k ⟨fun r s hp => ?_, fun _ qid hold => ?_⟩
    · cases hp
      exact ⟨rfl, rfl⟩
    · obtain ⟨w, hw, -⟩ := hold
      have hphase : (Levels.start (t.run sys.approval) sys.store).phase.workers = [] := by
        rcases start_phase (t.run sys.approval) sys.store with hp | hp <;> rw [hp] <;> rfl
      rw [workers_levels rfl, hphase] at hw
      exact nomatch hw
  | level hpc hs =>
    obtain ⟨hw, hd⟩ := watched_level h ht hpc hcare hs
    exact ⟨hw, fun _ => hd⟩
  | @research now' k' stage hpc hstage =>
    refine ⟨?_, fun hlv => ?_⟩
    · have hw := h.set k (t := { t with pc := .researchWork k' }) (watched_of_not_levels nofun)
      have hfound := fun f => @researchStart_found now' t.missionID stage.1 sys f
      revert hfound
      rcases (getMission t.missionID _).bind fun m => m.findQuest stage.1 with _ | f
      · intro _
        rw [Option.toList_none, List.map_nil, List.filterMap_nil, List.append_nil]
        exact hw
      · intro hfound
        obtain ⟨f₀, hf₀, hid, htool⟩ := hfound f (List.mem_singleton_self f)
        refine hw.snoc (e := .executed t.missionID f.id (sys.perm t.karakaID f.tool)) ?_
        intro hask hg
        rw [hid]
        exact hcare hg k' stage f₀ hpc hstage hf₀ (by rw [← htool]; exact hask)
    · obtain ⟨r, s, hp⟩ := hlv
      rw [hpc] at hp
      exact nomatch hp

/-- The steps of a thread put no mission under guard. -/
theorem guards_ofEvent (perm : GoString → GoString → Permission) (t : Thread) (es : List Event)
    (log : List SysEvent) : guards (log ++ es.filterMap (SysEvent.ofEvent perm t)) = guards log := by
  induction es generalizing log with
  | nil => rw [List.filterMap_nil, List.append_nil]
  | cons e es ih =>
    cases e with
    | started q =>
      have hsplit : log ++ (Event.started q :: es).filterMap (SysEvent.ofEvent perm t) =
          (log ++ [.executed t.missionID q.id (perm t.karakaID q.tool)]) ++
            es.filterMap (SysEvent.ofEvent perm t) := by simp [SysEvent.ofEvent]
      rw [hsplit, ih, guards_snoc]
      rfl
    | parked x =>
      have hsplit : log ++ (Event.parked x :: es).filterMap (SysEvent.ofEvent perm t) =
          (log ++ [.parked t.missionID x]) ++ es.filterMap (SysEvent.ofEvent perm t) := by
        simp [SysEvent.ofEvent]
      rw [hsplit, ih, guards_snoc]
      rfl
    | completed x => exact ih log
    | failed x => exact ih log

theorem watched_unlock {t : Thread} {sys : System} (h : Watched sys.perm sys.log sys.threads) :
    Watched (unlock t sys).perm (unlock t sys).log (unlock t sys).threads := by
  unfold unlock
  split_ifs <;> exact h

/-- A step of a thread keeps the invariant. -/
theorem watched_thread {now k : Nat} {act : ThreadAct} {sys sys' : System}
    (h : Watched sys.perm sys.log sys.threads) (hcare : Careful sys (.thread now k act))
    (hstep : threadStep now k act sys = some sys') :
    Watched sys'.perm sys'.log sys'.threads := by
  obtain ⟨t, t', st, es, ht, -, hts, rfl⟩ := threadStep_cases hstep
  obtain ⟨hw, hd⟩ := watched_step h ht (hcare t ht) hts
  refine watched_unlock ?_
  unfold delegateAll
  cases hpc : t.pc with
  | levels r s =>
    rcases hd ⟨r, s, hpc⟩ with hnone | ⟨q, hq, hapart⟩
    · rw [hnone]
      exact hw
    · rw [hq]
      refine watched_delegate hw fun hg => ?_
      rw [guards_ofEvent] at hg
      exact hapart hg
  | _ => exact hw

/-- A request to run, with its own mission or a new one. -/
theorem watched_orchestratorRun {now : Nat} {req : RunRequest} {sys : System}
    (h : Watched sys.perm sys.log sys.threads) (hcare : Careful sys (.run now req)) :
    Watched (orchestratorRun now req sys).perm (orchestratorRun now req sys).log
      (orchestratorRun now req sys).threads := by
  have launched : ∀ {id karakaID : GoString} {sys : System},
      Watched sys.perm sys.log sys.threads →
      (req.requireApproval = true →
        ∀ t ∈ sys.threads, t.missionID = id → t.Cleared sys.perm sys.log) →
      let sys' := (launchOrchestration id karakaID req.mode req.requireApproval sys).getD sys
      Watched sys'.perm sys'.log sys'.threads := by
    intro id karakaID sys h hclear
    cases hl : launchOrchestration id karakaID req.mode req.requireApproval sys with
    | none => exact h
    | some sys' => exact watched_launch h hclear hl
  unfold orchestratorRun
  extract_lets karakaID
  split_ifs with hmode hid hinstr
  · exact h
  · cases getMission req.missionID sys.store with
    | none => exact h
    | some m =>
      refine launched h fun happ => ?_
      have hc := hcare happ
      rw [if_neg hid] at hc
      exact hc
  · refine launched (watched_created h _) fun happ t ht htid qid hold => ?_
    have hc := hcare happ
    rw [if_pos (not_not.1 hid)] at hc
    exact absurd hold (hc t ht htid qid)
  · exact h

theorem watched_trigger {now : Nat} {instruction mode : GoString} {cron : Bool} {sys : System}
    (h : Watched sys.perm sys.log sys.threads) :
    Watched (Orchestrator.trigger now instruction mode cron sys).perm
      (Orchestrator.trigger now instruction mode cron sys).log
      (Orchestrator.trigger now instruction mode cron sys).threads := by
  have hw := watched_created h (createMission now instruction sys).1.id
  unfold Orchestrator.trigger
  dsimp only
  split
  · next sys' hl =>
    refine watched_launch ?_ ?_ hl
    · split_ifs <;> exact hw
    · intro happ
      exact nomatch happ
  · dsimp only
    split_ifs <;> exact hw

theorem watched_resume {id : Option GoString} {sys sys' : System}
    (h : Watched sys.perm sys.log sys.threads) (hstep : resumeInterrupted id sys = some sys') :
    Watched sys'.perm sys'.log sys'.threads := by
  unfold resumeInterrupted at hstep
  by_cases hres : ¬ sys.resuming = true
  · rw [if_pos hres] at hstep
    exact nomatch hstep
  rw [if_neg hres] at hstep
  cases id with
  | none =>
    dsimp only at hstep
    split_ifs at hstep
    cases hstep
    exact h
  | some id =>
    dsimp only at hstep
    cases hm : getMission id sys.store with
    | none => rw [hm] at hstep; exact nomatch hstep
    | some m =>
      rw [hm] at hstep
      dsimp only at hstep
      split_ifs at hstep
      cases hstep
      cases hl : launchOrchestration id "suparna_vpc" [] false { sys with resuming := false } with
      | none => exact h
      | some sys' =>
        refine watched_launch ?_ ?_ hl
        · exact h
        · intro happ
          exact nomatch happ

theorem watched_callStart {now : Nat} {id qid : GoString} {sys : System}
    (h : Watched sys.perm sys.log sys.threads) (hcare : Careful sys (.callStart now id qid)) :
    Watched (runHandlerStart now id qid sys).perm (runHandlerStart now id qid sys).log
      (runHandlerStart now id qid sys).threads := by
  have hseq := updateMission_seq now id (runQuestStart sys.perm qid) sys.store
  have hfound := fun m' f' => @runQuestStart_found now id qid sys.perm sys.store m' f'
  unfold runHandlerStart
  revert hseq hfound
  rcases updateMission now id (runQuestStart sys.perm qid) sys.store with ⟨e | m, st⟩
  · exact fun _ _ => h
  · intro hseq hfound
    dsimp only
    cases hf : m.findQuest qid with
    | none => exact h
    | some q =>
      refine watched_delegate h fun hg hdel t ht htid => ?_
      obtain ⟨m₀, f₀, hm₀, hf₀, hkey⟩ := hfound m q rfl hf
      have hfind : boardFind sys id qid = some f₀ := by
        unfold boardFind
        rw [hm₀]
        exact hf₀
      refine hcare hg f₀ hfind (by rw [← hkey.tool]; exact hdel) t ht ?_
      rw [htid]
      unfold newMissionID
      rw [hseq]

/-- Every careful step keeps the invariant. -/
theorem watched_sysStep {sys sys' : System} {act : SysAct}
    (h : Watched sys.perm sys.log sys.threads) (hcare : Careful sys act)
    (hstep : sysStep sys act = some sys') : Watched sys'.perm sys'.log sys'.threads := by
  cases act with
  | thread now k act => exact watched_thread h hcare hstep
  | run now req => cases hstep; exact watched_orchestratorRun h hcare
  | trigger now instruction mode cron => cases hstep; exact watched_trigger h
  | resume id => exact watched_resume h hstep
  | restart => cases hstep; exact ⟨h.asked, fun _ ht => nomatch ht⟩
  | create now instruction quests =>
    cases hstep
    unfold createHandler
    dsimp only
    split_ifs
    · exact h
    · exact watched_created h _
    · exact watched_created h _
  | approve now id qid approve reason =>
    cases hstep
    unfold approveHandler
    rcases updateMission now id (approveQuest qid approve reason) sys.store with ⟨e | m, st⟩
    · exact h
    · dsimp only
      split_ifs
      · exact h.snoc (e := .approved id qid) trivial
      · exact h
  | claim now id qid karakaID => cases hstep; exact h
  | callStart now id qid => cases hstep; exact watched_callStart h hcare
  | callFinish now id qid res =>
    unfold sysStep runHandlerFinish at hstep
    dsimp only at hstep
    split_ifs at hstep
    cases hstep
    exact h
  | reward now id qid verdict score reason autoAdd =>
    cases hstep
    unfold rewardHandler
    cases parseVerdict verdict <;> exact h
  | addQuest now id title organHint tool params dependsOn eta => cases hstep; exact h
  | synthesize now id summary => cases hstep; exact h
  | delete id =>
    cases hstep
    unfold deleteHandler
    dsimp only
    split_ifs <;> exact h
  | setPermissions perm =>
    cases hstep
    exact ⟨h.asked, fun t ht => ⟨(h.each t ht).args, hcare t ht⟩⟩
  | persist id =>
    cases hstep
    unfold Orchestrator.persist
    cases getMission id sys.store <;> exact h

/-- In a run of careful steps no quest of a mission under guard that needs a human is started without
one. -/
theorem askedFirst_of_careful {store : Store} {saved : AList fun _ : GoString => Mission}
    {perm : GoString → GoString → Permission} {acts : List SysAct} {sys : System}
    (hrun : runSteps sysStep (.boot store saved perm) acts = some sys)
    (hmeet : StepsMeet sysStep Careful (.boot store saved perm) acts) : AskedFirst sys.log := by
  have h := runSteps_invariant_of_meet
    (P := fun sys : System => Watched sys.perm sys.log sys.threads)
    (fun sys act sys' h hC hstep => watched_sysStep h hC hstep) hrun hmeet
    ⟨askedFirst_nil, fun _ ht => nomatch ht⟩
  exact h.asked

/-- A relay without missions, where every tool needs a human. -/
def askingRelay : System := .boot ⟨∅, 0⟩ ∅ fun _ _ => .ask

/-- The steps that take the only thread, at the head of its first iteration, to the tool of `q1`. -/
def workQ1 : List SysAct :=
  [.thread 0 0 (.reply none), .thread 0 0 (.tick 0), .thread 0 0 (.level (.head false)),
    .thread 0 0 (.level (.visit "q1" 0)), .thread 0 0 (.level .endScan)] ++
  List.replicate 5 (.thread 0 0 (.level (.work 0 (boardHost .ask))))

/-- A board launched with `requireApproval`, after which the relay stops, starts again and resumes
it. -/
def resumedRun : List SysAct :=
  [.run 0 ⟨[], "m0-1", [], [], true⟩, .persist "m0-1", .restart, .resume (some "m0-1")] ++ workQ1

/-- Before that, a human has approved its only quest. -/
def approvedRun : List SysAct :=
  [.create 0 "read" [{ boardQuest "q1" [] with status := .waitingApproval }],
    .approve 0 "m0-1" "q1" true []] ++ resumedRun

/-- The mission of that run once it is resumed. -/
def resumedMission (q : Quest) : Mission :=
  ⟨"m0-1", "read", [q], .interrupted, [], "\n\n_Interrupted by relay restart._", none, 0, 0⟩

/-- The system of that run once the mission is resumed. -/
def resumedSystem (q : Quest) (pc : ThreadPc) (log : List SysEvent) : System where
  store := ⟨AList.singleton (str "m0-1") (resumedMission q), 1⟩
  saved := AList.singleton (str "m0-1") (resumedMission (boardQuest "q1" []))
  perm := fun _ _ => .ask
  approval := false
  busy := true
  resuming := false
  threads := [⟨.orchestration, "m0-1", "suparna_vpc", 0, pc⟩]
  calls := []
  log := [.created "m0-1", .approved "m0-1" "q1", .launched "m0-1" true, .launched "m0-1" false] ++
    log

/-- Its thread in the levels, with one goroutine. -/
def resumedLevels (pc : WorkerPc) (log : List Event) : ThreadPc :=
  .levels ⟨"m0-1", "suparna_vpc", false⟩ ⟨∅, [], [], .level [(boardQuest "q1" [], pc)], log⟩

theorem askedFirst_approved_then_resumed :
    ∃ sys, runSteps sysStep askingRelay approvedRun = some sys ∧
      sys.log = [.created "m0-1", .approved "m0-1" "q1", .launched "m0-1" true,
        .launched "m0-1" false, .executed "m0-1" "q1" .ask] ∧
      guards sys.log "m0-1" = true ∧ AskedFirst sys.log := by
  obtain ⟨sys, hrun⟩ : ∃ sys, runSteps sysStep askingRelay approvedRun = some sys := ⟨_, rfl⟩
  have hlog : (runSteps sysStep askingRelay approvedRun).map System.log =
      some [.created "m0-1", .approved "m0-1" "q1", .launched "m0-1" true,
        .launched "m0-1" false, .executed "m0-1" "q1" .ask] := rfl
  rw [hrun] at hlog
  have hlog := Option.some.inj hlog
  refine ⟨sys, hrun, hlog, by rw [hlog]; rfl, askedFirst_of_careful hrun ?_⟩
  have tick {q : Quest} {pc : ThreadPc} {log : List SysEvent} (hpc : ∀ k, pc ≠ .researchStart k) :
      Careful (resumedSystem q pc log) (.thread 0 0 (.tick 0)) := by
    intro t ht _ k step f hk
    cases ht
    exact absurd hk (hpc k)
  have work {q : Quest} {pc : WorkerPc} {log : List SysEvent} {es : List Event}
      (hc : pc.Careful 0 (resumedSystem q (resumedLevels pc es) log)
        ⟨.orchestration, "m0-1", "suparna_vpc", 0, resumedLevels pc es⟩
        ⟨"m0-1", "suparna_vpc", false⟩ (boardQuest "q1" [])) :
      Careful (resumedSystem q (resumedLevels pc es) log)
        (.thread 0 0 (.level (.work 0 (boardHost .ask)))) := by
    intro t ht _ r s q pc hpc hk
    cases ht
    cases hpc
    cases hk
    exact hc
  have level {q : Quest} {pc : ThreadPc} {log : List SysEvent} {act : Act}
      (hact : ∀ k h, act ≠ .work k h) :
      Careful (resumedSystem q pc log) (.thread 0 0 (.level act)) := by
    intro t ht _
    cases act with
    | work k h => exact absurd rfl (hact k h)
    | _ => trivial
  let q := boardQuest "q1" []
  let qc : Quest := { q with status := .claimed, claim := "suparna_vpc" }
  let qr : Quest := { qc with status := .running }
  let r : Run := ⟨"m0-1", "suparna_vpc", false⟩
  let L (p : AList fun _ : GoString => Quest) (phase : Phase) : ThreadPc :=
    .levels r ⟨p, [], [], phase, []⟩
  let act (a : Act) : SysAct := .thread 0 0 (.level a)
  let worker : SysAct := act (.work 0 (boardHost .ask))
  have h1 : sysStep (resumedSystem q .plan []) (.thread 0 0 (.reply none)) =
      some (resumedSystem q .execute []) := rfl
  have h2 : sysStep (resumedSystem q .execute []) (.thread 0 0 (.tick 0)) =
      some (resumedSystem q (L (.singleton (str "q1") q) .head) []) := rfl
  have h3 : sysStep (resumedSystem q (L (.singleton (str "q1") q) .head) []) (act (.head false)) =
      some (resumedSystem q (L (.singleton (str "q1") q) (.scan [str "q1"] [])) []) := rfl
  have h4 : sysStep (resumedSystem q (L (.singleton (str "q1") q) (.scan [str "q1"] [])) [])
      (act (.visit "q1" 0)) =
      some (resumedSystem q (L (.singleton (str "q1") q) (.scan [] [q])) []) := rfl
  have h5 : sysStep (resumedSystem q (L (.singleton (str "q1") q) (.scan [] [q])) [])
      (act .endScan) = some (resumedSystem q (resumedLevels .queued []) []) := rfl
  have h6 : sysStep (resumedSystem q (resumedLevels .queued []) []) worker =
      some (resumedSystem q (resumedLevels .gate []) []) := rfl
  have h7 : sysStep (resumedSystem q (resumedLevels .gate []) []) worker =
      some (resumedSystem q (resumedLevels .interpolate []) []) := rfl
  have h8 : sysStep (resumedSystem q (resumedLevels .interpolate []) []) worker =
      some (resumedSystem q (resumedLevels .claim []) []) := rfl
  have h9 : sysStep (resumedSystem q (resumedLevels .claim []) []) worker =
      some (resumedSystem qc (resumedLevels (.run 0) []) []) := rfl
  have h10 : sysStep (resumedSystem qc (resumedLevels (.run 0) []) []) worker =
      some (resumedSystem qr (resumedLevels (.tool 0) [.started qr])
        [.executed "m0-1" "q1" .ask]) := rfl
  refine stepsMeet_cons trivial rfl (stepsMeet_cons trivial rfl ?_)
  refine stepsMeet_cons (fun _ t ht => nomatch ht) rfl ?_
  refine stepsMeet_cons trivial rfl (stepsMeet_cons trivial rfl ?_)
  refine stepsMeet_cons trivial (rfl : _ = some (resumedSystem q .plan [])) ?_
  refine stepsMeet_cons (fun _ _ _ => trivial) h1 (stepsMeet_cons (tick nofun) h2 ?_)
  refine stepsMeet_cons (level nofun) h3 (stepsMeet_cons (level nofun) h4 ?_)
  refine stepsMeet_cons (level nofun) h5 (stepsMeet_cons (work trivial) h6 ?_)
  refine stepsMeet_cons (work fun _ => .inr ⟨rfl, rfl⟩) h7 (stepsMeet_cons (work trivial) h8 ?_)
  refine stepsMeet_cons (work trivial) h9 (stepsMeet_cons (work fun f hf => ?_) h10 trivial)
  cases hf
  exact ⟨fun _ => rfl, fun hc => nomatch hc⟩

/-- The board is resumed without approval mode, so the gate lets the quest pass. -/
theorem resumed_run_skips_gate :
    ∃ sys, runSteps sysStep askingRelay
        ([.create 0 "read" [boardQuest "q1" []]] ++ resumedRun) = some sys ∧
      ¬ AskedFirst sys.log := by
  refine ⟨_, rfl, fun h => ?_⟩
  have happ := h [.created "m0-1", .launched "m0-1" true, .launched "m0-1" false] "m0-1" "q1" []
    rfl rfl
  exact nomatch happ

end Gafam.Orchestrator
