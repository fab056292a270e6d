import Gafam.Orchestrator.Proofs.ConfluenceProofs
import Gafam.Orchestrator.Termination

/-!
# A run of the level loop ends

Every worker comes closer to its end with each step. A round that comes back to the head of the loop has
launched a level, and the quests of a level are pending no more.
-/

namespace Gafam.Orchestrator

open Gafam.Go Gafam.Lib Gafam.Moksa

/-! ## A worker -/

/-- How many steps a worker still makes at most. -/
def WorkerPc.rank : WorkerPc → Nat
  | queued => 14
  | gate => 13
  | interpolate => 12
  | reset => 11
  | claim => 10
  | run attempt => 3 * (maxRepairs - attempt) + 3
  | tool attempt => 3 * (maxRepairs - attempt) + 2
  | repair attempt _ => 3 * (maxRepairs - attempt) + 1
  | rewardDone => 1
  | rewardFailed _ => 1
  | finished => 0

/-- The attempt is one of those that `runOne` makes. -/
def WorkerPc.InBounds : WorkerPc → Prop
  | run attempt => attempt ≤ maxRepairs
  | tool attempt => attempt ≤ maxRepairs
  | repair attempt _ => attempt < maxRepairs
  | _ => True

/-- How many attempts a worker can have made. -/
def WorkerPc.attempts : WorkerPc → Nat
  | queued | gate | interpolate | reset | claim => 0
  | run attempt => attempt
  | tool attempt => attempt + 1
  | repair attempt _ => attempt + 1
  | rewardDone | rewardFailed _ | finished => maxRepairs + 1

/-- What a step may make of a worker, `n` being the attempts it stands for. -/
structure Advances (pc : WorkerPc) (n : Nat) (pc' : WorkerPc) : Prop where
  inBounds : pc'.InBounds
  rank : pc'.rank < pc.rank
  attempts : pc.attempts + n ≤ pc'.attempts

theorem attempts_le {pc : WorkerPc} (h : pc.InBounds) : pc.attempts ≤ maxRepairs + 1 := by
  cases pc with
  | run attempt => exact Nat.le_succ_of_le h
  | tool attempt => exact Nat.succ_le_succ h
  | repair attempt _ => exact Nat.succ_le_succ (Nat.le_of_lt h)
  | _ => simp [WorkerPc.attempts]

/-- After a failed attempt there is another one to come, or the verdict. -/
theorem advances_observe {pc : WorkerPc} {n attempt : Nat} (e : GoString) (ha : attempt ≤ maxRepairs)
    (hrank : 3 * (maxRepairs - attempt) + 1 < pc.rank) (hn : pc.attempts + n ≤ attempt + 1) :
    Advances pc n (.observe attempt e) := by
  unfold WorkerPc.observe
  by_cases hlast : attempt = maxRepairs
  · rw [if_pos hlast]
    refine ⟨trivial, ?_, ?_⟩
    · show 1 < pc.rank
      omega
    · show pc.attempts + n ≤ maxRepairs + 1
      omega
  · rw [if_neg hlast]
    exact ⟨Nat.lt_of_le_of_ne ha hlast, hrank, hn⟩

/-- The attempts that a step of a worker stands for. -/
def WorkerPc.tries : WorkerPc → Nat
  | run _ => 1
  | _ => 0

theorem advances_step {r : Run} {h : Host} {q : Quest} {st : Store} {pc : WorkerPc} (hb : pc.InBounds)
    (hpc : pc ≠ .finished) : Advances pc pc.tries (pc.step r h q st).1 := by
  cases pc with
  | queued => exact (⟨trivial, by decide, le_refl _⟩ : Advances .queued 0 .gate)
  | gate =>
    have hend : Advances .gate 0 .finished := ⟨trivial, by decide, Nat.zero_le _⟩
    have hpass : Advances .gate 0 .interpolate := ⟨trivial, by decide, le_refl _⟩
    simp only [WorkerPc.step]
    cases h.perm r.karakaID q.tool with
    | deny => exact hend
    | allow => exact hpass
    | ask =>
      dsimp only
      split_ifs
      · exact hend
      · exact hpass
  | interpolate =>
    simp only [WorkerPc.step]
    split_ifs
    · exact ⟨trivial, by decide, le_refl _⟩
    · exact ⟨trivial, by decide, le_refl _⟩
  | reset => exact (⟨trivial, by decide, le_refl _⟩ : Advances .reset 0 .claim)
  | claim =>
    have hend : Advances .claim 0 .finished := ⟨trivial, by decide, Nat.zero_le _⟩
    have hrun : Advances .claim 0 (.run 0) := ⟨Nat.zero_le _, by decide, le_refl _⟩
    simp only [WorkerPc.step]
    rcases updateMission h.now r.missionID (claimQuest q.id r.karakaID) st with ⟨_ | _, _⟩
    · exact hend
    · exact hrun
  | run attempt =>
    have hob : ∀ e, Advances (.run attempt) 1 (.observe attempt e) := fun e =>
      advances_observe e hb (by simp [WorkerPc.rank]) (le_refl _)
    simp only [WorkerPc.step]
    rcases updateMission h.now r.missionID (runQuestStart h.perm q.id) st with ⟨e | m, _⟩
    · exact hob e
    · dsimp only
      cases m.findQuest q.id with
      | none => exact hob _
      | some rq => exact ⟨hb, Nat.lt_succ_self _, le_refl _⟩
  | tool attempt =>
    have hob : ∀ e, Advances (.tool attempt) 0 (.observe attempt e) := fun e =>
      advances_observe e hb (by simp [WorkerPc.rank]) (le_refl _)
    simp only [WorkerPc.step]
    rcases updateMission h.now r.missionID (runQuestFinish q.id h.tool) st with ⟨e | m, _⟩
    · exact hob e
    · dsimp only
      cases m.findQuest q.id with
      | none => exact hob _
      | some rq =>
        dsimp only
        split_ifs
        · exact ⟨trivial, by simp [WorkerPc.rank], Nat.succ_le_succ hb⟩
        · exact hob _
        · exact hob _
  | repair attempt lastErr =>
    have hstop : Advances (.repair attempt lastErr) 0 (.rewardFailed lastErr) := by
      have hb' : attempt < maxRepairs := hb
      refine ⟨trivial, ?_, Nat.succ_le_succ (Nat.le_of_lt hb')⟩
      show 1 < 3 * (maxRepairs - attempt) + 1
      omega
    simp only [WorkerPc.step]
    cases h.repair with
    | none => exact hstop
    | some params =>
      dsimp only
      rcases updateMission h.now r.missionID
        (setQuest q.id fun qq => { qq with params := params, error := [] }) st with ⟨_ | _, _⟩
      · exact hstop
      · have hb' : attempt < maxRepairs := hb
        refine ⟨hb', ?_, le_refl _⟩
        show 3 * (maxRepairs - (attempt + 1)) + 3 < 3 * (maxRepairs - attempt) + 1
        omega
  | rewardDone => exact ⟨trivial, Nat.lt_succ_self _, le_refl _⟩
  | rewardFailed lastErr => exact ⟨trivial, Nat.lt_succ_self _, le_refl _⟩
  | finished => exact absurd rfl hpc

/-! ## The phases -/

/-- What the variables of the loop keep in each phase. -/
def Phase.Fits (pending : AList fun _ : GoString => Quest) : Phase → Prop
  | scan todo taken =>
    (todo ++ taken.map Quest.id).Nodup ∧ ∀ id ∈ todo ++ taken.map Quest.id, id ∈ pending
  | level workers =>
    (workers.map fun w => w.1.id).Nodup ∧ ∀ w ∈ workers, w.1.id ∉ pending ∧ w.2.InBounds
  | _ => True

/-- An entry of the snapshot stands under its own id, and a quest is in one place. -/
structure Levels.Fits (s : Levels) : Prop where
  entry : ∀ id q, s.pending.lookup id = some q → q.id = id
  phase : s.phase.Fits s.pending

/-- How many steps of its own the run still makes at most. -/
def Levels.rank (s : Levels) : Nat :=
  match s.phase with
  | .head => loopBound s.size
  | .scan todo _ => todo.length + (s.size * s.size + 18 * s.size + 3)
  | .drop => s.size + 1
  | .level workers => (workers.map fun w => w.2.rank).sum + (1 + loopBound s.size)
  | .returned => 0

/-- Fewer than `n` quests are pending whenever the run comes back to the head of the loop. -/
def Levels.Below (n : Nat) (s : Levels) : Prop :=
  match s.phase with
  | .head | .level _ => s.size < n
  | _ => s.size ≤ n

theorem length_keys_erase {pending : AList fun _ : GoString => Quest} {id : GoString} (h : id ∈ pending) :
    (pending.erase id).keys.length + 1 = pending.keys.length := by
  have hkeys := congrArg List.length (AList.keys_erase id pending)
  rw [@List.length_erase_of_mem _ instBEqOfDecidableEq _ id pending.keys (AList.mem_keys.1 h)] at hkeys
  have := List.length_pos_of_mem (AList.mem_keys.1 h)
  omega

theorem mem_foldl_erase {level : List Quest} {pending : AList fun _ : GoString => Quest} {id : GoString} :
    id ∈ level.foldl (fun p q => p.erase q.id) pending ↔ id ∈ pending ∧ id ∉ level.map Quest.id := by
  induction level generalizing pending with
  | nil => simp
  | cons q level ih =>
    rw [List.foldl_cons, ih, AList.mem_erase, List.map_cons, List.mem_cons, not_or]
    tauto

theorem length_keys_foldl_erase {level : List Quest} {pending : AList fun _ : GoString => Quest}
    (hnd : (level.map Quest.id).Nodup) (hmem : ∀ id ∈ level.map Quest.id, id ∈ pending) :
    (level.foldl (fun p q => p.erase q.id) pending).keys.length + level.length = pending.keys.length := by
  induction level generalizing pending with
  | nil => rfl
  | cons q level ih =>
    obtain ⟨hq, hnd⟩ := List.nodup_cons.1 hnd
    have herase := length_keys_erase (hmem q.id (List.mem_cons_self ..))
    have hrest := @ih (pending.erase q.id) hnd (fun id hid => by
      refine AList.mem_erase.2 ⟨?_, hmem id (List.mem_cons_of_mem _ hid)⟩
      rintro rfl
      exact hq hid)
    rw [List.foldl_cons, List.length_cons]
    omega

/-- A level costs less than the scan that has found it. -/
theorem launch_bound {n k l : Nat} (hl : 0 < l) (hn : k + l = n) :
    14 * l + (1 + loopBound k) < n * n + 18 * n + 3 := by
  subst hn
  have hkl : k * 1 ≤ k * l := Nat.mul_le_mul_left k hl
  have hll : 1 * l ≤ l * l := Nat.mul_le_mul_right l hl
  have hsq : (k + l) * (k + l) = k * k + 2 * (k * l) + l * l := by
    rw [Nat.add_mul, Nat.mul_add, Nat.mul_add, Nat.mul_comm l k]
    omega
  unfold loopBound
  omega

/-! ## One step -/

/-- What a step of the loop does: it keeps the variables in order, makes the run shorter, and leaves fewer
quests pending if it comes back to the head. -/
structure Onward (n : Nat) (s s' : Levels) : Prop where
  fits : s'.Fits
  rank : s'.rank < s.rank
  below : (s.phase = .head ∧ s.size ≤ n) ∨ s.Below n → s'.Below n

theorem visit_perm {todo : List GoString} {id : GoString} (ids : List GoString) (h : id ∈ todo) :
    (todo ++ ids).Perm (id :: (todo.erase id ++ ids)) :=
  (List.perm_cons_erase h).append_right ids

/-- The scan is done with a quest. -/
theorem fits_visited {pending : AList fun _ : GoString => Quest} {todo : List GoString} {level : List Quest}
    {id : GoString} (hf : (Phase.scan todo level).Fits pending) (hid : id ∈ todo) :
    id ∉ todo.erase id ++ level.map Quest.id ∧ (Phase.scan (todo.erase id) level).Fits pending := by
  obtain ⟨hnd, hmem⟩ := hf
  have hperm := visit_perm (level.map Quest.id) hid
  obtain ⟨hnot, hnd⟩ := List.nodup_cons.1 (hperm.nodup_iff.1 hnd)
  exact ⟨hnot, hnd, fun x hx => hmem x (hperm.mem_iff.2 (List.mem_cons_of_mem _ hx))⟩

theorem onward_doomed {n : Nat} {s : Levels} {todo : List GoString} {level : List Quest} {id : GoString}
    {failed : List GoString} (hf : s.Fits) (hp : s.phase = .scan todo level) (hid : id ∈ todo) :
    Onward n s
      { s with pending := s.pending.erase id, failed := failed, phase := .scan (todo.erase id) level } := by
  have hfits := hf.phase
  rw [hp] at hfits
  obtain ⟨hnot, hnd, hmem⟩ := fits_visited hfits hid
  have hpending : id ∈ s.pending := hfits.2 id (List.mem_append_left _ hid)
  have hsize : (s.pending.erase id).keys.length + 1 = s.size := length_keys_erase hpending
  have hlen := List.length_erase_of_mem hid
  have hpos := List.length_pos_of_mem hid
  refine ⟨⟨fun x q hq => hf.entry x q (lookup_erase_some hq), hnd, fun x hx => ?_⟩, ?_, fun h => ?_⟩
  · refine AList.mem_erase.2 ⟨?_, hmem x hx⟩
    rintro rfl
    exact hnot hx
  · have hsq := Nat.mul_le_mul (Nat.le_of_succ_le (Nat.le_of_eq hsize)) (Nat.le_of_succ_le (Nat.le_of_eq hsize))
    simp only [Levels.rank, hp]
    simp only [Levels.size] at hsize hsq ⊢
    omega
  · simp only [Levels.Below, hp] at h ⊢
    simp only [Levels.size] at hsize h ⊢
    rcases h with ⟨h, -⟩ | h
    · cases h
    · omega

/-- A visit that leaves the quest pending. -/
theorem onward_visited {n : Nat} {s : Levels} {todo : List GoString} {level level' : List Quest} {id : GoString}
    (hf : s.Fits) (hp : s.phase = .scan todo level) (hid : id ∈ todo)
    (hfits : (Phase.scan (todo.erase id) level').Fits s.pending) :
    Onward n s { s with phase := .scan (todo.erase id) level' } := by
  have hlen := List.length_erase_of_mem hid
  have hpos := List.length_pos_of_mem hid
  refine ⟨⟨hf.entry, hfits⟩, ?_, fun h => ?_⟩
  · simp only [Levels.rank, hp, Levels.size]
    omega
  · simp only [Levels.Below, hp] at h ⊢
    rcases h with ⟨h, -⟩ | h
    · cases h
    · exact h

theorem onward_ready {n : Nat} {s : Levels} {todo : List GoString} {level : List Quest} {q : Quest}
    (hf : s.Fits) (hp : s.phase = .scan todo level) (hid : q.id ∈ todo) :
    Onward n s { s with phase := .scan (todo.erase q.id) (level ++ [q]) } := by
  have hfits := hf.phase
  rw [hp] at hfits
  refine onward_visited hf hp hid ?_
  have hperm : (todo.erase q.id ++ (level ++ [q]).map Quest.id).Perm (todo ++ level.map Quest.id) := by
    rw [List.map_append, ← List.append_assoc]
    exact (List.perm_append_singleton ..).trans (visit_perm _ hid).symm
  exact ⟨hperm.nodup_iff.2 hfits.1, fun x hx => hfits.2 x (hperm.mem_iff.1 hx)⟩

theorem onward_launch {n : Nat} {s : Levels} {level : List Quest} (hf : s.Fits)
    (hp : s.phase = .scan [] level) (hl : level ≠ []) :
    Onward n s
      { s with
        pending := level.foldl (fun p q => p.erase q.id) s.pending
        phase := .level (level.map fun q => (q, .queued)) } := by
  have hfits := hf.phase
  rw [hp] at hfits
  obtain ⟨hnd, hmem⟩ := hfits
  rw [List.nil_append] at hnd hmem
  have hsize := length_keys_foldl_erase hnd hmem
  have hpos := List.length_pos_iff.2 hl
  refine ⟨⟨fun x q hq => hf.entry x q (lookup_foldl_erase hq), ?_, fun w hw => ?_⟩, ?_, fun h => ?_⟩
  · rw [List.map_map]
    exact hnd
  · obtain ⟨q, hq, rfl⟩ := List.mem_map.1 hw
    exact ⟨fun h => (mem_foldl_erase.1 h).2 (List.mem_map_of_mem hq), trivial⟩
  · have hsum : ((level.map fun q => (q, WorkerPc.queued)).map fun w => w.2.rank).sum = 14 * level.length := by
      rw [List.map_map]
      show (level.map fun _ => 14).sum = _
      rw [List.map_const', List.sum_replicate_nat, Nat.mul_comm]
    have hbound := launch_bound hpos hsize
    simp only [Levels.rank, hp, hsum, List.length_nil, Nat.zero_add]
    exact hbound
  · simp only [Levels.Below, hp] at h ⊢
    simp only [Levels.size] at h ⊢
    rcases h with ⟨h, -⟩ | h
    · cases h
    · omega

theorem onward_drop {n : Nat} {s : Levels} {id : GoString} {failed : List GoString} (hf : s.Fits)
    (hp : s.phase = .drop) (hid : id ∈ s.pending) :
    Onward n s { s with pending := s.pending.erase id, failed := failed, phase := .drop } := by
  have hsize : (s.pending.erase id).keys.length + 1 = s.size := length_keys_erase hid
  refine ⟨⟨fun x q hq => hf.entry x q (lookup_erase_some hq), trivial⟩, ?_, fun h => ?_⟩
  · simp only [Levels.rank, hp]
    simp only [Levels.size] at hsize ⊢
    omega
  · simp only [Levels.Below, hp] at h ⊢
    simp only [Levels.size] at hsize h ⊢
    rcases h with ⟨h, -⟩ | h
    · cases h
    · omega

theorem workerOf_eq {s : Levels} {workers : List (Quest × WorkerPc)} (hp : s.phase = .level workers) (k : Nat)
    (h : Host) : s.workerOf (.work k h) = workers[k]? := by
  simp only [Levels.workerOf, hp]

theorem onward_work {n : Nat} {r : Run} {s : Levels} {st : Store} {workers : List (Quest × WorkerPc)} {k : Nat}
    {h : Host} {q : Quest} {pc : WorkerPc} (hf : s.Fits) (hp : s.phase = .level workers)
    (hk : workers[k]? = some (q, pc)) (hpc : pc ≠ .finished) :
    Onward n s
      { s.record (pc.step r h q st).2.2 with
        phase := .level (workers.set k (q, (pc.step r h q st).1)) } := by
  have hfits := hf.phase
  rw [hp] at hfits
  obtain ⟨hnd, hworkers⟩ := hfits
  obtain ⟨hout, hb⟩ : q.id ∉ s.pending ∧ pc.InBounds := hworkers (q, pc) (List.mem_of_getElem? hk)
  have hadv := @advances_step r h q st pc hb hpc
  have hsame := (record_spec s (pc.step r h q st).2.2).1
  generalize (pc.step r h q st).2.2 = e at hsame ⊢
  generalize (pc.step r h q st).1 = pc' at hadv ⊢
  refine ⟨⟨?_, ?_, fun w hw => ?_⟩, ?_, fun hbelow => ?_⟩
  · rw [hsame]
    exact hf.entry
  · rw [map_set_worker hk]
    exact hnd
  · rw [hsame]
    rcases List.mem_or_eq_of_mem_set hw with hw | rfl
    · exact hworkers w hw
    · exact ⟨hout, hadv.inBounds⟩
  · have hsum : ((workers.set k (q, pc')).map fun w => w.2.rank).sum + pc.rank =
        (workers.map fun w => w.2.rank).sum + pc'.rank := sum_map_set hk (q, pc') fun w => w.2.rank
    have hlt := hadv.rank
    simp only [Levels.rank, hp, Levels.size, hsame]
    omega
  · simp only [Levels.Below, hp, Levels.size, hsame] at hbelow ⊢
    rcases hbelow with ⟨h, -⟩ | hbelow
    · cases h
    · exact hbelow

/-- A step of the loop, but for that of a worker that has ended. -/
theorem onward_step {n : Nat} {r : Run} {s s' : Levels} {st st' : Store} {act : Act} (hf : s.Fits)
    (hidle : (s.workerOf act).map Prod.snd ≠ some .finished) (h : Stepped r s st act s' st') :
    Onward n s s' := by
  cases h with
  | stop hp _ =>
    refine ⟨⟨hf.entry, trivial⟩, ?_, fun h => ?_⟩
    · simp only [Levels.rank, hp, loopBound]
      omega
    · simp only [Levels.Below, hp] at h ⊢
      exact h.elim And.right Nat.le_of_lt
  | scan hp _ =>
    refine ⟨⟨hf.entry, ?_, fun id hid => ?_⟩, ?_, fun h => ?_⟩
    · rw [List.map_nil, List.append_nil]
      exact s.pending.nodupKeys
    · rw [List.map_nil, List.append_nil] at hid
      exact AList.mem_keys.2 hid
    · simp only [Levels.rank, hp, loopBound, Levels.size]
      omega
    · simp only [Levels.Below, hp] at h ⊢
      exact h.elim And.right Nat.le_of_lt
  | doomed hp hid hq _ =>
    obtain rfl := hf.entry _ _ hq
    exact onward_doomed hf hp hid
  | ready hp hid hq _ =>
    obtain rfl := hf.entry _ _ hq
    exact onward_ready hf hp hid
  | blocked hp hid hq _ =>
    obtain rfl := hf.entry _ _ hq
    have hfits := hf.phase
    rw [hp] at hfits
    exact onward_visited hf hp hid (fits_visited hfits hid).2
  | pause hp _ =>
    refine ⟨⟨hf.entry, trivial⟩, ?_, fun h => ?_⟩
    · simp only [Levels.rank, hp, List.length_nil]
      omega
    · simp only [Levels.Below, hp] at h ⊢
      exact h.elim And.right id
  | stuck hp _ =>
    refine ⟨⟨hf.entry, trivial⟩, ?_, fun h => ?_⟩
    · simp only [Levels.rank, hp, List.length_nil, Levels.size]
      omega
    · simp only [Levels.Below, hp] at h ⊢
      exact h.elim And.right id
  | launch hp hl => exact onward_launch hf hp hl
  | drop hp hid => exact onward_drop hf hp hid
  | dropped hp _ =>
    refine ⟨⟨hf.entry, trivial⟩, ?_, fun h => ?_⟩
    · simp only [Levels.rank, hp]
      omega
    · simp only [Levels.Below, hp] at h ⊢
      exact h.elim And.right id
  | work hp hk _ =>
    refine onward_work hf hp hk ?_
    rintro rfl
    exact hidle (by rw [workerOf_eq hp, hk]; rfl)
  | join hp _ =>
    refine ⟨⟨hf.entry, trivial⟩, ?_, fun h => ?_⟩
    · simp only [Levels.rank, hp, Levels.size]
      omega
    · simp only [Levels.Below, hp] at h ⊢
      exact h.elim (fun h => nomatch h.1) id

/-! ## The next step -/

/-- Some worker that has not ended may go on: the semaphore is free if none of them holds it. -/
theorem exists_free_worker {workers : List (Quest × WorkerPc)} (h : ¬∀ w ∈ workers, w.2 = .finished) :
    ∃ (k : Nat) (q : Quest) (pc : WorkerPc), workers[k]? = some (q, pc) ∧ pc ≠ .finished ∧
      ¬(pc = .queued ∧ maxParallel ≤ active workers) := by
  by_cases hrun : ∃ w ∈ workers, w.2 ≠ .queued ∧ w.2 ≠ .finished
  · obtain ⟨⟨q, pc⟩, hw, hq, hfin⟩ := hrun
    obtain ⟨k, hk⟩ := List.mem_iff_getElem?.1 hw
    exact ⟨k, q, pc, hk, hfin, fun h => hq h.1⟩
  · push Not at h
    obtain ⟨⟨q, pc⟩, hw, hfin⟩ := h
    obtain ⟨k, hk⟩ := List.mem_iff_getElem?.1 hw
    refine ⟨k, q, pc, hk, hfin, fun h => ?_⟩
    have hactive : active workers = 0 := by
      refine List.countP_eq_zero.2 fun w hw => ?_
      simp only [decide_eq_true_eq]
      exact fun h => hrun ⟨w, hw, h⟩
    rw [hactive] at h
    exact absurd h.2 (by decide)

theorem goesForward_of_fits {r : Run} {s : Levels} (st : Store) (hf : s.Fits) (hp : s.phase ≠ .returned) :
    GoesForward r (s, st) := by
  intro cancelled now h
  have hfits := hf.phase
  suffices hstep : ∃ act, Act.Reads cancelled now h act ∧
      (s.workerOf act).map Prod.snd ≠ some .finished ∧ (step r (s, st) act).isSome by
    obtain ⟨act, hreads, hidle, hact⟩ := hstep
    obtain ⟨p', hp'⟩ := Option.isSome_iff_exists.1 hact
    exact ⟨act, p', hreads, (if_neg hidle).trans hp'⟩
  cases hphase : s.phase with
  | head =>
    refine ⟨.head cancelled, rfl, (Option.some_ne_none _).symm, ?_⟩
    simp only [step, hphase]
    split_ifs
    · rfl
    · rfl
  | scan todo level =>
    rw [hphase] at hfits
    cases todo with
    | nil => exact ⟨.endScan, trivial, (Option.some_ne_none _).symm, by simp only [step, hphase]; rfl⟩
    | cons id todo =>
      obtain ⟨q, hq⟩ := Option.isSome_iff_exists.1 (AList.lookup_isSome.2 (hfits.2 id (List.mem_cons_self ..)))
      refine ⟨.visit id now, rfl, (Option.some_ne_none _).symm, ?_⟩
      simp only [step, hphase]
      rw [if_pos (List.mem_cons_self ..), hq]
      rfl
  | drop =>
    cases hkeys : s.pending.keys with
    | nil =>
      refine ⟨.endDrop, trivial, (Option.some_ne_none _).symm, ?_⟩
      simp only [step, hphase]
      rw [if_pos hkeys]
      rfl
    | cons id ids =>
      have hid : id ∈ s.pending := AList.mem_keys.2 (by rw [hkeys]; exact List.mem_cons_self ..)
      refine ⟨.drop id now, rfl, (Option.some_ne_none _).symm, ?_⟩
      simp only [step, hphase]
      rw [if_pos hid]
      rfl
  | level workers =>
    by_cases hall : ∀ w ∈ workers, w.2 = .finished
    · refine ⟨.join, trivial, (Option.some_ne_none _).symm, ?_⟩
      simp only [step, hphase]
      rw [if_pos hall]
      rfl
    · obtain ⟨k, q, pc, hk, hfin, hsem⟩ := exists_free_worker hall
      have hidle : (s.workerOf (.work k h)).map Prod.snd ≠ some .finished := by
        rw [workerOf_eq hphase, hk]
        exact fun heq => hfin (Option.some.inj heq)
      refine ⟨.work k h, rfl, hidle, ?_⟩
      simp only [step, hphase, hk]
      rw [if_neg hsem]
      rfl
  | returned => exact absurd hphase hp

/-! ## Attempts -/

/-- What has been attempted so far: a pending quest not at all, and that of a worker as often as the worker
has counted. -/
structure Tallied (s : Levels) (tried : List GoString) : Prop where
  most : ∀ id, tried.count id ≤ maxRepairs + 1
  pending : ∀ id ∈ s.pending, tried.count id = 0
  workers : ∀ workers, s.phase = .level workers → ∀ w ∈ workers, tried.count w.1.id ≤ w.2.attempts

/-- A step that attempts nothing, and launches no level. -/
theorem tallied_quiet {s s' : Levels} {tried : List GoString} (hc : Tallied s tried)
    (hpending : ∀ id ∈ s'.pending, id ∈ s.pending) (hphase : ∀ workers, s'.phase ≠ .level workers) :
    Tallied s' (tried ++ []) := by
  rw [List.append_nil]
  exact ⟨hc.most, fun id hid => hc.pending id (hpending id hid), fun workers hp => absurd hp (hphase workers)⟩

theorem count_attempted {s : Levels} {workers : List (Quest × WorkerPc)} {k : Nat} {h : Host} {q : Quest}
    {pc : WorkerPc} (hp : s.phase = .level workers) (hk : workers[k]? = some (q, pc)) (id : GoString) :
    (s.attempted (.work k h)).toList.count id = if q.id = id then pc.tries else 0 := by
  unfold Levels.attempted
  rw [workerOf_eq hp, hk]
  cases pc with
  | run attempt =>
    show [q.id].count id = _
    rw [List.count_singleton]
    simp [WorkerPc.tries]
  | _ => simp [WorkerPc.tries]

theorem tallied_work {r : Run} {s : Levels} {st : Store} {tried : List GoString}
    {workers : List (Quest × WorkerPc)} {k : Nat} {h : Host} {q : Quest} {pc : WorkerPc} (hf : s.Fits)
    (hc : Tallied s tried) (hp : s.phase = .level workers) (hk : workers[k]? = some (q, pc))
    (hpc : pc ≠ .finished) :
    Tallied
      { s.record (pc.step r h q st).2.2 with
        phase := .level (workers.set k (q, (pc.step r h q st).1)) }
      (tried ++ (s.attempted (.work k h)).toList) := by
  have hfits := hf.phase
  rw [hp] at hfits
  obtain ⟨hnd, hworkers⟩ := hfits
  obtain ⟨hout, hb⟩ : q.id ∉ s.pending ∧ pc.InBounds := hworkers (q, pc) (List.mem_of_getElem? hk)
  have hadv := @advances_step r h q st pc hb hpc
  have hsame := (record_spec s (pc.step r h q st).2.2).1
  have hcount := count_attempted (h := h) hp hk
  have hmine : tried.count q.id ≤ pc.attempts := hc.workers workers hp (q, pc) (List.mem_of_getElem? hk)
  generalize (pc.step r h q st).2.2 = e at hsame ⊢
  generalize (pc.step r h q st).1 = pc' at hadv ⊢
  have hnext := hadv.attempts
  have hself : (tried ++ (s.attempted (.work k h)).toList).count q.id ≤ pc'.attempts := by
    rw [List.count_append, hcount, if_pos rfl]
    omega
  have hother : ∀ id, id ≠ q.id → (tried ++ (s.attempted (.work k h)).toList).count id = tried.count id := by
    intro id hid
    rw [List.count_append, hcount, if_neg (Ne.symm hid), Nat.add_zero]
  refine ⟨fun id => ?_, fun id hid => ?_, fun ws hws w hw => ?_⟩
  · by_cases hid : id = q.id
    · rw [hid]
      exact hself.trans (attempts_le hadv.inBounds)
    · rw [hother id hid]
      exact hc.most id
  · rw [hsame] at hid
    rw [hother id (fun heq => hout (heq ▸ hid))]
    exact hc.pending id hid
  · obtain rfl : workers.set k (q, pc') = ws := Phase.level.inj hws
    obtain ⟨i, hi⟩ := List.mem_iff_getElem?.1 hw
    rw [List.getElem?_set] at hi
    by_cases hik : k = i
    · have hlt : k < workers.length := (List.getElem?_eq_some_iff.1 hk).1
      rw [if_pos hik, if_pos hlt] at hi
      cases hi
      exact hself
    · rw [if_neg hik] at hi
      -- two workers never have the same quest
      have hid : w.1.id ≠ q.id := by
        intro heq
        have hki : (workers.map fun w => w.1.id)[k]? = some q.id := by
          rw [List.getElem?_map, hk]
          rfl
        have hii : (workers.map fun w => w.1.id)[i]? = some q.id := by
          rw [List.getElem?_map, hi, ← heq]
          rfl
        have hlt := (List.getElem?_eq_some_iff.1 hki).1
        exact hik ((List.getElem?_inj hlt hnd).1 (hki.trans hii.symm))
      rw [hother _ hid]
      exact hc.workers workers hp w (List.mem_of_getElem? hi)

theorem tallied_step {r : Run} {s s' : Levels} {st st' : Store} {act : Act} {tried : List GoString}
    (hf : s.Fits) (hc : Tallied s tried) (hidle : (s.workerOf act).map Prod.snd ≠ some .finished)
    (h : Stepped r s st act s' st') : Tallied s' (tried ++ (s.attempted act).toList) := by
  cases h with
  | stop hp _ => exact tallied_quiet hc (fun _ h => h) nofun
  | scan hp _ => exact tallied_quiet hc (fun _ h => h) nofun
  | doomed hp _ _ _ => exact tallied_quiet hc (fun _ h => (AList.mem_erase.1 h).2) nofun
  | ready hp _ _ _ => exact tallied_quiet hc (fun _ h => h) nofun
  | blocked hp _ _ _ => exact tallied_quiet hc (fun _ h => h) nofun
  | pause hp _ => exact tallied_quiet hc (fun _ h => h) nofun
  | stuck hp _ => exact tallied_quiet hc (fun _ h => h) nofun
  | @launch level hp hl =>
    have hfits := hf.phase
    rw [hp] at hfits
    show Tallied _ (tried ++ [])
    rw [List.append_nil]
    refine ⟨hc.most, fun id hid => hc.pending id (mem_foldl_erase.1 hid).1, fun ws hws w hw => ?_⟩
    obtain rfl : level.map (fun q => (q, .queued)) = ws := Phase.level.inj hws
    obtain ⟨q, hq, rfl⟩ := List.mem_map.1 hw
    exact Nat.le_of_eq (hc.pending q.id (hfits.2 q.id (List.mem_map_of_mem hq)))
  | drop hp _ => exact tallied_quiet hc (fun _ h => (AList.mem_erase.1 h).2) nofun
  | dropped hp _ => exact tallied_quiet hc (fun _ h => h) nofun
  | work hp hk _ =>
    refine tallied_work hf hc hp hk ?_
    rintro rfl
    exact hidle (by rw [workerOf_eq hp, hk]; rfl)
  | join hp _ => exact tallied_quiet hc (fun _ h => h) nofun

/-! ## Runs -/

theorem fits_start (r : Run) (st : Store) : (Levels.start r st).Fits := by
  refine ⟨fun id q hq => ?_, ?_⟩
  · obtain ⟨-, -, -, -, hid⟩ := start_lookup hq
    exact hid
  · rcases start_phase r st with h | h
    · rw [h]
      trivial
    · rw [h]
      trivial

theorem rank_start (r : Run) (st : Store) : (Levels.start r st).rank ≤ loopBound (Levels.start r st).size := by
  unfold Levels.rank
  rcases start_phase r st with h | h
  · rw [h]
  · rw [h]
    exact Nat.zero_le _

/-- A step of the run goes on, and others leave its variables alone. -/
theorem loopStep_cases {r : Run} {p p' : Levels × Store} {act : LoopAct} (h : loopStep r p act = some p') :
    (∃ a, act = .own a ∧ (p.1.workerOf a).map Prod.snd ≠ some .finished ∧ Stepped r p.1 p.2 a p'.1 p'.2) ∨
      ∃ st, act = .others st ∧ p'.1 = p.1 := by
  cases act with
  | own a =>
    simp only [loopStep] at h
    split_ifs at h with hidle
    exact .inl ⟨a, rfl, hidle, step_cases h⟩
  | others st =>
    cases h
    exact .inr ⟨st, rfl, rfl⟩

theorem loopStep_fits {r : Run} (p : Levels × Store) (act : LoopAct) (p' : Levels × Store) (hf : p.1.Fits)
    (h : loopStep r p act = some p') : p'.1.Fits := by
  rcases loopStep_cases h with ⟨a, -, hidle, hstep⟩ | ⟨st, -, hsame⟩
  · exact (onward_step (n := 0) hf hidle hstep).fits
  · rw [hsame]
    exact hf

theorem loopStep_own {r : Run} {n : Nat} {p p' : Levels × Store} {act : LoopAct} (hf : p.1.Fits)
    (h : loopStep r p act = some p') (hact : act.isOwn = true) : Onward n p.1 p'.1 := by
  rcases loopStep_cases h with ⟨a, rfl, hidle, hstep⟩ | ⟨st, rfl, -⟩
  · exact onward_step hf hidle hstep
  · cases hact

theorem loopStep_others {r : Run} {p p' : Levels × Store} {act : LoopAct} (h : loopStep r p act = some p')
    (hact : act.isOwn = false) : p'.1 = p.1 := by
  rcases loopStep_cases h with ⟨a, rfl, -, -⟩ | ⟨st, rfl, hsame⟩
  · cases hact
  · exact hsame

/-- The steps of a run, and what is left. -/
theorem ownSteps_add_rank {r : Run} {p p' : Levels × Store} {acts : List LoopAct} (hf : p.1.Fits)
    (hrun : runSteps (loopStep r) p acts = some p') : ownSteps acts + p'.1.rank ≤ p.1.rank :=
  @countP_add_rank_le _ _ (loopStep r) (fun p => p.1.Fits) LoopAct.isOwn (fun p => p.1.rank)
    (fun p a p' => loopStep_fits p a p') (fun _ _ _ hf h ha => (loopStep_own (n := 0) hf h ha).rank)
    (fun p a p' _ h ha => by rw [loopStep_others h ha]) _ _ _ hrun hf

/-- A round from the head of the loop. -/
theorem below_of_round {r : Run} {p p' : Levels × Store} {acts : List LoopAct} (hf : p.1.Fits)
    (hhead : p.1.phase = .head) (hrun : runSteps (loopStep r) p acts = some p') (hpos : 0 < ownSteps acts) :
    p'.1.Below p.1.size :=
  @holds_of_countP_pos _ _ (loopStep r) (fun q => q.1.Fits) LoopAct.isOwn
    (fun q => q.1.phase = .head ∧ q.1.size ≤ p.1.size) (fun q => q.1.Below p.1.size)
    (fun p a p' => loopStep_fits p a p')
    (fun _ _ _ hf hPQ h ha => (loopStep_own hf h ha).below hPQ)
    (fun q a q' _ h ha => by rw [loopStep_others h ha]; exact ⟨id, id⟩) _ _ _ hrun hf
    (.inl ⟨hhead, le_refl _⟩) (.inl hpos)

theorem tallied_start (r : Run) (st : Store) : Tallied (.start r st) [] := by
  refine ⟨fun _ => Nat.zero_le _, fun _ _ => rfl, fun workers hp => ?_⟩
  rcases start_phase r st with h | h
  · rw [h] at hp
    cases hp
  · rw [h] at hp
    cases hp

theorem tallied_run {r : Run} {st : Store} {acts : List LoopAct} {p : Levels × Store} {tried : List GoString}
    (hrun : runSteps (withHistory (loopStep r) noteAttempt) ((.start r st, st), []) acts = some (p, tried)) :
    p.1.Fits ∧ Tallied p.1 tried := by
  refine runSteps_invariant (P := fun h : (Levels × Store) × List GoString => h.1.1.Fits ∧ Tallied h.1.1 h.2)
    ?_ hrun ⟨fits_start r st, tallied_start r st⟩
  rintro ⟨p, tried⟩ act ⟨p', tried'⟩ ⟨hf, hc⟩ hstep
  obtain ⟨hstep, htried⟩ := withHistory_eq_some.1 hstep
  refine ⟨loopStep_fits p act p' hf hstep, ?_⟩
  rcases loopStep_cases hstep with ⟨a, rfl, hidle, hs⟩ | ⟨st, rfl, hsame⟩
  · dsimp only at htried
    rw [htried]
    exact tallied_step hf hc hidle hs
  · dsimp only at htried hsame ⊢
    rw [htried, hsame]
    exact hc

/-- Every run of every board ends, each round of it leaves fewer quests pending or the loop, and no quest is
attempted more than `maxRepairs + 1` times. -/
theorem run_ends {r : Run} {st st' : Store} {acts : List LoopAct} {s : Levels} {tried : List GoString}
    (hrun : runSteps (withHistory (loopStep r) noteAttempt) ((.start r st, st), []) acts =
      some ((s, st'), tried)) : Ends r st acts s st' tried := by
  obtain ⟨hf, hc⟩ := tallied_run hrun
  have hloop := runSteps_of_withHistory hrun
  refine ⟨?_, ?_, fun as bs t u hacts has ht hs hpos => ?_, hc.most⟩
  · have hsteps := ownSteps_add_rank (fits_start r st) hloop
    have hstart := rank_start r st
    dsimp only at hsteps
    omega
  · by_cases hp : s.phase = .returned
    · exact .inl hp
    · exact .inr (goesForward_of_fits st' hf hp)
  · have hft := runSteps_invariant (P := fun p : Levels × Store => p.1.Fits)
      (fun p a p' => loopStep_fits p a p') has (fits_start r st)
    obtain ⟨v, hv, hbs⟩ := runSteps_append_eq_some.1 (hacts ▸ hloop)
    rw [has] at hv
    cases hv
    have hbelow := below_of_round hft ht hbs hpos
    simp only [Levels.Below, hs] at hbelow
    exact hbelow

/-- A host where a tool fails, and the model proposes other parameters. -/
def downHost : Host := { boardHost .allow with tool := .error "down", repair := some (some []) }

/-- The tool of the only quest fails three times, and the run returns. -/
def downActs : List LoopAct :=
  [.own (.head false), .own (.visit "q1" 0), .own .endScan] ++ List.replicate 13 (.own (.work 0 downHost)) ++
    [.own .join, .own (.head false)]

theorem downActs_ends :
    ∃ s st' tried, runSteps (withHistory (loopStep (boardRun false)) noteAttempt)
        ((.start (boardRun false) (boardStore [boardQuest "q1" []]), boardStore [boardQuest "q1" []]), [])
        downActs = some ((s, st'), tried) ∧
      tried = [str "q1", str "q1", str "q1"] ∧
      Ends (boardRun false) (boardStore [boardQuest "q1" []]) downActs s st' tried :=
  ⟨_, _, _, rfl, rfl, run_ends rfl⟩

end Gafam.Orchestrator
