import Gafam.Orchestrator.Ends
import Gafam.Orchestrator.Proofs.ApprovalProofs
import Gafam.Orchestrator.Proofs.IdsProofs

/-!
# How the level loop leaves every quest

One invariant says for each quest that the run takes up where it stands: untouched, at work, after its
turn, or cancelled. It is kept by every step, whatever the order of the scans and of the goroutines
and whatever the tools return.
-/

namespace Gafam.Orchestrator

open Gafam.Go Gafam.Lib Gafam.Moksa Relation

/-! ## The turn of a quest -/

section Turn

variable (r : Run) (perm : GoString → Permission) (m₀ : Mission)

/-- The tool of the quest has been started, or it has none. -/
def Tried (log : List Event) (q : Quest) : Prop :=
  q.tool = [] ∨ ∃ f, .started f ∈ log ∧ f.id = q.id

/-- What holds of the quest `f` of the board when the goroutine for `q` stands here. -/
def PcHolds (log : List Event) (q f : Quest) : WorkerPc → Prop
  | .queued => f = q
  | .gate => f = q
  | .interpolate => f = q ∧ Passes r perm q
  | .reset => f.status = .failed ∧ Passes r perm q
  | .claim => f.status = .pending ∧ Passes r perm q
  | .run attempt => Passes r perm q ∧ ¬ Refuses r m₀ ∧
    (attempt = 0 ∧ f.status = .claimed ∧ f.claim = r.karakaID ∨ Tried log q)
  | .tool _ => Passes r perm q ∧ ¬ Refuses r m₀ ∧ Tried log q
  | .repair _ _ => Passes r perm q ∧ ¬ Refuses r m₀ ∧ Tried log q
  | .rewardDone => Passes r perm q ∧ ¬ Refuses r m₀ ∧ Tried log q ∧ f.status = .done
  | .rewardFailed _ => Passes r perm q ∧ ¬ Refuses r m₀ ∧ Tried log q
  | .finished => False

/-- How a turn ends: the quest `f` of the board, and the last word of the goroutine. -/
inductive Turn (log : List Event) (q f : Quest) : Event → Prop
  | denied (h : perm q.tool = .deny) (hf : f.status = .cancelled) : Turn log q f (.failed q.id)
  | parked (h : perm q.tool = .ask) (hmode : r.approvalMode = true)
    (hf : f.status = .waitingApproval) : Turn log q f (.parked q.id)
  | refused (h : Passes r perm q) (hm : Refuses r m₀) (hf : f.status = .pending) :
    Turn log q f (.failed q.id)
  | completed (h : Passes r perm q) (hm : ¬ Refuses r m₀) (ht : Tried log q)
    (hf : f.status = .done) : Turn log q f (.completed q.id)
  | failed (h : Passes r perm q) (hm : ¬ Refuses r m₀) (ht : Tried log q)
    (hf : f.status = .failed) : Turn log q f (.failed q.id)

variable {r perm m₀}

theorem Tried.mono {log log' : List Event} {q : Quest} (h : Tried log q) (hl : log ⊆ log') :
    Tried log' q :=
  h.imp_right fun ⟨f, hf, hid⟩ => ⟨f, hl hf, hid⟩

theorem PcHolds.mono {log log' : List Event} {q f : Quest} {pc : WorkerPc}
    (h : PcHolds r perm m₀ log q f pc) (hl : log ⊆ log') : PcHolds r perm m₀ log' q f pc := by
  cases pc with
  | run attempt => exact ⟨h.1, h.2.1, h.2.2.imp_right fun ht => ht.mono hl⟩
  | tool attempt => exact ⟨h.1, h.2.1, h.2.2.mono hl⟩
  | repair attempt e => exact ⟨h.1, h.2.1, h.2.2.mono hl⟩
  | rewardDone => exact ⟨h.1, h.2.1, h.2.2.1.mono hl, h.2.2.2⟩
  | rewardFailed e => exact ⟨h.1, h.2.1, h.2.2.mono hl⟩
  | _ => exact h

theorem Turn.mono {log log' : List Event} {q f : Quest} {e : Event}
    (h : Turn r perm m₀ log q f e) (hl : log ⊆ log') : Turn r perm m₀ log' q f e := by
  cases h with
  | denied h hf => exact .denied h hf
  | parked h hmode hf => exact .parked h hmode hf
  | refused h hm hf => exact .refused h hm hf
  | completed h hm ht hf => exact .completed h hm (ht.mono hl) hf
  | failed h hm ht hf => exact .failed h hm (ht.mono hl) hf

/-- A turn ends with the quest cancelled exactly if its tool is denied. -/
theorem Turn.cancelled_iff {log : List Event} {q f : Quest} {e : Event}
    (h : Turn r perm m₀ log q f e) : f.status = .cancelled ↔ perm q.tool = .deny := by
  cases h with
  | denied h hf => exact iff_of_true hf h
  | parked h _ hf => rw [hf, h]; exact iff_of_false nofun nofun
  | refused h _ hf => rw [hf]; exact iff_of_false nofun h.1
  | completed h _ _ hf => rw [hf]; exact iff_of_false nofun h.1
  | failed h _ _ hf => rw [hf]; exact iff_of_false nofun h.1

/-- After a step that was made with this log, the goroutine goes on, or this was its turn. -/
def GoesOn (r : Run) (perm : GoString → Permission) (m₀ : Mission) (log : List Event) (q : Quest)
    (next : WorkerPc × Quest × Option Event) : Prop :=
  (PcHolds r perm m₀ (log ++ next.2.2.toList) q next.2.1 next.1 ∧ next.1 ≠ .finished ∧
      ∀ e, next.2.2 = some e → ∃ p, e = .started p) ∨
    next.1 = .finished ∧ ∃ e, next.2.2 = some e ∧
      Turn r perm m₀ (log ++ next.2.2.toList) q next.2.1 e

theorem goesOn_quiet {log : List Event} {q f : Quest} {pc : WorkerPc}
    (h : PcHolds r perm m₀ log q f pc) (hne : pc ≠ .finished) :
    GoesOn r perm m₀ log q (pc, f, none) :=
  .inl ⟨h.mono (List.subset_append_left _ _), hne, nofun⟩

theorem goesOn_turn {log : List Event} {q f : Quest} {e : Event} (h : Turn r perm m₀ log q f e) :
    GoesOn r perm m₀ log q (.finished, f, some e) :=
  .inr ⟨rfl, e, rfl, h.mono (List.subset_append_left _ _)⟩

theorem goesOn_observe {log : List Event} {q f : Quest} (attempt : Nat) (e : GoString)
    (h : Passes r perm q ∧ ¬ Refuses r m₀ ∧ Tried log q) :
    GoesOn r perm m₀ log q (.observe attempt e, f, none) := by
  unfold WorkerPc.observe
  split_ifs
  · exact goesOn_quiet h nofun
  · exact goesOn_quiet h nofun

/-- One step of a goroutine. -/
theorem solo_turn {h : Host} {q f : Quest} {pc : WorkerPc} {log : List Event} (hq : Schedulable q)
    (hkey : SameKey q f) (hperm : ∀ tool, h.perm r.karakaID tool = perm tool)
    (hpc : PcHolds r perm m₀ log q f pc) :
    GoesOn r perm m₀ log q (pc.solo r h q m₀.status f) := by
  cases pc with
  | queued => exact goesOn_quiet hpc nofun
  | gate =>
    have hpc : f = q := hpc
    unfold WorkerPc.solo
    dsimp only
    rw [hperm]
    cases hp : perm q.tool with
    | deny => exact goesOn_turn (.denied hp rfl)
    | allow =>
      have hpass : Passes r perm q := by
        unfold Passes
        rw [hp]
        exact ⟨nofun, nofun⟩
      exact goesOn_quiet ⟨hpc, hpass⟩ nofun
    | ask =>
      dsimp only
      by_cases hmode : r.approvalMode = true
      · rw [if_pos hmode]
        exact goesOn_turn (.parked hp hmode rfl)
      · rw [if_neg hmode]
        have hpass : Passes r perm q := by
          unfold Passes
          rw [hp]
          exact ⟨nofun, fun h => hmode h.2⟩
        exact goesOn_quiet ⟨hpc, hpass⟩ nofun
  | interpolate =>
    obtain ⟨rfl, hpass⟩ := hpc
    unfold WorkerPc.solo
    dsimp only
    by_cases hf : f.status = .failed
    · rw [if_pos hf]
      exact goesOn_quiet ⟨hf, hpass⟩ nofun
    · rw [if_neg hf]
      have hpending : f.status = .pending := hq.resolve_right hf
      exact goesOn_quiet ⟨hpending, hpass⟩ nofun
  | reset =>
    obtain ⟨hf, hpass⟩ := hpc
    unfold WorkerPc.solo
    dsimp only
    rw [if_pos hf]
    exact goesOn_quiet ⟨rfl, hpass⟩ nofun
  | claim =>
    obtain ⟨hf, hpass⟩ := hpc
    unfold WorkerPc.solo claimOne
    dsimp only
    by_cases hover : m₀.status = .cancelled ∨ m₀.status = .done
    · rw [if_pos hover]
      exact goesOn_turn (.refused hpass (or_assoc.1 (.inl hover)) hf)
    rw [if_neg hover, if_neg fun h => h.1 hf]
    by_cases hkar : r.karakaID = []
    · rw [if_pos hkar]
      exact goesOn_turn (.refused hpass (.inr (.inr hkar)) hf)
    · rw [if_neg hkar]
      have hm : ¬ Refuses r m₀ := fun h => hkar ((or_assoc.2 h).resolve_left hover)
      exact goesOn_quiet ⟨hpass, hm, .inl ⟨rfl, rfl, rfl⟩⟩ nofun
  | run attempt =>
    obtain ⟨hpass, hm, hrun⟩ := hpc
    have hkey' := (runQuestStart_local h.perm q.id).key m₀.status f
    unfold WorkerPc.solo
    dsimp only
    cases hs : runStartOne h.perm m₀.status f with
    | mk f' e =>
      rw [hs] at hkey'
      cases e with
      | none =>
        refine .inl ⟨⟨hpass, hm, .inr ⟨f', ?_, hkey'.id.trans hkey.id⟩⟩, nofun, ?_⟩
        · exact List.mem_append_right _ (List.mem_singleton_self _)
        · intro e he
          cases he
          exact ⟨f', rfl⟩
      | some e =>
        -- the quest is claimed for the kāraka, so it has no tool
        have ht : Tried log q := by
          rcases hrun with ⟨-, hst, hclaim⟩ | ht
          · left
            by_contra htool
            unfold runStartOne at hs
            rw [if_neg fun h => h.1 hst, hkey.tool, if_neg htool, hclaim,
              if_neg fun h => hm (.inr (.inr h)), hperm, if_neg hpass.1] at hs
            exact nomatch hs
          · exact ht
        exact goesOn_observe attempt e ⟨hpass, hm, ht⟩
  | tool attempt =>
    obtain ⟨hpass, hm, ht⟩ := hpc
    unfold WorkerPc.solo
    dsimp only
    by_cases hdone : (runFinishOne h.tool m₀.status f).1.status = .done
    · rw [if_pos hdone]
      exact goesOn_quiet ⟨hpass, hm, ht, hdone⟩ nofun
    · rw [if_neg hdone]
      exact goesOn_observe attempt _ ⟨hpass, hm, ht⟩
  | repair attempt e =>
    obtain ⟨hpass, hm, ht⟩ := hpc
    unfold WorkerPc.solo
    dsimp only
    cases h.repair with
    | none => exact goesOn_quiet ⟨hpass, hm, ht⟩ nofun
    | some params => exact goesOn_quiet ⟨hpass, hm, .inr ht⟩ nofun
  | rewardDone =>
    obtain ⟨hpass, hm, ht, hf⟩ := hpc
    have hst : (rewardOne true 1 "auto: tool executed" m₀.status f).1.status = .done := by
      unfold rewardOne
      rw [if_pos rfl]
      split_ifs
      · rfl
      · exact hf
    exact goesOn_turn (.completed hpass hm ht hst)
  | rewardFailed e =>
    obtain ⟨hpass, hm, ht⟩ := hpc
    have hst : (rewardOne false 0 ("auto: " ++ truncateStr e 120) m₀.status f).1.status = .failed := by
      unfold rewardOne
      rw [if_neg (by simp)]
    exact goesOn_turn (.failed hpass hm ht hst)
  | finished => exact hpc.elim

end Turn

/-! ## The snapshot of a board with distinct ids -/

section Snapshot

variable {m : Mission} (hids : IdsDistinct m.quests)

include hids

/-- Two quests of one id are one quest. -/
theorem quest_unique {q q' : Quest} (hq : q ∈ m.quests) (hq' : q' ∈ m.quests) (hid : q'.id = q.id) :
    q' = q := by
  have hfind := findQuest_of_distinct hids hq
  have hfind' := findQuest_of_distinct hids hq'
  rw [hid, hfind] at hfind'
  exact (Option.some.inj hfind').symm

theorem marked_iff {x : GoString} {status : QuestStatus} :
    Marked m x status ↔ ∃ q, m.findQuest x = some q ∧ q.status = status := by
  constructor
  · rintro ⟨q, hq, rfl, hst⟩
    exact ⟨q, findQuest_of_distinct hids hq, hst⟩
  · rintro ⟨q, hq, hst⟩
    exact ⟨q, List.mem_of_find?_eq_some hq, findQuest_id hq, hst⟩

theorem lookup_ofBoard {x : GoString} {q : Quest} :
    (Levels.ofBoard m.quests).pending.lookup x = some q ↔
      m.findQuest x = some q ∧ Schedulable q := by
  have hentry : ∀ p, (Levels.ofBoard m.quests).pending.lookup x = some p →
      m.findQuest x = some p ∧ Schedulable p := by
    intro p hp
    rcases lookup_foldl_enter hp with hp | ⟨hmem, hs, hid⟩
    · exact nomatch hp
    · rw [← hid]
      exact ⟨findQuest_of_distinct hids hmem, hs⟩
  refine ⟨hentry q, fun ⟨hq, hs⟩ => ?_⟩
  have hmem : x ∈ (Levels.ofBoard m.quests).pending := by
    refine mem_foldl_enter_pending (.inr ⟨q, ?_, hs, findQuest_id hq⟩)
    exact List.mem_of_find?_eq_some hq
  obtain ⟨p, hp⟩ := Option.isSome_iff_exists.1 (AList.lookup_isSome.2 hmem)
  obtain ⟨hpq, -⟩ := hentry p hp
  rw [hq] at hpq
  rw [hp, hpq]

omit hids in
theorem mem_done_ofBoard {x : GoString} :
    x ∈ (Levels.ofBoard m.quests).done ↔ Marked m x .done := by
  refine mem_foldl_enter_done.trans ?_
  constructor
  · rintro (h | ⟨q, hq, hst, hid⟩)
    · exact nomatch h
    · exact ⟨q, hq, hid, hst⟩
  · rintro ⟨q, hq, hid, hst⟩
    exact .inr ⟨q, hq, hst, hid⟩

omit hids in
theorem mem_failed_ofBoard {x : GoString} :
    x ∈ (Levels.ofBoard m.quests).failed ↔ Marked m x .cancelled := by
  refine mem_foldl_enter_failed.trans ?_
  constructor
  · rintro (h | ⟨q, hq, hst, hid⟩)
    · exact nomatch h
    · exact ⟨q, hq, hid, hst⟩
  · rintro ⟨q, hq, hid, hst⟩
    exact .inr ⟨q, hq, hst, hid⟩

end Snapshot

/-! ## Where a quest stands -/

/-- The id was done at the start, or everything that its quest depends on is. -/
inductive Closed (m : Mission) : GoString → Prop
  | atStart {x : GoString} (h : Marked m x .done) : Closed m x
  | turn {x : GoString} {q : Quest} (hq : m.findQuest x = some q) (hs : Schedulable q)
    (hd : ∀ d ∈ q.dependsOn, Closed m d) : Closed m x

/-- The quest comes to a dependency that is not done, and that had not failed when the scan began. -/
def Stalled (m₀ : Mission) (s : Levels) (q : Quest) : Prop :=
  ∃ before b after, q.dependsOn = before ++ b :: after ∧ (∀ d ∈ before, d ∈ s.done) ∧ b ∉ s.done ∧
    (b ∈ s.failed → ∃ p, (Levels.ofBoard m₀.quests).pending.lookup b = some p ∧
      ∃ d ∈ p.dependsOn, d ∈ s.failed)

/-- Where a quest `q` of the snapshot stands; the quest of the board is `f`. -/
inductive Place (r : Run) (perm : GoString → Permission) (m₀ : Mission) (drops : Prop) (s : Levels)
    (q f : Quest) : Prop
  | idle (hp : s.pending.lookup q.id = some q) (hf : f = q) (hdone : q.id ∉ s.done)
    (hfail : q.id ∉ s.failed)
  | working {pc : WorkerPc} (hp : q.id ∉ s.pending) (hat : At s q pc) (hne : pc ≠ .finished)
    (hkey : SameKey q f) (hpc : PcHolds r perm m₀ s.log q f pc) (hdeps : ∀ d ∈ q.dependsOn, d ∈ s.done)
    (hdone : q.id ∉ s.done) (hfail : q.id ∉ s.failed)
  | ended {e : Event} (hp : q.id ∉ s.pending) (hat : ∀ pc, At s q pc → pc = .finished)
    (hturn : Turn r perm m₀ s.log q f e) (hdeps : ∀ d ∈ q.dependsOn, d ∈ s.done)
    (hdone : q.id ∈ s.done ↔ e = .completed q.id) (hfail : q.id ∈ s.failed ↔ e = .failed q.id)
  /-- A scan has cancelled it. -/
  | scrapped (hp : q.id ∉ s.pending) (hat : ∀ pc, ¬ At s q pc) (hst : f.status = .cancelled)
    (hdone : q.id ∉ s.done) (hdep : ∃ before b after, q.dependsOn = before ++ b :: after ∧
      (∀ d ∈ before, d ∈ s.done) ∧ b ∈ s.failed)
  /-- It is cancelled because there is nothing to run and nothing to wait for. -/
  | dropped (hdrops : drops) (hp : q.id ∉ s.pending) (hat : ∀ pc, ¬ At s q pc)
    (hst : f.status = .cancelled) (hdone : q.id ∉ s.done) (hdep : ∃ d ∈ q.dependsOn, d ∉ s.done)

/-- A step that is not about the quest `q`. -/
structure Aside (drops : Prop) (s s' : Levels) (q : Quest) : Prop where
  pending : s'.pending.lookup q.id = s.pending.lookup q.id
  done : s.done ⊆ s'.done
  failed : s.failed ⊆ s'.failed
  log : s.log ⊆ s'.log
  done_self : q.id ∈ s'.done → q.id ∈ s.done
  failed_self : q.id ∈ s'.failed → q.id ∈ s.failed
  at_old : ∀ pc, At s' q pc → At s q pc
  at_new : ∀ pc, pc ≠ .finished → At s q pc → At s' q pc
  drops : drops → s'.done ⊆ s.done

section Invariant

variable {r : Run} {perm : GoString → Permission} {m₀ : Mission} {drops drops' : Prop}

theorem Place.mono {s s' : Levels} {q f : Quest} (h : Place r perm m₀ drops s q f)
    (ha : Aside drops s s' q) (hd : drops → drops') : Place r perm m₀ drops' s' q f := by
  have hmem : q.id ∉ s.pending → q.id ∉ s'.pending := by
    intro hx
    rw [← AList.lookup_eq_none] at hx ⊢
    rw [ha.pending, hx]
  cases h with
  | idle hp hf hdone hfail =>
    exact .idle (ha.pending.trans hp) hf (fun h => hdone (ha.done_self h))
      fun h => hfail (ha.failed_self h)
  | working hp hat hne hkey hpc hdeps hdone hfail =>
    exact .working (hmem hp) (ha.at_new _ hne hat) hne hkey (hpc.mono ha.log)
      (fun d h => ha.done (hdeps d h)) (fun h => hdone (ha.done_self h))
      fun h => hfail (ha.failed_self h)
  | ended hp hat hturn hdeps hdone hfail =>
    refine .ended (hmem hp) (fun pc h => hat pc (ha.at_old pc h)) (hturn.mono ha.log)
      (fun d h => ha.done (hdeps d h)) ?_ ?_
    · exact ⟨fun h => hdone.1 (ha.done_self h), fun h => ha.done (hdone.2 h)⟩
    · exact ⟨fun h => hfail.1 (ha.failed_self h), fun h => ha.failed (hfail.2 h)⟩
  | scrapped hp hat hst hdone hdep =>
    obtain ⟨before, b, after, hdeps, hbefore, hb⟩ := hdep
    exact .scrapped (hmem hp) (fun pc h => hat pc (ha.at_old pc h)) hst
      (fun h => hdone (ha.done_self h))
      ⟨before, b, after, hdeps, fun d h => ha.done (hbefore d h), ha.failed hb⟩
  | dropped hdrops hp hat hst hdone hdep =>
    obtain ⟨d, hd', hn⟩ := hdep
    exact .dropped (hd hdrops) (hmem hp) (fun pc h => hat pc (ha.at_old pc h)) hst
      (fun h => hdone (ha.done_self h)) ⟨d, hd', fun h => hn (ha.drops hdrops h)⟩

/-- The state of a scan. -/
structure Scanned (m₀ : Mission) (s : Levels) (todo : List GoString) (level : List Quest) : Prop where
  todo_nodup : todo.Nodup
  level_nodup : (level.map Quest.id).Nodup
  taken : ∀ q ∈ level, s.pending.lookup q.id = some q ∧ (∀ d ∈ q.dependsOn, d ∈ s.done) ∧ q.id ∉ todo
  visited : ∀ x q, s.pending.lookup x = some q → x ∉ todo → q ∉ level → Stalled m₀ s q

/-- The state of a level. -/
structure Worked (m₀ : Mission) (s : Levels) (ws : List (Quest × WorkerPc)) : Prop where
  nodup : (ws.map fun w => w.1.id).Nodup
  entry : ∀ w ∈ ws, (Levels.ofBoard m₀.quests).pending.lookup w.1.id = some w.1 ∧
    w.1.id ∉ s.pending

/-- What every step of a run keeps; `drops` says that the rest of the board is being cancelled. -/
structure Kept (r : Run) (perm : GoString → Permission) (m₀ : Mission) (drops : Prop) (s : Levels)
    (st : Store) : Prop where
  board : ∃ m, getMission r.missionID st = some m ∧ Variant m₀ m ∧ (drops → ¬ Waiting m) ∧
    (∀ x, (Levels.ofBoard m₀.quests).pending.lookup x = none → m.findQuest x = m₀.findQuest x) ∧
    ∀ x q, (Levels.ofBoard m₀.quests).pending.lookup x = some q →
      ∃ f, m.findQuest x = some f ∧ Place r perm m₀ drops s q f
  pending : ∀ x q, s.pending.lookup x = some q →
    (Levels.ofBoard m₀.quests).pending.lookup x = some q
  closed : ∀ x ∈ s.done, Closed m₀ x
  old : ∀ x, (Levels.ofBoard m₀.quests).pending.lookup x = none →
    (x ∈ s.done ↔ Marked m₀ x .done) ∧ (x ∈ s.failed ↔ Marked m₀ x .cancelled)
  scanned : ∀ todo level, s.phase = .scan todo level → Scanned m₀ s todo level
  worked : ∀ ws, s.phase = .level ws → Worked m₀ s ws
  dropping : s.phase = .drop →
    drops ∧ ∀ x q, s.pending.lookup x = some q → ∃ d ∈ q.dependsOn, d ∉ s.done
  ends : drops → s.phase = .drop ∨ s.phase = .returned
  returned : s.phase = .returned → ∀ x q, s.pending.lookup x = some q → Stalled m₀ s q ∧
    ∃ m, getMission r.missionID st = some m ∧ Waiting m

/-! ## The steps of the loop -/

theorem Kept.quest_id {s : Levels} {st : Store} (h : Kept r perm m₀ drops s st) {x : GoString}
    {q : Quest} (hq : s.pending.lookup x = some q) : q.id = x := by
  rcases lookup_foldl_enter (h.pending x q hq) with h | ⟨-, -, hid⟩
  · exact nomatch h
  · exact hid

theorem snapshot_id {x : GoString} {q : Quest}
    (h : (Levels.ofBoard m₀.quests).pending.lookup x = some q) : q.id = x ∧ Schedulable q := by
  rcases lookup_foldl_enter h with h | ⟨-, hs, hid⟩
  · exact nomatch h
  · exact ⟨hid, hs⟩

/-- A pending quest has not been touched. -/
theorem Place.idle_of_pending {s : Levels} {q f : Quest} (h : Place r perm m₀ drops s q f)
    (hp : s.pending.lookup q.id = some q) : f = q ∧ q.id ∉ s.done ∧ q.id ∉ s.failed := by
  have hmem : q.id ∈ s.pending := AList.lookup_isSome.1 (by rw [hp]; rfl)
  cases h with
  | idle _ hf hdone hfail => exact ⟨hf, hdone, hfail⟩
  | working hn => exact absurd hmem hn
  | ended hn => exact absurd hmem hn
  | scrapped hn => exact absurd hmem hn
  | dropped _ hn => exact absurd hmem hn

/-- The loop goes to another phase and leaves its variables alone. -/
theorem Kept.turns {s : Levels} {st : Store} {phase : Phase} (h : Kept r perm m₀ drops s st)
    (hlevel : ∀ ws, phase ≠ .level ws)
    (hnew : ∀ q pc, At s q pc → pc = .finished) (hd : drops → drops')
    (hwait : drops' → drops ∨ ∀ m, getMission r.missionID st = some m → ¬ Waiting m)
    (hscanned : ∀ todo level, phase = .scan todo level → Scanned m₀ { s with phase := phase } todo level)
    (hdropping : phase = .drop →
      drops' ∧ ∀ x q, s.pending.lookup x = some q → ∃ d ∈ q.dependsOn, d ∉ s.done)
    (hends : drops' → phase = .drop ∨ phase = .returned)
    (hreturned : phase = .returned → ∀ x q, s.pending.lookup x = some q → Stalled m₀ s q ∧
      ∃ m, getMission r.missionID st = some m ∧ Waiting m) :
    Kept r perm m₀ drops' { s with phase := phase } st where
  board := by
    obtain ⟨m, hm, hv, hw, hrest, hplace⟩ := h.board
    refine ⟨m, hm, hv, fun hd' => ?_, hrest, fun x q hq => ?_⟩
    · rcases hwait hd' with hdrops | hw'
      · exact hw hdrops
      · exact hw' m hm
    · obtain ⟨f, hf, hp⟩ := hplace x q hq
      have hold := not_at (s := { s with phase := phase }) hlevel q
      refine ⟨f, hf, hp.mono ⟨rfl, fun _ h => h, fun _ h => h, fun _ h => h, fun h => h, fun h => h,
        fun pc hat => absurd hat (hold pc), fun pc hne hat => absurd (hnew q pc hat) hne,
        fun _ _ h => h⟩ hd⟩
  pending := h.pending
  closed := h.closed
  old := h.old
  scanned := hscanned
  worked ws hp := absurd hp (hlevel ws)
  dropping := hdropping
  ends := hends
  returned := hreturned

theorem at_finished_of_phase {s : Levels} (h : ∀ ws, s.phase ≠ .level ws) (q : Quest) (pc : WorkerPc)
    (hat : At s q pc) : pc = .finished :=
  absurd hat (not_at h q pc)

/-- The loop returns with nothing pending. -/
theorem kept_stop {s : Levels} {st : Store} (h : Kept r perm m₀ drops s st)
    (hp : ∀ ws, s.phase ≠ .level ws) (hk : s.pending.keys = []) :
    Kept r perm m₀ drops { s with phase := .returned } st := by
  refine h.turns nofun (at_finished_of_phase hp) id .inl nofun nofun (fun _ => .inr rfl)
    fun _ x q hq => ?_
  have hx : x ∈ s.pending.keys := AList.mem_keys.1 (AList.lookup_isSome.1 (by rw [hq]; rfl))
  rw [hk] at hx
  exact absurd hx List.not_mem_nil

theorem kept_scan {s : Levels} {st : Store} (h : Kept r perm m₀ False s st) (hp : s.phase = .head) :
    Kept r perm m₀ False { s with phase := .scan s.pending.keys [] } st := by
  refine h.turns nofun (at_finished_of_phase (by rw [hp]; exact nofun)) id .inl ?_ nofun nofun nofun
  intro todo level he
  cases he
  refine ⟨s.pending.keys_nodup, List.nodup_nil, fun q hq => absurd hq List.not_mem_nil, ?_⟩
  intro x q hq hx
  have hmem : x ∈ s.pending := AList.lookup_isSome.1 (by rw [hq]; rfl)
  exact absurd (AList.mem_keys.1 hmem) hx

theorem kept_ready {s : Levels} {st : Store} {todo : List GoString} {level : List Quest}
    {id : GoString} {q : Quest} (h : Kept r perm m₀ False s st) (hp : s.phase = .scan todo level)
    (hid : id ∈ todo) (hq : s.pending.lookup id = some q)
    (hr : readiness s.done s.failed q.dependsOn = .ready) :
    Kept r perm m₀ False { s with phase := .scan (todo.erase q.id) (level ++ [q]) } st := by
  obtain rfl : q.id = id := h.quest_id hq
  have hs := h.scanned todo level hp
  have hnew : ∀ p ∈ level, p.id ≠ q.id := by
    intro p hp' heq
    exact (hs.taken p hp').2.2 (by rw [heq]; exact hid)
  refine h.turns nofun (at_finished_of_phase (by rw [hp]; exact nofun)) nofun nofun ?_ nofun nofun nofun
  intro todo' level' he
  cases he
  refine ⟨hs.todo_nodup.erase _, ?_, ?_, ?_⟩
  · rw [List.map_append, List.nodup_append]
    refine ⟨hs.level_nodup, List.nodup_singleton _, fun a ha b hb => ?_⟩
    obtain ⟨p, hp', rfl⟩ := List.mem_map.1 ha
    rw [List.mem_singleton.1 hb]
    exact hnew p hp'
  · intro p hp'
    rcases List.mem_append.1 hp' with hp' | hp'
    · obtain ⟨h1, h2, h3⟩ := hs.taken p hp'
      exact ⟨h1, h2, fun hmem => h3 (List.mem_of_mem_erase hmem)⟩
    · rw [List.mem_singleton.1 hp']
      exact ⟨hq, fun d hd => (readiness_ready hr d hd).1, hs.todo_nodup.not_mem_erase⟩
  · intro x p hx hnot hlevel
    have hne : x ≠ q.id := by
      rintro rfl
      have hpq : some q = some p := hq.symm.trans hx
      cases hpq
      exact hlevel (List.mem_append_right _ (List.mem_singleton_self _))
    exact hs.visited x p hx (fun hmem => hnot ((List.mem_erase_of_ne hne).2 hmem))
      fun hmem => hlevel (List.mem_append_left _ hmem)

theorem mem_of_split {deps before after : List GoString} {b : GoString}
    (h : deps = before ++ b :: after) : b ∈ deps := by
  rw [h]
  exact List.mem_append_cons_self

theorem readiness_stalled {done failed deps : List GoString}
    (h : readiness done failed deps = .blocked) :
    ∃ before b after, deps = before ++ b :: after ∧ (∀ d ∈ before, d ∈ done) ∧ b ∉ done ∧
      b ∉ failed := by
  induction deps with
  | nil => exact nomatch h
  | cons dep deps ih =>
    unfold readiness at h
    split_ifs at h with hf hd
    · obtain ⟨before, b, after, rfl, hbefore, hb⟩ := ih h
      refine ⟨dep :: before, b, after, rfl, fun d hd' => ?_, hb⟩
      rcases List.mem_cons.1 hd' with rfl | hd'
      · exact hd
      · exact hbefore d hd'
    · exact ⟨[], dep, deps, rfl, fun d hd => absurd hd List.not_mem_nil, hd, hf⟩

theorem kept_blocked {s : Levels} {st : Store} {todo : List GoString} {level : List Quest}
    {id : GoString} {q : Quest} (h : Kept r perm m₀ False s st) (hp : s.phase = .scan todo level)
    (hq : s.pending.lookup id = some q)
    (hr : readiness s.done s.failed q.dependsOn = .blocked) :
    Kept r perm m₀ False { s with phase := .scan (todo.erase q.id) level } st := by
  obtain rfl : q.id = id := h.quest_id hq
  have hs := h.scanned todo level hp
  refine h.turns nofun (at_finished_of_phase (by rw [hp]; exact nofun)) nofun nofun ?_ nofun nofun nofun
  intro todo' level' he
  cases he
  refine ⟨hs.todo_nodup.erase _, hs.level_nodup, ?_, ?_⟩
  · intro p hp'
    obtain ⟨h1, h2, h3⟩ := hs.taken p hp'
    exact ⟨h1, h2, fun hmem => h3 (List.mem_of_mem_erase hmem)⟩
  · intro x p hx hnot hlevel
    by_cases hne : x = q.id
    · subst hne
      have hpq : some q = some p := hq.symm.trans hx
      cases hpq
      obtain ⟨before, b, after, hdeps, hbefore, hb, hfail⟩ := readiness_stalled hr
      exact ⟨before, b, after, hdeps, hbefore, hb, fun h => absurd h hfail⟩
    · exact hs.visited x p hx (fun hmem => hnot ((List.mem_erase_of_ne hne).2 hmem)) hlevel

theorem kept_pause {s : Levels} {st : Store} (h : Kept r perm m₀ drops s st)
    (hp : s.phase = .scan [] []) (hw : hasWaiting r st = true) :
    Kept r perm m₀ drops { s with phase := .returned } st := by
  have hs := h.scanned [] [] hp
  obtain ⟨m, hm, -⟩ := h.board
  refine h.turns nofun (at_finished_of_phase (by rw [hp]; exact nofun)) id .inl nofun nofun
    (fun _ => .inr rfl) fun _ x q hq => ?_
  exact ⟨hs.visited x q hq List.not_mem_nil List.not_mem_nil, m, hm, (hasWaiting_iff hm).1 hw⟩

theorem kept_stuck {s : Levels} {st : Store} (h : Kept r perm m₀ drops s st)
    (hp : s.phase = .scan [] []) (hw : hasWaiting r st = false) :
    Kept r perm m₀ True { s with phase := .drop } st := by
  have hs := h.scanned [] [] hp
  refine h.turns nofun (at_finished_of_phase (by rw [hp]; exact nofun)) (fun _ => trivial) ?_ nofun ?_
    (fun _ => .inl rfl) nofun
  · refine fun _ => .inr fun m hm hwait => ?_
    rw [(hasWaiting_iff hm).2 hwait] at hw
    exact nomatch hw
  · refine fun _ => ⟨trivial, fun x q hq => ?_⟩
    obtain ⟨before, b, after, hdeps, -, hb, -⟩ :=
      hs.visited x q hq List.not_mem_nil List.not_mem_nil
    exact ⟨b, mem_of_split hdeps, hb⟩

theorem kept_join {s : Levels} {st : Store} {ws : List (Quest × WorkerPc)}
    (h : Kept r perm m₀ False s st) (hp : s.phase = .level ws) (hend : ∀ w ∈ ws, w.2 = .finished) :
    Kept r perm m₀ False { s with phase := .head } st := by
  refine h.turns nofun ?_ id .inl nofun nofun nofun nofun
  rintro q pc ⟨ws', hw, hmem⟩
  rw [hp] at hw
  cases hw
  exact hend (q, pc) hmem

/-- The loop cancels a pending quest. -/
theorem Kept.cancels {s : Levels} {st : Store} {q : Quest} {phase : Phase} {now : Nat}
    {reason : GoString} (h : Kept r perm m₀ drops s st) (hq : s.pending.lookup q.id = some q)
    (hold : ∀ ws, s.phase ≠ .level ws) (hlevel : ∀ ws, phase ≠ .level ws)
    (hplace : ∀ f, f.status = .cancelled → q.id ∉ s.done → Place r perm m₀ drops
      { s with pending := s.pending.erase q.id, failed := s.failed ++ [q.id], phase := phase } q f)
    (hscanned : ∀ todo level, phase = .scan todo level → Scanned m₀
      { s with pending := s.pending.erase q.id, failed := s.failed ++ [q.id], phase := phase }
      todo level)
    (hdropping : phase = .drop → s.phase = .drop) (hends : drops → phase = .drop)
    (hreturned : phase ≠ .returned) :
    Kept r perm m₀ drops
      { s with pending := s.pending.erase q.id, failed := s.failed ++ [q.id], phase := phase }
      (cancelQuest r now q.id reason st) where
  board := by
    obtain ⟨m, hm, hv, hw, hrest, hplaces⟩ := h.board
    have hentry := h.pending q.id q hq
    obtain ⟨f, hf, hpf⟩ := hplaces q.id q hentry
    obtain ⟨-, hdone, -⟩ := hpf.idle_of_pending hq
    obtain ⟨m', hm', hv', hf', hother⟩ :=
      hv.rewrites (cancelQuest_rewrites now reason hm hf) hf ⟨rfl, rfl, rfl⟩
    refine ⟨m', hm', hv', fun hd hwait => hw hd ?_, fun x hx => ?_, fun x p hp => ?_⟩
    · refine hwait.of_variant hv' hv fun x g g' hg hg' hst => ?_
      by_cases hne : x = q.id
      · subst hne
        rw [hf'] at hg
        cases hg
        exact nomatch hst
      · rw [hother x hne, hg'] at hg
        cases hg
        exact hst
    · have hne : x ≠ q.id := by
        rintro rfl
        rw [hentry] at hx
        exact nomatch hx
      exact (hother x hne).trans (hrest x hx)
    · by_cases hne : x = q.id
      · subst hne
        rw [hentry] at hp
        cases hp
        exact ⟨_, hf', hplace _ rfl hdone⟩
      · obtain ⟨g, hg, hpg⟩ := hplaces x p hp
        have hpid : p.id ≠ q.id := by
          rw [(snapshot_id hp).1]
          exact hne
        refine ⟨g, (hother x hne).trans hg, hpg.mono ⟨AList.lookup_erase_ne hpid, fun _ h => h,
          List.subset_append_left _ _, fun _ h => h, id, fun hmem => ?_,
          fun pc hat => absurd hat (not_at hlevel p pc),
          fun pc _ hat => absurd hat (not_at hold p pc), fun _ _ h => h⟩ id⟩
        rcases List.mem_append.1 hmem with hmem | hmem
        · exact hmem
        · exact absurd (List.mem_singleton.1 hmem) hpid
  pending x p hp := h.pending x p (lookup_erase_some hp)
  closed := h.closed
  old x hx := by
    have hne : x ≠ q.id := by
      rintro rfl
      rw [h.pending q.id q hq] at hx
      exact nomatch hx
    refine ⟨(h.old x hx).1, Iff.trans ?_ (h.old x hx).2⟩
    show x ∈ s.failed ++ [q.id] ↔ x ∈ s.failed
    rw [List.mem_append, List.mem_singleton, or_iff_left hne]
  scanned := hscanned
  worked ws hp := absurd hp (hlevel ws)
  dropping hp := by
    obtain ⟨hd, hblocked⟩ := h.dropping (hdropping hp)
    exact ⟨hd, fun x p hp => hblocked x p (lookup_erase_some hp)⟩
  ends hd := .inl (hends hd)
  returned hp := absurd hp hreturned

theorem Stalled.mono {s s' : Levels} {q : Quest} (h : Stalled m₀ s q) (hdone : s'.done = s.done)
    (hfail : ∀ x, x ∈ s.failed → x ∈ s'.failed)
    (hnew : ∀ x, x ∈ s'.failed → x ∈ s.failed ∨
      ∃ p, (Levels.ofBoard m₀.quests).pending.lookup x = some p ∧ ∃ d ∈ p.dependsOn, d ∈ s'.failed) :
    Stalled m₀ s' q := by
  obtain ⟨before, b, after, hdeps, hbefore, hb, hlate⟩ := h
  refine ⟨before, b, after, hdeps, fun d hd => by rw [hdone]; exact hbefore d hd,
    by rw [hdone]; exact hb, fun hmem => ?_⟩
  rcases hnew b hmem with hmem | hlate'
  · obtain ⟨p, hp, d, hd, hd'⟩ := hlate hmem
    exact ⟨p, hp, d, hd, hfail d hd'⟩
  · exact hlate'

theorem kept_doomed {s : Levels} {st : Store} {todo : List GoString} {level : List Quest}
    {id : GoString} {q : Quest} {now : Nat} {reason : GoString} (h : Kept r perm m₀ False s st)
    (hp : s.phase = .scan todo level) (hid : id ∈ todo) (hq : s.pending.lookup id = some q)
    (hr : readiness s.done s.failed q.dependsOn = .doomed) :
    Kept r perm m₀ False
      { s with
        pending := s.pending.erase q.id
        failed := s.failed ++ [q.id]
        phase := .scan (todo.erase q.id) level }
      (cancelQuest r now q.id reason st) := by
  obtain rfl : q.id = id := h.quest_id hq
  have hs := h.scanned todo level hp
  obtain ⟨before, b, after, hdeps, hbefore, hb⟩ := readiness_doomed hr
  have hbmem := mem_of_split hdeps
  have hgrow : ∀ x, x ∈ s.failed → x ∈ s.failed ++ [q.id] := fun x hx => List.mem_append_left _ hx
  refine h.cancels hq (by rw [hp]; exact nofun) nofun (fun f hf hdone => ?_) ?_ nofun nofun nofun
  · refine .scrapped ?_ ?_ hf hdone ⟨before, b, after, hdeps, hbefore, hgrow b hb⟩
    · exact AList.lookup_eq_none.1 (AList.lookup_erase ..)
    · rintro pc ⟨ws, hw, -⟩
      exact nomatch hw
  · intro todo' level' he
    cases he
    refine ⟨hs.todo_nodup.erase _, hs.level_nodup, ?_, ?_⟩
    · intro p hp'
      obtain ⟨h1, h2, h3⟩ := hs.taken p hp'
      have hne : p.id ≠ q.id := fun heq => h3 (by rw [heq]; exact hid)
      exact ⟨(AList.lookup_erase_ne hne).trans h1, h2, fun hmem => h3 (List.mem_of_mem_erase hmem)⟩
    · intro x p hx hnot hlevel
      have hne : x ≠ q.id := by
        rintro rfl
        rw [AList.lookup_erase] at hx
        exact nomatch hx
      have hstalled := hs.visited x p (lookup_erase_some hx)
        (fun hmem => hnot ((List.mem_erase_of_ne hne).2 hmem)) hlevel
      refine hstalled.mono rfl hgrow fun y hy => ?_
      rcases List.mem_append.1 hy with hy | hy
      · exact .inl hy
      · rw [List.mem_singleton.1 hy]
        exact .inr ⟨q, h.pending q.id q hq, b, hbmem, hgrow b hb⟩

theorem kept_drop {s : Levels} {st : Store} {id reason : GoString} {now : Nat}
    (h : Kept r perm m₀ drops s st) (hp : s.phase = .drop) (hid : id ∈ s.pending) :
    Kept r perm m₀ drops
      { s with pending := s.pending.erase id, failed := s.failed ++ [id], phase := .drop }
      (cancelQuest r now id reason st) := by
  obtain ⟨q, hq⟩ := Option.isSome_iff_exists.1 (AList.lookup_isSome.2 hid)
  obtain rfl : q.id = id := h.quest_id hq
  obtain ⟨hd, hblocked⟩ := h.dropping hp
  refine h.cancels hq (by rw [hp]; exact nofun) nofun (fun f hf hdone => ?_) nofun (fun _ => hp)
    (fun _ => rfl) nofun
  refine .dropped hd ?_ ?_ hf hdone (hblocked q.id q hq)
  · exact AList.lookup_eq_none.1 (AList.lookup_erase ..)
  · rintro pc ⟨ws, hw, -⟩
    exact nomatch hw

theorem kept_launch {s : Levels} {st : Store} {level : List Quest} (h : Kept r perm m₀ False s st)
    (hp : s.phase = .scan [] level) :
    Kept r perm m₀ False
      { s with
        pending := level.foldl (fun p q => p.erase q.id) s.pending
        phase := .level (level.map fun q => (q, .queued)) } st := by
  have hs := h.scanned [] level hp
  have hnot : ∀ q pc, ¬ At s q pc := not_at (by rw [hp]; exact nofun)
  have hat : ∀ {q : Quest} {pc : WorkerPc}, At
      { s with
        pending := level.foldl (fun p q => p.erase q.id) s.pending
        phase := .level (level.map fun q => (q, .queued)) } q pc ↔ q ∈ level ∧ pc = .queued := by
    intro q pc
    constructor
    · rintro ⟨ws, hw, hmem⟩
      cases hw
      obtain ⟨p, hp', he⟩ := List.mem_map.1 hmem
      cases he
      exact ⟨hp', rfl⟩
    · rintro ⟨hq, rfl⟩
      exact ⟨_, rfl, List.mem_map_of_mem hq⟩
  obtain ⟨m, hm, hv, hw, hrest, hplaces⟩ := h.board
  refine ⟨⟨m, hm, hv, hw, hrest, fun x q hq => ?_⟩, ?_, h.closed, h.old, nofun, ?_, nofun, nofun, nofun⟩
  · obtain ⟨f, hf, hpf⟩ := hplaces x q hq
    obtain ⟨rfl, -⟩ := snapshot_id hq
    refine ⟨f, hf, ?_⟩
    by_cases hl : q.id ∈ level.map Quest.id
    · obtain ⟨p, hp', hid⟩ := List.mem_map.1 hl
      obtain ⟨hlook, hdeps, -⟩ := hs.taken p hp'
      have hpq : p = q := by
        have hentry := h.pending p.id p hlook
        rw [hid, hq] at hentry
        exact (Option.some.inj hentry).symm
      subst hpq
      obtain ⟨rfl, hdone, hfail⟩ := hpf.idle_of_pending hlook
      refine .working ?_ (hat.2 ⟨hp', rfl⟩) nofun (.refl _) rfl hdeps hdone hfail
      exact AList.lookup_eq_none.1 (lookup_foldl_erase_of_mem hl)
    · refine hpf.mono ⟨lookup_foldl_erase_of_not_mem hl, fun _ h => h, fun _ h => h, fun _ h => h, id,
        id, fun pc h => ?_, fun pc _ h => absurd h (hnot q pc), fun _ _ h => h⟩ id
      exact absurd (List.mem_map_of_mem (hat.1 h).1) hl
  · exact fun x q hq => h.pending x q (lookup_foldl_erase hq)
  · intro ws hw'
    cases hw'
    constructor
    · rw [List.map_map]
      exact hs.level_nodup
    · intro w hw'
      obtain ⟨q, hq, rfl⟩ := List.mem_map.1 hw'
      obtain ⟨hlook, -⟩ := hs.taken q hq
      refine ⟨h.pending q.id q hlook, ?_⟩
      exact AList.lookup_eq_none.1 (lookup_foldl_erase_of_mem (List.mem_map_of_mem hq))

theorem record_log (s : Levels) (e : Option Event) : (s.record e).log = s.log ++ e.toList := by
  cases e with
  | none => exact (List.append_nil _).symm
  | some e => cases e <;> rfl

/-- A goroutine of a level is at work as its place says. -/
theorem Place.working_of_at {s : Levels} {ws : List (Quest × WorkerPc)} {q f : Quest} {pc : WorkerPc}
    (h : Place r perm m₀ drops s q f) (hw : Worked m₀ s ws) (hp : s.phase = .level ws)
    (hmem : (q, pc) ∈ ws) (hne : pc ≠ .finished) :
    SameKey q f ∧ PcHolds r perm m₀ s.log q f pc ∧ (∀ d ∈ q.dependsOn, d ∈ s.done) ∧
      q.id ∉ s.done ∧ q.id ∉ s.failed := by
  have hat : At s q pc := ⟨ws, hp, hmem⟩
  cases h with
  | idle hpend => exact absurd (AList.lookup_isSome.1 (by rw [hpend]; rfl)) (hw.entry _ hmem).2
  | working _ hat' _ hkey hpc hdeps hdone hfail =>
    obtain ⟨ws', hp', hmem'⟩ := hat'
    rw [hp] at hp'
    cases hp'
    have heq := List.inj_on_of_nodup_map hw.nodup hmem hmem' rfl
    cases heq
    exact ⟨hkey, hpc, hdeps, hdone, hfail⟩
  | ended _ hat' => exact absurd (hat' pc hat) hne
  | scrapped _ hat' => exact absurd hat (hat' pc)
  | dropped _ _ hat' => exact absurd hat (hat' pc)

/-- The place of a quest after the step of its goroutine. -/
theorem place_goesOn {s : Levels} {ws : List (Quest × WorkerPc)} {k : Nat} {q : Quest}
    {next : WorkerPc × Quest × Option Event} (hgo : GoesOn r perm m₀ s.log q next)
    (hmem : (q, next.1) ∈ ws.set k (q, next.1))
    (hnd : ((ws.set k (q, next.1)).map fun w => w.1.id).Nodup)
    (hkey : SameKey q next.2.1) (hp : q.id ∉ s.pending) (hdeps : ∀ d ∈ q.dependsOn, d ∈ s.done)
    (hdone : q.id ∉ s.done) (hfail : q.id ∉ s.failed) :
    Place r perm m₀ False { s.record next.2.2 with phase := .level (ws.set k (q, next.1)) } q
      next.2.1 := by
  obtain ⟨hrp, hrd, hrf⟩ := record_spec s next.2.2
  have hat : At { s.record next.2.2 with phase := .level (ws.set k (q, next.1)) } q next.1 :=
    ⟨_, rfl, hmem⟩
  have hpend : q.id ∉ (s.record next.2.2).pending := by
    rw [hrp]
    exact hp
  have hdeps' : ∀ d ∈ q.dependsOn, d ∈ (s.record next.2.2).done :=
    fun d hd => (hrd d).2 (.inl (hdeps d hd))
  rcases hgo with ⟨hpc, hne, hstarted⟩ | ⟨hfin, e, he, hturn⟩
  · refine .working hpend hat hne hkey ?_ hdeps' (fun hd => ?_) fun hf => ?_
    · show PcHolds r perm m₀ (s.record next.2.2).log q next.2.1 next.1
      rw [record_log]
      exact hpc
    · rcases (hrd q.id).1 hd with hd | he
      · exact hdone hd
      · obtain ⟨p, hp⟩ := hstarted _ he
        exact nomatch hp
    · rcases (hrf q.id).1 hf with hf | he
      · exact hfail hf
      · obtain ⟨p, hp⟩ := hstarted _ he
        exact nomatch hp
  · refine .ended hpend ?_ (e := e) ?_ hdeps' ?_ ?_
    · rintro pc' ⟨ws', hw', hmem'⟩
      cases hw'
      have heq := List.inj_on_of_nodup_map hnd hmem hmem' rfl
      have hpc : next.1 = pc' := congrArg Prod.snd heq
      exact hpc.symm.trans hfin
    · show Turn r perm m₀ (s.record next.2.2).log q next.2.1 e
      rw [record_log]
      exact hturn
    · refine (hrd q.id).trans ?_
      rw [or_iff_right hdone, he, Option.some_inj]
    · refine (hrf q.id).trans ?_
      rw [or_iff_right hfail, he, Option.some_inj]

theorem kept_work {s : Levels} {st : Store} {ws : List (Quest × WorkerPc)} {k : Nat} {q : Quest}
    {pc : WorkerPc} {host : Host} (h : Kept r perm m₀ False s st) (hp : s.phase = .level ws)
    (hk : ws[k]? = some (q, pc)) (hperm : ∀ tool, host.perm r.karakaID tool = perm tool)
    (hids : IdsDistinct m₀.quests) :
    Kept r perm m₀ False
      { s.record (pc.step r host q st).2.2 with
        phase := .level (ws.set k (q, (pc.step r host q st).1)) }
      (pc.step r host q st).2.1 := by
  have hmem : (q, pc) ∈ ws := List.mem_of_getElem? hk
  obtain ⟨hklt, hget⟩ := List.getElem?_eq_some_iff.1 hk
  by_cases hne : pc = .finished
  · -- a goroutine that has ended makes no step
    subst hne
    have hset : ws.set k (q, .finished) = ws := by
      rw [← hget]
      exact List.set_getElem_self hklt
    have hs : { s with phase := .level (ws.set k (q, .finished)) } = s := by
      rw [hset, ← hp]
    show Kept r perm m₀ False { s with phase := .level (ws.set k (q, .finished)) } st
    rw [hs]
    exact h
  have hw := h.worked ws hp
  obtain ⟨hentry, hpend⟩ : (Levels.ofBoard m₀.quests).pending.lookup q.id = some q ∧ q.id ∉ s.pending :=
    hw.entry _ hmem
  obtain ⟨m, hm, hv, -, hrest, hplaces⟩ := h.board
  obtain ⟨f, hf, hpf⟩ := hplaces q.id q hentry
  obtain ⟨hkey, hpc, hdeps, hdone, hfail⟩ := hpf.working_of_at hw hp hmem hne
  have hgo : GoesOn r perm m₀ s.log q (pc.solo r host q m₀.status f) :=
    solo_turn (snapshot_id hentry).2 hkey hperm hpc
  have hkey' := hkey.trans (solo_key r host q m₀.status f pc)
  obtain ⟨hpc', he, hrw⟩ := step_solo (h := host) pc hm hf
  rw [hv.status] at hpc' he hrw
  obtain ⟨m', hm', hv', hf', hother⟩ := hv.rewrites hrw hf (solo_key ..)
  rw [hpc', he]
  clear hpc' he hrw
  generalize pc.solo r host q m₀.status f = next at *
  generalize (pc.step r host q st).2.1 = st' at *
  obtain ⟨hrp, hrd, hrf⟩ := record_spec s next.2.2
  have hnd : ((ws.set k (q, next.1)).map fun w => w.1.id).Nodup := by
    rw [map_set_worker hk next.1]
    exact hw.nodup
  have hset : (q, next.1) ∈ ws.set k (q, next.1) := List.mem_set hklt _
  have hplace := place_goesOn hgo hset hnd hkey' hpend hdeps hdone hfail
  -- only the goroutine's own id is reported
  have hreport : ∀ e, next.2.2 = some e → (∃ p, e = .started p) ∨ Turn r perm m₀
      (s.log ++ next.2.2.toList) q next.2.1 e := by
    intro e he
    rcases hgo with ⟨-, -, hstarted⟩ | ⟨-, e', he', hturn⟩
    · exact .inl (hstarted e he)
    · rw [he] at he'
      cases he'
      exact .inr hturn
  have hcompleted : ∀ x, next.2.2 = some (.completed x) → x = q.id := by
    intro x hx
    rcases hreport _ hx with ⟨p, hp⟩ | hturn
    · exact nomatch hp
    · cases hturn
      rfl
  have hfailed : ∀ x, next.2.2 = some (.failed x) → x = q.id := by
    intro x hx
    rcases hreport _ hx with ⟨p, hp⟩ | hturn
    · exact nomatch hp
    · cases hturn <;> rfl
  refine ⟨⟨m', hm', hv', nofun, fun x hx => ?_, fun x p hpx => ?_⟩, ?_, ?_, ?_, nofun, ?_, nofun, nofun,
    nofun⟩
  · have hne : x ≠ q.id := by
      rintro rfl
      rw [hentry] at hx
      exact nomatch hx
    exact (hother x hne).trans (hrest x hx)
  · by_cases hne : x = q.id
    · subst hne
      rw [hentry] at hpx
      cases hpx
      exact ⟨next.2.1, hf', hplace⟩
    · obtain ⟨g, hg, hpg⟩ := hplaces x p hpx
      have hpid : p.id = x := (snapshot_id hpx).1
      have hpne : p.id ≠ q.id := by
        rw [hpid]
        exact hne
      have hpq : p ≠ q := fun heq => hpne (by rw [heq])
      refine ⟨g, (hother x hne).trans hg, hpg.mono ⟨?_, ?_, ?_, ?_, ?_, ?_, ?_, ?_, nofun⟩ id⟩
      · show (s.record next.2.2).pending.lookup p.id = s.pending.lookup p.id
        rw [hrp]
      · exact fun d hd => (hrd d).2 (.inl hd)
      · exact fun d hd => (hrf d).2 (.inl hd)
      · show s.log ⊆ (s.record next.2.2).log
        rw [record_log]
        exact List.subset_append_left _ _
      · exact fun hd => ((hrd p.id).1 hd).resolve_right fun he => hpne (hcompleted _ he)
      · exact fun hd => ((hrf p.id).1 hd).resolve_right fun he => hpne (hfailed _ he)
      · exact fun pc' hat => (at_set hp hk hpq _).1 hat
      · exact fun pc' _ hat => (at_set hp hk hpq _).2 hat
  · intro x p hpx
    refine h.pending x p ?_
    rw [← hrp]
    exact hpx
  · intro x hx
    rcases (hrd x).1 hx with hx | hx
    · exact h.closed x hx
    · rw [hcompleted x hx]
      obtain ⟨hfind, hs⟩ := (lookup_ofBoard hids).1 hentry
      exact .turn hfind hs fun d hd => h.closed d (hdeps d hd)
  · intro x hx
    have hne : x ≠ q.id := by
      rintro rfl
      rw [hentry] at hx
      exact nomatch hx
    obtain ⟨h1, h2⟩ := h.old x hx
    refine ⟨Iff.trans ?_ h1, Iff.trans ?_ h2⟩
    · refine (hrd x).trans (or_iff_left fun he => hne (hcompleted x he))
    · refine (hrf x).trans (or_iff_left fun he => hne (hfailed x he))
  · intro ws' hw'
    cases hw'
    refine ⟨hnd, fun w hwm => ?_⟩
    show _ ∧ w.1.id ∉ (s.record next.2.2).pending
    rw [hrp]
    rcases List.mem_or_eq_of_mem_set hwm with hwm | rfl
    · exact hw.entry w hwm
    · exact ⟨hentry, hpend⟩

/-- Outside the last phases nothing has been dropped. -/
theorem Kept.running {s : Levels} {st : Store} (h : Kept r perm m₀ drops s st)
    (hp : s.phase ≠ .drop ∧ s.phase ≠ .returned) : Kept r perm m₀ False s st := by
  have hdrops : drops = False := eq_false fun hd => (h.ends hd).elim hp.1 hp.2
  rw [← hdrops]
  exact h

theorem kept_step {table : GoString → GoString → Permission} {p p' : Levels × Store} {act : Act}
    (hids : IdsDistinct m₀.quests) (h : ∃ drops, Kept r (table r.karakaID) m₀ drops p.1 p.2)
    (hC : Steady table p act) (hstep : step r p act = some p') :
    ∃ drops, Kept r (table r.karakaID) m₀ drops p'.1 p'.2 := by
  obtain ⟨s, st⟩ := p
  obtain ⟨s', st'⟩ := p'
  obtain ⟨drops, h⟩ := h
  cases step_cases hstep with
  | @stop cancelled hp hc =>
    have hkeys : s.pending.keys = [] := by
      have hfalse : cancelled = false := hC
      refine hc.resolve_right fun htrue => ?_
      rw [hfalse] at htrue
      exact nomatch htrue
    exact ⟨drops, kept_stop h (by rw [hp]; exact nofun) hkeys⟩
  | scan hp hc =>
    have h := h.running (by rw [hp]; exact ⟨nofun, nofun⟩)
    exact ⟨False, kept_scan h hp⟩
  | doomed hp hid hq hr =>
    have h := h.running (by rw [hp]; exact ⟨nofun, nofun⟩)
    exact ⟨False, kept_doomed h hp hid hq hr⟩
  | ready hp hid hq hr =>
    have h := h.running (by rw [hp]; exact ⟨nofun, nofun⟩)
    exact ⟨False, kept_ready h hp hid hq hr⟩
  | blocked hp hid hq hr =>
    have h := h.running (by rw [hp]; exact ⟨nofun, nofun⟩)
    exact ⟨False, kept_blocked h hp hq hr⟩
  | pause hp hw => exact ⟨drops, kept_pause h hp hw⟩
  | stuck hp hw => exact ⟨True, kept_stuck h hp hw⟩
  | launch hp hl =>
    have h := h.running (by rw [hp]; exact ⟨nofun, nofun⟩)
    exact ⟨False, kept_launch h hp⟩
  | drop hp hid => exact ⟨drops, kept_drop h hp hid⟩
  | dropped hp hk => exact ⟨drops, kept_stop h (by rw [hp]; exact nofun) hk⟩
  | @work ws k host q pc hp hk hsem =>
    have h := h.running (by rw [hp]; exact ⟨nofun, nofun⟩)
    have hperm : host.perm = table := hC
    refine ⟨False, kept_work h hp hk (fun tool => ?_) hids⟩
    rw [hperm]
  | join hp hend =>
    have h := h.running (by rw [hp]; exact ⟨nofun, nofun⟩)
    exact ⟨False, kept_join h hp hend⟩

theorem kept_start {st : Store} (hids : IdsDistinct m₀.quests)
    (hm : getMission r.missionID st = some m₀) :
    Kept r perm m₀ False (Levels.start r st) st := by
  have hstart : Levels.start r st = Levels.ofBoard m₀.quests := by
    unfold Levels.start
    rw [hm]
  have hphase : (Levels.ofBoard m₀.quests).phase = .head := (foldl_enter_phase m₀.quests _).1
  rw [hstart]
  refine ⟨⟨m₀, hm, .refl _, nofun, fun _ _ => rfl, fun x q hq => ?_⟩, fun _ _ h => h, fun x hx => ?_,
    fun x _ => ⟨mem_done_ofBoard, mem_failed_ofBoard⟩, ?_, ?_, ?_, nofun, ?_⟩
  · obtain ⟨hfind, hs⟩ := (lookup_ofBoard hids).1 hq
    obtain ⟨rfl, -⟩ := snapshot_id hq
    refine ⟨q, hfind, .idle hq rfl (fun hdone => ?_) fun hfail => ?_⟩
    · obtain ⟨p, hp, hst⟩ := (marked_iff hids).1 (mem_done_ofBoard.1 hdone)
      rw [hfind] at hp
      cases hp
      exact hs.not_done hst
    · obtain ⟨p, hp, hst⟩ := (marked_iff hids).1 (mem_failed_ofBoard.1 hfail)
      rw [hfind] at hp
      cases hp
      exact hs.not_cancelled hst
  · exact .atStart (mem_done_ofBoard.1 hx)
  · intro todo level hp
    rw [hphase] at hp
    exact nomatch hp
  · intro ws hp
    rw [hphase] at hp
    exact nomatch hp
  · intro hp
    rw [hphase] at hp
    exact nomatch hp
  · intro hp
    rw [hphase] at hp
    exact nomatch hp

/-! ## Cycles -/

/-- What an id that is closed comes to is on the board and in no cycle. -/
theorem Closed.reaches {x : GoString} (hids : IdsDistinct m₀.quests) (h : Closed m₀ x) {y : GoString}
    (hy : ReflTransGen (Needs m₀) x y) : Known m₀ y ∧ ¬ TransGen (Needs m₀) y y := by
  induction h generalizing y with
  | @atStart x hdone =>
    obtain ⟨p, hp, hid, hst⟩ := hdone
    -- a done quest needs nothing
    have hnone : ∀ d, ¬ Needs m₀ x d := by
      rintro d ⟨q, hq, hqid, hs, -⟩
      obtain rfl := quest_unique hids hp hq (hqid.trans hid.symm)
      exact hs.not_done hst
    rcases hy.cases_head with rfl | ⟨d, hd, -⟩
    · refine ⟨⟨p, hp, hid⟩, fun hcycle => ?_⟩
      obtain ⟨d, hd, -⟩ := TransGen.head'_iff.1 hcycle
      exact hnone d hd
    · exact absurd hd (hnone d)
  | @turn x q hq hs hd ih =>
    have hneeds : ∀ d, Needs m₀ x d → d ∈ q.dependsOn := by
      rintro d ⟨p, hp, hpid, -, hdep⟩
      have hfind := findQuest_of_distinct hids hp
      rw [hpid, hq] at hfind
      cases hfind
      exact hdep
    rcases hy.cases_head with rfl | ⟨d, hxd, hdy⟩
    · refine ⟨⟨q, List.mem_of_find?_eq_some hq, findQuest_id hq⟩, fun hcycle => ?_⟩
      obtain ⟨d, hxd, hdx⟩ := TransGen.head'_iff.1 hcycle
      exact (ih d (hneeds d hxd) hdx).2 hcycle
    · exact ih d (hneeds d hxd) hdy

/-! ## The board when the loop has returned -/

/-- The loop has returned and left this board. -/
structure Returned (r : Run) (perm : GoString → Permission) (m₀ : Mission) (drops : Prop) (s : Levels)
    (m : Mission) : Prop where
  variant : Variant m₀ m
  quiet : drops → ¬ Waiting m
  rest : ∀ x, (Levels.ofBoard m₀.quests).pending.lookup x = none → m.findQuest x = m₀.findQuest x
  places : ∀ x q, (Levels.ofBoard m₀.quests).pending.lookup x = some q →
    ∃ f, m.findQuest x = some f ∧ Place r perm m₀ drops s q f
  closed : ∀ x ∈ s.done, Closed m₀ x
  old : ∀ x, (Levels.ofBoard m₀.quests).pending.lookup x = none →
    (x ∈ s.done ↔ Marked m₀ x .done) ∧ (x ∈ s.failed ↔ Marked m₀ x .cancelled)
  noAt : ∀ q pc, ¬ At s q pc
  stalled : ∀ x q, s.pending.lookup x = some q → Stalled m₀ s q ∧ Waiting m

theorem Kept.toReturned {s : Levels} {st : Store} (h : Kept r perm m₀ drops s st)
    (hp : s.phase = .returned) :
    ∃ m, getMission r.missionID st = some m ∧ Returned r perm m₀ drops s m := by
  obtain ⟨m, hm, hv, hw, hrest, hplaces⟩ := h.board
  refine ⟨m, hm, hv, hw, hrest, hplaces, h.closed, h.old, not_at (by rw [hp]; exact nofun), ?_⟩
  intro x q hq
  obtain ⟨hstalled, m', hm', hwait⟩ := h.returned hp x q hq
  rw [hm] at hm'
  cases hm'
  exact ⟨hstalled, hwait⟩

end Invariant

section Ending

variable {r : Run} {perm : GoString → Permission} {m₀ m : Mission} {drops : Prop} {s : Levels}
  (h : Returned r perm m₀ drops s m) (hids : IdsDistinct m₀.quests)

include h hids

theorem Returned.ids : IdsDistinct m.quests := by
  have hkeys : m.quests.map Quest.id = m₀.quests.map Quest.id := by
    have hfst := congrArg (List.map Prod.fst) h.variant.keys
    rw [List.map_map, List.map_map] at hfst
    exact hfst
  unfold IdsDistinct at hids ⊢
  rw [hkeys]
  exact hids

/-- The variables of the run say which quests are done. -/
theorem Returned.mem_done {x : GoString} : x ∈ s.done ↔ Marked m x .done := by
  rw [marked_iff (h.ids hids)]
  cases hx : (Levels.ofBoard m₀.quests).pending.lookup x with
  | none =>
    rw [(h.old x hx).1, marked_iff hids, h.rest x hx]
  | some q =>
    obtain ⟨f, hf, hplace⟩ := h.places x q hx
    obtain ⟨hid, hs⟩ := snapshot_id hx
    subst hid
    have hsome : (∃ p, m.findQuest q.id = some p ∧ p.status = .done) ↔ f.status = .done := by
      constructor
      · rintro ⟨p, hp, hst⟩
        rw [hf] at hp
        cases hp
        exact hst
      · exact fun hst => ⟨f, hf, hst⟩
    rw [hsome]
    cases hplace with
    | idle hp hfq hdone _ =>
      refine iff_of_false hdone fun hst => ?_
      subst hfq
      exact hs.not_done hst
    | working _ hat => exact absurd hat (h.noAt q _)
    | ended _ _ hturn _ hdone _ =>
      refine hdone.trans ?_
      cases hturn with
      | denied _ hf => rw [hf]; exact iff_of_false nofun nofun
      | parked _ _ hf => rw [hf]; exact iff_of_false nofun nofun
      | refused _ _ hf => rw [hf]; exact iff_of_false nofun nofun
      | completed _ _ _ hf => exact iff_of_true rfl hf
      | failed _ _ _ hf => rw [hf]; exact iff_of_false nofun nofun
    | scrapped _ _ hst hdone _ => rw [hst]; exact iff_of_false hdone nofun
    | dropped _ _ _ hst hdone _ => rw [hst]; exact iff_of_false hdone nofun

/-- What has failed is failed or cancelled on the board, unless `ClaimQuest` refuses everything. -/
theorem Returned.mem_failed {x : GoString} (hx : x ∈ s.failed) (hm : ¬ Refuses r m₀) :
    Marked m x .failed ∨ Marked m x .cancelled := by
  rw [marked_iff (h.ids hids), marked_iff (h.ids hids)]
  cases hlook : (Levels.ofBoard m₀.quests).pending.lookup x with
  | none =>
    obtain ⟨q, hq, hst⟩ := (marked_iff hids).1 ((h.old x hlook).2.1 hx)
    exact .inr ⟨q, (h.rest x hlook).trans hq, hst⟩
  | some q =>
    obtain ⟨f, hf, hplace⟩ := h.places x q hlook
    obtain ⟨hid, -⟩ := snapshot_id hlook
    subst hid
    cases hplace with
    | idle _ _ _ hfail => exact absurd hx hfail
    | working _ _ _ _ _ _ _ hfail => exact absurd hx hfail
    | @ended e _ _ hturn _ _ hfail =>
      obtain rfl := hfail.1 hx
      cases hturn with
      | denied _ hst => exact .inr ⟨f, hf, hst⟩
      | refused _ hrefuses _ => exact absurd hrefuses hm
      | failed _ _ _ hst => exact .inl ⟨f, hf, hst⟩
    | scrapped _ _ hst _ _ => exact .inr ⟨f, hf, hst⟩
    | dropped _ _ _ hst _ _ => exact .inr ⟨f, hf, hst⟩

/-- Nothing is done and failed. -/
theorem Returned.not_both {x : GoString} (hdone : x ∈ s.done) : x ∉ s.failed := by
  intro hfail
  cases hlook : (Levels.ofBoard m₀.quests).pending.lookup x with
  | none =>
    obtain ⟨q, hq, hst⟩ := (marked_iff hids).1 ((h.old x hlook).1.1 hdone)
    obtain ⟨q', hq', hst'⟩ := (marked_iff hids).1 ((h.old x hlook).2.1 hfail)
    rw [hq] at hq'
    cases hq'
    rw [hst] at hst'
    exact nomatch hst'
  | some q =>
    obtain ⟨f, -, hplace⟩ := h.places x q hlook
    obtain ⟨hid, -⟩ := snapshot_id hlook
    subst hid
    cases hplace with
    | idle _ _ hn _ => exact hn hdone
    | working _ _ _ _ _ _ hn _ => exact hn hdone
    | ended _ _ _ _ hd hf =>
      have heq := (hd.1 hdone).symm.trans (hf.1 hfail)
      exact nomatch heq
    | scrapped _ _ _ hn _ => exact hn hdone
    | dropped _ _ _ _ hn _ => exact hn hdone

theorem Returned.satisfied {q : Quest} : Satisfied m q ↔ ∀ d ∈ q.dependsOn, d ∈ s.done := by
  unfold Satisfied
  constructor
  · exact fun hsat d hd => (h.mem_done hids).2 (hsat d hd)
  · exact fun hdone d hd => (h.mem_done hids).1 (hdone d hd)

/-- A quest whose dependencies are done has had its turn. -/
theorem Returned.turn {q f : Quest} (hplace : Place r perm m₀ drops s q f)
    (hsat : Satisfied m q) :
    ∃ e, Turn r perm m₀ s.log q f e ∧ (q.id ∈ s.failed ↔ e = .failed q.id) := by
  have hdone := (h.satisfied hids).1 hsat
  cases hplace with
  | idle hp _ _ _ =>
    obtain ⟨⟨before, b, after, hdeps, -, hb, -⟩, -⟩ := h.stalled q.id q hp
    exact absurd (hdone b (mem_of_split hdeps)) hb
  | working _ hat => exact absurd hat (h.noAt q _)
  | ended _ _ hturn _ _ hfail => exact ⟨_, hturn, hfail⟩
  | scrapped _ _ _ _ hdep =>
    obtain ⟨before, b, after, hdeps, -, hb⟩ := hdep
    exact absurd hb (h.not_both hids (hdone b (mem_of_split hdeps)))
  | dropped _ _ _ _ _ hdep =>
    obtain ⟨d, hd, hn⟩ := hdep
    exact absurd (hdone d hd) hn

/-- One that has had no turn is cancelled, or a scan has found it blocked while something waits. -/
theorem Returned.no_turn {q f : Quest} (hplace : Place r perm m₀ drops s q f)
    (hsat : ¬ Satisfied m q) :
    f.status = .cancelled ∨ f = q ∧ Waiting m ∧ Stalled m₀ s q := by
  cases hplace with
  | idle hp hf _ _ =>
    obtain ⟨hstalled, hwait⟩ := h.stalled q.id q hp
    exact .inr ⟨hf, hwait, hstalled⟩
  | working _ hat => exact absurd hat (h.noAt q _)
  | ended _ _ _ hdeps _ _ => exact absurd ((h.satisfied hids).2 hdeps) hsat
  | scrapped _ _ hst _ _ => exact .inl hst
  | dropped _ _ _ hst _ _ => exact .inl hst

omit h hids in
/-- The first unfinished dependency of a quest. -/
theorem first_unfinished {done : List GoString} {before before' after after' : List GoString}
    {b b' : GoString} (heq : before ++ b :: after = before' ++ b' :: after')
    (hbefore : ∀ d ∈ before, d ∈ done) (hb : b ∉ done) (hbefore' : ∀ d ∈ before', d ∈ done)
    (hb' : b' ∉ done) : b = b' := by
  induction before generalizing before' with
  | nil =>
    cases before' with
    | nil => exact (List.cons.inj heq).1
    | cons d before' =>
      have hbd : b = d := (List.cons.inj heq).1
      exact absurd (hbefore' d (List.mem_cons_self ..)) (hbd ▸ hb)
  | cons d before ih =>
    cases before' with
    | nil =>
      have hdb : d = b' := (List.cons.inj heq).1
      exact absurd (hbefore d (List.mem_cons_self ..)) (hdb ▸ hb')
    | cons d' before' =>
      exact ih (List.cons.inj heq).2 (fun x hx => hbefore x (List.mem_cons_of_mem _ hx))
        fun x hx => hbefore' x (List.mem_cons_of_mem _ hx)

theorem Returned.stalled_turn {b : GoString} (hturn : FailedByTurn m₀ m b) :
    b ∉ s.done ∧ b ∈ s.failed ∧
      ∀ p, (Levels.ofBoard m₀.quests).pending.lookup b = some p → ∀ d ∈ p.dependsOn, d ∉ s.failed := by
  rcases hturn with hcancelled | ⟨⟨p, hp, hid, hs, hsat⟩, hdone, hwait⟩
  · have hlook : (Levels.ofBoard m₀.quests).pending.lookup b = none := by
      cases hlook : (Levels.ofBoard m₀.quests).pending.lookup b with
      | none => rfl
      | some p =>
        obtain ⟨q, hq, hst⟩ := (marked_iff hids).1 hcancelled
        obtain ⟨hfind, hs⟩ := (lookup_ofBoard hids).1 hlook
        rw [hq] at hfind
        cases hfind
        exact absurd hst hs.not_cancelled
    have hfail : b ∈ s.failed := (h.old b hlook).2.2 hcancelled
    refine ⟨fun hd => h.not_both hids hd hfail, hfail, fun p hp => ?_⟩
    rw [hlook] at hp
    exact nomatch hp
  · subst hid
    have hlook := (lookup_ofBoard hids).2 ⟨findQuest_of_distinct hids hp, hs⟩
    obtain ⟨f, hf, hplace⟩ := h.places p.id p hlook
    obtain ⟨e, hturn, hfail⟩ := h.turn hids hplace hsat
    have hfind : ∀ status, Marked m p.id status ↔ ∃ q, m.findQuest p.id = some q ∧ q.status = status :=
      fun _ => marked_iff (h.ids hids)
    have hmem : p.id ∈ s.failed := by
      refine hfail.2 ?_
      cases hturn with
      | denied => rfl
      | parked _ _ hst => exact absurd ((hfind _).2 ⟨f, hf, hst⟩) hwait
      | refused => rfl
      | completed _ _ _ hst => exact absurd ((hfind _).2 ⟨f, hf, hst⟩) hdone
      | failed => rfl
    refine ⟨fun hd => h.not_both hids hd hmem, hmem, fun p' hp' d hd => ?_⟩
    rw [hlook] at hp'
    cases hp'
    exact h.not_both hids ((h.satisfied hids).1 hsat d hd)

/-- A quest is left pending only while something waits. -/
theorem Returned.pending_waits {q f : Quest} (hplace : Place r perm m₀ drops s q f)
    (hm : ¬ Refuses r m₀) (hst : f.status = .pending) : Waiting m ∧ ¬ Satisfied m q := by
  have hsat : ¬ Satisfied m q := by
    intro hsat
    obtain ⟨e, hturn, -⟩ := h.turn hids hplace hsat
    cases hturn with
    | denied _ hst' => rw [hst] at hst'; exact nomatch hst'
    | parked _ _ hst' => rw [hst] at hst'; exact nomatch hst'
    | refused _ hrefuses _ => exact hm hrefuses
    | completed _ _ _ hst' => rw [hst] at hst'; exact nomatch hst'
    | failed _ _ _ hst' => rw [hst] at hst'; exact nomatch hst'
  rcases h.no_turn hids hplace hsat with hcancelled | ⟨-, hwait, -⟩
  · rw [hst] at hcancelled
    exact nomatch hcancelled
  · exact ⟨hwait, hsat⟩

/-- While nothing waits, an unfinished dependency is failed or cancelled, or held by somebody else, or it
is not on the board. -/
theorem Returned.unfinished (hm : ¬ Refuses r m₀) (hwait : ¬ Waiting m) {d : GoString}
    (hd : ¬ Marked m d .done) :
    Marked m d .failed ∨ Marked m d .cancelled ∨ HeldOnBoard m d ∨ ¬ Known m₀ d := by
  by_cases hknown : Known m₀ d
  · obtain ⟨p₀, hp₀, hid⟩ := hknown
    have hfind := findQuest_of_distinct hids hp₀
    rw [hid] at hfind
    obtain ⟨p, hp⟩ := h.variant.findQuest hfind
    have hmem : p ∈ m.quests := List.mem_of_find?_eq_some hp
    have hpid := findQuest_id hp
    cases hst : p.status with
    | pending =>
      exfalso
      cases hlook : (Levels.ofBoard m₀.quests).pending.lookup d with
      | none =>
        -- the run has not touched it, so it was pending at the start
        have hsame := h.rest d hlook
        rw [hp, hfind] at hsame
        cases hsame
        rw [(lookup_ofBoard hids).2 ⟨hfind, .inl hst⟩] at hlook
        exact nomatch hlook
      | some q =>
        obtain ⟨f, hf, hplace⟩ := h.places d q hlook
        rw [hp] at hf
        cases hf
        exact hwait (h.pending_waits hids hplace hm hst).1
    | waitingApproval => exact absurd ⟨p, hmem, hst⟩ hwait
    | done => exact absurd ⟨p, hmem, hpid, hst⟩ hd
    | failed => exact .inl ⟨p, hmem, hpid, hst⟩
    | cancelled => exact .inr (.inl ⟨p, hmem, hpid, hst⟩)
    | _ =>
      refine .inr (.inr (.inl ⟨p, hmem, hpid, ?_⟩))
      rw [hst]
      exact ⟨nofun, nofun, nofun, nofun, nofun⟩
  · exact .inr (.inr (.inr hknown))

/-- A quest whose dependencies are done can be satisfied. -/
theorem Returned.satisfiable {q : Quest} (hq : m₀.findQuest q.id = some q) (hsat : Satisfied m q) :
    ¬ Unsatisfiable m₀ (Needs m₀) q.id := by
  rintro ⟨y, hy, hbad⟩
  obtain ⟨d, ⟨p, hp, hpid, -, hdep⟩, hdy⟩ := TransGen.head'_iff.1 hy
  have hfind := findQuest_of_distinct hids hp
  rw [hpid, hq] at hfind
  cases hfind
  have hclosed := h.closed d ((h.satisfied hids).1 hsat d hdep)
  obtain ⟨hknown, hcycle⟩ := hclosed.reaches hids hdy
  exact hbad.elim hcycle fun hunknown => hunknown hknown

/-- Everything that the run takes up is left as it should be. -/
theorem Returned.ending {q f : Quest} (hlook : (Levels.ofBoard m₀.quests).pending.lookup q.id = some q)
    (hf : m.findQuest q.id = some f) (hplace : Place r perm m₀ drops s q f) :
    Ending r perm m₀ m q f := by
  have hs : Schedulable q := (snapshot_id hlook).2
  have hqf : f = q → f.status ≠ .cancelled := by
    rintro rfl hst
    exact hs.not_cancelled hst
  -- no quest has two statuses
  have hone : ∀ {x a b}, Marked m x a → Marked m x b → a = b := by
    intro x a b ha hb
    obtain ⟨p, hp, rfl⟩ := (marked_iff (h.ids hids)).1 ha
    obtain ⟨p', hp', rfl⟩ := (marked_iff (h.ids hids)).1 hb
    rw [hp] at hp'
    cases hp'
    rfl
  refine ⟨?_, fun hsat hp => ?_, fun hsat hp hmode => ?_, fun hsat hpass hm => ?_,
    fun hsat hpass hm => ?_, ?_, fun hm hwait hst => ?_, fun before b after hdeps hbefore hturn => ?_,
    fun hsat hst => ?_, fun hm hst => ?_⟩
  · by_cases hsat : Satisfied m q
    · obtain ⟨e, hturn, -⟩ := h.turn hids hplace hsat
      cases hturn with
      | denied _ hst => exact .inr (.inr (.inr (.inl hst)))
      | parked _ _ hst => exact .inr (.inr (.inl hst))
      | refused _ _ hst => exact .inr (.inr (.inr (.inr hst)))
      | completed _ _ _ hst => exact .inl hst
      | failed _ _ _ hst => exact .inr (.inl hst)
    · rcases h.no_turn hids hplace hsat with hst | ⟨rfl, -⟩
      · exact .inr (.inr (.inr (.inl hst)))
      · rcases hs with hst | hst
        · exact .inr (.inr (.inr (.inr hst)))
        · exact .inr (.inl hst)
  · obtain ⟨e, hturn, -⟩ := h.turn hids hplace hsat
    exact hturn.cancelled_iff.2 hp
  · obtain ⟨e, hturn, -⟩ := h.turn hids hplace hsat
    cases hturn with
    | denied hdeny _ => rw [hp] at hdeny; exact nomatch hdeny
    | parked _ _ hst => exact hst
    | refused hpass _ _ => exact absurd ⟨hp, hmode⟩ hpass.2
    | completed hpass _ _ _ => exact absurd ⟨hp, hmode⟩ hpass.2
    | failed hpass _ _ _ => exact absurd ⟨hp, hmode⟩ hpass.2
  · obtain ⟨e, hturn, -⟩ := h.turn hids hplace hsat
    cases hturn with
    | denied hdeny _ => exact absurd hdeny hpass.1
    | parked hask hmode _ => exact absurd ⟨hask, hmode⟩ hpass.2
    | refused _ hrefuses _ => exact absurd hrefuses hm
    | completed _ _ _ hst => exact .inl hst
    | failed _ _ _ hst => exact .inr hst
  · obtain ⟨e, hturn, -⟩ := h.turn hids hplace hsat
    cases hturn with
    | denied hdeny _ => exact absurd hdeny hpass.1
    | parked hask hmode _ => exact absurd ⟨hask, hmode⟩ hpass.2
    | refused _ _ hst => exact hst
    | completed _ hn _ _ => exact absurd hm hn
    | failed _ hn _ _ => exact absurd hm hn
  · intro hm hwait hheld
    have hno : ¬ Satisfied m q → f.status = .cancelled := by
      intro hsat
      exact (h.no_turn hids hplace hsat).resolve_right fun hleft => hwait hleft.2.1
    constructor
    · intro hst
      by_cases hsat : Satisfied m q
      · obtain ⟨e, hturn, -⟩ := h.turn hids hplace hsat
        exact .inl (hturn.cancelled_iff.1 hst)
      · unfold Satisfied at hsat
        push Not at hsat
        obtain ⟨d, hd, hdone⟩ := hsat
        rcases h.unfinished hids hm hwait hdone with hmark | hmark | hmark | hunknown
        · exact .inr (.inl ⟨d, hd, .inl hmark⟩)
        · exact .inr (.inl ⟨d, hd, .inr hmark⟩)
        · exact absurd hmark (hheld d hd)
        · have hneeds : Needs m₀ q.id d := by
            obtain ⟨hfind, hs⟩ := (lookup_ofBoard hids).1 hlook
            exact ⟨q, List.mem_of_find?_eq_some hfind, rfl, hs, hd⟩
          exact .inr (.inr ⟨d, .single hneeds, .inr hunknown⟩)
    · rintro (hdeny | ⟨d, hd, hmark⟩ | hunsat)
      · by_cases hsat : Satisfied m q
        · obtain ⟨e, hturn, -⟩ := h.turn hids hplace hsat
          exact hturn.cancelled_iff.2 hdeny
        · exact hno hsat
      · refine hno fun hsat => ?_
        rcases hmark with hmark | hmark
        · exact nomatch hone hmark (hsat d hd)
        · exact nomatch hone hmark (hsat d hd)
      · exact hno fun hsat =>
          h.satisfiable hids ((lookup_ofBoard hids).1 hlook).1 hsat hunsat
  · cases hplace with
    | idle _ hfq _ _ => exact absurd hst (hqf hfq)
    | working _ hat => exact absurd hat (h.noAt q _)
    | ended _ _ hturn _ _ _ => exact .inl (hturn.cancelled_iff.1 hst)
    | scrapped _ _ _ _ hdep =>
      obtain ⟨before, b, after, hdeps, -, hb⟩ := hdep
      exact .inr ⟨b, mem_of_split hdeps, h.mem_failed hids hb hm⟩
    | dropped hdrops => exact absurd hwait (h.quiet hdrops)
  · obtain ⟨hb, hfail, hlate⟩ := h.stalled_turn hids hturn
    have hsat : ¬ Satisfied m q := fun hsat =>
      hb ((h.satisfied hids).1 hsat b (mem_of_split hdeps))
    rcases h.no_turn hids hplace hsat with hst | ⟨-, -, hstalled⟩
    · exact hst
    · obtain ⟨before', b', after', hdeps', hbefore', hb', hlate'⟩ := hstalled
      have hbb : b = b' := by
        refine first_unfinished (hdeps.symm.trans hdeps') (fun d hd => ?_) hb hbefore' hb'
        exact (h.mem_done hids).2 (hbefore d hd)
      subst hbb
      obtain ⟨p, hp, d, hd, hfail'⟩ := hlate' hfail
      exact absurd hfail' (hlate p hp d hd)
  · rcases h.no_turn hids hplace hsat with hcancelled | ⟨hfq, hwait, -⟩
    · exact absurd hcancelled hst
    · exact ⟨hfq, .inl hwait⟩
  · obtain ⟨hwait, hsat⟩ := h.pending_waits hids hplace hm hst
    exact ⟨hsat, .inl hwait⟩

end Ending

/-- How `executeQuestLevels` leaves a board whose ids are distinct. -/
theorem endings {r : Run} {table : GoString → GoString → Permission} {m₀ : Mission} {st st' : Store}
    {s : Levels} {acts : List Act} (hids : IdsDistinct m₀.quests)
    (hm : getMission r.missionID st = some m₀)
    (hrun : runSteps (step r) (Levels.start r st, st) acts = some (s, st'))
    (hC : StepsMeet (step r) (Steady table) (Levels.start r st, st) acts)
    (hret : s.phase = .returned) :
    ∃ m, getMission r.missionID st' = some m ∧ ∀ q ∈ m₀.quests, Schedulable q →
      ∃ q' ∈ m.quests, q'.id = q.id ∧ Ending r (table r.karakaID) m₀ m q q' := by
  have hkept : ∃ drops, Kept r (table r.karakaID) m₀ drops s st' :=
    runSteps_invariant_of_meet
      (P := fun p => ∃ drops, Kept r (table r.karakaID) m₀ drops p.1 p.2)
      (fun p act p' h hC hstep => kept_step hids h hC hstep) hrun hC ⟨False, kept_start hids hm⟩
  obtain ⟨drops, hkept⟩ := hkept
  obtain ⟨m, hm', hreturned⟩ := hkept.toReturned hret
  refine ⟨m, hm', fun q hq hs => ?_⟩
  have hlook := (lookup_ofBoard hids).2 ⟨findQuest_of_distinct hids hq, hs⟩
  obtain ⟨f, hf, hplace⟩ := hreturned.places q.id q hlook
  exact ⟨f, List.mem_of_find?_eq_some hf, findQuest_id hf, hreturned.ending hids hlook hf hplace⟩

/-! ## Boards that are left otherwise than one would think -/

/-- A store with the mission alone. -/
def storeOf (m : Mission) : Store := ⟨AList.singleton m.id m, 1⟩

/-- A mission with these quests. -/
def missionOf (status : MissionStatus) (quests : List Quest) : Mission :=
  ⟨"m1", "read", quests, status, [], [], none, 0, 0⟩

/-- The run in approval mode, with a table that says the same of every tool, leaves the board like
this. -/
def LeavesBoard (perm : Permission) (m m' : Mission) : Prop :=
  ∃ acts s st', runSteps (step (boardRun true))
      (.start (boardRun true) (storeOf m), storeOf m) acts = some (s, st') ∧
    StepsMeet (step (boardRun true)) (Steady fun _ _ => perm)
      (.start (boardRun true) (storeOf m), storeOf m) acts ∧
    s.phase = .returned ∧ getMission (str "m1") st' = some m'

/-- Steps that read nothing but the table are steady. -/
theorem steady_of_mem {perm : Permission} {acts : List Act}
    (h : ∀ a ∈ acts, (∃ x, a = .visit x 0) ∨ a = .head false ∨ a = .endScan ∨ a = .join ∨
      (∃ x, a = .drop x 0) ∨ a = .endDrop ∨ ∃ k, a = .work k (boardHost perm)) (p : Levels × Store) :
    StepsMeet (step (boardRun true)) (Steady fun _ _ => perm) p acts := by
  refine stepsMeet_of_forall (fun a ha p => ?_) p
  rcases h a ha with ⟨x, rfl⟩ | rfl | rfl | rfl | ⟨x, rfl⟩ | rfl | ⟨k, rfl⟩
  · trivial
  · exact rfl
  · trivial
  · trivial
  · trivial
  · trivial
  · exact rfl

/-- The first quest is parked, the second one waits for it, and the third one waits for itself. -/
def pausedBoard : Mission :=
  missionOf .active [boardQuest "q1" [], boardQuest "q2" [str "q1"], boardQuest "q3" [str "q3"]]

def pausedActs : List Act :=
  [.head false, .visit "q1" 0, .visit "q2" 0, .visit "q3" 0, .endScan, .work 0 (boardHost .ask),
    .work 0 (boardHost .ask), .join, .head false, .visit "q3" 0, .visit "q2" 0, .endScan]

theorem pausedBoard_ends :
    ∃ s st' m, runSteps (step (boardRun true))
        (.start (boardRun true) (storeOf pausedBoard), storeOf pausedBoard) pausedActs =
          some (s, st') ∧
      getMission (str "m1") st' = some m ∧ ∀ q ∈ pausedBoard.quests, Schedulable q →
        ∃ q' ∈ m.quests, q'.id = q.id ∧
          Ending (boardRun true) (fun _ => .ask) pausedBoard m q q' := by
  have hmeet : StepsMeet (step (boardRun true)) (Steady fun _ _ => .ask)
      (.start (boardRun true) (storeOf pausedBoard), storeOf pausedBoard) pausedActs :=
    steady_of_mem (by simp [pausedActs]) _
  obtain ⟨m, hm, hend⟩ := endings (by decide) rfl rfl hmeet rfl
  exact ⟨_, _, m, rfl, hm, hend⟩

/-- A quest that waits for a human. -/
def waitingQuest (id : GoString) : Quest := { boardQuest id [] with status := .waitingApproval }

/-- The tool of the second quest is denied, but the quest gets no turn. -/
def deniedBoard : Mission := missionOf .active [waitingQuest "q1", boardQuest "q2" [str "q1"]]

theorem deniedBoard_left : LeavesBoard .deny deniedBoard deniedBoard :=
  ⟨[.head false, .visit "q2" 0, .endScan], _, _, rfl, steady_of_mem (by simp) _, rfl, rfl⟩

theorem deniedBoard_wrong : ¬ CancelsExactly (fun _ => .deny) deniedBoard deniedBoard := by
  intro h
  obtain ⟨q', hq', -, hiff, -⟩ := h 1 (boardQuest "q2" [str "q1"]) rfl (.inl rfl)
  cases hq'
  exact nomatch hiff.2 (.inl rfl)

/-- The second quest depends on itself, and the first one waits. -/
def cycleBoard : Mission := missionOf .active [waitingQuest "q1", boardQuest "q2" [str "q2"]]

theorem cycleBoard_left : LeavesBoard .allow cycleBoard cycleBoard :=
  ⟨[.head false, .visit "q2" 0, .endScan], _, _, rfl, steady_of_mem (by simp) _, rfl, rfl⟩

theorem cycleBoard_wrong : ¬ CancelsExactly (fun _ => .allow) cycleBoard cycleBoard := by
  intro h
  obtain ⟨q', hq', -, hiff, -⟩ := h 1 (boardQuest "q2" [str "q2"]) rfl (.inl rfl)
  cases hq'
  have hcycle : DependsOn cycleBoard "q2" "q2" :=
    ⟨boardQuest "q2" [str "q2"], List.mem_cons_of_mem _ (List.mem_singleton_self _), rfl,
      List.mem_singleton_self _⟩
  exact nomatch hiff.2 (.inr (.inr ⟨"q2", .single hcycle, .inl (.single hcycle)⟩))

/-- The first quest is done, and nobody asks any more what it depended on. -/
def doneBoard : Mission :=
  missionOf .active
    [{ boardQuest "q1" [str "q9"] with status := .done }, boardQuest "q2" [str "q1"]]

/-- The second quest as the run leaves it. -/
def doneQuest : Quest :=
  { boardQuest "q2" [str "q1"] with
    status := .done
    claim := "suparna_vpc"
    result := some .null
    reward := some ⟨.done, 1, "auto: tool executed"⟩ }

/-- The board with that quest. -/
def doneBoardNow : Mission :=
  missionOf .active [{ boardQuest "q1" [str "q9"] with status := .done }, doneQuest]

theorem doneBoard_left : LeavesBoard .allow doneBoard doneBoardNow :=
  ⟨[.head false, .visit "q2" 0, .endScan] ++ workOff 0 .allow ++ [.join, .head false], _, _, rfl,
    steady_of_mem (by simp [workOff]) _, rfl, rfl⟩

theorem doneBoard_wrong : ¬ CancelsExactly (fun _ => .allow) doneBoard doneBoardNow := by
  intro h
  obtain ⟨q', hq', -, hiff, -⟩ := h 1 (boardQuest "q2" [str "q1"]) rfl (.inl rfl)
  cases hq'
  have h21 : DependsOn doneBoard "q2" "q1" :=
    ⟨boardQuest "q2" [str "q1"], List.mem_cons_of_mem _ (List.mem_singleton_self _), rfl,
      List.mem_singleton_self _⟩
  have h19 : DependsOn doneBoard "q1" "q9" :=
    ⟨{ boardQuest "q1" [str "q9"] with status := .done }, List.mem_cons_self .., rfl,
      List.mem_singleton_self _⟩
  have hunknown : ¬ Known doneBoard "q9" := by
    unfold Known
    decide
  exact nomatch hiff.2 (.inr (.inr ⟨"q9", .tail (.single h21) h19, .inr hunknown⟩))

/-- Two quests have one id, and the goroutine runs the first one. -/
def twinBoard : Mission := missionOf .active [boardQuest "q1" [], boardQuest "q1" []]

/-- The board after the run. -/
def twinBoardNow : Mission :=
  missionOf .active
    [{ boardQuest "q1" [] with
        status := .cancelled
        error := "permission deny: suparna_vpc cannot use sms.history" },
      boardQuest "q1" []]

theorem twinBoard_left : LeavesBoard .deny twinBoard twinBoardNow :=
  ⟨[.head false, .visit "q1" 0, .endScan, .work 0 (boardHost .deny), .work 0 (boardHost .deny), .join,
    .head false], _, _, rfl, steady_of_mem (by simp) _, rfl, rfl⟩

theorem twinBoard_wrong : ¬ CancelsExactly (fun _ => .deny) twinBoard twinBoardNow := by
  intro h
  obtain ⟨q', hq', -, hiff, -⟩ := h 1 (boardQuest "q1" []) rfl (.inl rfl)
  cases hq'
  exact nomatch hiff.2 (.inl rfl)

/-- A mission that is done refuses every claim. -/
def overBoard : Mission := missionOf .done [boardQuest "q1" []]

theorem overBoard_left : LeavesBoard .allow overBoard overBoard :=
  ⟨[.head false, .visit "q1" 0, .endScan, .work 0 (boardHost .allow), .work 0 (boardHost .allow),
    .work 0 (boardHost .allow), .work 0 (boardHost .allow), .join, .head false], _, _, rfl,
    steady_of_mem (by simp) _, rfl, rfl⟩

theorem overBoard_wrong : ¬ CancelsExactly (fun _ => .allow) overBoard overBoard := by
  intro h
  obtain ⟨q', hq', -, -, hpending⟩ := h 0 (boardQuest "q1" []) rfl (.inl rfl)
  cases hq'
  obtain ⟨y, hy, -⟩ := hpending rfl
  obtain ⟨d, ⟨q, hq, -, hd⟩, -⟩ := TransGen.head'_iff.1 hy
  cases List.mem_singleton.1 hq
  exact absurd hd List.not_mem_nil

/-- A denied quest without a turn, a cycle while something waits, a done quest with an unknown dependency,
two quests with one id, and a mission that is done. -/
theorem cancels_otherwise :
    (LeavesBoard .deny deniedBoard deniedBoard ∧
      ¬ CancelsExactly (fun _ => .deny) deniedBoard deniedBoard) ∧
    (LeavesBoard .allow cycleBoard cycleBoard ∧
      ¬ CancelsExactly (fun _ => .allow) cycleBoard cycleBoard) ∧
    (LeavesBoard .allow doneBoard doneBoardNow ∧
      ¬ CancelsExactly (fun _ => .allow) doneBoard doneBoardNow) ∧
    (LeavesBoard .deny twinBoard twinBoardNow ∧
      ¬ CancelsExactly (fun _ => .deny) twinBoard twinBoardNow) ∧
    LeavesBoard .allow overBoard overBoard ∧
      ¬ CancelsExactly (fun _ => .allow) overBoard overBoard :=
  ⟨⟨deniedBoard_left, deniedBoard_wrong⟩, ⟨cycleBoard_left, cycleBoard_wrong⟩,
    ⟨doneBoard_left, doneBoard_wrong⟩, ⟨twinBoard_left, twinBoard_wrong⟩, overBoard_left,
    overBoard_wrong⟩

end Gafam.Orchestrator
