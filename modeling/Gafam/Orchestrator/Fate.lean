import Gafam.Orchestrator.Proofs.WorkerProofs

/-!
# What becomes of a quest

An abstract model of `executeQuestLevels` in which nothing is scheduled. When what a goroutine reads
from outside is fixed for each quest and each point of its program, the goroutine has one outcome,
and what becomes of the board is a matter of the dependency graph: a quest runs when everything it
needs finishes, and it is doomed when it does not run and something it comes to before fails.
-/

namespace Gafam.Orchestrator

open Gafam.Go Gafam.Moksa

/-- What the goroutines read from outside, fixed for each quest id. -/
abbrev Outcomes := GoString → WorkerPc → Host

/-! ## The goroutine of one quest -/

/-- Where the goroutine of the snapshot `q` is after `n` steps, and its quest, which was `f` when it
started. -/
def soloRun (r : Run) (env : Outcomes) (μ : MissionStatus) (q f : Quest) : Nat → WorkerPc × Quest
  | 0 => (.queued, f)
  | n + 1 =>
    let w := soloRun r env μ q f n
    let next := w.1.solo r (env q.id w.1) q μ w.2
    (next.1, next.2.1)

/-- What it reports with the step after the first `n`. -/
def soloReport (r : Run) (env : Outcomes) (μ : MissionStatus) (q f : Quest) (n : Nat) :
    Option Event :=
  let w := soloRun r env μ q f n
  (w.1.solo r (env q.id w.1) q μ w.2).2.2

/-- The last word of a goroutine. -/
def Event.Final : Event → Prop
  | .started _ => False
  | _ => True

variable {r : Run} {env : Outcomes} {μ : MissionStatus} {q f : Quest}

theorem soloRun_next {n : Nat} {pc : WorkerPc} (hpc : (soloRun r env μ q f n).1 = pc) :
    soloRun r env μ q f (n + 1) =
        ((pc.solo r (env q.id pc) q μ (soloRun r env μ q f n).2).1,
          (pc.solo r (env q.id pc) q μ (soloRun r env μ q f n).2).2.1) ∧
      soloReport r env μ q f n =
        (pc.solo r (env q.id pc) q μ (soloRun r env μ q f n).2).2.2 := by
  subst hpc
  exact ⟨rfl, rfl⟩

/-- The last word comes with the last step. -/
theorem solo_final {h : Host} {pc : WorkerPc} {e : Event}
    (he : (pc.solo r h q μ f).2.2 = some e) (hf : e.Final) : (pc.solo r h q μ f).1 = .finished := by
  cases pc with
  | gate =>
    unfold WorkerPc.solo at he ⊢
    dsimp only at he ⊢
    cases hp : h.perm r.karakaID q.tool with
    | allow => rw [hp] at he; exact nomatch he
    | deny => rfl
    | ask =>
      rw [hp] at he
      dsimp only at he ⊢
      split_ifs at he ⊢
      rfl
  | claim =>
    unfold WorkerPc.solo at he ⊢
    dsimp only at he ⊢
    revert he
    rcases claimOne r.karakaID μ f with ⟨f', e | e⟩
    · exact fun he => nomatch he
    · exact fun _ => rfl
  | run attempt =>
    unfold WorkerPc.solo at he
    dsimp only at he
    revert he
    rcases runStartOne h.perm μ f with ⟨f', e | e⟩
    · intro he
      cases he
      exact hf.elim
    · exact fun he => nomatch he
  | tool attempt =>
    unfold WorkerPc.solo at he
    dsimp only at he
    split_ifs at he
  | repair attempt lastErr =>
    unfold WorkerPc.solo at he
    dsimp only at he
    cases hr : h.repair <;> rw [hr] at he <;> exact nomatch he
  | rewardDone => rfl
  | rewardFailed lastErr => rfl
  | _ => exact nomatch he

/-- A goroutine that has ended makes no step. -/
theorem soloRun_succ_of_finished {n : Nat} (hn : (soloRun r env μ q f n).1 = .finished) :
    soloRun r env μ q f (n + 1) = soloRun r env μ q f n ∧ soloReport r env μ q f n = none := by
  unfold soloReport
  rw [soloRun]
  revert hn
  generalize soloRun r env μ q f n = w
  obtain ⟨pc, f'⟩ := w
  intro hn
  obtain rfl : pc = .finished := hn
  exact ⟨rfl, rfl⟩

theorem soloRun_of_finished {n k : Nat} (hn : (soloRun r env μ q f n).1 = .finished) (hk : n ≤ k) :
    soloRun r env μ q f k = soloRun r env μ q f n := by
  induction k, hk using Nat.le_induction with
  | base => rfl
  | succ k hk ih =>
    have hpc : (soloRun r env μ q f k).1 = .finished := by rw [ih, hn]
    exact (soloRun_succ_of_finished hpc).1.trans ih

/-- It ends in one way only. -/
theorem soloRun_finished_unique {n k : Nat} (hn : (soloRun r env μ q f n).1 = .finished)
    (hk : (soloRun r env μ q f k).1 = .finished) :
    soloRun r env μ q f n = soloRun r env μ q f k := by
  rcases Nat.le_total n k with h | h
  · exact (soloRun_of_finished hn h).symm
  · exact soloRun_of_finished hk h

/-- After its last word nothing is reported. -/
theorem soloReport_of_final {n k : Nat} {e : Event} (he : soloReport r env μ q f n = some e)
    (hf : e.Final) (hk : n < k) : soloReport r env μ q f k = none := by
  have hfin : (soloRun r env μ q f (n + 1)).1 = .finished := solo_final he hf
  have hk' := soloRun_of_finished hfin hk
  have hpc : (soloRun r env μ q f k).1 = .finished := by rw [hk', hfin]
  exact (soloRun_succ_of_finished hpc).2

/-- It has one last word only. -/
theorem soloReport_unique {n k : Nat} {e e' : Event} (he : soloReport r env μ q f n = some e)
    (he' : soloReport r env μ q f k = some e') (hf : e.Final) (hf' : e'.Final) : e = e' := by
  rcases Nat.lt_trichotomy n k with h | rfl | h
  · have hnone := soloReport_of_final he hf h
    rw [he'] at hnone
    exact nomatch hnone
  · rw [he] at he'
    exact Option.some.inj he'
  · have hnone := soloReport_of_final he' hf' h
    rw [he] at hnone
    exact nomatch hnone

/-! ## The board -/

/-- A run with the outcomes of its goroutines and the board it starts from. -/
structure Setup where
  run : Run
  env : Outcomes
  board : Mission

namespace Setup

/-- The snapshot of the board. -/
def snapshot (S : Setup) : Levels := .ofBoard S.board.quests

/-- The scheduled entry of an id and the quest that its goroutine works on. -/
def Scheduled (S : Setup) (x : GoString) (q f : Quest) : Prop :=
  S.snapshot.pending.lookup x = some q ∧ S.board.findQuest x = some f

/-- The goroutine of the id reports this, if it is ever started. -/
def Reports (S : Setup) (x : GoString) (e : Event) : Prop :=
  ∃ q f n, S.Scheduled x q f ∧ soloReport S.run S.env S.board.status q f n = some e

/-- The goroutine of the id leaves its quest like this, if it is ever started. -/
def Leaves (S : Setup) (x : GoString) (f' : Quest) : Prop :=
  ∃ q f n, S.Scheduled x q f ∧ soloRun S.run S.env S.board.status q f n = (.finished, f')

/-- The id is done at the start or is going to be. -/
inductive Finishes (S : Setup) : GoString → Prop
  | atStart {x : GoString} (h : x ∈ S.snapshot.done) : Finishes S x
  | run {x : GoString} {q : Quest} (hq : S.snapshot.pending.lookup x = some q)
    (hf : ∀ d ∈ q.dependsOn, d ∉ S.snapshot.failed) (hd : ∀ d ∈ q.dependsOn, Finishes S d)
    (hc : S.Reports x (.completed x)) : Finishes S x

/-- The id is going to be run: everything it needs finishes. -/
def Runs (S : Setup) (x : GoString) : Prop :=
  ∃ q, S.snapshot.pending.lookup x = some q ∧
    ∀ d ∈ q.dependsOn, d ∉ S.snapshot.failed ∧ S.Finishes d

/-- The id is cancelled at the start, or it is run and fails, or it is never run and comes to a failed
dependency before any other that does not finish. -/
inductive Fails (S : Setup) : GoString → Prop
  | atStart {x : GoString} (h : x ∈ S.snapshot.failed) : Fails S x
  | run {x : GoString} (hr : S.Runs x) (hf : S.Reports x (.failed x)) : Fails S x
  | doomed {x b : GoString} {q : Quest} {before after : List GoString} (hn : ¬ S.Runs x)
    (hq : S.snapshot.pending.lookup x = some q) (hdeps : q.dependsOn = before ++ b :: after)
    (hbefore : ∀ d ∈ before, S.Finishes d) (hb : Fails S b) : Fails S x

/-- The id is never run, and a failed dependency is the reason. -/
def Doomed (S : Setup) (x : GoString) : Prop :=
  ¬ S.Runs x ∧ ∃ q before b after, S.snapshot.pending.lookup x = some q ∧
    q.dependsOn = before ++ b :: after ∧ (∀ d ∈ before, S.Finishes d) ∧ S.Fails b

theorem Doomed.fails {S : Setup} {x : GoString} (h : S.Doomed x) : S.Fails x := by
  obtain ⟨hn, q, before, b, after, hq, hdeps, hbefore, hb⟩ := h
  exact .doomed hn hq hdeps hbefore hb

theorem finishes_of_runs {S : Setup} {x : GoString} (h : S.Runs x)
    (hc : S.Reports x (.completed x)) : S.Finishes x := by
  obtain ⟨q, hq, hdeps⟩ := h
  exact .run hq (fun d hd => (hdeps d hd).1) (fun d hd => (hdeps d hd).2) hc

/-- What finishes was done at the start or is run and completes. -/
theorem Finishes.cases {S : Setup} {x : GoString} (h : S.Finishes x) :
    x ∈ S.snapshot.done ∨ S.Runs x ∧ S.Reports x (.completed x) := by
  cases h with
  | atStart h => exact .inl h
  | run hq hf hd hc => exact .inr ⟨⟨_, hq, fun d h => ⟨hf d h, hd d h⟩⟩, hc⟩

theorem scheduled_unique {S : Setup} {x : GoString} {q q' f f' : Quest} (h : S.Scheduled x q f)
    (h' : S.Scheduled x q' f') : q' = q ∧ f' = f := by
  obtain ⟨hq, hf⟩ := h
  obtain ⟨hq', hf'⟩ := h'
  rw [hq] at hq'
  rw [hf] at hf'
  exact ⟨(Option.some.inj hq').symm, (Option.some.inj hf').symm⟩

theorem Reports.unique {S : Setup} {x : GoString} {e e' : Event} (h : S.Reports x e)
    (h' : S.Reports x e') (he : e.Final) (he' : e'.Final) : e = e' := by
  obtain ⟨q, f, n, hs, hn⟩ := h
  obtain ⟨q', f', n', hs', hn'⟩ := h'
  obtain ⟨rfl, rfl⟩ := scheduled_unique hs hs'
  exact soloReport_unique hn hn' he he'

theorem Leaves.unique {S : Setup} {x : GoString} {f f' : Quest} (h : S.Leaves x f)
    (h' : S.Leaves x f') : f = f' := by
  obtain ⟨q, g, n, hs, hn⟩ := h
  obtain ⟨q', g', n', hs', hn'⟩ := h'
  obtain ⟨rfl, rfl⟩ := scheduled_unique hs hs'
  have heq := soloRun_finished_unique (congrArg Prod.fst hn) (congrArg Prod.fst hn')
  rw [hn, hn'] at heq
  exact congrArg Prod.snd heq

/-- An id that fails in the run does not complete in it. -/
theorem Fails.not_completed {S : Setup} {x : GoString} (h : S.Fails x) (hr : S.Runs x)
    (hc : S.Reports x (.completed x)) : x ∈ S.snapshot.failed := by
  cases h with
  | atStart h => exact h
  | run _ hf => exact absurd (hf.unique hc trivial trivial) (by simp)
  | doomed hn => exact absurd hr hn

end Setup

end Gafam.Orchestrator
