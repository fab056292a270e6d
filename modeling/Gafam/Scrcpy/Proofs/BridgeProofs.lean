import Gafam.Scrcpy.Bridge

/-!
# Whose the bridge is

Between the check and the set-up of a start command, and between the cleanup of a run and the end of its task, other
commands get their turn. As long as a task sets the state up after the others are settled, the state is that of the
one run in progress.
-/

namespace Gafam.Scrcpy

open Gafam.Go Gafam.Lib

variable {device : Nat → GoString} {b b' : BridgeSystem}

/-! ## Phases -/

@[simp] theorem moved_phase_self (b : BridgeSystem) (n : Nat) (p : Phase) : (b.moved n p).phase n = p := if_pos rfl

theorem moved_phase_ne (b : BridgeSystem) {n m : Nat} (p : Phase) (h : m ≠ n) : (b.moved n p).phase m = b.phase m :=
  if_neg h

theorem next_inProgress {p q : Phase} (h : p.next = some q) : p.inProgress = true ∧ q.inProgress = true := by
  cases p <;> simp only [Phase.next, reduceCtorEq] at h <;> obtain rfl := Option.some.inj h <;> exact ⟨rfl, rfl⟩

/-- Every other run is settled for the one that is in progress, and the state is its own. -/
structure Alone (device : Nat → GoString) (b : BridgeSystem) : Prop where
  own : ∀ n, (b.phase n).inProgress = true → b.state.active = true ∧ b.state.shutdownTx = some n
  settled : ∀ n, (b.phase n).inProgress = true → ∀ m, m ≠ n → b.SettledFor device m n

theorem Alone.eq_of_inProgress (h : Alone device b) {n m : Nat} (hn : (b.phase n).inProgress = true)
    (hm : (b.phase m).inProgress = true) : n = m := by
  by_contra hne
  exact absurd hn (ne_true_of_eq_false (h.settled m hm n hne).not_inProgress)

theorem Alone.owned (h : Alone device b) : b.Owned := ⟨fun _ _ => h.eq_of_inProgress, h.own⟩

/-- A run that is going to reset the state is the only one. -/
theorem Alone.not_inProgress_of_owesReset (h : Alone device b) {n : Nat} (hn : (b.phase n).owesReset = true)
    (m : Nat) (hne : m ≠ n) : (b.phase m).inProgress ≠ true := by
  intro hm
  exact absurd hn (ne_true_of_eq_false (h.settled m hm n hne.symm).not_owesReset)

/-! ## Steps -/

/-- No run is in progress. -/
theorem alone_of_none (h : ∀ m, (b.phase m).inProgress ≠ true) : Alone device b where
  own := fun n hn => absurd hn (h n)
  settled := fun n hn => absurd hn (h n)

theorem alone_initial : Alone device .initial := alone_of_none fun _ => Bool.false_ne_true

/-- A run moves on and leaves the flag and the sender as they are. Where it was not in progress, it owes the one
that is as little as before. -/
theorem Alone.moved (h : Alone device b) {n : Nat} {p : Phase} (hphase : b'.phase = (b.moved n p).phase)
    (hactive : b'.state.active = b.state.active) (htx : b'.state.shutdownTx = b.state.shutdownTx)
    (hp : (b.phase n).inProgress = true ∨ (p.inProgress = false ∧
      (p.owesReset = true → (b.phase n).owesReset = true) ∧ (p.owesKill = true → (b.phase n).owesKill = true))) :
    Alone device b' := by
  have hin : ∀ m, (b'.phase m).inProgress = true → (b.phase m).inProgress = true := by
    intro m hm
    rw [hphase] at hm
    by_cases hmn : m = n
    · subst hmn
      rw [moved_phase_self] at hm
      rcases hp with hp | ⟨hp, -⟩
      · exact hp
      · exact absurd hm (ne_true_of_eq_false hp)
    · rwa [moved_phase_ne b p hmn] at hm
  refine ⟨fun m hm => ?_, fun m hm k hne => ?_⟩
  · rw [hactive, htx]
    exact h.own m (hin m hm)
  · have hold := h.settled m (hin m hm) k hne
    by_cases hkn : k = n
    · subst hkn
      rcases hp with hp | ⟨hprogress, hreset, hkill⟩
      · exact absurd hp (ne_true_of_eq_false hold.not_inProgress)
      · refine ⟨?_, ?_, ?_⟩ <;> rw [hphase, moved_phase_self]
        · exact hprogress
        · exact Bool.eq_false_iff.2 fun hp => absurd (hreset hp) (ne_true_of_eq_false hold.not_owesReset)
        · exact fun hp => hold.not_owesKill (hkill hp)
    · refine ⟨?_, ?_, ?_⟩ <;> rw [hphase, moved_phase_ne b p hkn]
      · exact hold.not_inProgress
      · exact hold.not_owesReset
      · exact hold.not_owesKill

/-- The run that a state is set up for is the only one. -/
theorem alone_setUp {n : Nat} (hphase : b'.phase = (b.moved n .pushing).phase) (hactive : b'.state.active = true)
    (htx : b'.state.shutdownTx = some n) (h : ∀ m, m ≠ n → b.SettledFor device m n) : Alone device b' := by
  have hone : ∀ m, (b'.phase m).inProgress = true → m = n := by
    intro m hm
    by_contra hne
    rw [hphase, moved_phase_ne b _ hne] at hm
    exact absurd hm (ne_true_of_eq_false (h m hne).not_inProgress)
  refine ⟨fun m hm => ?_, fun m hm k hne => ?_⟩
  · rw [hone m hm]
    exact ⟨hactive, htx⟩
  · obtain rfl := hone m hm
    refine ⟨?_, ?_, ?_⟩ <;> rw [hphase, moved_phase_ne b _ hne]
    · exact (h k hne).not_inProgress
    · exact (h k hne).not_owesReset
    · exact (h k hne).not_owesKill

/-- A step that no phase is changed by. -/
theorem Alone.same (h : Alone device b) (hphase : b'.phase = b.phase) (hactive : b'.state.active = b.state.active)
    (htx : b'.state.shutdownTx = b.state.shutdownTx) : Alone device b' := by
  refine ⟨fun n hn => ?_, fun n hn m hne => ?_⟩
  · rw [hphase] at hn
    rw [hactive, htx]
    exact h.own n hn
  · rw [hphase] at hn
    have hold := h.settled n hn m hne
    refine ⟨?_, ?_, ?_⟩ <;> rw [hphase]
    · exact hold.not_inProgress
    · exact hold.not_owesReset
    · exact hold.not_owesKill

theorem Alone.step {a : BridgeAction} (h : Alone device b) (hC : SetsUpAlone device b a)
    (hstep : b.step device a = some b') : Alone device b' := by
  cases a with
  | check n =>
    simp only [BridgeSystem.step, Option.ite_none_right_eq_some, Option.some.injEq] at hstep
    obtain ⟨-, rfl⟩ := hstep
    refine h.moved rfl rfl rfl (.inr ?_)
    cases b.state.active
    · exact ⟨rfl, fun h => absurd h Bool.false_ne_true, fun h => absurd h Bool.false_ne_true⟩
    · exact ⟨rfl, fun h => absurd h Bool.false_ne_true, fun h => absurd h Bool.false_ne_true⟩
  | spawn n ok =>
    simp only [BridgeSystem.step, Option.ite_none_right_eq_some, Option.some.injEq] at hstep
    obtain ⟨-, rfl⟩ := hstep
    refine h.moved rfl rfl rfl (.inr ?_)
    cases ok
    · exact ⟨rfl, fun h => absurd h Bool.false_ne_true, fun h => absurd h Bool.false_ne_true⟩
    · exact ⟨rfl, fun h => absurd h Bool.false_ne_true, fun h => absurd h Bool.false_ne_true⟩
  | setUp n =>
    simp only [BridgeSystem.step, Option.ite_none_right_eq_some, Option.some.injEq] at hstep
    obtain ⟨-, rfl⟩ := hstep
    exact alone_setUp rfl rfl rfl (hC n rfl)
  | advance n ok =>
    simp only [BridgeSystem.step, Option.map_eq_some_iff] at hstep
    obtain ⟨p, hp, rfl⟩ := hstep
    have hn := (next_inProgress hp).1
    cases ok
    · exact h.moved rfl rfl rfl (.inl hn)
    · exact h.moved rfl rfl rfl (.inl hn)
  | frame n =>
    simp only [BridgeSystem.step, Option.ite_none_right_eq_some, Option.some.injEq] at hstep
    obtain ⟨-, rfl⟩ := hstep
    exact h.same rfl rfl rfl
  | leave n failed =>
    simp only [BridgeSystem.step, Option.ite_none_right_eq_some, Option.some.injEq] at hstep
    obtain ⟨⟨hn, -⟩, rfl⟩ := hstep
    exact h.moved rfl rfl rfl (.inl (by rw [hn]; rfl))
  | cleanUp n =>
    simp only [BridgeSystem.step] at hstep
    split at hstep
    · rename_i failed hn
      obtain rfl := Option.some.inj hstep
      have hin : (b.phase n).inProgress = true := by rw [hn]; rfl
      refine alone_of_none fun m hm => ?_
      by_cases hmn : m = n
      · subst hmn
        exact absurd hm (by simp [Phase.inProgress])
      · exact hmn (h.eq_of_inProgress (by rwa [moved_phase_ne b _ hmn] at hm) hin)
    · exact absurd hstep (Option.some_ne_none _).symm
  | kill n =>
    simp only [BridgeSystem.step] at hstep
    split at hstep
    · rename_i failed hn
      obtain rfl := Option.some.inj hstep
      refine h.moved rfl rfl rfl (.inr ⟨rfl, ?_, fun h => absurd h Bool.false_ne_true⟩)
      rw [hn]
      exact fun h => h
    · exact absurd hstep (Option.some_ne_none _).symm
  | removeForward n =>
    simp only [BridgeSystem.step] at hstep
    split at hstep
    · rename_i failed hn
      obtain rfl := Option.some.inj hstep
      refine h.moved rfl rfl rfl (.inr ?_)
      rw [hn]
      cases failed
      · exact ⟨rfl, fun h => h, fun h => absurd h Bool.false_ne_true⟩
      · exact ⟨rfl, fun h => h, fun h => absurd h Bool.false_ne_true⟩
    · exact absurd hstep (Option.some_ne_none _).symm
  | resetFailed n =>
    simp only [BridgeSystem.step, Option.ite_none_right_eq_some, Option.some.injEq] at hstep
    obtain ⟨hn, rfl⟩ := hstep
    have howes : (b.phase n).owesReset = true := by rw [hn]; rfl
    refine alone_of_none fun m hm => ?_
    by_cases hmn : m = n
    · subst hmn
      exact absurd hm (by simp [Phase.inProgress])
    · exact h.not_inProgress_of_owesReset howes m hmn (by rwa [moved_phase_ne b _ hmn] at hm)
  | cloneTx =>
    simp only [BridgeSystem.step] at hstep
    split at hstep
    · obtain rfl := Option.some.inj hstep
      exact h
    · obtain rfl := Option.some.inj hstep
      exact h.same rfl rfl rfl
  | send k =>
    simp only [BridgeSystem.step] at hstep
    split at hstep
    · exact absurd hstep (Option.some_ne_none _).symm
    · split_ifs at hstep
      · obtain rfl := Option.some.inj hstep
        exact h.same rfl rfl rfl
      · obtain rfl := Option.some.inj hstep
        exact h.same rfl rfl rfl

/-- Cleaning up behind a run does not touch the one that is in progress. -/
theorem Alone.spares (h : Alone device b) (a : BridgeAction) : Spares device b a := by
  intro b' n m hstep hclean hne hm
  cases a with
  | cleanUp k =>
    obtain rfl := Option.some.inj hclean
    simp only [BridgeSystem.step] at hstep
    split at hstep
    · rename_i failed hn
      exact absurd (h.eq_of_inProgress hm (by rw [hn]; rfl)) hne
    · exact absurd hstep (Option.some_ne_none _).symm
  | kill k =>
    obtain rfl := Option.some.inj hclean
    simp only [BridgeSystem.step] at hstep
    split at hstep
    · rename_i failed hn
      obtain rfl := Option.some.inj hstep
      have hdevice : device m ≠ device k :=
        ((h.settled m hm k hne.symm).not_owesKill (by rw [hn]; rfl)).symm
      refine ⟨rfl, ?_⟩
      dsimp only
      rw [bne_iff_ne.2 hdevice, Bool.and_true]
    · exact absurd hstep (Option.some_ne_none _).symm
  | removeForward k =>
    simp only [BridgeSystem.step] at hstep
    split at hstep
    · obtain rfl := Option.some.inj hstep
      exact ⟨rfl, rfl⟩
    · exact absurd hstep (Option.some_ne_none _).symm
  | resetFailed k =>
    obtain rfl := Option.some.inj hclean
    simp only [BridgeSystem.step, Option.ite_none_right_eq_some, Option.some.injEq] at hstep
    obtain ⟨hn, -⟩ := hstep
    exact absurd hm (h.not_inProgress_of_owesReset (by rw [hn]; rfl) m hne)
  | check | spawn | setUp | advance | frame | leave | cloneTx | send =>
    exact absurd hclean (Option.some_ne_none _).symm

theorem receives_of_inProgress {p : Phase} (h : p.inProgress = true) : p.receives = true := by
  cases p <;> first | exact h | rfl

/-- The sender that a stop command clones is that of the run in progress. -/
theorem BridgeSystem.Owned.stoppable (h : b.Owned) {n : Nat} (hn : (b.phase n).inProgress = true) :
    b.Stoppable device n := by
  refine ⟨{ b with cloned := b.cloned ++ [n] }, ?_, ?_⟩
  · simp only [BridgeSystem.step]
    rw [(h.own n hn).2]
  · by_cases hsignal : b.signalled n = true
    · exact .inl hsignal
    · refine .inr ⟨{ b with
        cloned := (b.cloned ++ [n]).eraseIdx b.cloned.length
        signalled := fun m => if m = n then true else b.signalled m }, ?_, if_pos rfl⟩
      simp only [BridgeSystem.step, List.getElem?_concat_length]
      rw [if_pos (receives_of_inProgress hn), if_neg hsignal]

/-! ## Runs -/

/-- In a run in which tasks set the state up alone, at most one run is in progress, the state is its own, so that it
can be stopped, and cleaning up spares it. -/
theorem bridge_owned {as : List BridgeAction} (hrun : runSteps (BridgeSystem.step device) .initial as = some b)
    (hC : StepsMeet (BridgeSystem.step device) (SetsUpAlone device) .initial as) :
    b.Owned ∧ (∀ n, (b.phase n).inProgress = true → b.Stoppable device n) ∧
      StepsMeet (BridgeSystem.step device) (Spares device) .initial as := by
  have halone : Alone device b :=
    runSteps_invariant_of_meet (fun _ _ _ h hC hstep => h.step hC hstep) hrun hC alone_initial
  refine ⟨halone.owned, fun n hn => halone.owned.stoppable hn, ?_⟩
  exact stepsMeet_imp_of_invariant (fun _ _ _ h hC hstep => h.step hC hstep) (fun _ a _ h _ => h.spares a)
    alone_initial hC

/-- A command that finds the bridge idle. -/
def firstStart : List BridgeAction := [.check 0, .spawn 0 true, .setUp 0]

theorem firstStart_owned : ∃ b, runSteps (BridgeSystem.step fun _ => str "phone") .initial firstStart = some b ∧
    (b.phase 0).inProgress = true ∧ b.Owned := by
  refine ⟨_, rfl, rfl, (@bridge_owned (fun _ => str "phone") _ firstStart rfl ?_).1⟩
  refine stepsMeet_cons (fun n hn => by cases hn) rfl (stepsMeet_cons (fun n hn => by cases hn) rfl
    (stepsMeet_cons ?_ rfl trivial))
  rintro n hn m hne
  cases hn
  have hidle : ∀ p q : Phase, ((BridgeSystem.initial.moved 0 p).moved 0 q).phase m = .idle := fun p q =>
    (moved_phase_ne _ q hne).trans (moved_phase_ne _ p hne)
  refine ⟨?_, ?_, ?_⟩ <;> rw [hidle]
  · rfl
  · rfl
  · exact fun h => absurd h Bool.false_ne_true

/-- Two commands of which both look at `active` before one of the tasks sets it. -/
theorem twoStarts_run : ∃ b, runSteps (BridgeSystem.step fun _ => str "phone") .initial
    [.check 0, .check 1, .spawn 0 true, .spawn 1 true, .setUp 0, .setUp 1] = some b ∧ ¬ b.Owned := by
  refine ⟨_, rfl, fun h => ?_⟩
  exact absurd (h.one 0 1 rfl rfl) (by decide)

end Gafam.Scrcpy
