import Gafam.Orchestrator.Delegation
import Gafam.Orchestrator.Proofs.BoardProofs

/-!
# Texts that a sub-agent collects twice

The texts that have been collected are never dropped, and every collection reads the whole board. So the answer of a
sub-agent is the texts of all the boards that it has read, one after the other.
-/

namespace Gafam.Orchestrator

open Gafam.Go Gafam.Moksa Gafam.Lib

namespace Delegation

variable {perm : GoString → GoString → Permission} {known : GoString → Bool} {s s' : Delegation}

/-- The texts on the board are those that the last collection has found; before it there were none. Without a mission
there has been one collection at most. -/
def UpToDate (s : Delegation) : Prop :=
  (∀ m, s.mission = some m → answers m.quests = answers (s.boards.getLastD [])) ∧
    (s.mission = none → s.boards.length < subAgentMaxIterations)

/-- Where a sub-agent works on its quests. -/
def Working : ThreadPc → Prop
  | .add _ _ _ => True
  | .execute => True
  | .levels _ _ => True
  | .observe => True
  | _ => False

/-- How things stand while it is on its way, and at the end. -/
structure Stands (s : Delegation) : Prop where
  kind : ∃ caller, s.thread.kind = .subAgent caller
  results : s.allResults = s.boards.flatMap answers
  going : s.outcome = none →
    s.thread.iteration = s.boards.length ∧ s.thread.iteration < subAgentMaxIterations ∧
      (s.thread.pc = .plan ∧ s.UpToDate ∨ Working s.thread.pc)
  answered : ∀ parts, s.outcome = some (.answer parts) → parts = s.allResults ∧ s.UpToDate
  ended : s.outcome ≠ none → s.thread.pc = .ended

theorem stands_finish {o : DelegateOutcome} (hkind : ∃ caller, s.thread.kind = .subAgent caller)
    (hresults : s.allResults = s.boards.flatMap answers)
    (hover : ∀ parts, o = .answer parts → parts = s.allResults ∧ s.UpToDate) : (s.finish o).Stands where
  kind := hkind
  results := hresults
  going := nofun
  answered := fun parts h => hover parts (Option.some.inj h)
  ended := fun _ => rfl

/-- Planning. -/
theorem stands_plan (h : s.Stands) (hnone : s.outcome = none) (hpc : s.thread.pc = .plan) (r : PlannerReply) :
    (s.plan known r).Stands := by
  obtain ⟨hlength, hlt, ⟨-, hup⟩ | hworking⟩ := h.going hnone
  · have hanswer : ∀ parts, DelegateOutcome.answer s.allResults = .answer parts → parts = s.allResults ∧ s.UpToDate := by
      intro parts heq
      cases heq
      exact ⟨rfl, hup⟩
    unfold plan
    cases hm : s.mission with
    | none => exact stands_finish h.kind h.results nofun
    | some m =>
      dsimp only
      by_cases hover : 0 < s.thread.iteration ∧ ¬replannable m
      · rw [if_pos hover]
        exact stands_finish h.kind h.results hanswer
      · rw [if_neg hover]
        cases r with
        | failed e =>
          dsimp only
          by_cases hfirst : s.thread.iteration = 0
          · rw [if_pos hfirst]
            exact stands_finish h.kind h.results nofun
          · rw [if_neg hfirst]
            exact stands_finish h.kind h.results hanswer
        | nothing => exact stands_finish h.kind h.results hanswer
        | plan pq rest =>
          exact ⟨h.kind, h.results, fun _ => ⟨hlength, hlt, .inr trivial⟩, fun parts hparts => h.answered parts hparts,
            fun hne => absurd hnone hne⟩
  · rw [hpc] at hworking
    exact hworking.elim

/-- A collection. -/
theorem stands_collect (h : s.Stands) (hnone : s.outcome = none) : s.collect.Stands := by
  obtain ⟨hlength, hlt, -⟩ := h.going hnone
  unfold collect
  cases hm : s.mission with
  | none =>
    dsimp only
    by_cases hmore : s.thread.iteration + 1 < subAgentMaxIterations
    · rw [if_pos hmore, if_pos (by rfl)]
      exact stands_finish h.kind h.results nofun
    · rw [if_neg hmore]
      refine stands_finish h.kind h.results fun parts heq => ?_
      cases heq
      refine ⟨rfl, fun m hm' => ?_, fun _ => hlength ▸ hlt⟩
      exact absurd (hm.symm.trans hm') nofun
  | some m =>
    have hresults : s.allResults ++ answers m.quests = (s.boards ++ [m.quests]).flatMap answers := by
      rw [List.flatMap_append, h.results, List.flatMap_singleton]
    have hup : UpToDate { s with boards := s.boards ++ [m.quests] } := by
      refine ⟨fun m' hm' => ?_, fun hgone => absurd (hm.symm.trans hgone) nofun⟩
      cases Option.some.inj (hm.symm.trans hm')
      rw [List.getLastD_concat]
    dsimp only
    by_cases hmore : s.thread.iteration + 1 < subAgentMaxIterations
    · rw [if_pos hmore, if_neg (by simp)]
      refine ⟨h.kind, hresults, fun _ => ⟨?_, hmore, .inl ⟨rfl, hup⟩⟩, fun parts hparts => ?_, fun hne => absurd hnone hne⟩
      · rw [List.length_append, ← hlength]
        rfl
      · rw [hnone] at hparts
        cases hparts
    · rw [if_neg hmore]
      refine stands_finish h.kind hresults fun parts heq => ?_
      cases heq
      exact ⟨rfl, hup⟩

/-- A step on the quests. -/
theorem working_step {t t' : Thread} {st st' : Store} {act : ThreadAct} {es : List Event}
    (hkind : ∃ caller, t.kind = .subAgent caller) (hworking : Working t.pc) (hpc : t.pc ≠ .observe)
    (hstep : t.step perm false st act = some (t', st', es)) :
    t'.kind = t.kind ∧ t'.iteration = t.iteration ∧ Working t'.pc := by
  obtain ⟨caller, hkind⟩ := hkind
  cases hcase : t.pc <;> rw [hcase] at hworking hpc
  case observe => exact absurd rfl hpc
  case add todo plan ids =>
    cases act <;> cases todo <;> simp only [Thread.step, hcase, reduceCtorEq] at hstep
    case tick.nil now =>
      split at hstep
      · cases hstep
        exact ⟨rfl, rfl, trivial⟩
      · rename_i hnot
        rw [hkind] at hnot
        exact absurd rfl (hnot caller)
    case tick.cons now pq todo =>
      split_ifs at hstep
      · cases hstep
        exact ⟨rfl, rfl, trivial⟩
      · split at hstep
        · cases hstep
          exact ⟨rfl, rfl, trivial⟩
        · cases hstep
          exact ⟨rfl, rfl, trivial⟩
  case execute =>
    cases act <;> simp only [Thread.step, hcase, reduceCtorEq] at hstep
    case tick now =>
      cases hstep
      exact ⟨rfl, rfl, trivial⟩
  case levels r l =>
    cases act <;> simp only [Thread.step, hcase, reduceCtorEq] at hstep
    case tick now =>
      cases hphase : l.phase <;> rw [hphase] at hstep
      case returned =>
        cases hstep
        exact ⟨rfl, rfl, trivial⟩
      all_goals cases hstep
    case level a =>
      cases hlevel : Orchestrator.step r (l, st) (a.under perm) with
      | none =>
        rw [hlevel] at hstep
        cases hstep
      | some p =>
        rw [hlevel] at hstep
        cases hstep
        exact ⟨rfl, rfl, trivial⟩
  all_goals exact hworking.elim

/-- One step. -/
theorem stands_step {act : DelegationAct} (h : s.Stands) (halone : s.Alone act)
    (hstep : s.step perm known act = some s') : s'.Stands := by
  cases act with
  | other st =>
    cases hstep
    have hmission : Delegation.mission { s with store := st } = s.mission := halone
    have hup : s.UpToDate → Delegation.UpToDate { s with store := st } := by
      rintro ⟨htexts, hgone⟩
      exact ⟨fun m hm => htexts m (hmission.symm.trans hm), fun hnone => hgone (hmission.symm.trans hnone)⟩
    refine ⟨h.kind, h.results, fun hnone => ?_, fun parts hparts => ⟨(h.answered parts hparts).1, hup (h.answered parts hparts).2⟩,
      h.ended⟩
    obtain ⟨hlength, hlt, hpc⟩ := h.going hnone
    exact ⟨hlength, hlt, hpc.imp_left fun h => ⟨h.1, hup h.2⟩⟩
  | reply r =>
    unfold Delegation.step at hstep
    dsimp only at hstep
    cases hpc : s.thread.pc <;> rw [hpc] at hstep <;> dsimp only at hstep
    case plan =>
      cases hstep
      by_cases hnone : s.outcome = none
      · exact stands_plan h hnone hpc r
      · rw [h.ended hnone] at hpc
        cases hpc
    all_goals cases hstep
  | own act =>
    by_cases hnone : s.outcome = none
    · obtain ⟨hlength, hlt, ⟨hpc, -⟩ | hworking⟩ := h.going hnone
      · unfold Delegation.step at hstep
        dsimp only at hstep
        rw [hpc] at hstep
        cases hstep
      · by_cases hpc : s.thread.pc = .observe
        · unfold Delegation.step at hstep
          dsimp only at hstep
          rw [hpc] at hstep
          cases act <;> cases hstep
          exact stands_collect h hnone
        · have hthread : (s.thread.step perm false s.store act).map
              (fun r => { s with thread := r.1, store := r.2.1 }) = some s' := by
            rw [← hstep]
            unfold Delegation.step
            dsimp only
            cases hcase : s.thread.pc <;> rw [hcase] at hworking hpc
            case observe => exact absurd rfl hpc
            case plan => exact hworking.elim
          obtain ⟨⟨t', st', es⟩, hr, rfl⟩ := Option.map_eq_some_iff.1 hthread
          obtain ⟨hkind, hiteration, hworking'⟩ := working_step h.kind hworking hpc hr
          refine ⟨?_, h.results, fun _ => ⟨hiteration.trans hlength, ?_, .inr hworking'⟩, fun parts hparts => ?_,
            fun hne => absurd hnone hne⟩
          · obtain ⟨caller, hcaller⟩ := h.kind
            exact ⟨caller, hkind.trans hcaller⟩
          · show t'.iteration < _
            rw [hiteration]
            exact hlt
          · exact absurd (hnone.symm.trans hparts) nofun
    · have hended := h.ended hnone
      unfold Delegation.step at hstep
      dsimp only at hstep
      rw [hended] at hstep
      cases act <;> simp [Thread.step, hended] at hstep

/-- The mission of a sub-agent has no quests at the start. -/
theorem stands_begin (now : Nat) (caller : GoString × GoString) (karakaID instruction : GoString) (st : Store) :
    (begin now caller karakaID instruction st).Stands := by
  have hcreated : getMission (createEmptyMission now instruction st).1.id (createEmptyMission now instruction st).2 =
      some (createEmptyMission now instruction st).1 := AList.lookup_insert _
  obtain ⟨m, hm, -, hquests⟩ := getMission_update_self now (fun m => ({ m with mode := "subagent" }, none)) hcreated
  have hmission : (begin now caller karakaID instruction st).mission = some m := hm
  refine ⟨⟨caller, rfl⟩, rfl, fun _ => ⟨rfl, Nat.zero_lt_two, .inl ⟨rfl, fun m' hm' => ?_, fun _ => Nat.zero_lt_two⟩⟩, nofun,
    fun h => absurd rfl h⟩
  cases Option.some.inj (hmission.symm.trans hm')
  rw [hquests]
  rfl

/-! ## The answer -/

/-- The texts of a list of boards are those of the last one exactly if the others have none. -/
theorem flatMap_answers_eq_last (boards : List (List Quest)) :
    boards.flatMap answers = answers (boards.getLastD []) ↔ ∀ board ∈ boards.dropLast, answers board = [] := by
  rcases List.eq_nil_or_concat boards with rfl | ⟨before, last, rfl⟩
  · exact iff_of_true rfl fun _ h => absurd h List.not_mem_nil
  · rw [List.concat_eq_append, List.flatMap_append, List.flatMap_singleton, List.getLastD_concat, List.dropLast_concat,
      List.append_left_eq_self, List.flatMap_eq_nil_iff]

/-- A sub-agent that nobody disturbs answers with the text of each done quest once exactly if no collection but the last
has found a text. -/
theorem delivers_iff (now : Nat) (caller : GoString × GoString) (karakaID instruction : GoString) {st : Store}
    {acts : List DelegationAct} {parts : List GoString}
    (hrun : runSteps (Delegation.step perm known) (begin now caller karakaID instruction st) acts = some s)
    (halone : StepsMeet (Delegation.step perm known) Alone (begin now caller karakaID instruction st) acts)
    (hanswer : s.outcome = some (.answer parts)) : s.Delivers parts ↔ s.CollectsOnce := by
  have hstands := runSteps_invariant_of_meet (P := Stands) (fun _ _ _ h hC hstep => stands_step h hC hstep) hrun halone
    (stands_begin now caller karakaID instruction st)
  obtain ⟨hparts, htexts, hgone⟩ := hstands.answered parts hanswer
  cases hm : s.mission with
  | none =>
    refine iff_of_true (fun m hm' => absurd (hm.symm.trans hm') nofun) fun board hboard => ?_
    have hshort : s.boards.dropLast.length = 0 := by
      have := hgone hm
      rw [List.length_dropLast]
      simp only [subAgentMaxIterations] at this
      omega
    rw [List.length_eq_zero_iff.1 hshort] at hboard
    cases hboard
  | some m =>
    have hdelivers : s.Delivers parts ↔ parts = answers m.quests := by
      refine ⟨fun h => h m hm, fun h m' hm' => ?_⟩
      cases Option.some.inj (hm.symm.trans hm')
      exact h
    rw [hdelivers, hparts, hstands.results, htexts m hm]
    exact flatMap_answers_eq_last s.boards

/-! ## Two iterations -/

/-- The model answers every prompt. -/
def talkingHost : Host :=
  ⟨0, fun _ _ => .allow, some [], .ok (.obj [("content", .str "The hive is fine.")]), none⟩

/-- One quest is added and done, and the texts are collected. -/
def oneQuest : List ThreadAct :=
  [.tick 0, .tick 0, .tick 0, .level (.head false), .level (.visit "q1" 0), .level .endScan] ++
    List.replicate 7 (.level (.work 0 talkingHost)) ++ [.level .join, .level (.head false), .tick 0, .tick 0]

/-- There is nothing to add and to do, and the texts are collected. -/
def noQuest : List ThreadAct := [.tick 0, .tick 0, .level (.head false), .tick 0, .tick 0]

/-- The plan of the first iteration has one quest. -/
def firstIteration : List DelegationAct := .reply (.plan ⟨"look", "llm.chat", none, []⟩ []) :: oneQuest.map .own

/-- The plan of the second iteration has one quest, whose tool is not known. -/
def secondIteration : List DelegationAct := .reply (.plan ⟨"dig", "spade", none, []⟩ []) :: noQuest.map .own

/-- A relay whose only tool is `llm.chat`. -/
def chatStep : Delegation → DelegationAct → Option Delegation :=
  Delegation.step (fun _ _ => .allow) fun tool => tool = "llm.chat"

def bees : Delegation := begin 0 ("m1", "q1") "suparna_vpc" "Look after the bees." ⟨∅, 0⟩

theorem own_alone {acts : List DelegationAct} (h : ∀ st, .other st ∉ acts) : StepsMeet chatStep Alone bees acts := by
  refine stepsMeet_of_forall (fun a ha s => ?_) bees
  cases a with
  | reply r => trivial
  | own act => trivial
  | other st => exact absurd ha (h st)

/-- The text of the quest that the first iteration has run is collected again. -/
theorem bees_twice : ¬∀ (perm : GoString → GoString → Permission) (known : GoString → Bool) (now : Nat)
    (caller : GoString × GoString) (karakaID instruction : GoString) (st : Store) (acts : List DelegationAct)
    (s : Delegation) (parts : List GoString),
    runSteps (Delegation.step perm known) (begin now caller karakaID instruction st) acts = some s →
    StepsMeet (Delegation.step perm known) Alone (begin now caller karakaID instruction st) acts →
      s.outcome = some (.answer parts) → s.Delivers parts := by
  intro h
  have halone : StepsMeet chatStep Alone bees (firstIteration ++ secondIteration) :=
    own_alone fun st => by simp [firstIteration, secondIteration]
  have hdelivers := h _ _ _ _ _ _ _ _ _ [str "The hive is fine.", str "The hive is fine."] rfl halone rfl
  have hparts := hdelivers _ rfl
  exact absurd hparts (by decide)

/-- The planner has no plan for a second iteration. -/
theorem bees_once : ∃ s, runSteps chatStep bees (firstIteration ++ [.reply .nothing]) = some s ∧
    s.outcome = some (.answer [str "The hive is fine."]) ∧ s.Delivers [str "The hive is fine."] := by
  have hend : (runSteps chatStep bees (firstIteration ++ [.reply .nothing])).map
      (fun s => (s.outcome, s.boards.length)) = some (some (.answer [str "The hive is fine."]), 1) := rfl
  obtain ⟨s, hrun, hs⟩ := Option.map_eq_some_iff.1 hend
  obtain ⟨houtcome, hboards⟩ := Prod.mk.inj hs
  have halone : StepsMeet chatStep Alone bees (firstIteration ++ [.reply .nothing]) :=
    own_alone fun st => by simp [firstIteration]
  have hdelivers := delivers_iff 0 ("m1", "q1") "suparna_vpc" "Look after the bees." hrun halone houtcome
  refine ⟨s, hrun, houtcome, hdelivers.2 fun board hboard => ?_⟩
  have hnone : s.boards.dropLast = [] := List.length_eq_zero_iff.1 (by rw [List.length_dropLast, hboards])
  rw [hnone] at hboard
  cases hboard

end Delegation

end Gafam.Orchestrator
