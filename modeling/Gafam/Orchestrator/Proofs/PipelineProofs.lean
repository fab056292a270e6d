import Gafam.Go.Proofs.TextProofs
import Gafam.Moksa.Proofs.ExecutorProofs
import Gafam.Orchestrator.Pipeline
import Gafam.Orchestrator.Proofs.BoardProofs
import Mathlib.Tactic.IntervalCases

/-!
# Whose quests the research pipeline reports on

The quests that the pipeline adds have the ids that follow the length of the board. So the id of a stage names the quest
that has been added for it only on a board that was empty; on others it names an old quest, or none, or the quest of
an earlier stage.
-/

namespace Gafam.Orchestrator

open Gafam.Go Gafam.Moksa Gafam.Lib

/-! ## Ids -/

/-- The id that a quest gets at a place. -/
def idAt (i : Nat) : GoString := "q" ++ itoa (i + 1)

theorem idAt_inj {i j : Nat} (h : idAt i = idAt j) : i = j := by
  have hi : itoa ((i : Int) + 1) = itoa ((j : Int) + 1) := List.append_cancel_left h
  exact Nat.succ_injective (itoa_inj hi)

theorem researchSteps_id {k : Nat} {stage : GoString × GoString × GoString} (h : researchSteps[k]? = some stage) :
    k < 7 ∧ stage.1 = idAt k := by
  have hk : k < 7 := (List.getElem?_eq_some_iff.1 h).1
  refine ⟨hk, ?_⟩
  interval_cases k <;> (cases h; decide)

theorem researchSteps_title {k : Nat} {stage : GoString × GoString × GoString} (h : researchSteps[k]? = some stage) :
    stage.2.1 ≠ [] := by
  have hk : k < 7 := (List.getElem?_eq_some_iff.1 h).1
  interval_cases k <;> (cases h; decide)

theorem researchSteps_none {k : Nat} (hk : k ≤ 7) (h : researchSteps[k]? = none) : k = 7 :=
  le_antisymm hk (List.getElem?_eq_none_iff.1 h)

/-! ## The board -/

/-- A board on which the pipeline has added `size` quests: of those that it has added, it has not got to those from `p`
on, and it is done with those before `d` if the board was empty. -/
structure Grown (old : List Quest) (size d p : Nat) (quests : List Quest) : Prop where
  keeps : ∀ i < old.length, quests[i]? = old[i]?
  length : quests.length = old.length + size
  id : ∀ i q, old.length ≤ i → quests[i]? = some q → q.id = idAt i
  done : ∀ i q, i < d → old = [] → quests[i]? = some q → q.status = .done
  pending : ∀ i q, old.length ≤ i → p ≤ i → quests[i]? = some q → q.status = .pending

section Grown

variable {old quests : List Quest} {size d p k : Nat}

theorem grown_start (old : List Quest) : Grown old 0 0 0 old where
  keeps := fun _ _ => rfl
  length := rfl
  id := fun i q hi hq => by
    rw [List.getElem?_eq_none_iff.2 hi] at hq
    cases hq
  done := fun i q hi => absurd hi (Nat.not_lt_zero i)
  pending := fun i q hi _ hq => by
    rw [List.getElem?_eq_none_iff.2 hi] at hq
    cases hq

/-- `AddQuest`. -/
theorem Grown.add (h : Grown old size 0 0 quests) {q : Quest} (hid : q.id = idAt quests.length)
    (hpending : q.status = .pending) : Grown old (size + 1) 0 0 (quests ++ [q]) where
  keeps := fun i hi => by
    rw [List.getElem?_append_left (by rw [h.length]; omega)]
    exact h.keeps i hi
  length := by
    rw [List.length_append, h.length, List.length_singleton, Nat.add_assoc]
  id := fun i q' hi hq' => by
    rw [List.getElem?_append] at hq'
    split_ifs at hq' with hlt
    · exact h.id i q' hi hq'
    · obtain ⟨hlen, rfl⟩ := List.getElem?_eq_some_iff.1 hq'
      obtain rfl : i = quests.length := by
        rw [List.length_singleton] at hlen
        omega
      simpa using hid
  done := fun i q' hi => absurd hi (Nat.not_lt_zero i)
  pending := fun i q' hi hp hq' => by
    rw [List.getElem?_append] at hq'
    split_ifs at hq' with hlt
    · exact h.pending i q' hi hp hq'
    · rw [List.mem_singleton.1 (List.mem_of_getElem? hq')]
      exact hpending

/-- The place at which the id of a stage is found. -/
theorem Grown.findIdx (h : Grown old 7 d p quests) (hclash : ∀ q ∈ old, q.id ≠ idAt k) {i : Nat}
    (hi : quests.findIdx? (fun q => q.id = idAt k) = some i) : old.length ≤ i ∧ i = k := by
  obtain ⟨hlt, hid, -⟩ := List.findIdx?_eq_some_iff_getElem.1 hi
  have hid : quests[i].id = idAt k := of_decide_eq_true hid
  have hget : quests[i]? = some quests[i] := List.getElem?_eq_getElem hlt
  have hold : old.length ≤ i := by
    by_contra hnot
    rw [h.keeps i (Nat.lt_of_not_le hnot)] at hget
    exact hclash _ (List.mem_of_getElem? hget) hid
  exact ⟨hold, idAt_inj ((h.id i _ hold hget).symm.trans hid)⟩

/-- Setting the quest of a stage on a board where no old quest has its id. -/
theorem Grown.set (h : Grown old 7 d p quests) (hclash : ∀ q ∈ old, q.id ≠ idAt k) {f : Quest → Quest}
    (hf : ∀ q, (f q).id = q.id) {d' p' : Nat} (hp : p ≤ p') (hk : k < p')
    (hd : ∀ i < d', i < d ∧ i ≠ k ∨ i = k ∧ ∀ q, (f q).status = .done) :
    Grown old 7 d' p' (updateFirst (idAt k) f quests) := by
  have hget : ∀ i, (updateFirst (idAt k) f quests)[i]? = quests[i]? ∨
      i = k ∧ old.length ≤ i ∧ (updateFirst (idAt k) f quests)[i]? = quests[i]?.map f := by
    intro i
    rw [getElem?_updateFirst]
    split_ifs with hi
    · by_cases hlt : i < quests.length
      · have hfind : quests.findIdx? (fun q => q.id = idAt k) = some i := by
          rw [List.findIdx?_eq_some_iff_findIdx_eq]
          exact ⟨hlt, hi.symm⟩
        obtain ⟨hold, hik⟩ := h.findIdx hclash hfind
        exact .inr ⟨hik, hold, rfl⟩
      · rw [List.getElem?_eq_none_iff.2 (Nat.le_of_not_lt hlt)]
        exact .inl rfl
    · exact .inl rfl
  constructor
  · intro i hi
    rcases hget i with heq | ⟨-, hold, -⟩
    · exact heq.trans (h.keeps i hi)
    · omega
  · rw [length_updateFirst, h.length]
  · intro i q hi hq
    rcases hget i with heq | ⟨-, -, heq⟩ <;> rw [heq] at hq
    · exact h.id i q hi hq
    · obtain ⟨q', hq', rfl⟩ := Option.map_eq_some_iff.1 hq
      rw [hf]
      exact h.id i q' hi hq'
  · intro i q hi hempty hq
    subst hempty
    rcases hd i hi with ⟨hlt, hne⟩ | ⟨rfl, hdone⟩
    · rcases hget i with heq | ⟨heq, -, -⟩
      · rw [heq] at hq
        exact h.done i q hlt rfl hq
      · exact absurd heq hne
    · -- on a board that was empty, the id of the stage stands at its place
      have hfirst : i = quests.findIdx fun q => q.id = idAt i := by
        have hlt : i < quests.length := by
          have hlt := (List.getElem?_eq_some_iff.1 hq).1
          rwa [length_updateFirst] at hlt
        have hid := h.id i _ (Nat.zero_le i) (List.getElem?_eq_getElem hlt)
        have hexists : quests.findIdx (fun q => q.id = idAt i) < quests.length :=
          List.findIdx_lt_length.2 ⟨_, List.getElem_mem hlt, by simpa using hid⟩
        exact (h.findIdx hclash (List.findIdx?_eq_some_iff_findIdx_eq.2 ⟨hexists, rfl⟩)).2.symm
      rw [getElem?_updateFirst, if_pos hfirst] at hq
      obtain ⟨q', -, rfl⟩ := Option.map_eq_some_iff.1 hq
      exact hdone q'
  · intro i q hi hpi hq
    rcases hget i with heq | ⟨hik, -, -⟩
    · rw [heq] at hq
      exact h.pending i q hi (le_trans hp hpi) hq
    · omega

end Grown

/-! ## The run -/

/-- How things stand, `old` being what was on the board before. -/
def Pipeline.Stands (old : List Quest) (s : Pipeline) : Prop :=
  match s.thread.pc with
  | .researchOpen => s.added = [] ∧ s.quests = some old
  | .researchAdd k =>
    k ≤ 7 ∧ s.added = List.range' old.length k ∧
      ∃ m, getMission s.thread.missionID s.store = some m ∧ m.status = .active ∧ Grown old k 0 0 m.quests
  | .researchStart k =>
    k ≤ 7 ∧ s.added = List.range' old.length 7 ∧ ∃ quests, s.quests = some quests ∧ Grown old 7 k k quests
  | .researchWork k =>
    k < 7 ∧ s.added = List.range' old.length 7 ∧ ∃ quests, s.quests = some quests ∧ Grown old 7 k (k + 1) quests
  | .researchFail _ =>
    s.added = List.range' old.length 7 ∧ ∃ quests, s.quests = some quests ∧ Grown old 7 0 7 quests
  | .researchClose =>
    s.added = List.range' old.length 7 ∧ ∃ quests, s.quests = some quests ∧ Grown old 7 7 7 quests
  | .ended => True
  | _ => False

theorem mem_added {n i : Nat} : i ∈ List.range' n 7 ↔ n ≤ i ∧ i < n + 7 := List.mem_range'_1

/-- A board suits a step exactly if the step keeps to the quests of the pipeline. -/
theorem ownQuests_iff {old : List Quest} {s : Pipeline} (h : s.Stands old) (act : PipelineAct) :
    OwnQuests s act ↔ Suits old s act := by
  cases act with
  | other st => exact Iff.rfl
  | own act =>
    -- the stages are alike
    have hstage : ∀ (k d p : Nat) (quests : List Quest), s.quests = some quests → s.added = List.range' old.length 7 → Grown old 7 d p quests →
        ((∀ i ∈ (researchSteps[k]?.bind fun stage => quests.findIdx? fun q => q.id = stage.1).toList, i ∈ s.added) ↔
          ∀ stage, researchSteps[k]? = some stage → ∀ q ∈ old, q.id ≠ stage.1) := by
      intro k d p quests hquests hadded hgrown
      rw [hadded]
      constructor
      · intro hown stage hk q hq hid
        obtain ⟨-, hstage⟩ := researchSteps_id hk
        obtain ⟨j, hj, hget⟩ := List.getElem_of_mem hq
        have hget' : quests[j]? = some q := by rw [hgrown.keeps j hj, List.getElem?_eq_getElem hj, hget]
        have hsome : ∃ i, quests.findIdx? (fun q => q.id = stage.1) = some i := by
          rw [← Option.isSome_iff_exists, List.findIdx?_isSome]
          exact List.any_eq_true.2 ⟨q, List.mem_of_getElem? hget', decide_eq_true hid⟩
        obtain ⟨i, hi⟩ := hsome
        have hmem : i ∈ List.range' old.length 7 := by
          refine hown i ?_
          rw [hk, Option.bind_some, hi]
          exact List.mem_singleton_self i
        obtain ⟨hlt, hidi, hbefore⟩ := List.findIdx?_eq_some_iff_getElem.1 hi
        have hij : ¬j < i := by
          intro hji
          have hnot := hbefore j hji
          obtain ⟨hj', hget'⟩ := List.getElem?_eq_some_iff.1 hget'
          rw [hget', decide_eq_true hid] at hnot
          exact hnot rfl
        have := (mem_added.1 hmem).1
        omega
      · intro hclash i hi
        obtain ⟨stage, hk, hfind⟩ := Option.bind_eq_some_iff.1 (Option.mem_toList.1 hi)
        obtain ⟨hlt, hstage⟩ := researchSteps_id hk
        rw [hstage] at hfind
        obtain ⟨hold, hik⟩ := hgrown.findIdx (fun q hq => hstage ▸ hclash stage hk q hq) hfind
        have := (List.findIdx?_eq_some_iff_getElem.1 hfind).1
        rw [hgrown.length] at this
        exact mem_added.2 ⟨hold, this⟩
    unfold OwnQuests Suits
    unfold Pipeline.Stands at h
    dsimp only
    cases hpc : s.thread.pc <;> rw [hpc] at h <;> dsimp only at h ⊢
    case researchStart k =>
      obtain ⟨-, hadded, quests, hquests, hgrown⟩ := h
      rw [← hstage k k k quests hquests hadded hgrown]
      constructor
      · intro hown
        exact (hown quests hquests).1
      · intro hown quests' hquests'
        rw [hquests] at hquests'
        cases hquests'
        exact ⟨hown, nofun⟩
    case researchWork k =>
      obtain ⟨-, hadded, quests, hquests, hgrown⟩ := h
      rw [← hstage k k (k + 1) quests hquests hadded hgrown]
      constructor
      · intro hown
        exact (hown quests hquests).1
      · intro hown quests' hquests'
        rw [hquests] at hquests'
        cases hquests'
        exact ⟨hown, nofun⟩
    case researchFail e =>
      obtain ⟨hadded, quests, hquests, hgrown⟩ := h
      constructor
      · intro hown q hq
        by_contra hnot
        obtain ⟨j, hj, hget⟩ := List.getElem_of_mem hq
        have hget' : quests[j]? = some q := by rw [hgrown.keeps j hj, List.getElem?_eq_getElem hj, hget]
        have hmem : j ∈ statusUpdates (.researchFail e) quests := by
          unfold statusUpdates
          refine List.mem_filter.2 ⟨List.mem_range.2 (List.getElem?_eq_some_iff.1 hget').1, ?_⟩
          rw [hget', Option.any_some]
          exact decide_eq_true (by tauto)
        have := (hown quests hquests).1 j hmem
        rw [hadded] at this
        have := (mem_added.1 this).1
        omega
      · intro hidle quests' hquests'
        rw [hquests] at hquests'
        cases hquests'
        refine ⟨fun i hi => ?_, nofun⟩
        obtain ⟨hlt, hbusy⟩ := List.mem_filter.1 hi
        rw [List.mem_range] at hlt
        rw [hadded]
        refine mem_added.2 ⟨?_, by rw [← hgrown.length]; exact hlt⟩
        by_contra hnot
        have hget := hgrown.keeps i (Nat.lt_of_not_le hnot)
        rw [hget, List.getElem?_eq_getElem (Nat.lt_of_not_le hnot), Option.any_some] at hbusy
        have hidle := hidle _ (List.getElem_mem (Nat.lt_of_not_le hnot))
        rcases of_decide_eq_true hbusy with hrunning | hclaimed
        · exact hidle.1 hrunning
        · exact hidle.2 hclaimed
    case researchClose =>
      obtain ⟨hadded, quests, hquests, hgrown⟩ := h
      constructor
      · intro hown
        by_contra hne
        have hpos := List.length_pos_iff.2 hne
        -- the last quest has not been got to
        have hlast : old.length + 6 ∈ s.added := by
          rw [hadded]
          exact mem_added.2 ⟨by omega, by omega⟩
        obtain ⟨q, hq, hdone⟩ := (hown quests hquests).2 rfl _ hlast
        have hpending := hgrown.pending _ q (by omega) (by omega) hq
        rw [hdone] at hpending
        cases hpending
      · intro hempty quests' hquests'
        rw [hquests] at hquests'
        cases hquests'
        refine ⟨fun i hi => absurd hi List.not_mem_nil, fun _ i hi => ?_⟩
        have hlen := hgrown.length
        rw [hadded, hempty] at hi
        rw [hempty] at hlen
        have hlt : i < quests.length := by
          have := (mem_added.1 hi).2
          rw [List.length_nil] at hlen this
          omega
        have hlt7 : i < 7 := by
          have := (mem_added.1 hi).2
          rw [List.length_nil] at this
          omega
        exact ⟨quests[i], List.getElem?_eq_getElem hlt,
          hgrown.done i _ hlt7 hempty (List.getElem?_eq_getElem hlt)⟩
    all_goals
      refine iff_of_true (fun quests _ => ⟨fun i hi => absurd hi List.not_mem_nil, nofun⟩) trivial

/-! ## Steps -/

section Steps

variable {perm : GoString → GoString → Permission} {approval : Bool} {old quests quests' : List Quest} {s s' : Pipeline}

/-- What the pipeline becomes with a step that leads to `pc` and makes `st` of the store. -/
def Pipeline.next (s : Pipeline) (pc : ThreadPc) (st : Store) : Pipeline where
  thread := { s.thread with pc := pc }
  store := st
  added := s.added ++ List.range' (s.quests.getD []).length
    (((getMission s.thread.missionID st).map fun m => m.quests.length).getD 0 - (s.quests.getD []).length)

theorem next_added (hquests : s.quests = some quests) {pc : ThreadPc} {st : Store}
    (hnext : (s.next pc st).quests = some quests') :
    (s.next pc st).added = s.added ++ List.range' quests.length (quests'.length - quests.length) := by
  obtain ⟨m, hm, rfl⟩ := Option.map_eq_some_iff.1 hnext
  have hm : getMission s.thread.missionID st = some m := hm
  unfold Pipeline.next
  dsimp only
  rw [hquests, hm]
  rfl

/-- The board after `UpdateMission`. -/
theorem next_quests (now : Nat) (fn : MissionFn) {m : Mission} (hm : getMission s.thread.missionID s.store = some m)
    (pc : ThreadPc) :
    (s.next pc (updateMission now s.thread.missionID fn s.store).2).quests = some (fn m).1.quests := by
  obtain ⟨m', hm', -, hquests⟩ := getMission_update_self now fn hm
  show (getMission s.thread.missionID (updateMission now s.thread.missionID fn s.store).2).map Mission.quests = _
  rw [hm', Option.map_some, hquests]

/-- `researchSetQuest` on the quest of a stage. -/
theorem next_set {d p k d' p' : Nat} (now : Nat) (hquests : s.quests = some quests)
    (hgrown : Grown old 7 d p quests) (hclash : ∀ q ∈ old, q.id ≠ idAt k) (status : QuestStatus) (result : Option Json)
    (err : GoString) (hp : p ≤ p') (hk : k < p') (hd : ∀ i < d', i < d ∧ i ≠ k ∨ i = k ∧ status = .done)
    (pc : ThreadPc) :
    let next := s.next pc (updateMission now s.thread.missionID (researchSetQuest (idAt k) status result err) s.store).2
    next.added = s.added ∧ ∃ quests', next.quests = some quests' ∧ Grown old 7 d' p' quests' := by
  intro next
  obtain ⟨m, hm, rfl⟩ := Option.map_eq_some_iff.1 hquests
  let f (q : Quest) : Quest :=
    { q with
      status := status
      result := result
      error := err
      claim := if status = .running ∨ status = .claimed then "suparna_vpc" else q.claim }
  have hnext : next.quests = some (updateFirst (idAt k) f m.quests) := next_quests now _ hm pc
  have hdone : ∀ i < d', i < d ∧ i ≠ k ∨ i = k ∧ ∀ q, (f q).status = .done :=
    fun i hi => (hd i hi).imp_right fun h => ⟨h.1, fun _ => h.2⟩
  refine ⟨?_, _, hnext, hgrown.set (f := f) hclash (fun _ => rfl) hp hk hdone⟩
  rw [next_added hquests hnext, length_updateFirst, Nat.sub_self, List.range'_zero, List.append_nil]

/-- A step that does nothing to the store. -/
theorem next_idle (hquests : s.quests = some quests) (pc : ThreadPc) :
    (s.next pc s.store).added = s.added ∧ (s.next pc s.store).quests = some quests := by
  have hnext : (s.next pc s.store).quests = some quests := hquests
  refine ⟨?_, hnext⟩
  rw [next_added hquests hnext, Nat.sub_self, List.range'_zero, List.append_nil]

/-- `AddQuest` of the pipeline. -/
theorem next_add {k : Nat} (now : Nat) {m : Mission} (hm : getMission s.thread.missionID s.store = some m)
    (hactive : m.status = .active) (hgrown : Grown old k 0 0 m.quests) (hadded : s.added = List.range' old.length k)
    {title organHint tool : GoString} (htitle : title ≠ []) (params : Params) (deps : List GoString) (eta : Int)
    (pc : ThreadPc) :
    let next := s.next pc (updateMission now s.thread.missionID (addQuest title organHint tool params deps eta) s.store).2
    next.added = List.range' old.length (k + 1) ∧
      ∃ m', getMission next.thread.missionID next.store = some m' ∧ m'.status = .active ∧
        Grown old (k + 1) 0 0 m'.quests := by
  intro next
  have hadd : ∃ q, addQuest title organHint tool params deps eta m = ({ m with quests := m.quests ++ [q] }, none) ∧
      q.id = idAt m.quests.length ∧ q.status = .pending := by
    unfold addQuest
    rw [if_neg (by rw [hactive]; exact nofun), if_neg htitle]
    exact ⟨_, rfl, rfl, rfl⟩
  obtain ⟨q, hq, hid, hpending⟩ := hadd
  have hquests : s.quests = some m.quests := by
    unfold Pipeline.quests
    rw [hm]
    rfl
  have hnext : next.quests = some (m.quests ++ [q]) := by
    rw [next_quests now _ hm pc, hq]
  obtain ⟨m', hm', hstatus, hmquests⟩ := getMission_update_self now (addQuest title organHint tool params deps eta) hm
  rw [hq] at hstatus hmquests
  refine ⟨?_, m', hm', hstatus.trans hactive, ?_⟩
  · rw [next_added hquests hnext, hadded, List.length_append, List.length_singleton, Nat.add_sub_cancel_left,
      hgrown.length, List.range'_append_1]
  · rw [hmquests]
    exact hgrown.add hid hpending

/-- A step of the pipeline. -/
theorem stands_next {act : ThreadAct} (h : s.Stands old) (hsuits : Suits old s (.own act))
    (hstep : Pipeline.step perm approval s (.own act) = some s') : s'.Stands old := by
  obtain ⟨r, hr, rfl⟩ := Option.map_eq_some_iff.1 hstep
  unfold Pipeline.Stands at h
  unfold Suits at hsuits
  dsimp only at hsuits
  cases hpc : s.thread.pc <;> rw [hpc] at h hsuits <;> dsimp only at h hsuits
  case researchOpen =>
    obtain ⟨hadded, hquests⟩ := h
    obtain ⟨m, hm, rfl⟩ := Option.map_eq_some_iff.1 hquests
    cases act <;> simp only [Thread.step, hpc, reduceCtorEq] at hr
    case tick now =>
      rw [hm] at hr
      cases hr
      obtain ⟨m', hm', hstatus, hmquests⟩ := getMission_update_self now
        (fun m => ({ m with mode := "research", status := .active }, none)) hm
      have hnext := next_quests now (fun m => ({ m with mode := "research", status := .active }, none)) hm (.researchAdd 0)
      refine ⟨Nat.zero_le _, ?_, m', hm', hstatus, ?_⟩
      · refine (next_added hquests hnext).trans ?_
        rw [hadded, Nat.sub_self]
        rfl
      · rw [hmquests]
        exact grown_start m.quests
  case researchAdd k =>
    obtain ⟨hk, hadded, m, hm, hactive, hgrown⟩ := h
    cases act <;> simp only [Thread.step, hpc, reduceCtorEq] at hr
    case tick now =>
      cases hstage : researchSteps[k]? with
      | none =>
        obtain rfl := researchSteps_none hk hstage
        rw [hstage] at hr
        cases hr
        have hquests : s.quests = some m.quests := by
          unfold Pipeline.quests
          rw [hm]
          rfl
        obtain ⟨hsame, hnext⟩ := next_idle hquests (.researchStart 0)
        exact ⟨Nat.zero_le _, hsame.trans hadded, m.quests, hnext, hgrown⟩
      | some stage =>
        obtain ⟨hk', -⟩ := researchSteps_id hstage
        rw [hstage] at hr
        cases hr
        obtain ⟨hnext, hm'⟩ := next_add now hm hactive hgrown hadded (researchSteps_title hstage) (some [])
          (if k = 0 then [] else (researchSteps[k - 1]?.map fun s => s.1).toList) 30 (.researchAdd (k + 1))
        exact ⟨hk', hnext, hm'⟩
  case researchStart k =>
    obtain ⟨hk, hadded, quests, hquests, hgrown⟩ := h
    cases act <;> simp only [Thread.step, hpc, reduceCtorEq] at hr
    case tick now =>
      cases hstage : researchSteps[k]? with
      | none =>
        obtain rfl := researchSteps_none hk hstage
        rw [hstage] at hr
        cases hr
        obtain ⟨hsame, hnext⟩ := next_idle hquests .researchClose
        exact ⟨hsame.trans hadded, quests, hnext, hgrown⟩
      | some stage =>
        obtain ⟨hk', hid⟩ := researchSteps_id hstage
        have hclash := hsuits stage hstage
        rw [hstage] at hr
        dsimp only at hr
        rw [hid] at hclash hr
        cases hr
        obtain ⟨hsame, hnext⟩ := next_set now hquests hgrown hclash .running none [] (Nat.le_succ k)
          (Nat.lt_succ_self k) (fun i hi => .inl ⟨hi, Nat.ne_of_lt hi⟩) (.researchWork k)
        exact ⟨hk', hsame.trans hadded, hnext⟩
  case researchWork k =>
    obtain ⟨hk, hadded, quests, hquests, hgrown⟩ := h
    cases act <;> simp only [Thread.step, hpc, reduceCtorEq] at hr
    case stage now res =>
      cases hstage : researchSteps[k]? with
      | none =>
        rw [hstage] at hr
        cases hr
      | some stage =>
        obtain ⟨-, hid⟩ := researchSteps_id hstage
        have hclash := hsuits stage hstage
        rw [hstage] at hr
        dsimp only at hr
        rw [hid] at hclash hr
        cases res with
        | ok v =>
          cases hr
          have hd : ∀ i < k + 1, i < k ∧ i ≠ k ∨ i = k ∧ QuestStatus.done = .done := by
            intro i hi
            exact (Nat.lt_succ_iff_lt_or_eq.1 hi).imp (fun h => ⟨h, Nat.ne_of_lt h⟩) fun h => ⟨h, rfl⟩
          obtain ⟨hsame, hnext⟩ := next_set now hquests hgrown hclash .done v [] (le_refl _) (Nat.lt_succ_self k) hd
            (.researchStart (k + 1))
          exact ⟨hk, hsame.trans hadded, hnext⟩
        | error e =>
          dsimp only at hr
          split_ifs at hr
          cases hr
          obtain ⟨hsame, hnext⟩ := next_set now hquests hgrown hclash .failed none e hk hk
            (fun i hi => absurd hi (Nat.not_lt_zero i)) (.researchFail e)
          exact ⟨hsame.trans hadded, hnext⟩
  case researchFail e =>
    cases act <;> simp only [Thread.step, hpc, reduceCtorEq] at hr
    case write now summary =>
      cases hr
      trivial
  case researchClose =>
    cases act <;> simp only [Thread.step, hpc, reduceCtorEq] at hr
    case write now summary =>
      cases hr
      trivial
  case ended =>
    cases act <;> simp [Thread.step, hpc] at hr

theorem stands_other_call {st : Store} (h : s.Stands old)
    (halone : getMission s.thread.missionID st = getMission s.thread.missionID s.store) :
    Pipeline.Stands old { s with store := st } := by
  have hquests : Pipeline.quests { s with store := st } = s.quests := by
    unfold Pipeline.quests
    rw [halone]
  unfold Pipeline.Stands at h ⊢
  dsimp only
  rw [hquests, halone]
  exact h

/-- One step, of the pipeline or of another. -/
theorem stands_act {act : PipelineAct} (h : s.Stands old) (hC : LeavesAlone s act ∧ Suits old s act)
    (hstep : Pipeline.step perm approval s act = some s') : s'.Stands old := by
  cases act with
  | own act => exact stands_next h hC.2 hstep
  | other st =>
    cases hstep
    exact stands_other_call h hC.1

end Steps

/-! ## Runs -/

/-- A run of the pipeline, with calls of others that leave its mission alone, keeps to the quests of the pipeline exactly
if the board suits every step. -/
theorem pipeline_ownQuests_iff {perm : GoString → GoString → Permission} {approval : Bool} {id : GoString} {st : Store}
    {m : Mission} {acts : List PipelineAct} (hm : getMission id st = some m)
    (halone : StepsMeet (Pipeline.step perm approval) LeavesAlone (Pipeline.begin id st) acts) :
    StepsMeet (Pipeline.step perm approval) OwnQuests (Pipeline.begin id st) acts ↔
      StepsMeet (Pipeline.step perm approval) (Suits m.quests) (Pipeline.begin id st) acts := by
  have hstart : (Pipeline.begin id st).Stands m.quests := by
    refine ⟨rfl, ?_⟩
    show (getMission id st).map Mission.quests = _
    rw [hm]
    rfl
  constructor
  · intro hown
    refine stepsMeet_imp_of_invariant (P := Pipeline.Stands m.quests) (C := fun s a => LeavesAlone s a ∧ OwnQuests s a)
      (fun s a s' hs hC hstep => stands_act hs ⟨hC.1, (ownQuests_iff hs a).1 hC.2⟩ hstep)
      (fun s a _ hs hC => (ownQuests_iff hs a).1 hC.2) hstart (halone.and hown)
  · intro hsuits
    refine stepsMeet_imp_of_invariant (P := Pipeline.Stands m.quests)
      (C := fun s a => LeavesAlone s a ∧ Suits m.quests s a) (fun s a s' hs hC hstep => stands_act hs hC hstep)
      (fun s a _ hs hC => (ownQuests_iff hs a).2 hC.2) hstart (halone.and hsuits)

/-- An empty board suits every step. -/
theorem suits_nil (s : Pipeline) (act : PipelineAct) : Suits [] s act := by
  cases act with
  | other st => trivial
  | own act =>
    unfold Suits
    dsimp only
    cases s.thread.pc
    case researchStart k => exact fun _ _ q hq => absurd hq List.not_mem_nil
    case researchWork k => exact fun _ _ q hq => absurd hq List.not_mem_nil
    case researchFail e => exact fun q hq => absurd hq List.not_mem_nil
    case researchClose => rfl
    all_goals trivial

/-- A board that research has already worked on. -/
def sweptBoard (quests : List Quest) : Store where
  missions := AList.insert "m1" ⟨"m1", "bees", quests, .active, "research", [], none, 0, 3⟩ ∅
  seq := 1

def sweptQuest : Quest :=
  ⟨"q1", "Decompose the research question", "suparna_vpc", "llm.chat", some [], [], .done, "suparna_vpc", 30, none, [], none⟩

/-- The pipeline adds its quests. -/
def addAll : List PipelineAct := List.replicate 9 (.own (.tick 4))

/-- The research is run again, and sets the old quest to running. -/
theorem sweptBoard_clashes : ¬∀ (perm : GoString → GoString → Permission) (approval : Bool) (id : GoString) (st : Store)
    (m : Mission) (acts : List PipelineAct), getMission id st = some m →
    StepsMeet (Pipeline.step perm approval) LeavesAlone (Pipeline.begin id st) acts →
      StepsMeet (Pipeline.step perm approval) OwnQuests (Pipeline.begin id st) acts := by
  intro h
  have halone : StepsMeet (Pipeline.step (fun _ _ => .allow) false) LeavesAlone
      (Pipeline.begin "m1" (sweptBoard [sweptQuest])) (addAll ++ [.own (.tick 4)]) := by
    refine stepsMeet_of_forall (fun a ha s => ?_) _
    obtain rfl : a = .own (.tick 4) := by
      simpa [addAll] using ha
    trivial
  have hown := (h _ _ _ _ _ _ rfl halone).next rfl
  have hmem := (hown _ rfl).1 0 (by decide)
  exact absurd hmem (by decide)

/-- A board that is empty. -/
theorem freshBoard_ownQuests :
    StepsMeet (Pipeline.step (fun _ _ => .allow) false) OwnQuests (Pipeline.begin "m1" (sweptBoard []))
      (addAll ++ [.own (.tick 4), .own (.stage 5 (.error "no engine")), .own (.write 6 "Research failed")]) :=
  (pipeline_ownQuests_iff rfl (stepsMeet_of_forall (fun a ha s => by
    cases a with
    | own act => trivial
    | other st => simp [addAll] at ha) _)).2 (stepsMeet_of_forall (fun a _ s => suits_nil s a) _)

end Gafam.Orchestrator
