import Gafam.Orchestrator.Rerun
import Gafam.Orchestrator.Proofs.RerunProofs

/-!
# What a reference reads

While a plan is put on the board by itself, the references in it are wired exactly if the plan covers
them: the numbers of the plan and the ids of the board have to name the same quests.
-/

namespace Gafam.Orchestrator

open Gafam.Go Gafam.Lib Gafam.Moksa

/-! ## The board with the plan on it -/

theorem paramReads_questOfPlan (kar : GoString) (ids : List GoString) (p : PlannedQuest × GoString) :
    paramReads (questOfPlan kar ids p).params = paramReads p.1.params := rfl

theorem getElem_nextIDs {n k j : Nat} {x : GoString} :
    (nextIDs n k)[j]? = some x ↔ j < k ∧ x = str "q" ++ itoa (n + j + 1 : Nat) := by
  unfold nextIDs
  rw [List.getElem?_map, Option.map_eq_some_iff]
  constructor
  · rintro ⟨a, ha, rfl⟩
    obtain ⟨hj, rfl⟩ := List.getElem?_eq_some_iff.1 ha
    rw [List.length_range] at hj
    rw [List.getElem_range]
    exact ⟨hj, rfl⟩
  · rintro ⟨hj, rfl⟩
    exact ⟨j, List.getElem?_range hj, rfl⟩

/-- A property of the planned quests behind their ids. -/
theorem forall_zip_nextIDs {plan : List PlannedQuest} {n : Nat} {C : PlannedQuest → Prop} :
    (∀ p ∈ plan.zip (nextIDs n plan.length), C p.1) ↔ ∀ pq ∈ plan, C pq := by
  have hfst : (plan.zip (nextIDs n plan.length)).map Prod.fst = plan :=
    List.map_fst_zip (by rw [length_nextIDs])
  conv_rhs => rw [← hfst]
  exact List.forall_mem_map.symm

/-- One reference, with the dependencies of its quest in terms of ids. -/
theorem wired_iff {before : List Quest} {plan : List PlannedQuest} {pq : PlannedQuest} {x : GoString}
    (hfresh : (before.map Quest.id ++ nextIDs before.length plan.length).Nodup) :
    (x ∈ before.map Quest.id ++ nextIDs before.length plan.length →
      x ∈ (pq.dependsOn.filterMap fun d => (nextIDs before.length plan.length)[d - 1]?) ∨
        ∃ b ∈ before, b.id = x ∧ b.status = .done) ↔
    (∀ b ∈ before, b.id = x → b.status = .done) ∧
      ∀ j < plan.length, x = str "q" ++ itoa (before.length + j + 1 : Nat) →
        ∃ d ∈ pq.dependsOn, d - 1 = j := by
  obtain ⟨hdistinct, -, hdisjoint⟩ := List.nodup_append.1 hfresh
  have hnew : ∀ b ∈ before, ∀ j < plan.length, b.id ≠ str "q" ++ itoa (before.length + j + 1 : Nat) :=
    fun b hb j hj => hdisjoint _ (List.mem_map_of_mem hb) _
      (List.mem_of_getElem? (getElem_nextIDs.2 ⟨hj, rfl⟩))
  constructor
  · intro h
    constructor
    · rintro b hb rfl
      rcases h (List.mem_append_left _ (List.mem_map_of_mem hb)) with hdep | ⟨b', hb', hid, hdone⟩
      · -- a dependency is a new quest
        obtain ⟨d, -, hd⟩ := List.mem_filterMap.1 hdep
        obtain ⟨hj, hid⟩ := getElem_nextIDs.1 hd
        exact absurd hid (hnew b hb _ hj)
      · rwa [← List.inj_on_of_nodup_map hdistinct hb' hb hid]
    · rintro j hj rfl
      have hmem : str "q" ++ itoa (before.length + j + 1 : Nat) ∈ nextIDs before.length plan.length :=
        List.mem_of_getElem? (getElem_nextIDs.2 ⟨hj, rfl⟩)
      rcases h (List.mem_append_right _ hmem) with hdep | ⟨b, hb, hid, -⟩
      · obtain ⟨d, hd, hget⟩ := List.mem_filterMap.1 hdep
        have hid : before.length + j = before.length + (d - 1) := questID_inj (getElem_nextIDs.1 hget).2
        exact ⟨d, hd, by omega⟩
      · exact absurd hid (hnew b hb j hj)
  · rintro ⟨hold, hplan⟩ hmem
    rcases List.mem_append.1 hmem with hmem | hmem
    · obtain ⟨b, hb, rfl⟩ := List.mem_map.1 hmem
      exact .inr ⟨b, hb, rfl, hold b hb rfl⟩
    · obtain ⟨j, hj, rfl⟩ := mem_nextIDs hmem
      obtain ⟨d, hd, rfl⟩ := hplan j hj rfl
      exact .inl (List.mem_filterMap.2 ⟨d, hd, getElem_nextIDs.2 ⟨hj, rfl⟩⟩)

/-- On a board with distinct ids, the references of a plan are wired iff the plan covers them. -/
theorem wired_iff_covered {kar : GoString} {plan : List PlannedQuest} {before : List Quest}
    (hfresh : (before.map Quest.id ++ nextIDs before.length plan.length).Nodup) :
    ReferencesWired before (addPlan kar plan before) ↔ Covered before plan := by
  unfold ReferencesWired Covered
  rw [map_id_addPlan]
  unfold addPlan
  dsimp only
  rw [List.drop_left, List.forall_mem_map, ← forall_zip_nextIDs]
  refine forall₂_congr fun p _ => ?_
  rw [paramReads_questOfPlan]
  exact forall₂_congr fun x _ => wired_iff hfresh

/-! ## The first plan -/

theorem dropWhile_suffix (p : UInt8 → Bool) (s : GoString) : s.dropWhile p <:+ s :=
  ⟨s.takeWhile p, List.takeWhile_append_dropWhile⟩

/-- What follows a path stands at the end of the text. -/
theorem resultFields_suffix {n : Nat} {s rest : GoString} {fields : List GoString}
    (h : resultFields n s = some (fields, rest)) : rest <:+ s := by
  fun_induction resultFields n s generalizing fields with
  | case1 n rest' =>
    cases h
    exact (List.suffix_cons _ _).trans (List.suffix_cons _ _)
  | case2 => cases h
  | case3 n s word hword =>
    rename_i ih
    obtain ⟨⟨fields', rest'⟩, hrest, heq⟩ := Option.map_eq_some_iff.1 h
    obtain ⟨-, rfl⟩ := Prod.mk.inj heq
    exact ((ih hrest).trans (dropWhile_suffix _ _)).trans (List.suffix_cons _ _)
  | case4 => cases h

/-- A match of `interpolateParams` is one of `autoWireDeps`. -/
theorem questRef_some {s x rest : GoString} {fields : List GoString}
    (h : questRef s = some (x, fields, rest)) :
    ∃ digits, depRef s = some digits ∧ x = 0x71 :: digits ∧ rest <:+ s.tail := by
  unfold questRef at h
  split at h
  · next t =>
    dsimp only at h
    split_ifs at h with hno
    obtain ⟨hdigits, hresult⟩ := not_or.1 hno
    obtain ⟨⟨fields', rest'⟩, hfields, heq⟩ := Option.map_eq_some_iff.1 h
    obtain ⟨rfl, hpair⟩ := Prod.mk.inj heq
    obtain ⟨-, rfl⟩ := Prod.mk.inj hpair
    obtain ⟨u, hu⟩ : ∃ u, t.dropWhile isDigit = 0x2E :: u := by
      rw [Bool.not_eq_true', Bool.not_eq_false] at hresult
      obtain ⟨u, hu⟩ := List.isPrefixOf_iff_prefix.1 hresult
      exact ⟨_, hu.symm⟩
    refine ⟨t.takeWhile isDigit, ?_, rfl, ?_⟩
    · simp only [depRef, hu, if_neg hdigits]
    · refine (resultFields_suffix hfields).trans ((List.drop_suffix _ _).trans ?_)
      refine (dropWhile_suffix _ _).trans ?_
      exact (List.suffix_cons _ _).trans (List.suffix_cons _ _)
  · cases h

theorem depRefs_suffix {s t : GoString} (h : t <:+ s) : depRefs t ⊆ depRefs s := by
  induction s with
  | nil =>
    rw [List.suffix_nil.1 h]
    exact List.Subset.refl _
  | cons c s ih =>
    rcases List.suffix_cons_iff.1 h with rfl | h
    · exact List.Subset.refl _
    · exact fun d hd => List.mem_append_right _ (ih h hd)

theorem textReads_depRefs {n : Nat} {s x : GoString} (h : x ∈ textReads n s) :
    ∃ digits ∈ depRefs s, x = 0x71 :: digits := by
  induction n generalizing s with
  | zero => exact absurd h List.not_mem_nil
  | succ n ih =>
    cases s with
    | nil => exact absurd h List.not_mem_nil
    | cons c s =>
      unfold textReads at h
      rcases hr : questRef (c :: s) with _ | ⟨y, fields, rest⟩
      · rw [hr] at h
        obtain ⟨digits, hd, hx⟩ := ih h
        exact ⟨digits, List.mem_append_right _ hd, hx⟩
      · rw [hr] at h
        obtain ⟨digits, hdep, hy, hrest⟩ := questRef_some hr
        rcases List.mem_cons.1 h with rfl | h
        · refine ⟨digits, List.mem_append_left _ ?_, hy⟩
          rw [hdep]
          exact List.mem_singleton.2 rfl
        · obtain ⟨digits', hd, hx⟩ := ih h
          exact ⟨digits', depRefs_suffix (hrest.trans (List.suffix_cons _ _)) hd, hx⟩

/-- Every id that is looked up comes from a number that `autoWireDeps` sees. -/
theorem paramReads_paramRefs {params : Params} {x : GoString} (h : x ∈ paramReads params) :
    ∃ digits ∈ paramRefs params, x = 0x71 :: digits := by
  obtain ⟨⟨k, v⟩, hp, hx⟩ := List.mem_flatMap.1 h
  cases v with
  | str s =>
    obtain ⟨digits, hd, hx⟩ := textReads_depRefs hx
    exact ⟨digits, List.mem_flatMap.2 ⟨(k, .str s), hp, hd⟩, hx⟩
  | _ => exact absurd hx List.not_mem_nil

theorem wireRef_mono {len i d : Nat} {deps : List Nat} {ref : GoString} (h : d ∈ deps) :
    d ∈ wireRef len i deps ref := by
  unfold wireRef
  split
  · exact h
  · split_ifs
    · exact h
    · exact List.mem_append_left _ h

/-- A number in the range of the plan becomes a dependency, unless it is the quest's own. -/
theorem wireRef_adds {len i j : Nat} {deps : List Nat} (hj : j < len) (hself : j ≠ i)
    (hlen : len < 2 ^ 63) : j + 1 ∈ wireRef len i deps (itoa (j + 1 : Nat)) := by
  unfold wireRef
  rw [atoi_itoa (by omega) (by omega)]
  dsimp only
  split_ifs with h
  · rcases h with h | h | h | h
    · omega
    · omega
    · omega
    · simpa using h
  · exact List.mem_append_right _ (List.mem_singleton.2 (by omega))

theorem foldl_wireRef {len i d : Nat} {refs : List GoString} {deps : List Nat}
    (h : d ∈ deps ∨ ∃ ref ∈ refs, ∀ deps, d ∈ wireRef len i deps ref) :
    d ∈ refs.foldl (wireRef len i) deps := by
  induction refs generalizing deps with
  | nil =>
    rcases h with h | ⟨ref, hmem, -⟩
    · exact h
    · exact absurd hmem List.not_mem_nil
  | cons ref refs ih =>
    refine ih ?_
    rcases h with h | ⟨ref', hmem, hadds⟩
    · exact .inl (wireRef_mono h)
    · rcases List.mem_cons.1 hmem with rfl | hmem
      · exact .inl (hadds deps)
      · exact .inr ⟨ref', hmem, hadds⟩

theorem foldl_wireRef_pos {len i : Nat} {refs : List GoString} {deps : List Nat}
    (h : ∀ d ∈ deps, 1 ≤ d) : ∀ d ∈ refs.foldl (wireRef len i) deps, 1 ≤ d := by
  induction refs generalizing deps with
  | nil => exact h
  | cons ref refs ih =>
    refine ih fun d hd => ?_
    unfold wireRef at hd
    split at hd
    · exact h d hd
    · split_ifs at hd with hskip
      · exact h d hd
      · rcases List.mem_append.1 hd with hd | hd
        · exact h d hd
        · rw [List.mem_singleton.1 hd]
          omega

/-- A plan is the outcome of `autoWireDeps` on quests with numbers from 1 on. -/
theorem planQuests_wired {known : GoString → Bool} {maxQuests : Nat} {answer : List AnsweredQuest}
    {plan : List PlannedQuest} (h : planQuests known maxQuests answer = some plan) :
    ∃ quests, plan = autoWireDeps quests ∧ ∀ q ∈ quests, ∀ d ∈ q.dependsOn, 1 ≤ d := by
  unfold planQuests at h
  dsimp only at h
  split at h
  · cases h
  · next heq =>
    cases h
    refine ⟨_, heq.symm, fun q hq d hd => ?_⟩
    obtain ⟨a, -, rfl⟩ := List.mem_map.1 (List.mem_of_mem_take hq)
    obtain ⟨n, hn, rfl⟩ := List.mem_map.1 hd
    have hrange := of_decide_eq_true (List.mem_filter.1 hn).2
    omega

section Planning

variable (perm : GoString → GoString → Permission) (approval : Bool) (id kar : GoString)

/-- The thread puts a plan on the board. -/
def ThreadPc.planning : ThreadPc → Bool
  | add .. | wire .. | activate => true
  | _ => false

/-- From the answer of the planner to the levels: the plan is on its way to the board, or it is there. -/
inductive PlanComes (i : Nat) (plan : List PlannedQuest) (m₁ : Mission) (log : List Event) : Pass → Prop
  | coming {w : Pass} (hpc : w.thread.pc.planning = true)
    (h : InPass perm approval id kar i (some plan) m₁ log w) : PlanComes i plan m₁ log w
  | there {st : Store} {m : Mission} (hm : getMission id st = some m)
    (hq : m.quests = addPlan kar plan m₁.quests) :
    PlanComes i plan m₁ log ⟨⟨.orchestration, id, kar, i, .execute⟩, st, log⟩

/-- From the answer of the planner to the levels, where the board takes no quests. -/
inductive BoardStays (i : Nat) (m₁ : Mission) (log : List Event) : Pass → Prop
  | refusing {todo plan : List PlannedQuest} {st : Store} {m : Mission} (hm : getMission id st = some m)
    (hst : m.status = .cancelled) (hq : m.quests = m₁.quests) :
    BoardStays i m₁ log ⟨⟨.orchestration, id, kar, i, .add todo plan []⟩, st, log⟩
  | passing {pc : ThreadPc} {st : Store} {m : Mission}
    (hpc : pc = .wire [] ∨ pc = .activate ∨ pc = .execute) (hm : getMission id st = some m)
    (hq : m.quests = m₁.quests) : BoardStays i m₁ log ⟨⟨.orchestration, id, kar, i, pc⟩, st, log⟩

variable {perm approval id kar} {i : Nat} {plan : List PlannedQuest} {m₁ : Mission} {log : List Event}

/-- A thread that puts a plan on the board goes on with it until the mission is active. -/
theorem planning_step {w w' : Pass} {act : ThreadAct} (hkind : w.thread.kind = .orchestration)
    (hpc : w.thread.pc.planning = true) (hactive : w.thread.pc ≠ .activate)
    (hstep : passStep perm approval w (.own act) = some w') : w'.thread.pc.planning = true := by
  obtain ⟨⟨kind, id, kar, i, pc⟩, st, log⟩ := w
  cases hkind
  cases act with
  | tick now =>
    cases pc with
    | add todo plan ids =>
      cases todo with
      | cons pq todo =>
        simp only [passStep, Thread.step, Bool.false_eq_true, false_and, if_false] at hstep
        split at hstep <;>
          (simp only [Option.map_some, Option.some.injEq] at hstep
           subst hstep
           rfl)
      | nil =>
        simp only [passStep, Thread.step, Bool.false_eq_true, if_false, Option.map_some,
          Option.some.injEq] at hstep
        subst hstep
        rfl
    | wire todo =>
      cases todo with
      | cons e todo =>
        simp only [passStep, Thread.step, Option.map_some, Option.some.injEq] at hstep
        subst hstep
        rfl
      | nil =>
        simp only [passStep, Thread.step, Option.map_some, Option.some.injEq] at hstep
        subst hstep
        rfl
    | activate => exact absurd rfl hactive
    | _ => cases hpc
  | _ =>
    cases pc with
    | add todo plan ids => cases todo <;> simp [passStep, Thread.step] at hstep
    | wire todo => cases todo <;> simp [passStep, Thread.step] at hstep
    | activate => simp [passStep, Thread.step] at hstep
    | _ => cases hpc

theorem planComes_own {w w' : Pass} {act : ThreadAct}
    (hfresh : (m₁.quests.map Quest.id ++ nextIDs m₁.quests.length plan.length).Nodup)
    (h : PlanComes perm approval id kar i plan m₁ log w) (hC : w.thread.pc ≠ .execute)
    (hstep : passStep perm approval w (.own act) = some w') :
    PlanComes perm approval id kar i plan m₁ log w' := by
  cases h with
  | there => exact absurd rfl hC
  | coming hpc h =>
    have hpc' := fun hkind hactive => planning_step hkind hpc hactive hstep
    cases h with
    | @adding before todo plan' st m hneeds hreply hplan htitle hm hst hq =>
      have hon := hpc' rfl ThreadPc.noConfusion
      cases act with
      | tick now =>
        cases todo with
        | cons pq todo =>
          exact .coming hon (inPass_add hneeds hreply hplan htitle hm hst hq hstep)
        | nil => exact .coming hon (inPass_addEnd hneeds hreply hplan hm hq hstep)
      | _ => cases todo <;> simp [passStep, Thread.step] at hstep
    | @wiring plan' before rest st m hneeds hreply hzip hm hq =>
      have hon := hpc' rfl ThreadPc.noConfusion
      obtain rfl := Option.some.inj hreply
      generalize htodo : wirePairs (nextIDs m₁.quests.length plan.length) rest = todo at hstep
      cases act with
      | tick now =>
        cases todo with
        | cons e todo => exact .coming hon (inPass_wire hfresh hneeds rfl hzip hm hq htodo hstep)
        | nil => exact .coming hon (inPass_wireEnd hneeds rfl hzip hm hq htodo hstep)
      | _ => cases todo <;> simp [passStep, Thread.step] at hstep
    | @activating plan' st m hneeds hreply hm hq =>
      obtain rfl := Option.some.inj hreply
      cases act with
      | tick now =>
        simp only [passStep, Thread.step, Option.map_some, Option.some.injEq] at hstep
        subst hstep
        rw [List.append_nil]
        obtain ⟨m', hm', -, hq'⟩ := getMission_update_self now (setStatus .active) hm
        exact .there hm' (hq'.trans hq)
      | _ => simp [passStep, Thread.step] at hstep
    | executing => cases hpc
    | working => cases hpc
    | observing => cases hpc

/-- What others do to the store does not concern the plan. -/
theorem planComes_others {w : Pass} {st : Store} (h : PlanComes perm approval id kar i plan m₁ log w)
    (heq : getMission w.thread.missionID st = getMission w.thread.missionID w.store) :
    PlanComes perm approval id kar i plan m₁ log { w with store := st } := by
  cases h with
  | coming hpc h => exact .coming hpc (inPass_others h (h.missionID ▸ heq))
  | there hm hq => exact .there (heq.trans hm) hq

theorem boardStays_own {w w' : Pass} {act : ThreadAct} (h : BoardStays id kar i m₁ log w)
    (hC : w.thread.pc ≠ .execute) (hstep : passStep perm approval w (.own act) = some w') :
    BoardStays id kar i m₁ log w' := by
  cases h with
  | @refusing todo plan st m hm hst hq =>
    cases act with
    | tick now =>
      cases todo with
      | cons pq todo =>
        have hadd : addQuest pq.title kar pq.tool pq.params [] 30 m =
            (m, some (str "mission cancelled")) := by
          unfold addQuest
          rw [if_pos hst]
        obtain ⟨m', hm', hst', hq'⟩ :=
          getMission_update_self now (addQuest pq.title kar pq.tool pq.params [] 30) hm
        rw [hadd] at hst' hq'
        have hl : st.missions.lookup id = some m := hm
        have herr : ∃ e, (updateMission now id (addQuest pq.title kar pq.tool pq.params [] 30) st).1 =
            .error e := by
          unfold updateMission
          rw [hl]
          simp only [hadd]
          exact ⟨_, rfl⟩
        obtain ⟨e, he⟩ := herr
        have hup : updateMission now id (addQuest pq.title kar pq.tool pq.params [] 30) st =
            (.error e, (updateMission now id (addQuest pq.title kar pq.tool pq.params [] 30) st).2) :=
          Prod.ext he rfl
        simp only [passStep, Thread.step, Bool.false_eq_true, false_and, if_false] at hstep
        rw [hup] at hstep
        simp only [Option.map_some, Option.some.injEq] at hstep
        subst hstep
        rw [List.append_nil]
        exact .refusing hm' (hst'.trans hst) (hq'.trans hq)
      | nil =>
        simp only [passStep, Thread.step, Bool.false_eq_true, if_false, Option.map_some,
          Option.some.injEq] at hstep
        subst hstep
        rw [List.append_nil]
        refine .passing (.inl ?_) hm hq
        unfold wiring
        rw [List.zip_nil_right]
        rfl
    | _ => cases todo <;> simp [passStep, Thread.step] at hstep
  | passing hpc hm hq =>
    cases act with
    | tick now =>
      rcases hpc with rfl | rfl | rfl
      · simp only [passStep, Thread.step, Option.map_some, Option.some.injEq] at hstep
        subst hstep
        rw [List.append_nil]
        exact .passing (.inr (.inl rfl)) hm hq
      · simp only [passStep, Thread.step, Option.map_some, Option.some.injEq] at hstep
        subst hstep
        rw [List.append_nil]
        obtain ⟨m', hm', -, hq'⟩ := getMission_update_self now (setStatus .active) hm
        exact .passing (.inr (.inr rfl)) hm' (hq'.trans hq)
      · exact absurd rfl hC
    | _ => rcases hpc with rfl | rfl | rfl <;> simp [passStep, Thread.step] at hstep

theorem boardStays_others {w : Pass} {st : Store} (h : BoardStays id kar i m₁ log w)
    (heq : getMission w.thread.missionID st = getMission w.thread.missionID w.store) :
    BoardStays id kar i m₁ log { w with store := st } := by
  cases h with
  | refusing hm hst hq => exact .refusing (heq.trans hm) hst hq
  | passing hpc hm hq => exact .passing hpc (heq.trans hm) hq

/-- What becomes of the answer of the planner. -/
def Answered (perm : GoString → GoString → Permission) (approval : Bool) (id kar : GoString) (i : Nat)
    (plan : List PlannedQuest) (m₁ : Mission) (log : List Event) (w : Pass) : Prop :=
  PutsPlan i m₁ ∧ PlanComes perm approval id kar i plan m₁ log w ∨
    ¬PutsPlan i m₁ ∧ BoardStays id kar i m₁ log w ∨ w.thread.pc.closing = true

theorem answered_of_reply {w w' : Pass} {known : GoString → Bool} {maxQuests : Nat}
    {answer : List AnsweredQuest} (hw : w.thread = ⟨.orchestration, id, kar, i, .plan⟩)
    (hm : getMission id w.store = some m₁) (hplan : planQuests known maxQuests answer = some plan)
    (hstep : passStep perm approval w (.own (.reply (some plan))) = some w') :
    Answered perm approval id kar i plan m₁ w.log w' := by
  obtain ⟨t, st, log⟩ := w
  cases hw
  have hm : getMission id st = some m₁ := hm
  simp only [passStep, Thread.step, hm, Option.map_some, Option.some.injEq] at hstep
  subst hstep
  rw [List.append_nil]
  unfold Thread.planned
  dsimp only
  by_cases hneeds : m₁.quests = [] ∨ 0 < i
  · rw [if_pos hneeds]
    by_cases hstop : 0 < i ∧ ¬ replannable m₁ = true
    · rw [if_pos hstop]
      exact .inr (.inr rfl)
    · rw [if_neg hstop]
      cases plan with
      | nil =>
        refine .inr (.inr ?_)
        show (if i = 0 then ThreadPc.giveUp else ThreadPc.synthesize).closing = true
        split_ifs <;> rfl
      | cons pq plan =>
        by_cases hst : m₁.status = .cancelled
        · exact .inr (.inl ⟨fun h => h.1 hst, .refusing hm hst rfl⟩)
        · have hempty : m₁.quests = m₁.quests ++ ([] : List Quest) := (List.append_nil _).symm
          exact .inl ⟨⟨hst, hneeds⟩, .coming rfl (@InPass.adding perm approval id kar i _ m₁ log [] _ _
            st m₁ hneeds rfl rfl (planQuests_title hplan) hm hst hempty)⟩
  · rw [if_neg hneeds]
    exact .inr (.inl ⟨fun h => hneeds h.2, .passing (.inr (.inr rfl)) hm rfl⟩)

theorem answered_step {w w' : Pass} {act : PassAct}
    (hfresh : (m₁.quests.map Quest.id ++ nextIDs m₁.quests.length plan.length).Nodup)
    (h : Answered perm approval id kar i plan m₁ log w) (hC : PlansAlone w act)
    (hstep : passStep perm approval w act = some w') :
    Answered perm approval id kar i plan m₁ log w' := by
  rcases h with ⟨hputs, h⟩ | ⟨hputs, h⟩ | h
  · refine .inl ⟨hputs, ?_⟩
    cases act with
    | own act => exact planComes_own hfresh h hC hstep
    | others st =>
      cases hstep
      exact planComes_others h hC
  · refine .inr (.inl ⟨hputs, ?_⟩)
    cases act with
    | own act => exact boardStays_own h hC hstep
    | others st =>
      cases hstep
      exact boardStays_others h hC
  · exact .inr (.inr (closing_step h hstep))

/-- The board when the levels begin. -/
theorem board_of_answer {w w' : Pass} {known : GoString → Bool} {maxQuests : Nat}
    {answer : List AnsweredQuest} {acts : List PassAct}
    (hw : w.thread = ⟨.orchestration, id, kar, i, .plan⟩) (hm : getMission id w.store = some m₁)
    (hplan : planQuests known maxQuests answer = some plan)
    (hfresh : (m₁.quests.map Quest.id ++ nextIDs m₁.quests.length plan.length).Nodup)
    (hrun : runSteps (passStep perm approval) w (.own (.reply (some plan)) :: acts) = some w')
    (hC : StepsMeet (passStep perm approval) PlansAlone w (.own (.reply (some plan)) :: acts))
    (hexec : w'.thread.pc = .execute) :
    ∃ m', getMission id w'.store = some m' ∧
      (PutsPlan i m₁ ∧ m'.quests = addPlan kar plan m₁.quests ∨
        ¬PutsPlan i m₁ ∧ m'.quests = m₁.quests) := by
  obtain ⟨w₁, hstep, hrest⟩ := runSteps_cons_eq_some.1 hrun
  have hfirst := answered_of_reply hw hm hplan hstep
  have hlast := runSteps_invariant_of_meet
    (fun w act w' h hC hstep => answered_step hfresh h hC hstep) hrest (hC.2 w₁ hstep) hfirst
  rcases hlast with ⟨hputs, h⟩ | ⟨hputs, h⟩ | h
  · generalize w.log = log at h
    cases h with
    | coming hpc _ =>
      rw [hexec] at hpc
      cases hpc
    | there hm' hq => exact ⟨_, hm', .inl ⟨hputs, hq⟩⟩
  · generalize w.log = log at h
    cases h with
    | refusing => cases hexec
    | passing _ hm' hq => exact ⟨_, hm', .inr ⟨hputs, hq⟩⟩
  · rw [hexec] at h
    cases h

/-- **References on the board.** When the levels of a pass begin, the references of its plan are wired
exactly if the plan covers them, or the pass puts no plan on the board. -/
theorem references_wired_iff {w w' : Pass} {known : GoString → Bool} {maxQuests : Nat}
    {answer : List AnsweredQuest} {acts : List PassAct}
    (hw : w.thread = ⟨.orchestration, id, kar, i, .plan⟩) (hm : getMission id w.store = some m₁)
    (hplan : planQuests known maxQuests answer = some plan)
    (hfresh : (m₁.quests.map Quest.id ++ nextIDs m₁.quests.length plan.length).Nodup)
    (hrun : runSteps (passStep perm approval) w (.own (.reply (some plan)) :: acts) = some w')
    (hC : StepsMeet (passStep perm approval) PlansAlone w (.own (.reply (some plan)) :: acts))
    (hexec : w'.thread.pc = .execute) :
    ∃ m', getMission id w'.store = some m' ∧
      (ReferencesWired m₁.quests m'.quests ↔ (PutsPlan i m₁ → Covered m₁.quests plan)) := by
  obtain ⟨m', hm', hboard⟩ := board_of_answer hw hm hplan hfresh hrun hC hexec
  refine ⟨m', hm', ?_⟩
  rcases hboard with ⟨hputs, hq⟩ | ⟨hputs, hq⟩
  · rw [hq, wired_iff_covered hfresh]
    exact ⟨fun h _ => h, fun h => h hputs⟩
  · rw [hq]
    refine iff_of_true (fun q hmem => ?_) fun h => absurd h hputs
    rw [List.drop_length] at hmem
    exact absurd hmem List.not_mem_nil

end Planning

/-! ## Two boards -/

/-- A quest of an answer that quotes the first one. -/
def quotingAnswer : List AnsweredQuest :=
  [⟨"Compute", "sandbox.exec", none, []⟩,
    ⟨"Summarise", "llm.chat", some [(str "prompt", .str (str "{{q1.result.stdout}}"))], []⟩]

/-- The quest with the quotation. -/
def quotingQuest : PlannedQuest :=
  ⟨"Summarise", "llm.chat", some [(str "prompt", .str (str "{{q1.result.stdout}}"))], [1]⟩

/-- The plan that comes of it. -/
def quotingPlan : List PlannedQuest := [⟨"Compute", "sandbox.exec", some [], []⟩, quotingQuest]

theorem planQuests_quoting : planQuests (fun _ => true) 6 quotingAnswer = some quotingPlan := rfl

/-- The steps from the answer to the levels. -/
def planningActs : List PassAct :=
  .own (.reply (some quotingPlan)) :: List.replicate 6 (.own (.tick 0))

/-- A board after a first pass: the first quest has failed, the second one is done. -/
def halfDoneBoard : Mission :=
  missionOf .active [failedQuest, { boardQuest "q2" [] with status := .done, result := some (.str []) }]

/-- A thread of that mission at the head of a pass. -/
def headOf (i : Nat) (m : Mission) : Pass :=
  ⟨⟨.orchestration, "m1", "suparna_vpc", i, .plan⟩, storeOf m, []⟩

theorem quoting_reads : paramReads quotingQuest.params = [str "q1"] := by decide

theorem alone_of_planning {w : Pass} (h : w.thread.pc = .plan ∨ w.thread.pc.planning = true)
    (act : ThreadAct) : PlansAlone w (.own act) := by
  intro hexec
  rw [hexec] at h
  rcases h with h | h <;> cases h

theorem references_wired_first : ∃ w', runSteps (passStep (fun _ _ => .allow) false)
    (headOf 0 (missionOf .planning [])) planningActs = some w' ∧
    ∃ m', getMission (str "m1") w'.store = some m' ∧ (ReferencesWired [] m'.quests ↔
      (PutsPlan 0 (missionOf .planning []) → Covered [] quotingPlan)) := by
  have halone : StepsMeet (passStep (fun _ _ => .allow) false) PlansAlone
      (headOf 0 (missionOf .planning [])) planningActs := by
    refine stepsMeet_cons (alone_of_planning (.inl rfl) _) rfl ?_
    refine stepsMeet_cons (alone_of_planning (.inr rfl) _) rfl ?_
    refine stepsMeet_cons (alone_of_planning (.inr rfl) _) rfl ?_
    refine stepsMeet_cons (alone_of_planning (.inr rfl) _) rfl ?_
    refine stepsMeet_cons (alone_of_planning (.inr rfl) _) rfl ?_
    refine stepsMeet_cons (alone_of_planning (.inr rfl) _) rfl ?_
    exact stepsMeet_cons (alone_of_planning (.inr rfl) _) rfl trivial
  have hfresh : ((missionOf .planning []).quests.map Quest.id ++
      nextIDs (missionOf .planning []).quests.length quotingPlan.length).Nodup := nodup_nextIDs 0 2
  exact ⟨_, rfl, references_wired_iff rfl rfl planQuests_quoting hfresh rfl halone rfl⟩

/-- The second pass: the planner's first quest becomes `q3`, and the reference reads `q1`, which has
failed. -/
theorem replan_misses : ∃ w' m', runSteps (passStep (fun _ _ => .allow) false)
    (headOf 1 halfDoneBoard) planningActs = some w' ∧ w'.thread.pc = .execute ∧
    getMission (str "m1") w'.store = some m' ∧ ¬ReferencesWired halfDoneBoard.quests m'.quests := by
  refine ⟨_, _, rfl, rfl, rfl, ?_⟩
  have hfresh : (halfDoneBoard.quests.map Quest.id ++
      nextIDs halfDoneBoard.quests.length quotingPlan.length).Nodup := by decide
  have hcover : ¬Covered halfDoneBoard.quests quotingPlan := by
    intro h
    have hmem : quotingQuest ∈ quotingPlan := List.mem_cons_of_mem _ (List.mem_singleton.2 rfl)
    have hread : str "q1" ∈ paramReads quotingQuest.params := by
      rw [quoting_reads]
      exact List.mem_singleton.2 rfl
    exact QuestStatus.noConfusion ((h _ hmem (str "q1") hread).1 failedQuest (List.mem_cons_self ..) rfl)
  exact fun h => hcover ((@wired_iff_covered (str "suparna_vpc") _ _ hfresh).1 h)

end Gafam.Orchestrator
