import Gafam.Orchestrator.Proofs.ReferencesProofs

/-!
# Numbers of the planner and positions on the board

The two loops of `runOrchestration` are followed from the answer to the levels, whatever `AddQuest` refuses
on the way. What they write comes to one rewriting of the board, and its effect on a quest is known from the
position that each id finds.
-/

namespace Gafam.Orchestrator

open Gafam.Go Gafam.Lib Gafam.Moksa

/-! ## Writes by id -/

/-- A write through an id changes the quest that the id finds. -/
theorem getElem?_updateFirst (x : GoString) (f : Quest → Quest) (l : List Quest) (j : Nat) :
    (updateFirst x f l)[j]? =
      (l[j]?).map fun q => if l.findIdx? (fun q => q.id = x) = some j then f q else q := by
  induction l generalizing j with
  | nil => rfl
  | cons p l ih =>
    unfold updateFirst
    by_cases hp : p.id = x
    · rw [if_pos hp, List.findIdx?_cons, if_pos (by simpa using hp)]
      cases j with
      | zero => simp
      | succ j => simp
    · rw [if_neg hp, List.findIdx?_cons, if_neg (by simpa using hp)]
      cases j with
      | zero => simp
      | succ j =>
        rw [List.getElem?_cons_succ, List.getElem?_cons_succ, ih]
        refine congrArg₂ _ (funext fun q => ?_) rfl
        simp

theorem map_id_updateFirst {f : Quest → Quest} (hf : ∀ q, (f q).id = q.id) (x : GoString) (l : List Quest) :
    (updateFirst x f l).map Quest.id = l.map Quest.id := by
  induction l with
  | nil => rfl
  | cons p l ih =>
    unfold updateFirst
    split_ifs
    · rw [List.map_cons, List.map_cons, hf]
    · rw [List.map_cons, List.map_cons, ih]

/-- Where an id is found depends on the ids alone. -/
theorem findIdx?_id (x : GoString) (l : List Quest) :
    l.findIdx? (fun q => q.id = x) = (l.map Quest.id).findIdx? fun y => y = x := by
  rw [List.findIdx?_map]
  rfl

/-- The writes of the wiring, one after the other. -/
def wireBoard (todo : List (GoString × List GoString)) (quests : List Quest) : List Quest :=
  todo.foldl (fun qs p => updateFirst p.1 (fun q => { q with dependsOn := p.2 }) qs) quests

theorem map_id_wireBoard (todo : List (GoString × List GoString)) (quests : List Quest) :
    (wireBoard todo quests).map Quest.id = quests.map Quest.id := by
  induction todo generalizing quests with
  | nil => rfl
  | cons p todo ih =>
    exact (ih _).trans (map_id_updateFirst (f := fun q => { q with dependsOn := p.2 }) (fun _ => rfl) ..)

theorem length_wireBoard (todo : List (GoString × List GoString)) (quests : List Quest) :
    (wireBoard todo quests).length = quests.length := by
  have h := congrArg List.length (map_id_wireBoard todo quests)
  rwa [List.length_map, List.length_map] at h

/-- A quest keeps all but its dependencies, and those it keeps if no id of the wiring finds it. -/
theorem getElem?_wireBoard (todo : List (GoString × List GoString)) {quests : List Quest} {j : Nat}
    {q : Quest} (hq : quests[j]? = some q) :
    (wireBoard todo quests)[j]? = some { q with
      dependsOn :=
        (todo.filter fun p => quests.findIdx? (fun q => q.id = p.1) = some j).foldl (fun _ p => p.2)
          q.dependsOn } := by
  induction todo generalizing quests q with
  | nil => exact hq
  | cons p todo ih =>
    have hids := map_id_updateFirst (f := fun q => { q with dependsOn := p.2 }) (fun _ => rfl) p.1 quests
    have hfind : ∀ x, (updateFirst p.1 (fun q => { q with dependsOn := p.2 }) quests).findIdx?
        (fun q => q.id = x) = quests.findIdx? (fun q => q.id = x) := by
      intro x
      rw [findIdx?_id, findIdx?_id, hids]
    have hget := getElem?_updateFirst p.1 (fun q => { q with dependsOn := p.2 }) quests j
    rw [hq, Option.map_some] at hget
    have hrest := ih hget
    simp only [hfind] at hrest
    unfold wireBoard at hrest ⊢
    rw [List.foldl_cons, hrest]
    by_cases hp : quests.findIdx? (fun q => q.id = p.1) = some j
    · rw [if_pos hp, List.filter_cons_of_pos (by simpa using hp), List.foldl_cons]
    · rw [if_neg hp, List.filter_cons_of_neg (by simpa using hp)]

/-! ## The numbers of a plan -/

theorem mem_wireRef {len i d : Nat} {deps : List Nat} {ref : GoString} :
    d ∈ wireRef len i deps ref ↔
      d ∈ deps ∨ 1 ≤ d ∧ d ≤ len ∧ d ≠ i + 1 ∧ atoi ref = some (d : Int) := by
  unfold wireRef
  rcases hn : atoi ref with _ | n
  · dsimp only
    constructor
    · exact .inl
    · rintro (h | ⟨-, -, -, h⟩)
      · exact h
      · cases h
  · dsimp only
    constructor
    · split_ifs with hskip
      · exact .inl
      · intro h
        rcases List.mem_append.1 h with h | h
        · exact .inl h
        · obtain rfl := List.mem_singleton.1 h
          refine .inr ⟨by omega, by omega, by omega, congrArg some ?_⟩
          omega
    · rintro (h | ⟨hpos, hle, hself, heq⟩)
      · split_ifs
        · exact h
        · exact List.mem_append_left _ h
      · cases heq
        split_ifs with hskip
        · have hmem : ((d : Nat) : Int).toNat ∈ deps := by
            rcases hskip with h | h | h | h
            · omega
            · omega
            · omega
            · exact h
          exact hmem
        · exact List.mem_append_right _ (List.mem_singleton.2 rfl)

/-- The dependencies of a quest once its references are wired. -/
theorem mem_foldl_wireRef {len i d : Nat} {refs : List GoString} {deps : List Nat} :
    d ∈ refs.foldl (wireRef len i) deps ↔
      d ∈ deps ∨ 1 ≤ d ∧ d ≤ len ∧ d ≠ i + 1 ∧ ∃ ref ∈ refs, atoi ref = some (d : Int) := by
  induction refs generalizing deps with
  | nil => simp
  | cons ref refs ih =>
    rw [List.foldl_cons, ih, mem_wireRef]
    constructor
    · rintro ((h | ⟨h1, h2, h3, h4⟩) | ⟨h1, h2, h3, ref', hmem, h4⟩)
      · exact .inl h
      · exact .inr ⟨h1, h2, h3, ref, List.mem_cons_self .., h4⟩
      · exact .inr ⟨h1, h2, h3, ref', List.mem_cons_of_mem _ hmem, h4⟩
    · rintro (h | ⟨h1, h2, h3, ref', hmem, h4⟩)
      · exact .inl (.inl h)
      · rcases List.mem_cons.1 hmem with rfl | hmem
        · exact .inl (.inr ⟨h1, h2, h3, h4⟩)
        · exact .inr ⟨h1, h2, h3, ref', hmem, h4⟩

/-- What a plan has of the quests that it was made of. The numbers of a quest are those it names, read as
positions in the plan. -/
structure PlanOf (all : List (AnsweredQuest × Nat)) (plan : List PlannedQuest) : Prop where
  length : plan.length = all.length
  quests : ∀ k s, all[k]? = some s → ∃ pq, plan[k]? = some pq ∧ pq.title = s.1.title ∧
    pq.tool = s.1.tool ∧ ∀ e < all.length, e + 1 ∈ pq.dependsOn ↔ NamesPlace (s.1, k) e
  positive : ∀ pq ∈ plan, ∀ d ∈ pq.dependsOn, 1 ≤ d

theorem length_survivors_le {known : GoString → Bool} {maxQuests : Nat} {answer : List AnsweredQuest} :
    (survivors known maxQuests answer).length ≤ answer.length := by
  unfold survivors
  refine (List.length_take_le' ..).trans ((List.length_filter_le ..).trans ?_)
  rw [List.length_zipIdx]

theorem map_fst_survivors {known : GoString → Bool} {maxQuests : Nat} {answer : List AnsweredQuest} :
    (survivors known maxQuests answer).map Prod.fst =
      (answer.filter fun q => trimSpace q.title ≠ [] ∧ known q.tool).take (max 1 maxQuests) := by
  unfold survivors
  have hfst : answer = answer.zipIdx.map Prod.fst := (List.zipIdx_map_fst ..).symm
  conv_rhs => rw [hfst]
  rw [List.map_take, List.filter_map]
  rfl

theorem planQuests_getD (known : GoString → Bool) (maxQuests : Nat) (answer : List AnsweredQuest) :
    (planQuests known maxQuests answer).getD [] =
      autoWireDeps ((survivors known maxQuests answer).map fun s =>
        { title := s.1.title
          tool := s.1.tool
          params := some (s.1.params.getD [])
          dependsOn :=
            (s.1.dependsOn.filter fun d : Int => 1 ≤ d ∧ d ≤ (answer.length : Int)).map Int.toNat }) := by
  unfold planQuests
  dsimp only
  rw [← List.map_take, ← map_fst_survivors, List.map_map]
  split
  · next heq => exact heq.symm
  · next heq => exact heq.symm

theorem planOf_planQuests (known : GoString → Bool) (maxQuests : Nat) (answer : List AnsweredQuest) :
    PlanOf (survivors known maxQuests answer) ((planQuests known maxQuests answer).getD []) := by
  have hpos : ∀ pq ∈ (planQuests known maxQuests answer).getD [], ∀ d ∈ pq.dependsOn, 1 ≤ d := by
    rcases h : planQuests known maxQuests answer with _ | plan
    · exact fun pq hpq => absurd hpq List.not_mem_nil
    · obtain ⟨quests, rfl, hquests⟩ := planQuests_wired h
      intro pq hpq
      obtain ⟨k, hk, rfl⟩ := List.mem_mapIdx.1 hpq
      exact foldl_wireRef_pos (hquests _ (List.getElem_mem hk))
  have hle : (survivors known maxQuests answer).length ≤ answer.length := length_survivors_le
  have heq := (planQuests_getD known maxQuests answer).symm
  generalize (planQuests known maxQuests answer).getD [] = plan at hpos heq ⊢
  generalize survivors known maxQuests answer = all at heq hle ⊢
  have hlength := congrArg List.length heq
  unfold autoWireDeps at heq hlength
  rw [List.length_mapIdx, List.length_map] at hlength
  refine ⟨hlength.symm, fun k s hs => ?_, hpos⟩
  have hget := congrArg (fun l : List PlannedQuest => l[k]?) heq
  rw [List.getElem?_mapIdx, List.getElem?_map, hs, Option.map_some, Option.map_some,
    List.length_map] at hget
  refine ⟨_, hget.symm, rfl, rfl, fun e he => ?_⟩
  rw [mem_foldl_wireRef]
  have hrefs : paramRefs (some (s.1.params.getD [])) = paramRefs s.1.params := rfl
  rw [hrefs]
  refine or_congr ?_ ?_
  · rw [List.mem_map]
    constructor
    · rintro ⟨n, hn, heq⟩
      obtain ⟨hmem, hrange⟩ := List.mem_filter.1 hn
      have hrange := of_decide_eq_true hrange
      have hn : ((e + 1 : Nat) : Int) = n := by omega
      rw [hn]
      exact hmem
    · intro hmem
      refine ⟨_, List.mem_filter.2 ⟨hmem, decide_eq_true ?_⟩, Int.toNat_natCast _⟩
      omega
  · constructor
    · rintro ⟨-, -, hself, href⟩
      exact ⟨fun h => hself (by rw [h]), href⟩
    · rintro ⟨hself, href⟩
      exact ⟨by omega, by omega, fun h => hself (by omega), href⟩

/-! ## What has gone through -/

section Accepted

variable {α β : Type}

theorem accepted_concat {l : List α} {oks : List Bool} (h : oks.length = l.length) (a : α) (ok : Bool) :
    accepted (l ++ [a]) (oks ++ [ok]) = accepted l oks ++ if ok then [a] else [] := by
  unfold accepted
  rw [List.zip_append h.symm, List.filter_append, List.map_append]
  cases ok <;> rfl

theorem accepted_map (f : α → β) (l : List α) (oks : List Bool) :
    accepted (l.map f) oks = (accepted l oks).map f := by
  unfold accepted
  rw [List.zip_map_left, List.filter_map, List.map_map, List.map_map]
  rfl

theorem length_accepted_le (l : List α) (oks : List Bool) : (accepted l oks).length ≤ l.length := by
  unfold accepted
  rw [List.length_map]
  refine (List.length_filter_le ..).trans ?_
  rw [List.length_zip]
  exact Nat.min_le_left ..

@[simp] theorem accepted_nil (l : List α) : accepted l [] = [] := by
  unfold accepted
  rw [List.zip_nil_right]
  rfl

end Accepted

/-! ## The two loops -/

/-- The mission has these quests, if it is there. -/
def BoardIs (id : GoString) (st : Store) (quests : List Quest) : Prop :=
  ∀ m, getMission id st = some m → m.quests = quests

/-- What an update makes of the board. -/
theorem board_update {now : Nat} {id : GoString} {fn : MissionFn} {st : Store} {m' : Mission}
    (h : getMission id (updateMission now id fn st).2 = some m') :
    ∃ m, getMission id st = some m ∧ m'.quests = (fn m).1.quests := by
  rcases hm : getMission id st with _ | m
  · have hl : st.missions.lookup id = none := hm
    unfold updateMission at h
    rw [hl] at h
    have hnone : getMission id st = some m' := h
    rw [hm] at hnone
    cases hnone
  · obtain ⟨m'', hm'', -, hq⟩ := getMission_update_self now fn hm
    rw [h] at hm''
    cases hm''
    exact ⟨m, rfl, hq⟩

/-- The quests of a plan, without dependencies, behind `n` others. -/
def landings (kar : GoString) (n : Nat) (plan : List PlannedQuest) : List Quest :=
  (plan.zip (nextIDs n plan.length)).map (questOfPlan kar [])

theorem length_landings (kar : GoString) (n : Nat) (plan : List PlannedQuest) :
    (landings kar n plan).length = plan.length := by
  unfold landings
  rw [List.length_map, List.length_zip, length_nextIDs, Nat.min_self]

theorem landings_concat (kar : GoString) (n : Nat) (plan : List PlannedQuest) (pq : PlannedQuest) :
    landings kar n (plan ++ [pq]) = landings kar n plan ++
      [questOfPlan kar [] (pq, str "q" ++ itoa (n + plan.length + 1 : Nat))] := by
  unfold landings
  rw [List.length_append, List.length_singleton, nextIDs_succ, List.zip_append (length_nextIDs ..).symm,
    List.map_append]
  rfl

/-- The board once both loops are through. -/
def boardOfPlan (kar : GoString) (before : List Quest) (plan landed : List PlannedQuest) : List Quest :=
  wireBoard (wiring plan (nextIDs before.length landed.length))
    (before ++ landings kar before.length landed)

section Loops

variable (id kar : GoString) (i : Nat) (plan : List PlannedQuest) (before : List Quest)

/-- From the answer to the levels, with what `AddQuest` has let through. -/
inductive PutsOn : Pass × List Bool → Prop
  | adding {done todo : List PlannedQuest} {oks : List Bool} {st : Store} {log : List Event}
    (hplan : plan = done ++ todo) (hoks : oks.length = done.length) (htitle : ∀ pq ∈ todo, pq.title ≠ [])
    (hboard : BoardIs id st (before ++ landings kar before.length (accepted done oks))) :
    PutsOn (⟨⟨.orchestration, id, kar, i,
      .add todo plan (nextIDs before.length (accepted done oks).length)⟩, st, log⟩, oks)
  | wiring {todo : List (GoString × List GoString)} {oks : List Bool} {st : Store} {log : List Event}
    (hboard : ∀ m, getMission id st = some m →
      wireBoard todo m.quests = boardOfPlan kar before plan (accepted plan oks)) :
    PutsOn (⟨⟨.orchestration, id, kar, i, .wire todo⟩, st, log⟩, oks)
  | settled {pc : ThreadPc} {oks : List Bool} {st : Store} {log : List Event}
    (hpc : pc = .activate ∨ pc = .execute)
    (hboard : BoardIs id st (boardOfPlan kar before plan (accepted plan oks))) :
    PutsOn (⟨⟨.orchestration, id, kar, i, pc⟩, st, log⟩, oks)
  | closing {w : Pass} {oks : List Bool} (hpc : w.thread.pc.closing = true) : PutsOn (w, oks)

variable {id kar i plan before} {perm : GoString → GoString → Permission} {approval : Bool}

/-- A refusal leaves the board, and the thread goes on with the ids it has. -/
theorem putsOn_refused {done todo : List PlannedQuest} {pq : PlannedQuest} {oks : List Bool} {st st' : Store}
    {log : List Event} {now : Nat} {w' : Pass} {e : GoString} (hplan : plan = done ++ pq :: todo)
    (hoks : oks.length = done.length) (htitle : ∀ p ∈ pq :: todo, p.title ≠ [])
    (hup : updateMission now id (addQuest pq.title kar pq.tool pq.params [] 30) st = (.error e, st'))
    (hboard : BoardIs id st' (before ++ landings kar before.length (accepted done oks)))
    (hstep : passStep perm approval ⟨⟨.orchestration, id, kar, i,
      .add (pq :: todo) plan (nextIDs before.length (accepted done oks).length)⟩, st, log⟩
        (.own (.tick now)) = some w') :
    PutsOn id kar i plan before (w', oks ++ [false]) := by
  simp only [passStep, Thread.step, hup, Bool.false_eq_true, false_and, if_false, Option.map_some,
    Option.some.injEq] at hstep
  subst hstep
  have hsame : accepted (done ++ [pq]) (oks ++ [false]) = accepted done oks := by
    rw [accepted_concat hoks]
    exact List.append_nil _
  rw [← hsame] at hboard ⊢
  refine .adding ?_ ?_ (fun p hp => htitle p (List.mem_cons_of_mem _ hp)) hboard
  · rw [hplan, List.append_assoc]
    rfl
  · rw [List.length_append, List.length_append, hoks]
    rfl

/-- A quest that is taken gets the next id. -/
theorem putsOn_taken {done todo : List PlannedQuest} {pq : PlannedQuest} {oks : List Bool} {st : Store}
    {m : Mission} {log : List Event} {now : Nat} {w' : Pass} (hplan : plan = done ++ pq :: todo)
    (hoks : oks.length = done.length) (htitle : ∀ p ∈ pq :: todo, p.title ≠ [])
    (hm : getMission id st = some m) (hst : m.status ≠ .cancelled)
    (hq : m.quests = before ++ landings kar before.length (accepted done oks))
    (hstep : passStep perm approval ⟨⟨.orchestration, id, kar, i,
      .add (pq :: todo) plan (nextIDs before.length (accepted done oks).length)⟩, st, log⟩
        (.own (.tick now)) = some w') :
    PutsOn id kar i plan before (w', oks ++ [true]) := by
  have hadd : addQuest pq.title kar pq.tool pq.params [] 30 m =
      ({ m with
          quests := m.quests ++ [questOfPlan kar [] (pq, str "q" ++
            itoa (before.length + (accepted done oks).length + 1 : Nat))] }, none) := by
    unfold addQuest
    rw [if_neg hst, if_neg (htitle pq (List.mem_cons_self ..))]
    unfold Mission.nextQuestID questOfPlan
    rw [hq, List.length_append, length_landings]
    simp
  obtain ⟨st', hup, hm'⟩ := updateMission_some now hm hadd
  simp only [passStep, Thread.step, hup, Bool.false_eq_true, false_and, if_false, Option.map_some,
    Option.some.injEq] at hstep
  subst hstep
  rw [List.getLast?_concat, Option.map_some, Option.toList_some]
  have hgrown : accepted (done ++ [pq]) (oks ++ [true]) = accepted done oks ++ [pq] :=
    accepted_concat hoks pq true
  have hids : nextIDs before.length (accepted done oks).length ++
      [(questOfPlan kar [] (pq, str "q" ++
        itoa (before.length + (accepted done oks).length + 1 : Nat))).id] =
      nextIDs before.length (accepted (done ++ [pq]) (oks ++ [true])).length := by
    rw [hgrown, List.length_append, List.length_singleton, nextIDs_succ]
    rfl
  rw [hids]
  refine .adding ?_ ?_ (fun p hp => htitle p (List.mem_cons_of_mem _ hp)) ?_
  · rw [hplan, List.append_assoc]
    rfl
  · rw [List.length_append, List.length_append, hoks]
    rfl
  · intro m'' hm''
    rw [hm'] at hm''
    cases hm''
    rw [hgrown, landings_concat, ← List.append_assoc, ← hq]

theorem putsOn_add {done todo : List PlannedQuest} {pq : PlannedQuest} {oks : List Bool} {st : Store}
    {log : List Event} {now : Nat} {w' : Pass} (hplan : plan = done ++ pq :: todo)
    (hoks : oks.length = done.length) (htitle : ∀ p ∈ pq :: todo, p.title ≠ [])
    (hboard : BoardIs id st (before ++ landings kar before.length (accepted done oks)))
    (hstep : passStep perm approval ⟨⟨.orchestration, id, kar, i,
      .add (pq :: todo) plan (nextIDs before.length (accepted done oks).length)⟩, st, log⟩
        (.own (.tick now)) = some w') :
    PutsOn id kar i plan before
      (w', oks ++ [(getMission id st).any fun m => m.status ≠ .cancelled]) := by
  rcases hm : getMission id st with _ | m
  · have hup : updateMission now id (addQuest pq.title kar pq.tool pq.params [] 30) st =
        (.error ("mission not found: " ++ id), st) := by
      have hl : st.missions.lookup id = none := hm
      unfold updateMission
      rw [hl]
    exact putsOn_refused hplan hoks htitle hup hboard hstep
  · rw [Option.any_some]
    by_cases hst : m.status = .cancelled
    · have hadd : addQuest pq.title kar pq.tool pq.params [] 30 m =
          (m, some (str "mission cancelled")) := by
        unfold addQuest
        rw [if_pos hst]
      have hup : updateMission now id (addQuest pq.title kar pq.tool pq.params [] 30) st =
          (.error (str "mission cancelled"), { st with missions := st.missions.insert id m }) := by
        have hl : st.missions.lookup id = some m := hm
        unfold updateMission
        rw [hl]
        simp only [hadd]
      have hsame : getMission id { st with missions := st.missions.insert id m } = some m :=
        AList.lookup_insert ..
      rw [decide_eq_false (not_not_intro hst)]
      refine putsOn_refused hplan hoks htitle hup ?_ hstep
      intro m' hm'
      rw [hsame] at hm'
      cases hm'
      exact hboard m hm
    · rw [decide_eq_true hst]
      exact putsOn_taken hplan hoks htitle hm hst (hboard m hm) hstep

theorem putsOn_own {w w' : Pass} {oks : List Bool} {act : ThreadAct}
    (h : PutsOn id kar i plan before (w, oks)) (hC : w.thread.pc ≠ .execute)
    (hstep : passStep perm approval w (.own act) = some w') :
    PutsOn id kar i plan before (w', noteAdded w (.own act) oks) := by
  generalize hp : (w, oks) = p at h
  cases h with
  | @adding done todo oks st log hplan hoks htitle hboard =>
    obtain ⟨rfl, rfl⟩ := Prod.mk.inj hp
    cases act with
    | tick now =>
      cases todo with
      | cons pq todo => exact putsOn_add hplan hoks htitle hboard hstep
      | nil =>
        simp only [passStep, Thread.step, Bool.false_eq_true, if_false, Option.map_some,
          Option.some.injEq] at hstep
        subst hstep
        rw [List.append_nil] at hplan
        subst hplan
        refine .wiring fun m hm => ?_
        rw [hboard m hm]
        rfl
    | _ => cases todo <;> simp [passStep, Thread.step] at hstep
  | @wiring todo oks st log hboard =>
    obtain ⟨rfl, rfl⟩ := Prod.mk.inj hp
    cases act with
    | tick now =>
      cases todo with
      | cons e todo =>
        simp only [passStep, Thread.step, Option.map_some, Option.some.injEq] at hstep
        subst hstep
        refine .wiring fun m' hm' => ?_
        obtain ⟨m, hm, hq⟩ := board_update hm'
        rw [hq]
        exact hboard m hm
      | nil =>
        simp only [passStep, Thread.step, Option.map_some, Option.some.injEq] at hstep
        subst hstep
        exact .settled (.inl rfl) hboard
    | _ => cases todo <;> simp [passStep, Thread.step] at hstep
  | @settled pc oks st log hpc hboard =>
    obtain ⟨rfl, rfl⟩ := Prod.mk.inj hp
    obtain rfl := hpc.resolve_right hC
    cases act with
    | tick now =>
      simp only [passStep, Thread.step, Option.map_some, Option.some.injEq] at hstep
      subst hstep
      refine .settled (.inr rfl) fun m' hm' => ?_
      obtain ⟨m, hm, hq⟩ := board_update hm'
      exact hq.trans (hboard m hm)
    | _ => simp [passStep, Thread.step] at hstep
  | closing hpc =>
    obtain ⟨rfl, rfl⟩ := Prod.mk.inj hp
    exact .closing (closing_step hpc hstep)

theorem putsOn_others {w : Pass} {oks : List Bool} {st : Store}
    (h : PutsOn id kar i plan before (w, oks)) (hC : PlansBeside w (.others st)) :
    PutsOn id kar i plan before ({ w with store := st }, oks) := by
  generalize hp : (w, oks) = p at h
  cases h with
  | @adding done todo oks st log hplan hoks htitle hboard =>
    obtain ⟨rfl, rfl⟩ := Prod.mk.inj hp
    refine .adding hplan hoks htitle fun m hm => ?_
    obtain ⟨m₀, hm₀, hq⟩ := hC m hm
    exact hq.trans (hboard m₀ hm₀)
  | @wiring todo oks st log hboard =>
    obtain ⟨rfl, rfl⟩ := Prod.mk.inj hp
    refine .wiring fun m hm => ?_
    obtain ⟨m₀, hm₀, hq⟩ := hC m hm
    rw [hq]
    exact hboard m₀ hm₀
  | @settled pc oks st log hpc hboard =>
    obtain ⟨rfl, rfl⟩ := Prod.mk.inj hp
    refine .settled hpc fun m hm => ?_
    obtain ⟨m₀, hm₀, hq⟩ := hC m hm
    exact hq.trans (hboard m₀ hm₀)
  | closing hpc =>
    obtain ⟨rfl, rfl⟩ := Prod.mk.inj hp
    exact .closing hpc

theorem putsOn_step {p p' : Pass × List Bool} {act : PassAct} (h : PutsOn id kar i plan before p)
    (hC : PlansBeside p.1 act)
    (hstep : withHistory (passStep perm approval) noteAdded p act = some p') :
    PutsOn id kar i plan before p' := by
  obtain ⟨w, oks⟩ := p
  obtain ⟨w', oks'⟩ := p'
  obtain ⟨hpass, hoks⟩ := withHistory_eq_some.1 hstep
  dsimp only at hoks hpass
  subst hoks
  cases act with
  | own act => exact putsOn_own h hC hpass
  | others st =>
    cases hpass
    have hnote : noteAdded w (.others st) oks = oks := by
      unfold noteAdded
      split
      · next h => cases h
      · rfl
    rw [hnote]
    exact putsOn_others h hC

/-- The planner has answered, or failed to. -/
theorem putsOn_reply {w w' : Pass} {oks : List Bool} {known : GoString → Bool} {maxQuests : Nat}
    {answer : List AnsweredQuest} {m₁ : Mission} (hw : w.thread = ⟨.orchestration, id, kar, i, .plan⟩)
    (hm : getMission id w.store = some m₁)
    (hstep : withHistory (passStep perm approval) noteAdded (w, [])
      (.own (.reply (planQuests known maxQuests answer))) = some (w', oks)) :
    PutsOn id kar i ((planQuests known maxQuests answer).getD []) m₁.quests (w', oks) := by
  obtain ⟨t, st, log⟩ := w
  cases hw
  have hm : getMission id st = some m₁ := hm
  obtain ⟨hpass, hoks⟩ := withHistory_eq_some.1 hstep
  obtain rfl : oks = [] := hoks
  simp only [passStep, Thread.step, hm, Option.map_some, Option.some.injEq] at hpass
  subst hpass
  have hboard : ∀ plan, BoardIs id st (boardOfPlan kar m₁.quests plan []) := by
    intro plan m hm'
    rw [hm] at hm'
    cases hm'
    unfold boardOfPlan wiring
    rw [List.length_nil]
    show _ = wireBoard (((plan.zip []).filter _).map _) (m₁.quests ++ [])
    rw [List.zip_nil_right, List.append_nil]
    rfl
  unfold Thread.planned
  dsimp only
  by_cases hneeds : m₁.quests = [] ∨ 0 < i
  · rw [if_pos hneeds]
    have hfailed : (if i = 0 then ThreadPc.giveUp else ThreadPc.synthesize).closing = true := by
      split_ifs <;> rfl
    by_cases hstop : 0 < i ∧ ¬ replannable m₁ = true
    · rw [if_pos hstop]
      exact .closing rfl
    · rw [if_neg hstop]
      rcases hplan : planQuests known maxQuests answer with _ | plan
      · exact .closing hfailed
      · have htitle := planQuests_title hplan
        cases plan with
        | nil => exact .closing hfailed
        | cons pq plan =>
          rw [List.append_nil]
          refine @PutsOn.adding id kar i (pq :: plan) m₁.quests [] _ [] st log rfl rfl htitle fun m hm' => ?_
          rw [hm] at hm'
          cases hm'
          exact (List.append_nil _).symm
  · rw [if_neg hneeds]
    refine .settled (.inr rfl) ?_
    rw [accepted_nil]
    exact hboard _

end Loops

/-! ## What an id finds -/

theorem findIdx?_nextIDs {n l k : Nat} (hk : k < l) :
    (nextIDs n l).findIdx? (fun y => y = str "q" ++ itoa (n + k + 1 : Nat)) = some k := by
  rw [List.findIdx?_eq_some_iff_getElem]
  have hlen : k < (nextIDs n l).length := by rwa [length_nextIDs]
  have hget : ∀ j (hj : j < (nextIDs n l).length), (nextIDs n l)[j] = str "q" ++ itoa (n + j + 1 : Nat) :=
    fun j hj => (getElem_nextIDs.1 (List.getElem?_eq_getElem hj)).2
  refine ⟨hlen, by simpa using hget k hlen, fun j hj => ?_⟩
  rw [decide_eq_true_eq, hget j (by omega)]
  intro heq
  have h : n + j = n + k := questID_inj heq
  omega

section Positions

variable {before quests : List Quest} {l k : Nat}

/-- An id that was free finds the quest that is added under it. -/
theorem findIdx?_free (hids : quests.map Quest.id = before.map Quest.id ++ nextIDs before.length l)
    (hk : k < l) (hfree : IdFree before k) :
    quests.findIdx? (fun q => q.id = str "q" ++ itoa (before.length + k + 1 : Nat)) =
      some (before.length + k) := by
  rw [findIdx?_id, hids, List.findIdx?_append, findIdx?_nextIDs hk]
  have hnone : (before.map Quest.id).findIdx?
      (fun y => y = str "q" ++ itoa (before.length + k + 1 : Nat)) = none := by
    rw [List.findIdx?_eq_none_iff]
    intro y hy
    refine decide_eq_false ?_
    rintro rfl
    exact hfree hy
  rw [hnone, Option.none_or, Option.map_some, List.length_map, Nat.add_comm]

/-- An id that was in use finds the quest that had it. -/
theorem findIdx?_used (hids : quests.map Quest.id = before.map Quest.id ++ nextIDs before.length l)
    (hused : ¬IdFree before k) : ∃ p < before.length,
      quests.findIdx? (fun q => q.id = str "q" ++ itoa (before.length + k + 1 : Nat)) = some p := by
  have hmem := not_not.1 hused
  rw [findIdx?_id, hids, List.findIdx?_append]
  rcases hfind : (before.map Quest.id).findIdx?
      (fun y => y = str "q" ++ itoa (before.length + k + 1 : Nat)) with _ | p
  · rw [List.findIdx?_eq_none_iff] at hfind
    simpa using hfind _ hmem
  · obtain ⟨hp, -⟩ := List.findIdx?_eq_some_iff_getElem.1 hfind
    rw [List.length_map] at hp
    exact ⟨p, hp, rfl⟩

/-- An id finds an added quest only if it is the quest's own, and was free. -/
theorem findIdx?_eq_iff (hids : quests.map Quest.id = before.map Quest.id ++ nextIDs before.length l)
    (hk : k < l) (e : Nat) :
    quests.findIdx? (fun q => q.id = str "q" ++ itoa (before.length + k + 1 : Nat)) =
      some (before.length + e) ↔ e = k ∧ IdFree before k := by
  by_cases hfree : IdFree before k
  · rw [findIdx?_free hids hk hfree, Option.some.injEq]
    constructor
    · intro h
      exact ⟨by omega, hfree⟩
    · rintro ⟨rfl, -⟩
      rfl
  · obtain ⟨p, hp, hfind⟩ := findIdx?_used hids hfree
    rw [hfind, Option.some.injEq]
    constructor
    · intro h
      omega
    · rintro ⟨-, h⟩
      exact absurd h hfree

end Positions

/-! ## The board of a plan -/

theorem mem_wiring {plan : List PlannedQuest} {n l : Nat} {p : GoString × List GoString} :
    p ∈ wiring plan (nextIDs n l) ↔ ∃ j pq, plan[j]? = some pq ∧ j < l ∧ pq.dependsOn ≠ [] ∧
      p = (str "q" ++ itoa (n + j + 1 : Nat), pq.dependsOn.filterMap fun d => (nextIDs n l)[d - 1]?) := by
  unfold wiring
  rw [List.mem_map]
  constructor
  · rintro ⟨⟨pq, x⟩, hmem, rfl⟩
    obtain ⟨hzip, hdeps⟩ := List.mem_filter.1 hmem
    obtain ⟨j, hj⟩ := List.mem_iff_getElem?.1 hzip
    obtain ⟨hpq, hx⟩ := List.getElem?_zip_eq_some.1 hj
    obtain ⟨hjl, rfl⟩ := getElem_nextIDs.1 hx
    exact ⟨j, pq, hpq, hjl, of_decide_eq_true hdeps, rfl⟩
  · rintro ⟨j, pq, hpq, hjl, hdeps, rfl⟩
    refine ⟨(pq, _), List.mem_filter.2 ⟨List.mem_iff_getElem?.2 ⟨j, ?_⟩, decide_eq_true hdeps⟩, rfl⟩
    exact List.getElem?_zip_eq_some.2 ⟨hpq, getElem_nextIDs.2 ⟨hjl, rfl⟩⟩

/-- Of several writes the last one stays. -/
theorem foldl_last {α β : Type} {l : List (α × β)} {init v : β} (hall : ∀ p ∈ l, p.2 = v)
    (hnil : l = [] → init = v) : l.foldl (fun _ p => p.2) init = v := by
  induction l generalizing init with
  | nil => exact hnil rfl
  | cons p l ih =>
    refine ih (fun p' hp' => hall p' (List.mem_cons_of_mem _ hp')) fun _ => ?_
    exact hall p (List.mem_cons_self ..)

section Board

variable {kar : GoString} {before : List Quest} {plan landed : List PlannedQuest}

theorem map_id_boardOfPlan : (boardOfPlan kar before plan landed).map Quest.id =
    before.map Quest.id ++ nextIDs before.length landed.length := by
  unfold boardOfPlan landings
  rw [map_id_wireBoard, List.map_append, map_id_plan _ _ _ _ (length_nextIDs ..)]

theorem length_boardOfPlan :
    (boardOfPlan kar before plan landed).length = before.length + landed.length := by
  unfold boardOfPlan
  rw [length_wireBoard, List.length_append, length_landings]

theorem getElem?_landings {k : Nat} {a : PlannedQuest} (ha : landed[k]? = some a) (n : Nat) :
    (landings kar n landed)[k]? = some (questOfPlan kar [] (a, str "q" ++ itoa (n + k + 1 : Nat))) := by
  unfold landings
  rw [List.getElem?_map]
  have hk := (List.getElem?_eq_some_iff.1 ha).1
  have hzip : (landed.zip (nextIDs n landed.length))[k]? = some (a, str "q" ++ itoa (n + k + 1 : Nat)) :=
    List.getElem?_zip_eq_some.2 ⟨ha, getElem_nextIDs.2 ⟨hk, rfl⟩⟩
  rw [hzip]
  rfl

/-- Without ids a planned quest has no dependencies. -/
theorem dependsOn_questOfPlan_nil (kar : GoString) (p : PlannedQuest × GoString) :
    (questOfPlan kar [] p).dependsOn = [] := by
  unfold questOfPlan
  simp

open Classical in
/-- The quest at index `k` of what has landed gets the dependencies of the plan's quest at that index, read
as positions in what has landed; if its id was in use, it gets none. -/
theorem getElem?_boardOfPlan {k : Nat} {a pq : PlannedQuest} (ha : landed[k]? = some a)
    (hpq : plan[k]? = some pq) :
    (boardOfPlan kar before plan landed)[before.length + k]? =
      some { questOfPlan kar [] (a, str "q" ++ itoa (before.length + k + 1 : Nat)) with
        dependsOn := if IdFree before k then
          pq.dependsOn.filterMap fun d => (nextIDs before.length landed.length)[d - 1]? else [] } := by
  have hk := (List.getElem?_eq_some_iff.1 ha).1
  have hget : (before ++ landings kar before.length landed)[before.length + k]? =
      some (questOfPlan kar [] (a, str "q" ++ itoa (before.length + k + 1 : Nat))) := by
    rw [List.getElem?_append_right (Nat.le_add_right ..), Nat.add_sub_cancel_left]
    exact getElem?_landings ha _
  unfold boardOfPlan
  rw [getElem?_wireBoard _ hget]
  have hids : (before ++ landings kar before.length landed).map Quest.id =
      before.map Quest.id ++ nextIDs before.length landed.length := by
    unfold landings
    rw [List.map_append, map_id_plan _ _ _ _ (length_nextIDs ..)]
  have hentry : ∀ j < landed.length, (before ++ landings kar before.length landed).findIdx?
      (fun q => q.id = str "q" ++ itoa (before.length + j + 1 : Nat)) = some (before.length + k) ↔
        k = j ∧ IdFree before j := fun j hj => findIdx?_eq_iff hids hj k
  refine congrArg some (congrArg (fun deps => { questOfPlan kar [] (a, str "q" ++
    itoa (before.length + k + 1 : Nat)) with dependsOn := deps }) ?_)
  -- of the entries of the wiring, only the quest's own can find it
  refine foldl_last (fun p hp => ?_) fun hnil => ?_
  · obtain ⟨hp, hfinds⟩ := List.mem_filter.1 hp
    obtain ⟨j, pq', hpq', hj, -, rfl⟩ := mem_wiring.1 hp
    obtain ⟨rfl, hfree⟩ := (hentry j hj).1 (of_decide_eq_true hfinds)
    rw [hpq] at hpq'
    cases hpq'
    rw [if_pos hfree]
  · rw [dependsOn_questOfPlan_nil]
    split_ifs with hfree
    · by_cases hdeps : pq.dependsOn = []
      · rw [hdeps]
        rfl
      · have hmem := (@mem_wiring plan before.length landed.length _).2 ⟨k, pq, hpq, hk, hdeps, rfl⟩
        have hfinds := List.filter_eq_nil_iff.1 hnil _ hmem
        exact absurd (decide_eq_true ((hentry k hk).2 ⟨rfl, hfree⟩)) hfinds
    · rfl

end Board

/-! ## Numbers -/

section Numbers

variable {kar : GoString} {all : List (AnsweredQuest × Nat)} {plan : List PlannedQuest} {oks : List Bool}
  {before : List Quest} {m : Mission}

/-- The quests of the answer and those of the plan land together. -/
theorem PlanOf.titles (h : PlanOf all plan) :
    plan.map (fun pq => (pq.title, pq.tool)) = all.map fun s => (s.1.title, s.1.tool) := by
  refine List.ext_getElem? fun k => ?_
  rw [List.getElem?_map, List.getElem?_map]
  rcases hs : all[k]? with _ | s
  · have hk : plan.length ≤ k := by
      rw [h.length]
      exact List.getElem?_eq_none_iff.1 hs
    rw [List.getElem?_eq_none hk]
    rfl
  · obtain ⟨pq, hpq, htitle, htool, -⟩ := h.quests k s hs
    rw [hpq, Option.map_some, Option.map_some, htitle, htool]

theorem PlanOf.accepted (h : PlanOf all plan) (oks : List Bool) :
    (accepted plan oks).map (fun pq => (pq.title, pq.tool)) =
      (Orchestrator.accepted all oks).map fun s => (s.1.title, s.1.tool) := by
  rw [← accepted_map, ← accepted_map, h.titles]

theorem PlanOf.length_accepted (h : PlanOf all plan) (oks : List Bool) :
    (Orchestrator.accepted plan oks).length = (Orchestrator.accepted all oks).length := by
  have hlen := congrArg List.length (h.accepted oks)
  rwa [List.length_map, List.length_map] at hlen

theorem PlanOf.landed (h : PlanOf all plan) {k : Nat} {a : AnsweredQuest × Nat}
    (ha : (Orchestrator.accepted all oks)[k]? = some a) :
    ∃ a', (Orchestrator.accepted plan oks)[k]? = some a' ∧ a'.title = a.1.title ∧ a'.tool = a.1.tool := by
  have hget := congrArg (fun l : List (GoString × GoString) => l[k]?) (h.accepted oks)
  rw [List.getElem?_map, List.getElem?_map, ha, Option.map_some, Option.map_eq_some_iff] at hget
  obtain ⟨a', ha', heq⟩ := hget
  obtain ⟨htitle, htool⟩ := Prod.mk.inj heq
  exact ⟨a', ha', htitle, htool⟩

theorem lands_of_board (h : PlanOf all plan)
    (hm : m.quests = boardOfPlan kar before plan (accepted plan oks)) :
    Lands (accepted all oks) before m := by
  constructor
  · rw [hm, length_boardOfPlan, h.length_accepted]
  · intro k a ha
    obtain ⟨a', ha', htitle, htool⟩ := h.landed ha
    have hk := (List.getElem?_eq_some_iff.1 ha).1
    have hall : k < all.length := hk.trans_le (length_accepted_le ..)
    obtain ⟨pq, hpq, -⟩ := h.quests k _ (List.getElem?_eq_getElem hall)
    rw [hm, getElem?_boardOfPlan ha' hpq]
    exact ⟨_, rfl, htitle, htool⟩

/-- What the dependencies of a quest that has landed find. -/
theorem mem_found (h : PlanOf all plan)
    (hm : m.quests = boardOfPlan kar before plan (accepted plan oks)) {k : Nat} {a s : AnsweredQuest × Nat}
    {q : Quest} (ha : (accepted all oks)[k]? = some a) (hs : all[k]? = some s)
    (hq : m.quests[before.length + k]? = some q) (o : Option Nat) :
    o ∈ q.dependsOn.map (questIdx m) ↔ IdFree before k ∧ ∃ e < (accepted all oks).length,
      NamesPlace (s.1, k) e ∧ o = questIdx m (str "q" ++ itoa (before.length + e + 1 : Nat)) := by
  obtain ⟨a', ha', -⟩ := h.landed ha
  obtain ⟨pq, hpq, -, -, hnumbers⟩ := h.quests k s hs
  rw [hm, getElem?_boardOfPlan ha' hpq] at hq
  cases hq
  have hpos := h.positive pq (List.mem_of_getElem? hpq)
  have hle := length_accepted_le all oks
  rw [List.mem_map]
  dsimp only
  split_ifs with hfree
  · constructor
    · rintro ⟨x, hx, rfl⟩
      obtain ⟨d, hd, hget⟩ := List.mem_filterMap.1 hx
      obtain ⟨hlt, rfl⟩ := getElem_nextIDs.1 hget
      rw [h.length_accepted] at hlt
      have hd' : d - 1 + 1 ∈ pq.dependsOn := by rwa [Nat.sub_add_cancel (hpos d hd)]
      exact ⟨hfree, d - 1, hlt, (hnumbers _ (by omega)).1 hd', rfl⟩
    · rintro ⟨-, e, he, hnames, rfl⟩
      refine ⟨_, List.mem_filterMap.2 ⟨e + 1, (hnumbers e (by omega)).2 hnames, ?_⟩, rfl⟩
      rw [Nat.add_sub_cancel]
      exact getElem_nextIDs.2 ⟨by rwa [h.length_accepted], rfl⟩
  · constructor
    · rintro ⟨x, hx, -⟩
      exact absurd hx List.not_mem_nil
    · rintro ⟨hf, -⟩
      exact absurd hf hfree

theorem dependsAsNamed_of_board (h : PlanOf all plan)
    (hm : m.quests = boardOfPlan kar before plan (accepted plan oks)) :
    DependsAsNamed (accepted all oks) before m ↔ NumbersHold all (accepted all oks) before := by
  have hids : m.quests.map Quest.id =
      before.map Quest.id ++ nextIDs before.length (accepted all oks).length := by
    rw [hm, map_id_boardOfPlan, h.length_accepted]
  have hfind : ∀ e < (accepted all oks).length, ∀ e',
      questIdx m (str "q" ++ itoa (before.length + e + 1 : Nat)) = some (before.length + e') ↔
        e' = e ∧ IdFree before e := fun e he e' => findIdx?_eq_iff hids he e'
  constructor
  · intro hdep k s a e b hs ha hb
    have he := (List.getElem?_eq_some_iff.1 hb).1
    obtain ⟨q, hq, -⟩ := (lands_of_board h hm).quests k a ha
    have hall := hdep k a q ha hq
    simp only [mem_found h hm ha hs hq] at hall
    have hnamed : NamesPlace a b.2 → IdFree before k ∧ IdFree before e ∧ NamesPlace (s.1, k) e := by
      intro hn
      obtain ⟨hfree, e', he', hcode, hfound⟩ := (hall _).2 ⟨e, b, hb, hn, rfl⟩
      obtain ⟨rfl, hfree'⟩ := (hfind e' he' e).1 hfound.symm
      exact ⟨hfree, hfree', hcode⟩
    refine ⟨fun hn => ⟨(hnamed hn).1, (hnamed hn).2.1⟩, fun hfree => ⟨fun hcode => ?_,
      fun hn => (hnamed hn).2.2⟩⟩
    obtain ⟨e', b', hb', hn, hfound⟩ := (hall _).1 ⟨hfree, e, he, hcode, rfl⟩
    obtain ⟨rfl, -⟩ := (hfind e he e').1 hfound
    rw [hb] at hb'
    cases hb'
    exact hn
  · intro hnum k a q ha hq o
    have hk : k < all.length := (List.getElem?_eq_some_iff.1 ha).1.trans_le (length_accepted_le ..)
    have hs := List.getElem?_eq_getElem hk
    rw [mem_found h hm ha hs hq]
    constructor
    · rintro ⟨hfree, e, he, hcode, rfl⟩
      have hb := List.getElem?_eq_getElem he
      have hn := ((hnum k _ a e _ hs ha hb).2 hfree).1 hcode
      exact ⟨e, _, hb, hn, (hfind e he e).2 ⟨rfl, ((hnum k _ a e _ hs ha hb).1 hn).2⟩⟩
    · rintro ⟨e, b, hb, hn, rfl⟩
      have he := (List.getElem?_eq_some_iff.1 hb).1
      obtain ⟨hfree, hfree'⟩ := (hnum k _ a e b hs ha hb).1 hn
      exact ⟨hfree, e, he, ((hnum k _ a e b hs ha hb).2 hfree).2 hn, ((hfind e he e).2 ⟨rfl, hfree'⟩).symm⟩

end Numbers

section Passes

variable {id kar : GoString} {i : Nat} {perm : GoString → GoString → Permission} {approval : Bool}

/-- **Numbers of a plan.** However the planner numbers its quests, and whatever `planQuests` and `AddQuest`
leave out: when the levels begin, each quest that has landed depends on exactly those it names if and only
if no number is read for another one. -/
theorem dependsAsNamed_iff {known : GoString → Bool} {maxQuests : Nat} {answer : List AnsweredQuest}
    {w w' : Pass} {m₁ m' : Mission} {acts : List PassAct} {oks : List Bool}
    (hw : w.thread = ⟨.orchestration, id, kar, i, .plan⟩) (hm : getMission id w.store = some m₁)
    (hrun : runSteps (withHistory (passStep perm approval) noteAdded) (w, [])
      (.own (.reply (planQuests known maxQuests answer)) :: acts) = some (w', oks))
    (hC : StepsMeet (passStep perm approval) PlansBeside w
      (.own (.reply (planQuests known maxQuests answer)) :: acts))
    (hexec : w'.thread.pc = .execute) (hm' : getMission id w'.store = some m') :
    Lands (accepted (survivors known maxQuests answer) oks) m₁.quests m' ∧
      (DependsAsNamed (accepted (survivors known maxQuests answer) oks) m₁.quests m' ↔
        NumbersHold (survivors known maxQuests answer)
          (accepted (survivors known maxQuests answer) oks) m₁.quests) := by
  obtain ⟨⟨w₁, oks₁⟩, hstep, hrest⟩ := runSteps_cons_eq_some.1 hrun
  have hpass : passStep perm approval w (.own (.reply (planQuests known maxQuests answer))) = some w₁ :=
    (withHistory_eq_some.1 hstep).1
  have hC' : StepsMeet (withHistory (passStep perm approval) noteAdded) (fun p act => PlansBeside p.1 act)
      (w₁, oks₁) acts := stepsMeet_withHistory.2 (hC.2 w₁ hpass)
  have hlast := runSteps_invariant_of_meet (fun p act p' h hC hs => putsOn_step h hC hs) hrest hC'
    (putsOn_reply hw hm hstep)
  have hboard : m'.quests = boardOfPlan kar m₁.quests ((planQuests known maxQuests answer).getD [])
      (accepted ((planQuests known maxQuests answer).getD []) oks) := by
    generalize hp : (w', oks) = p at hlast
    cases hlast with
    | settled hpc hboard =>
      obtain ⟨rfl, rfl⟩ := Prod.mk.inj hp
      exact hboard m' hm'
    | closing hpc =>
      obtain ⟨rfl, rfl⟩ := Prod.mk.inj hp
      rw [hexec] at hpc
      cases hpc
    | adding | wiring =>
      obtain ⟨rfl, rfl⟩ := Prod.mk.inj hp
      cases hexec
  have hplan := planOf_planQuests known maxQuests answer
  exact ⟨lands_of_board hplan hboard, dependsAsNamed_of_board hplan hboard⟩

end Passes

/-- Nothing is left out in front of what has landed, and the ids were free: no number is read for another
one. -/
theorem numbersHold_of_unmoved {all landed : List (AnsweredQuest × Nat)} {before : List Quest}
    (hplaces : all.map Prod.snd = List.range all.length) (hlanded : landed <+: all)
    (hfree : ∀ i < landed.length, IdFree before i) : NumbersHold all landed before := by
  obtain ⟨rest, rfl⟩ := hlanded
  have hplace : ∀ {j : Nat} {c : AnsweredQuest × Nat}, (landed ++ rest)[j]? = some c → c.2 = j := by
    intro j c hc
    have hj := congrArg (fun l : List Nat => l[j]?) hplaces
    rw [List.getElem?_map, hc, List.getElem?_range (List.getElem?_eq_some_iff.1 hc).1] at hj
    exact Option.some.inj hj
  have hsame : ∀ {j : Nat} {c : AnsweredQuest × Nat}, landed[j]? = some c →
      (landed ++ rest)[j]? = some c := by
    intro j c hc
    rw [List.getElem?_append_left (List.getElem?_eq_some_iff.1 hc).1]
    exact hc
  intro i s a e b hs ha hb
  obtain rfl : a = s := Option.some.inj ((hsame ha).symm.trans hs)
  obtain rfl : a.2 = i := hplace hs
  obtain rfl : b.2 = e := hplace (hsame hb)
  refine ⟨fun _ => ⟨hfree _ (List.getElem?_eq_some_iff.1 ha).1, hfree _ (List.getElem?_eq_some_iff.1 hb).1⟩,
    fun _ => Iff.rfl⟩

/-! ## An answer with a quest that is left out -/

/-- The calendar is not among the tools. -/
def noCalendar (tool : GoString) : Bool := tool ≠ "calendar.read"

def calendarQuest : AnsweredQuest := ⟨"Read the calendar", "calendar.read", none, []⟩

def fetchQuest : AnsweredQuest := ⟨"Fetch the page", "sandbox.exec", none, []⟩

/-- It depends on the quest of the answer with this number. -/
def answerQuest (d : Int) : AnsweredQuest := ⟨"Answer", "llm.chat", none, [d]⟩

/-- The steps from an answer of the planner to the levels, if one of two quests has dependencies. -/
def answerSteps (answer : List AnsweredQuest) : List PassAct :=
  .own (.reply (planQuests noCalendar 6 answer)) :: List.replicate 6 (.own (.tick 0))

theorem beside_of_planning {w : Pass} (h : w.thread.pc = .plan ∨ w.thread.pc.planning = true)
    (act : ThreadAct) : PlansBeside w (.own act) := by
  intro hexec
  rw [hexec] at h
  rcases h with h | h <;> cases h

/-- The quest that is left out is the last one. -/
theorem dropped_last : ∃ w' m', runSteps (withHistory (passStep (fun _ _ => .allow) false) noteAdded)
    (headOf 0 (missionOf .planning []), []) (answerSteps [fetchQuest, answerQuest 1, calendarQuest]) =
      some (w', [true, true]) ∧ getMission (str "m1") w'.store = some m' ∧
    DependsAsNamed (accepted (survivors noCalendar 6 [fetchQuest, answerQuest 1, calendarQuest])
      [true, true]) [] m' := by
  have hplan : planQuests noCalendar 6 [fetchQuest, answerQuest 1, calendarQuest] =
      some [⟨"Fetch the page", "sandbox.exec", some [], []⟩, ⟨"Answer", "llm.chat", some [], [1]⟩] := rfl
  have hland : survivors noCalendar 6 [fetchQuest, answerQuest 1, calendarQuest] =
      [(fetchQuest, 0), (answerQuest 1, 1)] := rfl
  have hbeside : StepsMeet (passStep (fun _ _ => .allow) false) PlansBeside
      (headOf 0 (missionOf .planning [])) (answerSteps [fetchQuest, answerQuest 1, calendarQuest]) := by
    unfold answerSteps
    rw [hplan]
    refine stepsMeet_cons (beside_of_planning (.inl rfl) _) rfl ?_
    refine stepsMeet_cons (beside_of_planning (.inr rfl) _) rfl ?_
    refine stepsMeet_cons (beside_of_planning (.inr rfl) _) rfl ?_
    refine stepsMeet_cons (beside_of_planning (.inr rfl) _) rfl ?_
    refine stepsMeet_cons (beside_of_planning (.inr rfl) _) rfl ?_
    refine stepsMeet_cons (beside_of_planning (.inr rfl) _) rfl ?_
    exact stepsMeet_cons (beside_of_planning (.inr rfl) _) rfl trivial
  have hrun : ∃ w' m', runSteps (withHistory (passStep (fun _ _ => .allow) false) noteAdded)
      (headOf 0 (missionOf .planning []), []) (answerSteps [fetchQuest, answerQuest 1, calendarQuest]) =
        some (w', [true, true]) ∧ w'.thread.pc = .execute ∧ getMission (str "m1") w'.store = some m' := by
    unfold answerSteps
    rw [hplan]
    exact ⟨_, _, rfl, rfl, rfl⟩
  obtain ⟨w', m', hrun, hexec, hm'⟩ := hrun
  refine ⟨w', m', hrun, hm', (dependsAsNamed_iff rfl rfl hrun hbeside hexec hm').2.2 ?_⟩
  rw [hland]
  exact numbersHold_of_unmoved rfl ⟨[], rfl⟩ fun i _ => List.not_mem_nil

/-- The planner's third quest depends on its second one. With the first one left out it depends on
itself. -/
theorem dropped_shifts : ∃ w' m', runSteps (withHistory (passStep (fun _ _ => .allow) false) noteAdded)
    (headOf 0 (missionOf .planning []), []) (answerSteps [calendarQuest, fetchQuest, answerQuest 2]) =
      some (w', [true, true]) ∧ w'.thread.pc = .execute ∧ getMission (str "m1") w'.store = some m' ∧
    m'.quests.map (fun q => (q.id, q.title, q.dependsOn)) =
      [(str "q1", str "Fetch the page", []), (str "q2", str "Answer", [str "q2"])] ∧
    ¬DependsAsNamed (accepted (survivors noCalendar 6 [calendarQuest, fetchQuest, answerQuest 2])
      [true, true]) [] m' := by
  have hplan : planQuests noCalendar 6 [calendarQuest, fetchQuest, answerQuest 2] =
      some [⟨"Fetch the page", "sandbox.exec", some [], []⟩, ⟨"Answer", "llm.chat", some [], [2]⟩] := rfl
  have hland : accepted (survivors noCalendar 6 [calendarQuest, fetchQuest, answerQuest 2]) [true, true] =
      [(fetchQuest, 1), (answerQuest 2, 2)] := rfl
  unfold answerSteps
  rw [hplan, hland]
  refine ⟨_, _, rfl, rfl, rfl, rfl, fun h => ?_⟩
  obtain ⟨e, b, hb, hnames, heq⟩ :=
    (h 1 (answerQuest 2, 2) _ rfl rfl (some 1)).1 (List.mem_singleton.2 rfl)
  have he : e = 1 := by
    rw [List.length_nil, Nat.zero_add] at heq
    exact (Option.some.inj heq).symm
  subst he
  cases hb
  rcases hnames with hmem | ⟨hself, -⟩
  · exact absurd (List.mem_singleton.1 hmem) (by decide)
  · exact hself rfl

end Gafam.Orchestrator
