import Gafam.Orchestrator.Rerun
import Gafam.Orchestrator.Proofs.EndsProofs

/-!
# What a launch does with a board that is there

A pass of the thread is followed from the planner's answer to the observation. The plan goes behind the
quests of the board, under ids that are new, and then the levels run; how they leave every quest is known
from one run. Each pass leaves a board that the next one can work on.
-/

namespace Gafam.Orchestrator

open Gafam.Go Gafam.Lib Gafam.Moksa

/-! ## The ids of a plan -/

theorem length_nextIDs (n k : Nat) : (nextIDs n k).length = k := by
  unfold nextIDs
  rw [List.length_map, List.length_range]

theorem mem_nextIDs {n k : Nat} {x : GoString} (h : x ∈ nextIDs n k) :
    ∃ i < k, x = str "q" ++ itoa (n + i + 1 : Nat) := by
  obtain ⟨i, hi, rfl⟩ := List.mem_map.1 h
  exact ⟨i, List.mem_range.1 hi, rfl⟩

theorem nextIDs_succ (n k : Nat) :
    nextIDs n (k + 1) = nextIDs n k ++ [str "q" ++ itoa (n + k + 1 : Nat)] := by
  unfold nextIDs
  rw [List.range_succ, List.map_append, List.map_singleton]

theorem nodup_nextIDs (n k : Nat) : (nextIDs n k).Nodup := by
  refine List.Nodup.map ?_ List.nodup_range
  intro i j hij
  have h : n + i = n + j := questID_inj hij
  omega

theorem map_id_plan (karakaID : GoString) (ids ids' : List GoString) (plan : List PlannedQuest)
    (h : ids'.length = plan.length) :
    ((plan.zip ids').map (questOfPlan karakaID ids)).map Quest.id = ids' := by
  rw [List.map_map]
  exact List.map_snd_zip (by omega)

/-- The ids of a board behind which a plan is added. -/
theorem map_id_addPlan (karakaID : GoString) (plan : List PlannedQuest) (quests : List Quest) :
    (addPlan karakaID plan quests).map Quest.id =
      quests.map Quest.id ++ nextIDs quests.length plan.length := by
  unfold addPlan
  dsimp only
  rw [List.map_append, map_id_plan _ _ _ _ (length_nextIDs ..)]

theorem length_addPlan (karakaID : GoString) (plan : List PlannedQuest) (quests : List Quest) :
    (addPlan karakaID plan quests).length = quests.length + plan.length := by
  have h := congrArg List.length (map_id_addPlan karakaID plan quests)
  rw [List.length_map, List.length_append, List.length_map, length_nextIDs] at h
  exact h

theorem Relaunchable.nodup {m : Mission} (h : Relaunchable m) (k : Nat) :
    (m.quests.map Quest.id ++ nextIDs m.quests.length k).Nodup := by
  refine List.nodup_append.2 ⟨h.distinct, nodup_nextIDs _ _, fun x hx y hy hxy => ?_⟩
  obtain ⟨i, -, rfl⟩ := mem_nextIDs hy
  subst hxy
  exact h.fresh _ (by omega) hx

/-- With a plan added, the board takes quests and claims, if the mission does. -/
theorem Relaunchable.addPlan {m m' : Mission} (h : Relaunchable m) {karakaID : GoString}
    {plan : List PlannedQuest} (hq : m'.quests = addPlan karakaID plan m.quests)
    (hst : m'.status ≠ .cancelled) (hdone : m'.status ≠ .done) : Relaunchable m' := by
  refine ⟨hst, fun hd => absurd hd hdone, ?_, fun k hk hmem => ?_⟩
  · unfold IdsDistinct
    rw [hq, map_id_addPlan]
    exact h.nodup _
  · rw [hq, length_addPlan] at hk
    rw [hq, map_id_addPlan] at hmem
    rcases List.mem_append.1 hmem with hmem | hmem
    · exact h.fresh k (by omega) hmem
    · obtain ⟨i, hi, heq⟩ := mem_nextIDs hmem
      have hki : k = m.quests.length + i + 1 := itoa_inj (List.append_cancel_left heq)
      omega

/-! ## Wiring -/

/-- The dependencies that are still to be written. -/
def wirePairs (ids : List GoString) (rest : List (PlannedQuest × GoString)) :
    List (GoString × List GoString) :=
  (rest.filter fun p => p.1.dependsOn ≠ []).map fun p =>
    (p.2, p.1.dependsOn.filterMap fun d => ids[d - 1]?)

theorem wirePairs_nil {ids : List GoString} {rest : List (PlannedQuest × GoString)}
    (h : wirePairs ids rest = []) : ∀ p ∈ rest, p.1.dependsOn = [] := by
  intro p hp
  have hfilter := List.filter_eq_nil_iff.1 (List.map_eq_nil_iff.1 h) p hp
  simpa using hfilter

theorem wirePairs_cons {ids : List GoString} {rest : List (PlannedQuest × GoString)} {x : GoString}
    {deps : List GoString} {todo : List (GoString × List GoString)}
    (h : wirePairs ids rest = (x, deps) :: todo) :
    ∃ skipped p rest', rest = skipped ++ p :: rest' ∧ (∀ p ∈ skipped, p.1.dependsOn = []) ∧
      x = p.2 ∧ deps = (p.1.dependsOn.filterMap fun d => ids[d - 1]?) ∧ todo = wirePairs ids rest' := by
  induction rest with
  | nil => exact nomatch h
  | cons p rest ih =>
    unfold wirePairs at h
    by_cases hp : p.1.dependsOn = []
    · rw [List.filter_cons_of_neg (by simpa using hp)] at h
      obtain ⟨skipped, p', rest', rfl, hskip, htodo⟩ := ih h
      refine ⟨p :: skipped, p', rest', rfl, fun a ha => ?_, htodo⟩
      rcases List.mem_cons.1 ha with rfl | ha
      · exact hp
      · exact hskip a ha
    · rw [List.filter_cons_of_pos (by simpa using hp), List.map_cons] at h
      obtain ⟨hhead, htail⟩ := List.cons.inj h
      obtain ⟨hx, hdeps⟩ := Prod.mk.inj hhead
      exact ⟨[], p, rest, rfl, nofun, hx.symm, hdeps.symm, htail.symm⟩

/-- A planned quest without dependencies is what it will be. -/
theorem questOfPlan_plain {p : PlannedQuest × GoString} (h : p.1.dependsOn = [])
    (karakaID : GoString) (ids : List GoString) :
    questOfPlan karakaID [] p = questOfPlan karakaID ids p := by
  unfold questOfPlan
  rw [h]
  rfl

theorem map_questOfPlan_plain {l : List (PlannedQuest × GoString)}
    (h : ∀ p ∈ l, p.1.dependsOn = []) (karakaID : GoString) (ids : List GoString) :
    l.map (questOfPlan karakaID []) = l.map (questOfPlan karakaID ids) :=
  List.map_congr_left fun p hp => questOfPlan_plain (h p hp) karakaID ids

/-- A write to a quest that is the first of its id. -/
theorem updateFirst_append {x : GoString} {f : Quest → Quest} {l l' : List Quest} {q : Quest}
    (hl : x ∉ l.map Quest.id) (hq : q.id = x) : updateFirst x f (l ++ q :: l') = l ++ f q :: l' := by
  induction l with
  | nil =>
    rw [List.nil_append]
    unfold updateFirst
    rw [if_pos hq]
    rfl
  | cons p l ih =>
    rw [List.map_cons, List.mem_cons, not_or] at hl
    unfold updateFirst
    rw [List.cons_append]
    dsimp only
    rw [if_neg fun h => hl.1 h.symm, ih hl.2]
    rfl

/-! ## One pass -/

theorem updateMission_some (now : Nat) {id : GoString} {fn : MissionFn} {st : Store} {m m' : Mission}
    (hm : getMission id st = some m) (hfn : fn m = (m', none)) :
    ∃ st', updateMission now id fn st = (.ok { m' with updatedAt := now }, st') ∧
      getMission id st' = some { m' with updatedAt := now } := by
  have hl : st.missions.lookup id = some m := hm
  unfold updateMission
  rw [hl]
  dsimp only
  rw [hfn]
  exact ⟨_, rfl, AList.lookup_insert ..⟩

section Keeping

variable {r : Run} {perm : GoString → Permission} {m₀ : Mission} {drops : Prop} {s : Levels}

/-- The invariant of the levels reads nothing of the store but the mission. -/
theorem Kept.elsewhere {st st' : Store} (h : Kept r perm m₀ drops s st)
    (heq : getMission r.missionID st' = getMission r.missionID st) : Kept r perm m₀ drops s st' where
  board := by
    rw [heq]
    exact h.board
  pending := h.pending
  closed := h.closed
  old := h.old
  scanned := h.scanned
  worked := h.worked
  dropping := h.dropping
  ends := h.ends
  returned := by
    rw [heq]
    exact h.returned

/-- What the levels leave of a quest of the board. -/
theorem Returned.reran {m : Mission} (h : Returned r perm m₀ drops s m)
    (hids : IdsDistinct m₀.quests) (hm : ¬ Refuses r m₀) {q : Quest} (hq : q ∈ m₀.quests) :
    ∃ q' ∈ m.quests, q'.id = q.id ∧ Reran perm r.approvalMode m s.log q q' := by
  have hfind := findQuest_of_distinct hids hq
  by_cases hs : Schedulable q
  · have hlook := (lookup_ofBoard hids).2 ⟨hfind, hs⟩
    obtain ⟨f, hf, hplace⟩ := h.places q.id q hlook
    refine ⟨f, List.mem_of_find?_eq_some hf, findQuest_id hf, fun _ hsat hallow htool => ?_,
      fun hex => ?_⟩
    · obtain ⟨e, hturn, -⟩ := h.turn hids hplace hsat
      cases hturn with
      | denied hdeny => rw [hallow] at hdeny; exact nomatch hdeny
      | parked hask => rw [hallow] at hask; exact nomatch hask
      | refused _ hrefuses => exact absurd hrefuses hm
      | completed _ _ ht => exact ht.resolve_left htool
      | failed _ _ ht => exact ht.resolve_left htool
    · by_cases hsat : Satisfied m q
      · obtain ⟨e, hturn, -⟩ := h.turn hids hplace hsat
        cases hturn with
        | denied hdeny hst => exact .inr ⟨hs, .inl ⟨hst, .inl hdeny⟩⟩
        | parked hask hmode hst => exact .inr ⟨hs, .inr (.inl ⟨hst, hask, hmode⟩)⟩
        | refused _ hrefuses => exact absurd hrefuses hm
        | completed _ _ ht => exact .inr ⟨hs, .inr (.inr (ht.resolve_right hex))⟩
        | failed _ _ ht => exact .inr ⟨hs, .inr (.inr (ht.resolve_right hex))⟩
      · rcases h.no_turn hids hplace hsat with hst | ⟨hfq, -⟩
        · exact .inr ⟨hs, .inl ⟨hst, .inr hsat⟩⟩
        · exact .inl hfq
  · have hlook : (Levels.ofBoard m₀.quests).pending.lookup q.id = none := by
      cases hp : (Levels.ofBoard m₀.quests).pending.lookup q.id with
      | none => rfl
      | some p =>
        obtain ⟨hpq, hps⟩ := (lookup_ofBoard hids).1 hp
        rw [hfind] at hpq
        cases hpq
        exact absurd hps hs
    have hsame := (h.rest q.id hlook).trans hfind
    exact ⟨q, List.mem_of_find?_eq_some hsame, rfl, fun h => absurd h hs, fun _ => .inl rfl⟩

end Keeping

section Passes

variable (perm : GoString → GoString → Permission) (approval : Bool) (id kar : GoString)

/-- The thread is in its pass number `i`, which began with the board `m₁` and this answer of the
planner. -/
inductive InPass (i : Nat) (reply : Option (List PlannedQuest)) (m₁ : Mission) (log : List Event) :
    Pass → Prop
  | adding {before todo plan : List PlannedQuest} {st : Store} {m : Mission}
    (hneeds : m₁.quests = [] ∨ 0 < i) (hreply : reply = some plan) (hplan : plan = before ++ todo)
    (htitle : ∀ pq ∈ todo, pq.title ≠ []) (hm : getMission id st = some m)
    (hst : m.status ≠ .cancelled)
    (hq : m.quests = m₁.quests ++
      (before.zip (nextIDs m₁.quests.length before.length)).map (questOfPlan kar [])) :
    InPass i reply m₁ log ⟨⟨.orchestration, id, kar, i,
      .add todo plan (nextIDs m₁.quests.length before.length)⟩, st, log⟩
  | wiring {plan : List PlannedQuest} {before rest : List (PlannedQuest × GoString)} {st : Store}
    {m : Mission} (hneeds : m₁.quests = [] ∨ 0 < i) (hreply : reply = some plan)
    (hzip : plan.zip (nextIDs m₁.quests.length plan.length) = before ++ rest)
    (hm : getMission id st = some m)
    (hq : m.quests = m₁.quests ++
      (before.map (questOfPlan kar (nextIDs m₁.quests.length plan.length)) ++
        rest.map (questOfPlan kar []))) :
    InPass i reply m₁ log ⟨⟨.orchestration, id, kar, i,
      .wire (wirePairs (nextIDs m₁.quests.length plan.length) rest)⟩, st, log⟩
  | activating {plan : List PlannedQuest} {st : Store} {m : Mission}
    (hneeds : m₁.quests = [] ∨ 0 < i) (hreply : reply = some plan) (hm : getMission id st = some m)
    (hq : m.quests = addPlan kar plan m₁.quests) :
    InPass i reply m₁ log ⟨⟨.orchestration, id, kar, i, .activate⟩, st, log⟩
  | executing {st : Store} {m : Mission} (hm : getMission id st = some m)
    (hq : m.quests = boardOfPass ⟨.orchestration, id, kar, i, .plan⟩ reply m₁.quests)
    (hrel : Relaunchable m) (hdone : m.status ≠ .done) :
    InPass i reply m₁ log ⟨⟨.orchestration, id, kar, i, .execute⟩, st, log⟩
  | working {drops : Prop} {s : Levels} {st : Store} {m : Mission}
    (hq : m.quests = boardOfPass ⟨.orchestration, id, kar, i, .plan⟩ reply m₁.quests)
    (hrel : Relaunchable m) (hdone : m.status ≠ .done)
    (hkept : Kept ⟨id, kar, approval⟩ (perm kar) m drops s st) :
    InPass i reply m₁ log ⟨⟨.orchestration, id, kar, i, .levels ⟨id, kar, approval⟩ s⟩, st,
      log ++ s.log⟩
  | observing {es : List Event} {st : Store} {m : Mission} (hm : getMission id st = some m)
    (hrel : Relaunchable m)
    (hids : m.quests.map Quest.id =
      (boardOfPass ⟨.orchestration, id, kar, i, .plan⟩ reply m₁.quests).map Quest.id)
    (hreran : ∀ q ∈ boardOfPass ⟨.orchestration, id, kar, i, .plan⟩ reply m₁.quests,
      ∃ q' ∈ m.quests, q'.id = q.id ∧ Reran (perm kar) approval m es q q') :
    InPass i reply m₁ log ⟨⟨.orchestration, id, kar, i, .observe⟩, st, log ++ es⟩

/-- The thread is at the head of its pass number `i`. -/
structure AtHead (i : Nat) (m : Mission) (w : Pass) : Prop where
  thread : w.thread = ⟨.orchestration, id, kar, i, .plan⟩
  mission : getMission id w.store = some m
  relaunchable : Relaunchable m

/-- The thread comes to no other pass. -/
def ThreadPc.closing : ThreadPc → Bool
  | pause | giveUp | synthesize | report | judge | ended => true
  | _ => false

variable {perm approval id kar} {i : Nat} {reply : Option (List PlannedQuest)} {m₁ : Mission}
  {log : List Event} {known : GoString → Bool} {maxQuests : Nat}

/-- The planner has answered. -/
theorem inPass_of_reply {w w' : Pass} (h : AtHead id kar i m₁ w)
    (hC : ByItself known maxQuests w (.own (.reply reply)))
    (hstep : passStep perm approval w (.own (.reply reply)) = some w') :
    InPass perm approval id kar i reply m₁ w.log w' ∨ w'.thread.pc.closing = true := by
  obtain ⟨t, st, log⟩ := w
  obtain ⟨ht, hm, hrel⟩ := h
  cases ht
  have hm : getMission id st = some m₁ := hm
  simp only [passStep, Thread.step, hm, Option.map_some, Option.some.injEq] at hstep
  subst hstep
  rw [List.append_nil]
  unfold Thread.planned
  dsimp only
  by_cases hneeds : m₁.quests = [] ∨ 0 < i
  · rw [if_pos hneeds]
    have hfailed : (if i = 0 then ThreadPc.giveUp else ThreadPc.synthesize).closing = true := by
      split_ifs <;> rfl
    by_cases hstop : 0 < i ∧ ¬ replannable m₁ = true
    · rw [if_pos hstop]
      exact .inr rfl
    · rw [if_neg hstop]
      cases reply with
      | none => exact .inr hfailed
      | some plan =>
        cases plan with
        | nil => exact .inr hfailed
        | cons pq plan =>
          obtain ⟨answer, hanswer⟩ := hC
          obtain ⟨answer, rfl, hplan⟩ := Option.bind_eq_some_iff.1 hanswer.symm
          have hempty : m₁.quests = m₁.quests ++ ([] : List Quest) := (List.append_nil _).symm
          exact .inl (@InPass.adding perm approval id kar i _ m₁ log [] _ _ st m₁ hneeds rfl rfl
            (planQuests_title hplan) hm hrel.status hempty)
  · rw [if_neg hneeds]
    refine .inl (.executing hm ?_ hrel fun hd => hneeds (.inl (hrel.notDone hd)))
    unfold boardOfPass
    rw [if_neg hneeds]

/-- What others do to the store does not concern the pass. -/
theorem inPass_others {w : Pass} {st : Store} (h : InPass perm approval id kar i reply m₁ log w)
    (heq : getMission id st = getMission id w.store) :
    InPass perm approval id kar i reply m₁ log { w with store := st } := by
  cases h with
  | adding hneeds hreply hplan htitle hm hst hq =>
    exact .adding hneeds hreply hplan htitle (heq.trans hm) hst hq
  | wiring hneeds hreply hzip hm hq => exact .wiring hneeds hreply hzip (heq.trans hm) hq
  | activating hneeds hreply hm hq => exact .activating hneeds hreply (heq.trans hm) hq
  | executing hm hq hrel hdone => exact .executing (heq.trans hm) hq hrel hdone
  | working hq hrel hdone hkept => exact .working hq hrel hdone (hkept.elsewhere heq)
  | observing hm hrel hids hreran => exact .observing (heq.trans hm) hrel hids hreran

/-- `AddQuest` takes the next quest of the plan. -/
theorem inPass_add {before todo plan : List PlannedQuest} {pq : PlannedQuest} {st : Store}
    {m : Mission} {now : Nat} {w' : Pass} (hneeds : m₁.quests = [] ∨ 0 < i)
    (hreply : reply = some plan) (hplan : plan = before ++ pq :: todo)
    (htitle : ∀ p ∈ pq :: todo, p.title ≠ []) (hm : getMission id st = some m)
    (hst : m.status ≠ .cancelled)
    (hq : m.quests = m₁.quests ++
      (before.zip (nextIDs m₁.quests.length before.length)).map (questOfPlan kar []))
    (hstep : passStep perm approval ⟨⟨.orchestration, id, kar, i,
      .add (pq :: todo) plan (nextIDs m₁.quests.length before.length)⟩, st, log⟩ (.own (.tick now)) =
        some w') :
    InPass perm approval id kar i reply m₁ log w' := by
  have hlen : m.quests.length = m₁.quests.length + before.length := by
    rw [hq, List.length_append, List.length_map, List.length_zip, length_nextIDs, Nat.min_self]
  have hadd : addQuest pq.title kar pq.tool pq.params [] 30 m =
      ({ m with
          quests := m.quests ++ [questOfPlan kar [] (pq, str "q" ++
            itoa (m₁.quests.length + before.length + 1 : Nat))] }, none) := by
    unfold addQuest
    rw [if_neg hst, if_neg (htitle pq (List.mem_cons_self ..))]
    unfold Mission.nextQuestID questOfPlan
    rw [hlen]
    simp
  obtain ⟨st', hup, hm'⟩ := updateMission_some now hm hadd
  simp only [passStep, Thread.step, hup, Bool.false_eq_true, false_and, if_false, Option.map_some,
    Option.some.injEq] at hstep
  subst hstep
  rw [List.append_nil, List.getLast?_concat, Option.map_some, Option.toList_some]
  have hids : nextIDs m₁.quests.length before.length ++
      [(questOfPlan kar [] (pq, str "q" ++
        itoa (m₁.quests.length + before.length + 1 : Nat))).id] =
      nextIDs m₁.quests.length (before ++ [pq]).length := by
    rw [List.length_append, List.length_singleton, nextIDs_succ]
    rfl
  rw [hids]
  refine .adding hneeds hreply ?_ (fun p hp => htitle p (List.mem_cons_of_mem _ hp)) hm' hst ?_
  · rw [hplan, List.append_assoc]
    rfl
  · rw [← hids, List.zip_append (length_nextIDs ..).symm, List.map_append]
    dsimp only
    rw [hq, List.append_assoc]
    rfl

/-- The next planned quest with dependencies gets them. -/
theorem inPass_wire {plan : List PlannedQuest} {before rest : List (PlannedQuest × GoString)}
    {x : GoString} {deps : List GoString} {todo : List (GoString × List GoString)} {st : Store}
    {m : Mission} {now : Nat} {w' : Pass}
    (hfresh : (m₁.quests.map Quest.id ++ nextIDs m₁.quests.length plan.length).Nodup)
    (hneeds : m₁.quests = [] ∨ 0 < i) (hreply : reply = some plan)
    (hzip : plan.zip (nextIDs m₁.quests.length plan.length) = before ++ rest)
    (hm : getMission id st = some m)
    (hq : m.quests = m₁.quests ++
      (before.map (questOfPlan kar (nextIDs m₁.quests.length plan.length)) ++
        rest.map (questOfPlan kar [])))
    (htodo : wirePairs (nextIDs m₁.quests.length plan.length) rest = (x, deps) :: todo)
    (hstep : passStep perm approval ⟨⟨.orchestration, id, kar, i, .wire ((x, deps) :: todo)⟩, st, log⟩
      (.own (.tick now)) = some w') :
    InPass perm approval id kar i reply m₁ log w' := by
  obtain ⟨skipped, p, rest', rfl, hskip, rfl, rfl, rfl⟩ := wirePairs_cons htodo
  simp only [passStep, Thread.step, Option.map_some, Option.some.injEq] at hstep
  subst hstep
  rw [List.append_nil]
  generalize hids : nextIDs m₁.quests.length plan.length = ids at *
  obtain ⟨m', hm', -, hq'⟩ := getMission_update_self now
    (wireQuest p.2 (p.1.dependsOn.filterMap fun d => ids[d - 1]?)) hm
  have hzip' : plan.zip ids = (before ++ skipped ++ [p]) ++ rest' := by
    rw [hzip, List.append_assoc, List.append_assoc]
    rfl
  -- in front of the quest nothing has its id
  have hfront : p.2 ∉ (m₁.quests ++ ((before.map (questOfPlan kar ids)) ++
      skipped.map (questOfPlan kar []))).map Quest.id := by
    have hnd := hfresh
    have hsnd : (plan.zip ids).map Prod.snd = ids := by
      refine List.map_snd_zip ?_
      rw [← hids, length_nextIDs]
    rw [← hsnd, hzip, List.map_append, List.map_append, List.map_cons] at hnd
    rw [List.map_append, List.map_append, List.map_map, List.map_map]
    rw [← List.append_assoc, ← List.append_assoc, List.nodup_append] at hnd
    intro hmem
    refine hnd.2.2 p.2 ?_ p.2 (List.mem_cons_self ..) rfl
    rw [List.append_assoc]
    exact hmem
  have hquests : m'.quests = m₁.quests ++
      ((before ++ skipped ++ [p]).map (questOfPlan kar ids) ++ rest'.map (questOfPlan kar [])) := by
    have hsplit : m.quests = (m₁.quests ++ ((before.map (questOfPlan kar ids)) ++
        skipped.map (questOfPlan kar []))) ++ questOfPlan kar [] p ::
          rest'.map (questOfPlan kar []) := by
      rw [hq]
      simp
    rw [hq']
    show updateFirst p.2 _ m.quests = _
    rw [hsplit, updateFirst_append hfront rfl, map_questOfPlan_plain hskip kar ids]
    simp [questOfPlan]
  have hinv := @InPass.wiring perm approval id kar i reply m₁ log plan _ _ _ _ hneeds hreply
    (hids ▸ hzip') hm' (hids ▸ hquests)
  rw [hids] at hinv
  exact hinv

/-- The whole plan is on the board. -/
theorem inPass_addEnd {before plan : List PlannedQuest} {st : Store} {m : Mission} {now : Nat} {w' : Pass}
    (hneeds : m₁.quests = [] ∨ 0 < i) (hreply : reply = some plan) (hplan : plan = before ++ [])
    (hm : getMission id st = some m)
    (hq : m.quests = m₁.quests ++
      (before.zip (nextIDs m₁.quests.length before.length)).map (questOfPlan kar []))
    (hstep : passStep perm approval ⟨⟨.orchestration, id, kar, i,
      .add [] plan (nextIDs m₁.quests.length before.length)⟩, st, log⟩ (.own (.tick now)) = some w') :
    InPass perm approval id kar i reply m₁ log w' := by
  rw [List.append_nil] at hplan
  subst hplan
  simp only [passStep, Thread.step, Bool.false_eq_true, if_false, Option.map_some,
    Option.some.injEq] at hstep
  subst hstep
  rw [List.append_nil]
  exact @InPass.wiring perm approval id kar i reply m₁ log _ [] _ st m hneeds hreply rfl hm hq

/-- All dependencies are written. -/
theorem inPass_wireEnd {plan : List PlannedQuest} {before rest : List (PlannedQuest × GoString)}
    {st : Store} {m : Mission} {now : Nat} {w' : Pass} (hneeds : m₁.quests = [] ∨ 0 < i)
    (hreply : reply = some plan)
    (hzip : plan.zip (nextIDs m₁.quests.length plan.length) = before ++ rest)
    (hm : getMission id st = some m)
    (hq : m.quests = m₁.quests ++
      (before.map (questOfPlan kar (nextIDs m₁.quests.length plan.length)) ++
        rest.map (questOfPlan kar [])))
    (htodo : wirePairs (nextIDs m₁.quests.length plan.length) rest = [])
    (hstep : passStep perm approval ⟨⟨.orchestration, id, kar, i, .wire []⟩, st, log⟩
      (.own (.tick now)) = some w') :
    InPass perm approval id kar i reply m₁ log w' := by
  simp only [passStep, Thread.step, Option.map_some, Option.some.injEq] at hstep
  subst hstep
  rw [List.append_nil]
  refine .activating hneeds hreply hm ?_
  rw [hq, map_questOfPlan_plain (wirePairs_nil htodo) kar
    (nextIDs m₁.quests.length plan.length), ← List.map_append, ← hzip]
  rfl

theorem refuses_iff {m : Mission} {approval : Bool} (hrel : Relaunchable m) (hdone : m.status ≠ .done)
    (hkar : kar ≠ []) : ¬ Refuses ⟨id, kar, approval⟩ m := by
  rintro (h | h | h)
  · exact hrel.status h
  · exact hdone h
  · exact hkar h

/-- The levels change neither the ids nor the status of the mission. -/
theorem Relaunchable.variant {m m' : Mission} (h : Relaunchable m) (hdone : m.status ≠ .done)
    (hv : Variant m m') :
    Relaunchable m' ∧ m'.quests.map Quest.id = m.quests.map Quest.id := by
  have hids : m'.quests.map Quest.id = m.quests.map Quest.id := by
    have hfst := congrArg (List.map Prod.fst) hv.keys
    rw [List.map_map, List.map_map] at hfst
    exact hfst
  have hlen : m'.quests.length = m.quests.length := by
    have h := congrArg List.length hids
    rw [List.length_map, List.length_map] at h
    exact h
  refine ⟨⟨?_, fun hd => absurd (hv.status ▸ hd) hdone, ?_, fun k hk => ?_⟩, hids⟩
  · rw [hv.status]
    exact h.status
  · unfold IdsDistinct
    rw [hids]
    exact h.distinct
  · rw [hids]
    exact h.fresh k (hlen ▸ hk)

/-- A step of the thread in a pass. -/
theorem inPass_own {w w' : Pass} {act : ThreadAct} (hrel₁ : Relaunchable m₁) (hkar : kar ≠ [])
    (h : InPass perm approval id kar i reply m₁ log w) (hC : ByItself known maxQuests w (.own act))
    (hstep : passStep perm approval w (.own act) = some w') :
    InPass perm approval id kar i reply m₁ log w' ∨ (∃ m, AtHead id kar (i + 1) m w') ∨
      w'.thread.pc.closing = true := by
  cases h with
  | @adding before todo plan st m hneeds hreply hplan htitle hm hst hq =>
    left
    cases todo with
    | cons pq todo =>
      cases act with
      | tick now => exact inPass_add hneeds hreply hplan htitle hm hst hq hstep
      | _ => simp [passStep, Thread.step] at hstep
    | nil =>
      cases act with
      | tick now => exact inPass_addEnd hneeds hreply hplan hm hq hstep
      | _ => simp [passStep, Thread.step] at hstep
  | @wiring plan before rest st m hneeds hreply hzip hm hq =>
    left
    generalize htodo : wirePairs (nextIDs m₁.quests.length plan.length) rest = todo at hstep
    cases todo with
    | cons e todo =>
      cases act with
      | tick now => exact inPass_wire (hrel₁.nodup _) hneeds hreply hzip hm hq htodo hstep
      | _ => simp [passStep, Thread.step] at hstep
    | nil =>
      cases act with
      | tick now => exact inPass_wireEnd hneeds hreply hzip hm hq htodo hstep
      | _ => simp [passStep, Thread.step] at hstep
  | @activating plan st m hneeds hreply hm hq =>
    left
    cases act with
    | tick now =>
      simp only [passStep, Thread.step, Option.map_some, Option.some.injEq] at hstep
      subst hstep
      rw [List.append_nil]
      obtain ⟨m', hm', hst', hq'⟩ := getMission_update_self now (setStatus .active) hm
      have hst' : m'.status = .active := hst'
      have hq' : m'.quests = addPlan kar plan m₁.quests := hq'.trans hq
      have hdone : m'.status ≠ .done := by
        rw [hst']
        exact MissionStatus.noConfusion
      refine .executing hm' ?_ (hrel₁.addPlan hq' (by rw [hst']; exact MissionStatus.noConfusion) hdone) hdone
      unfold boardOfPass
      rw [if_pos hneeds, hreply]
      exact hq'
    | _ => simp [passStep, Thread.step] at hstep
  | @executing st m hm hq hrel hdone =>
    left
    cases act with
    | tick now =>
      simp only [passStep, Thread.step, Option.map_some, Option.some.injEq] at hstep
      subst hstep
      have hkept : Kept ⟨id, kar, approval⟩ (perm kar) m False
        (Levels.start ⟨id, kar, approval⟩ st) st := kept_start hrel.distinct hm
      have hinv := @InPass.working perm approval id kar i reply m₁ log _ _ st m hq hrel hdone hkept
      rw [start_log] at hinv
      exact hinv
    | _ => simp [passStep, Thread.step] at hstep
  | @working drops s st m hq hrel hdone hkept =>
    left
    cases act with
    | level a =>
      simp only [passStep, Thread.step] at hstep
      cases hs : Orchestrator.step ⟨id, kar, approval⟩ (s, st) (a.under perm) with
      | none =>
        rw [hs] at hstep
        cases hstep
      | some p =>
        obtain ⟨s', st'⟩ := p
        rw [hs] at hstep
        simp only [Option.map_some, Option.some.injEq] at hstep
        subst hstep
        have hsteady : Steady perm (s, st) (a.under perm) := by
          cases a with
          | head cancelled => exact hC
          | work k host => exact rfl
          | _ => trivial
        obtain ⟨drops', hkept'⟩ :=
          @kept_step _ m perm (s, st) (s', st') _ hrel.distinct ⟨drops, hkept⟩ hsteady hs
        have hlog : log ++ s.log ++ s'.log.drop s.log.length = log ++ s'.log := by
          rcases stepped_log (step_cases hs) with hsame | ⟨e, hnew, -⟩
          · rw [hsame, List.drop_length, List.append_nil]
          · rw [hnew, List.drop_left, List.append_assoc]
        show InPass perm approval id kar i reply m₁ log
          ⟨_, st', log ++ s.log ++ s'.log.drop s.log.length⟩
        rw [hlog]
        exact .working hq hrel hdone hkept'
    | tick now =>
      simp only [passStep, Thread.step] at hstep
      cases hp : s.phase with
      | returned =>
        rw [hp] at hstep
        simp only [Option.map_some, Option.some.injEq] at hstep
        subst hstep
        rw [List.append_nil]
        obtain ⟨m', hm', hret⟩ := hkept.toReturned hp
        obtain ⟨hrel', hids⟩ := hrel.variant hdone hret.variant
        refine .observing hm' hrel' (by rw [hids, hq]) fun q hmem => ?_
        rw [← hq] at hmem
        exact hret.reran hrel.distinct (refuses_iff hrel hdone hkar) hmem
      | _ =>
        rw [hp] at hstep
        cases hstep
    | _ => simp [passStep, Thread.step] at hstep
  | @observing es st m hm hrel hids hreran =>
    right
    cases act with
    | tick now =>
      simp only [passStep, Thread.step, Bool.false_eq_true, if_false, hm, Option.map_some,
        Option.some.injEq] at hstep
      subst hstep
      unfold observeMission
      dsimp only
      split_ifs
      · exact .inr rfl
      · exact .inr rfl
      · exact .inr rfl
      · exact .inl ⟨m, rfl, hm, hrel⟩
      · exact .inr rfl
    | _ => simp [passStep, Thread.step] at hstep

/-! ## The whole run -/

variable (perm approval id kar)

/-- The thread is in its pass number `i`, or at the head of it. -/
def Underway (i : Nat) (w : Pass) : Prop :=
  (∃ m, AtHead id kar i m w) ∨
    ∃ reply m log, Relaunchable m ∧ InPass perm approval id kar i reply m log w

/-- The thread has left the pass number `i` behind. -/
def Past (i : Nat) (w : Pass) : Prop :=
  w.thread.pc.closing = true ∨ ∃ j, i < j ∧ Underway perm approval id kar j w

variable {perm approval id kar}

theorem InPass.missionID {w : Pass} (h : InPass perm approval id kar i reply m₁ log w) :
    w.thread.missionID = id := by
  cases h <;> rfl

theorem InPass.iteration {w : Pass} (h : InPass perm approval id kar i reply m₁ log w) :
    w.thread.iteration = i := by
  cases h <;> rfl

theorem Underway.iteration {w : Pass} (h : Underway perm approval id kar i w) :
    w.thread.iteration = i := by
  rcases h with ⟨m, h⟩ | ⟨reply, m, log, -, h⟩
  · rw [h.thread]
  · exact h.iteration

/-- A thread that is done with its passes starts no new one. -/
theorem closing_step {w w' : Pass} {act : PassAct} (h : w.thread.pc.closing = true)
    (hstep : passStep perm approval w act = some w') : w'.thread.pc.closing = true := by
  cases act with
  | others st =>
    cases hstep
    exact h
  | own act =>
    obtain ⟨⟨kind, id, kar, i, pc⟩, st, log⟩ := w
    cases pc with
    | judge =>
      cases act with
      | verdict now j =>
        cases j <;>
          (simp only [passStep, Thread.step, Option.map_some, Option.some.injEq] at hstep
           subst hstep
           rfl)
      | _ => simp [passStep, Thread.step] at hstep
    | pause | giveUp | synthesize | report | ended =>
      cases act <;>
        first
          | (simp [passStep, Thread.step] at hstep; done)
          | (simp only [passStep, Thread.step, Option.map_some, Option.some.injEq] at hstep
             subst hstep
             rfl)
    | _ => cases h

theorem inPass_step {w w' : Pass} {act : PassAct} (hrel : Relaunchable m₁) (hkar : kar ≠ [])
    (h : InPass perm approval id kar i reply m₁ log w) (hC : ByItself known maxQuests w act)
    (hstep : passStep perm approval w act = some w') :
    InPass perm approval id kar i reply m₁ log w' ∨ Past perm approval id kar i w' := by
  cases act with
  | own act =>
    rcases inPass_own hrel hkar h hC hstep with h | ⟨m, h⟩ | h
    · exact .inl h
    · exact .inr (.inr ⟨i + 1, Nat.lt_succ_self i, .inl ⟨m, h⟩⟩)
    · exact .inr (.inl h)
  | others st =>
    cases hstep
    have heq : getMission id st = getMission id w.store := by
      rw [← h.missionID]
      exact hC
    exact .inl (inPass_others h heq)

theorem atHead_step {w w' : Pass} {act : PassAct} (h : AtHead id kar i m₁ w)
    (hC : ByItself known maxQuests w act) (hstep : passStep perm approval w act = some w') :
    AtHead id kar i m₁ w' ∨ w'.thread.pc.closing = true ∨
      ∃ reply, InPass perm approval id kar i reply m₁ w.log w' := by
  cases act with
  | others st =>
    cases hstep
    have heq : getMission w.thread.missionID st = getMission w.thread.missionID w.store := hC
    rw [h.thread] at heq
    exact .inl ⟨h.thread, heq.trans h.mission, h.relaunchable⟩
  | own act =>
    cases act with
    | reply reply =>
      rcases inPass_of_reply h hC hstep with h | h
      · exact .inr (.inr ⟨reply, h⟩)
      · exact .inr (.inl h)
    | _ => simp [passStep, Thread.step, h.thread] at hstep

/-- A step of a thread that goes from pass to pass. -/
theorem underway_step {w w' : Pass} {act : PassAct} (hkar : kar ≠ [])
    (h : Underway perm approval id kar i w) (hC : ByItself known maxQuests w act)
    (hstep : passStep perm approval w act = some w') :
    Underway perm approval id kar i w' ∨ Past perm approval id kar i w' := by
  rcases h with ⟨m, h⟩ | ⟨reply, m, log, hrel, h⟩
  · rcases atHead_step h hC hstep with h' | h' | ⟨reply, h'⟩
    · exact .inl (.inl ⟨m, h'⟩)
    · exact .inr (.inl h')
    · exact .inl (.inr ⟨reply, m, w.log, h.relaunchable, h'⟩)
  · rcases inPass_step hrel hkar h hC hstep with h' | h'
    · exact .inl (.inr ⟨reply, m, log, hrel, h'⟩)
    · exact .inr h'

theorem past_step {w w' : Pass} {act : PassAct} (hkar : kar ≠ [])
    (h : Past perm approval id kar i w) (hC : ByItself known maxQuests w act)
    (hstep : passStep perm approval w act = some w') : Past perm approval id kar i w' := by
  rcases h with h | ⟨j, hj, h⟩
  · exact .inl (closing_step h hstep)
  · rcases underway_step hkar h hC hstep with h' | h' | ⟨k, hk, h'⟩
    · exact .inr ⟨j, hj, h'⟩
    · exact .inl h'
    · exact .inr ⟨k, Nat.lt_trans hj hk, h'⟩

/-- What a run of the thread keeps from its start on. -/
theorem run_underway {w w' : Pass} {acts : List PassAct} (hkar : kar ≠ [])
    (h : Underway perm approval id kar i w)
    (hrun : runSteps (passStep perm approval) w acts = some w')
    (hC : StepsMeet (passStep perm approval) (ByItself known maxQuests) w acts) :
    Underway perm approval id kar i w' ∨ Past perm approval id kar i w' := by
  refine runSteps_invariant_of_meet (P := fun w => Underway perm approval id kar i w ∨
    Past perm approval id kar i w) (fun w act w' h hC hstep => ?_) hrun hC (.inl h)
  rcases h with h | h
  · exact underway_step hkar h hC hstep
  · exact .inr (past_step hkar h hC hstep)

/-- What it keeps in a pass. -/
theorem run_inPass {w w' : Pass} {acts : List PassAct} (hkar : kar ≠ []) (hrel : Relaunchable m₁)
    (h : InPass perm approval id kar i reply m₁ log w ∨ Past perm approval id kar i w)
    (hrun : runSteps (passStep perm approval) w acts = some w')
    (hC : StepsMeet (passStep perm approval) (ByItself known maxQuests) w acts) :
    InPass perm approval id kar i reply m₁ log w' ∨ Past perm approval id kar i w' := by
  refine runSteps_invariant_of_meet (P := fun w => InPass perm approval id kar i reply m₁ log w ∨
    Past perm approval id kar i w) (fun w act w' h hC hstep => ?_) hrun hC h
  rcases h with h | h
  · exact inPass_step hrel hkar h hC hstep
  · exact .inr (past_step hkar h hC hstep)

/-- A thread at the head of a pass is in no other one. -/
theorem atHead_of_underway {w : Pass} (h : Underway perm approval id kar i w)
    (hpc : w.thread.pc = .plan) : ∃ m, AtHead id kar i m w := by
  rcases h with h | ⟨reply, m, log, -, h⟩
  · exact h
  · cases h <;> exact nomatch hpc

end Passes

/-- The thread that a launch by the id of a mission starts. -/
theorem launched_thread {sys : System} {now : Nat} {req : RunRequest} {t : Thread} {m : Mission}
    (hid : req.missionID ≠ []) (hmode : req.mode ≠ "research")
    (hm : getMission req.missionID sys.store = some m)
    (hlaunch : (orchestratorRun now req sys).threads = sys.threads ++ [t]) :
    ∃ kar, kar ≠ [] ∧ t = ⟨.orchestration, req.missionID, kar, 0, .plan⟩ := by
  have hsame : sys.threads ≠ sys.threads ++ [t] := by
    intro h
    exact List.cons_ne_nil t [] (List.self_eq_append_right.1 h)
  unfold orchestratorRun at hlaunch
  dsimp only at hlaunch
  rw [hm, if_pos hid] at hlaunch
  unfold launchOrchestration at hlaunch
  dsimp only at hlaunch
  rw [if_neg hmode] at hlaunch
  by_cases hbad : req.mode ≠ [] ∧ req.mode ≠ "action" ∧ req.mode ≠ "research"
  · rw [if_pos hbad] at hlaunch
    exact absurd hlaunch hsame
  · rw [if_neg hbad] at hlaunch
    by_cases hbusy : sys.busy = true
    · rw [if_pos hbusy] at hlaunch
      exact absurd hlaunch hsame
    · rw [if_neg hbusy] at hlaunch
      have ht := (List.cons.inj (List.append_cancel_left hlaunch)).1
      refine ⟨_, ?_, ht.symm⟩
      split_ifs with hkar
      · decide
      · exact hkar

/-- **A board that is launched again.** -/
theorem relaunched {sys : System} {now : Nat} {req : RunRequest} {t : Thread} {m₀ : Mission}
    {known : GoString → Bool} {maxQuests : Nat} {acts acts' : List PassAct}
    {reply : Option (List PlannedQuest)} {w w' : Pass} (hid : req.missionID ≠ [])
    (hmode : req.mode ≠ "research")
    (hlaunch : (orchestratorRun now req sys).threads = sys.threads ++ [t])
    (hm₀ : getMission req.missionID sys.store = some m₀) (hrel : Relaunchable m₀)
    (hrun : runSteps (passStep sys.perm req.requireApproval) ⟨t, sys.store, []⟩ acts = some w)
    (hC : StepsMeet (passStep sys.perm req.requireApproval) (ByItself known maxQuests)
      ⟨t, sys.store, []⟩ acts)
    (hplan : w.thread.pc = .plan)
    (hrun' : runSteps (passStep sys.perm req.requireApproval) w (.own (.reply reply) :: acts') =
      some w')
    (hC' : StepsMeet (passStep sys.perm req.requireApproval) (ByItself known maxQuests) w
      (.own (.reply reply) :: acts'))
    (hpass : w'.thread.iteration = w.thread.iteration) :
    ∃ m, getMission req.missionID w.store = some m ∧
      (w'.thread.pc = .execute → ∃ m', getMission req.missionID w'.store = some m' ∧
        m'.quests = boardOfPass w.thread reply m.quests) ∧
      (w'.thread.pc = .observe → ∃ m' log, getMission req.missionID w'.store = some m' ∧
        w'.log = w.log ++ log ∧
        m'.quests.map Quest.id = (boardOfPass w.thread reply m.quests).map Quest.id ∧
        ∀ q ∈ boardOfPass w.thread reply m.quests, ∃ q' ∈ m'.quests, q'.id = q.id ∧
          Reran (sys.perm t.karakaID) req.requireApproval m' log q q') := by
  obtain ⟨kar, hkar, rfl⟩ := launched_thread hid hmode hm₀ hlaunch
  have hstart : Underway sys.perm req.requireApproval req.missionID kar 0
      ⟨⟨.orchestration, req.missionID, kar, 0, .plan⟩, sys.store, []⟩ := .inl ⟨m₀, rfl, hm₀, hrel⟩
  have hunderway : ∃ i, Underway sys.perm req.requireApproval req.missionID kar i w := by
    rcases run_underway hkar hstart hrun hC with h | h | ⟨j, -, h⟩
    · exact ⟨0, h⟩
    · rw [hplan] at h
      exact nomatch h
    · exact ⟨j, h⟩
  obtain ⟨i, hunderway⟩ := hunderway
  obtain ⟨m, hhead⟩ := atHead_of_underway hunderway hplan
  obtain ⟨w₁, hstep, hrest⟩ := runSteps_cons_eq_some.1 hrun'
  have hi : w'.thread.iteration = i := hpass.trans hunderway.iteration
  have hthread := hhead.thread
  refine ⟨m, hhead.mission, ?_⟩
  rw [hthread]
  have hfirst := (inPass_of_reply hhead hC'.1 hstep).imp_right fun h =>
    (.inl h : Past sys.perm req.requireApproval req.missionID kar i w₁)
  rcases run_inPass hkar hhead.relaunchable hfirst hrest (hC'.2 w₁ hstep) with h | h | ⟨j, hj, h⟩
  · generalize w.log = log at h ⊢
    cases h with
    | executing hm' hq => exact ⟨fun _ => ⟨_, hm', hq⟩, nofun⟩
    | observing hm' _ hids hreran => exact ⟨nofun, fun _ => ⟨_, _, hm', rfl, hids, hreran⟩⟩
    | _ => exact ⟨nofun, nofun⟩
  · constructor
    · intro hpc
      rw [hpc] at h
      exact nomatch h
    · intro hpc
      rw [hpc] at h
      exact nomatch h
  · exact absurd (h.iteration.symm.trans hi) (Nat.ne_of_gt hj)

/-! ## Boards that can be launched again, and others -/

/-- A board that the relay has numbered itself. -/
theorem relaunchable_of_numbered {m : Mission} (h : Numbered m.quests) (hst : m.status ≠ .cancelled)
    (hdone : m.status = .done → m.quests = []) : Relaunchable m := by
  refine ⟨hst, hdone, numbered_distinct h, fun k hk hmem => ?_⟩
  rw [h] at hmem
  obtain ⟨i, hi, heq⟩ := List.mem_map.1 hmem
  have hlt : i < m.quests.length := List.mem_range.1 hi
  have hki : i + 1 = k := itoa_inj (List.append_cancel_left heq)
  omega

/-- Acts that meet the condition of a watched thread in every state. -/
def ThreadAct.plain : ThreadAct → Bool
  | .reply plan => plan.isNone
  | .level (.head cancelled) => !cancelled
  | _ => true

theorem byItself_of_plain {perm : GoString → GoString → Permission} {approval : Bool}
    {known : GoString → Bool} {maxQuests : Nat} {acts : List ThreadAct}
    (h : ∀ a ∈ acts, a.plain = true ∨
      ∃ answer : Option (List AnsweredQuest), a = .reply (answer.bind (planQuests known maxQuests)))
    (w : Pass) :
    StepsMeet (passStep perm approval) (ByItself known maxQuests) w (acts.map .own) := by
  refine stepsMeet_of_forall (fun b hb w => ?_) w
  obtain ⟨a, ha, rfl⟩ := List.mem_map.1 hb
  rcases h a ha with hplain | ⟨answer, rfl⟩
  · cases a with
    | reply reply =>
      cases reply with
      | none => exact ⟨none, rfl⟩
      | some plan => exact nomatch hplain
    | level a =>
      cases a with
      | head cancelled =>
        cases cancelled with
        | true => exact nomatch hplain
        | false => exact rfl
      | _ => trivial
    | _ => trivial
  · exact ⟨answer, rfl⟩

/-- The launch of the mission `m1`. -/
def againRequest (mode : GoString) (approval : Bool) : RunRequest := ⟨[], "m1", [], mode, approval⟩

/-- A relay with this mission alone, and a table that says the same of every tool. -/
def relayOf (perm : Permission) (m : Mission) : System :=
  System.boot (storeOf m) ∅ fun _ _ => perm

/-- The thread that works on it. -/
def threadOf (pc : ThreadPc) : Thread := ⟨.orchestration, "m1", "suparna_vpc", 0, pc⟩

/-- The steps of a quest, worked off by one goroutine that makes `n` steps. -/
def workQuest (x : GoString) (perm : Permission) (n : Nat) : List ThreadAct :=
  [.level (.head false), .level (.visit x 0), .level .endScan] ++
    List.replicate n (.level (.work 0 (boardHost perm))) ++ [.level .join, .level (.head false)]

/-- The steps of a pass after the planner's answer: the levels start, `acts` are the steps of their
rounds, and the thread observes. -/
def passActs (acts : List ThreadAct) : List ThreadAct :=
  [.tick 0] ++ acts ++ [.tick 0]

/-- A quest that has failed. -/
def failedQuest : Quest :=
  { boardQuest "q1" [] with status := .failed, error := "asleep" }

/-- A board that a restart has interrupted. -/
def interruptedBoard : Mission := missionOf .interrupted [failedQuest]

theorem relaunched_interrupted :
    ∃ w m' log, runSteps (passStep (fun _ _ => .allow) false)
        ⟨threadOf .plan, storeOf interruptedBoard, []⟩
        (.own (.reply none) :: (passActs (workQuest "q1" .allow 8)).map .own) = some w ∧
      getMission (str "m1") w.store = some m' ∧ w.log = log ∧
      ∀ q ∈ interruptedBoard.quests, ∃ q' ∈ m'.quests, q'.id = q.id ∧
        Reran (fun _ => .allow) false m' log q q' := by
  have hrel : Relaunchable interruptedBoard := relaunchable_of_numbered rfl nofun nofun
  have hC : StepsMeet (passStep (fun _ _ => .allow) false) (ByItself (fun _ => true) 6)
      ⟨threadOf .plan, storeOf interruptedBoard, []⟩
      ((.reply none :: passActs (workQuest "q1" .allow 8)).map .own) := by
    have hall : (.reply none :: passActs (workQuest "q1" .allow 8)).all ThreadAct.plain = true := rfl
    exact byItself_of_plain (fun a ha => .inl (List.all_eq_true.1 hall a ha)) _
  obtain ⟨⟨w, hw⟩⟩ : Nonempty { w // runSteps (passStep (fun _ _ => .allow) false)
        ⟨threadOf .plan, storeOf interruptedBoard, []⟩
        (.own (.reply none) :: (passActs (workQuest "q1" .allow 8)).map .own) = some w ∧
        w.thread.pc = .observe ∧ w.thread.iteration = 0 } := ⟨_, rfl, rfl, rfl⟩
  obtain ⟨m, hm, -, hend⟩ := @relaunched (relayOf .allow interruptedBoard) 0 (againRequest [] false)
    (threadOf .plan) interruptedBoard (fun _ => true) 6 [] _ none _ w (by decide) (by decide) rfl rfl
    hrel rfl trivial rfl hw.1 hC hw.2.2
  cases hm
  obtain ⟨m', log, hm', hlog, -, hreran⟩ := hend hw.2.1
  exact ⟨w, m', log, hw.1, hm', hlog, hreran⟩

/-- After a launch of the mission `m₀` the thread comes to a pass with this plan that works off the board
`m` and leaves `m'`; the events are those of the pass. -/
def PassLeaves (perm : Permission) (approval : Bool) (m₀ : Mission) (plan : List PlannedQuest)
    (m m' : Mission) (log : List Event) : Prop :=
  ∃ known maxQuests acts acts' w w',
    (orchestratorRun 0 (againRequest [] approval) (relayOf perm m₀)).threads = [threadOf .plan] ∧
    runSteps (passStep (fun _ _ => perm) approval) ⟨threadOf .plan, storeOf m₀, []⟩ acts = some w ∧
    StepsMeet (passStep (fun _ _ => perm) approval) (ByItself known maxQuests)
      ⟨threadOf .plan, storeOf m₀, []⟩ acts ∧
    (plan ≠ [] → PassAct.own (.reply (some plan)) ∈ acts) ∧ w.thread.pc = .execute ∧
    getMission (str "m1") w.store = some m ∧
    runSteps (passStep (fun _ _ => perm) approval) w acts' = some w' ∧
    StepsMeet (passStep (fun _ _ => perm) approval) (ByItself known maxQuests) w acts' ∧
    w'.thread.pc = .observe ∧ w'.thread.iteration = w.thread.iteration ∧
    getMission (str "m1") w'.store = some m' ∧ w'.log = w.log ++ log

/-- The first pass, of a board that is not empty. -/
theorem passLeaves_first {perm : Permission} {approval : Bool} {m m' : Mission} {log : List Event}
    {acts : List ThreadAct} {w : Pass}
    (hlaunch : (orchestratorRun 0 (againRequest [] approval) (relayOf perm m)).threads = [threadOf .plan])
    (hm : getMission (str "m1") (storeOf m) = some m)
    (hfirst : passStep (fun _ _ => perm) approval ⟨threadOf .plan, storeOf m, []⟩
      (.own (.reply none)) = some ⟨threadOf .execute, storeOf m, []⟩)
    (hplain : (passActs acts).all ThreadAct.plain = true)
    (hrun : runSteps (passStep (fun _ _ => perm) approval) ⟨threadOf .execute, storeOf m, []⟩
      ((passActs acts).map .own) = some w)
    (hpc : w.thread.pc = .observe) (hit : w.thread.iteration = 0)
    (hm' : getMission (str "m1") w.store = some m') (hlog : w.log = log) :
    PassLeaves perm approval m [] m m' log := by
  refine ⟨fun _ => true, 6, [.own (.reply none)], (passActs acts).map .own,
    ⟨threadOf .execute, storeOf m, []⟩, w, hlaunch, ?_, ⟨⟨none, rfl⟩, fun _ _ => trivial⟩,
    fun h => absurd rfl h, rfl, hm, hrun, ?_, hpc, hit, hm', hlog⟩
  · rw [runSteps_cons_eq_some]
    exact ⟨_, hfirst, rfl⟩
  · exact byItself_of_plain (fun a ha => .inl (List.all_eq_true.1 hplain a ha)) _

theorem not_executed {log : List Event} (h : startedQuests log = []) (x : GoString) :
    ¬ Executed log x := by
  rintro ⟨f, hf, -⟩
  have hmem : f ∈ startedQuests log := List.mem_filterMap.2 ⟨.started f, hf, rfl⟩
  rw [h] at hmem
  exact List.not_mem_nil hmem

/-- A quest that is not executed and whose status changes. -/
theorem not_rerunsAll {perm : GoString → Permission} {plan : List PlannedQuest} {m m' : Mission}
    {log : List Event} {q : Quest} (hlog : startedQuests log = []) (hq : q ∈ m.quests)
    (hst : ∀ q' ∈ m'.quests, q'.id = q.id → q'.status ≠ q.status) :
    ¬ RerunsAll perm plan m m' log := by
  intro h
  obtain ⟨q', hq', hid, hsame, -⟩ := h.kept q hq (not_executed hlog _)
  exact hst q' hq' hid hsame

/-- The mission is done: the failed quest becomes pending, and is not claimed. -/
def overMission : Mission := missionOf .done [failedQuest]

theorem overMission_leaves :
    PassLeaves .allow false overMission [] overMission (missionOf .done [boardQuest "q1" []])
      [.failed "q1"] := by
  have hlaunch : (orchestratorRun 0 (againRequest [] false) (relayOf .allow overMission)).threads =
    [threadOf .plan] := rfl
  have hplain : (passActs (workQuest "q1" .allow 5)).all ThreadAct.plain = true := rfl
  exact passLeaves_first hlaunch rfl rfl hplain rfl rfl rfl rfl rfl

/-- A quest whose tool is denied is cancelled. -/
def openMission : Mission := missionOf .active [boardQuest "q1" []]

theorem openMission_denied :
    PassLeaves .deny false openMission [] openMission
      (missionOf .active [{ boardQuest "q1" [] with
        status := .cancelled
        error := "permission deny: suparna_vpc cannot use sms.history" }]) [.failed "q1"] := by
  have hlaunch : (orchestratorRun 0 (againRequest [] false) (relayOf .deny openMission)).threads =
    [threadOf .plan] := rfl
  have hplain : (passActs (workQuest "q1" .deny 2)).all ThreadAct.plain = true := rfl
  exact passLeaves_first hlaunch rfl rfl hplain rfl rfl rfl rfl rfl

/-- One whose tool asks is parked. -/
theorem openMission_parked :
    PassLeaves .ask true openMission [] openMission
      (missionOf .active [{ boardQuest "q1" [] with status := .waitingApproval }])
      [.parked "q1"] := by
  have hlaunch : (orchestratorRun 0 (againRequest [] true) (relayOf .ask openMission)).threads =
    [threadOf .plan] := rfl
  have hplain : (passActs (workQuest "q1" .ask 2)).all ThreadAct.plain = true := rfl
  exact passLeaves_first hlaunch rfl rfl hplain rfl rfl rfl rfl rfl

/-- One whose dependency is cancelled is cancelled. -/
def doomedMission : Mission :=
  missionOf .active [{ boardQuest "q1" [] with status := .cancelled }, boardQuest "q2" [str "q1"]]

theorem doomedMission_leaves :
    PassLeaves .allow false doomedMission [] doomedMission
      (missionOf .active [{ boardQuest "q1" [] with status := .cancelled },
        { boardQuest "q2" [str "q1"] with
          status := .cancelled
          error := "dependency failed" }]) [] := by
  have hlaunch : (orchestratorRun 0 (againRequest [] false) (relayOf .allow doomedMission)).threads =
    [threadOf .plan] := rfl
  have hplain : (passActs [.level (.head false), .level (.visit "q2" 0), .level .endScan,
    .level .endDrop]).all ThreadAct.plain = true := rfl
  exact passLeaves_first hlaunch rfl rfl hplain rfl rfl rfl rfl rfl

/-- One without a tool fails. -/
def judgeMission : Mission := missionOf .active [{ boardQuest "q1" [] with tool := [] }]

theorem judgeMission_leaves :
    ∃ m', PassLeaves .allow false judgeMission [] judgeMission m' [.failed "q1"] := by
  have hlaunch : (orchestratorRun 0 (againRequest [] false) (relayOf .allow judgeMission)).threads =
    [threadOf .plan] := rfl
  have hplain : (passActs (workQuest "q1" .allow 7)).all ThreadAct.plain = true := rfl
  exact ⟨_, passLeaves_first hlaunch rfl rfl hplain rfl rfl rfl rfl rfl⟩

/-- Two quests have one id: the first one is done, and the second one cannot be claimed. -/
def twinMission : Mission :=
  missionOf .active [{ boardQuest "q1" [] with status := .done }, boardQuest "q1" []]

theorem twinMission_leaves :
    PassLeaves .allow false twinMission [] twinMission twinMission [.failed "q1"] := by
  have hlaunch : (orchestratorRun 0 (againRequest [] false) (relayOf .allow twinMission)).threads =
    [threadOf .plan] := rfl
  have hplain : (passActs (workQuest "q1" .allow 4)).all ThreadAct.plain = true := rfl
  exact passLeaves_first hlaunch rfl rfl hplain rfl rfl rfl rfl rfl

theorem twinMission_wrong (perm : GoString → Permission) (h : ∀ tool, perm tool = .allow) :
    ¬ RerunsAll perm [] twinMission twinMission [.failed "q1"] := by
  intro hall
  have hmem : boardQuest "q1" [] ∈ twinMission.quests :=
    List.mem_cons_of_mem _ (List.mem_singleton_self _)
  exact not_executed rfl _ (hall.executed _ hmem (.inl rfl) nofun (h _))

/-- The planner's answer, and the plan that becomes of it. -/
def answerOne : List AnsweredQuest := [⟨"Read", "sms.history", none, []⟩]

def planOne : List PlannedQuest := [⟨"Read", "sms.history", some [], []⟩]

theorem planQuests_one : planQuests (fun _ => true) 6 answerOne = some planOne := rfl

/-- The steps that put the plan on the board. -/
def planActs : List ThreadAct := [.reply (some planOne), .tick 0, .tick 0, .tick 0, .tick 0]

theorem plain_or_answered {acts : List ThreadAct} (h : acts.all ThreadAct.plain = true) :
    ∀ a ∈ acts ++ planActs, a.plain = true ∨ ∃ answer : Option (List AnsweredQuest),
      a = .reply (answer.bind (planQuests (fun _ => true) 6)) := by
  intro a ha
  rcases List.mem_append.1 ha with ha | ha
  · exact .inl (List.all_eq_true.1 h a ha)
  · rcases List.mem_cons.1 ha with rfl | ha
    · exact .inr ⟨some answerOne, by rw [Option.bind_some, planQuests_one]⟩
    · have hticks : [ThreadAct.tick 0, .tick 0, .tick 0, .tick 0].all ThreadAct.plain = true := rfl
      exact .inl (List.all_eq_true.1 hticks a ha)

/-- Planning has failed before: the mission is cancelled and takes no quests. -/
def cancelledMission : Mission := missionOf .cancelled []

theorem cancelledMission_leaves :
    PassLeaves .allow false cancelledMission planOne (missionOf .active []) (missionOf .active [])
      [] := by
  have hnil : ([] : List ThreadAct).all ThreadAct.plain = true := rfl
  refine ⟨fun _ => true, 6, planActs.map .own, (passActs [.level (.head false)]).map .own, _, _, rfl,
    rfl, ?_, fun _ => List.mem_cons_self .., rfl, rfl, rfl, ?_, rfl, rfl, rfl, rfl⟩
  · exact byItself_of_plain (plain_or_answered hnil) _
  · have hplain : (passActs [.level (.head false)]).all ThreadAct.plain = true := rfl
    exact byItself_of_plain (fun a ha => .inl (List.all_eq_true.1 hplain a ha)) _

theorem cancelledMission_wrong (perm : GoString → Permission) :
    ¬ RerunsAll perm planOne (missionOf .active []) (missionOf .active []) [] := by
  intro h
  obtain ⟨q, hq, -⟩ := h.added _ (List.mem_singleton_self _)
  exact List.not_mem_nil hq

/-- The id of the next quest is on the board, and its quest is done. -/
def clashMission : Mission :=
  missionOf .active
    [{ boardQuest "q3" [] with status := .done }, { boardQuest "q2" [] with status := .claimed }]

/-- The board with the plan of the second pass. -/
def clashMissionNow : Mission :=
  missionOf .active
    [{ boardQuest "q3" [] with status := .done }, { boardQuest "q2" [] with status := .claimed },
      questOfPlan "suparna_vpc" [] (⟨"Read", "sms.history", some [], []⟩, "q3")]

/-- The first pass, which has nothing to do. -/
def idleActs : List ThreadAct := [.reply none] ++ passActs [.level (.head false)] ++ [.tick 0]

theorem clashMission_leaves :
    PassLeaves .allow false clashMission planOne clashMissionNow clashMissionNow [.failed "q3"] := by
  refine ⟨fun _ => true, 6, (idleActs ++ planActs).map .own,
    (passActs (workQuest "q3" .allow 4)).map .own, _, _, rfl, rfl, ?_, fun _ => ?_, rfl, rfl, rfl, ?_,
    rfl, rfl, rfl, rfl⟩
  · have hidle : idleActs.all ThreadAct.plain = true := rfl
    exact byItself_of_plain (plain_or_answered hidle) _
  · exact List.mem_map_of_mem (List.mem_append_right _ (List.mem_cons_self ..))
  · have hplain : (passActs (workQuest "q3" .allow 4)).all ThreadAct.plain = true := rfl
    exact byItself_of_plain (fun a ha => .inl (List.all_eq_true.1 hplain a ha)) _

theorem clashMission_wrong (perm : GoString → Permission) (h : ∀ tool, perm tool = .allow) :
    ¬ RerunsAll perm planOne clashMissionNow clashMissionNow [.failed "q3"] := by
  intro hall
  have hmem : questOfPlan "suparna_vpc" [] (⟨"Read", "sms.history", some [], []⟩, "q3") ∈
      clashMissionNow.quests :=
    List.mem_cons_of_mem _ (List.mem_cons_of_mem _ (List.mem_singleton_self _))
  exact not_executed rfl _ (hall.executed _ hmem (.inl rfl) nofun (h _))

/-- A launch in research mode runs its own seven quests. -/
def researchMission : Mission := missionOf .active [boardQuest "q9" []]

def researchActs : List ThreadAct :=
  List.replicate 10 (.tick 0) ++ [.stage 0 (.error "timeout"), .write 0 []]

theorem researchMission_leaves :
    ∃ t w, (orchestratorRun 0 (againRequest "research" false) (relayOf .allow researchMission)).threads =
        [t] ∧
      runSteps (passStep (fun _ _ => .allow) false) ⟨t, storeOf researchMission, []⟩
        (researchActs.map .own) = some w ∧
      StepsMeet (passStep (fun _ _ => .allow) false) (ByItself (fun _ => true) 6)
        ⟨t, storeOf researchMission, []⟩ (researchActs.map .own) ∧
      w.thread.pc = .ended ∧ ¬ Executed w.log "q9" := by
  refine ⟨_, _, rfl, rfl, ?_, rfl, not_executed rfl _⟩
  have hplain : researchActs.all ThreadAct.plain = true := rfl
  exact byItself_of_plain (fun a ha => .inl (List.all_eq_true.1 hplain a ha)) _

/-- A cancelled mission, one that is done, a denied quest, one that is parked, one that is doomed, one
without a tool, two quests with one id, an id that is given twice, and a launch in research mode. -/
theorem relaunched_otherwise :
    (∃ m m' log, PassLeaves .allow false cancelledMission planOne m m' log ∧
      ¬ RerunsAll (fun _ => .allow) planOne m m' log) ∧
    (∃ m m' log, PassLeaves .allow false overMission [] m m' log ∧
      ¬ RerunsAll (fun _ => .allow) [] m m' log) ∧
    (∃ m m' log, PassLeaves .deny false openMission [] m m' log ∧
      ¬ RerunsAll (fun _ => .deny) [] m m' log) ∧
    (∃ m m' log, PassLeaves .ask true openMission [] m m' log ∧
      ¬ RerunsAll (fun _ => .ask) [] m m' log) ∧
    (∃ m m' log, PassLeaves .allow false doomedMission [] m m' log ∧
      ¬ RerunsAll (fun _ => .allow) [] m m' log) ∧
    (∃ m m' log, PassLeaves .allow false judgeMission [] m m' log ∧
      ¬ RerunsAll (fun _ => .allow) [] m m' log) ∧
    (∃ m m' log, PassLeaves .allow false twinMission [] m m' log ∧
      ¬ RerunsAll (fun _ => .allow) [] m m' log) ∧
    (∃ m m' log, PassLeaves .allow false clashMission planOne m m' log ∧
      ¬ RerunsAll (fun _ => .allow) planOne m m' log) ∧
    ∃ t w, (orchestratorRun 0 (againRequest "research" false) (relayOf .allow researchMission)).threads =
        [t] ∧
      runSteps (passStep (fun _ _ => .allow) false) ⟨t, storeOf researchMission, []⟩
        (researchActs.map .own) = some w ∧
      StepsMeet (passStep (fun _ _ => .allow) false) (ByItself (fun _ => true) 6)
        ⟨t, storeOf researchMission, []⟩ (researchActs.map .own) ∧
      w.thread.pc = .ended ∧ ¬ Executed w.log "q9" := by
  obtain ⟨mj, hj⟩ := judgeMission_leaves
  refine ⟨⟨_, _, _, cancelledMission_leaves, cancelledMission_wrong _⟩,
    ⟨_, _, _, overMission_leaves, ?_⟩, ⟨_, _, _, openMission_denied, ?_⟩,
    ⟨_, _, _, openMission_parked, ?_⟩, ⟨_, _, _, doomedMission_leaves, ?_⟩, ⟨_, _, _, hj, ?_⟩,
    ⟨_, _, _, twinMission_leaves, twinMission_wrong _ fun _ => rfl⟩,
    ⟨_, _, _, clashMission_leaves, clashMission_wrong _ fun _ => rfl⟩, researchMission_leaves⟩
  · refine not_rerunsAll rfl (List.mem_singleton_self _) fun q' hq' _ => ?_
    rw [List.mem_singleton.1 hq']
    exact nofun
  · refine not_rerunsAll rfl (List.mem_singleton_self _) fun q' hq' _ => ?_
    rw [List.mem_singleton.1 hq']
    exact nofun
  · refine not_rerunsAll rfl (List.mem_singleton_self _) fun q' hq' _ => ?_
    rw [List.mem_singleton.1 hq']
    exact nofun
  · refine not_rerunsAll rfl (List.mem_cons_of_mem _ (List.mem_singleton_self _)) fun q' hq' hid => ?_
    rcases List.mem_cons.1 hq' with rfl | hq'
    · exact nomatch hid
    · rw [List.mem_singleton.1 hq']
      exact nofun
  · intro h
    exact not_executed rfl _ (h.executed _ (List.mem_singleton_self _) (.inl rfl) nofun rfl)

end Gafam.Orchestrator
