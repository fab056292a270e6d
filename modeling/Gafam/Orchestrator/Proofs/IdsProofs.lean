import Gafam.Go.Proofs.TextProofs
import Gafam.Orchestrator.Proofs.EffectProofs
import Gafam.Orchestrator.Proofs.OriginProofs

/-!
# When ids are new

The ids of a board stay distinct as long as every id that is given to a new quest is not on the board
yet. Boards without ids from a client are numbered from 1, and there `NextQuestID` always is new.
-/

namespace Gafam.Orchestrator

open Gafam.Go Gafam.Lib Gafam.Moksa

/-! ## Numbered boards -/

theorem questID_inj {i k : Nat} (h : str "q" ++ itoa (i + 1 : Nat) = str "q" ++ itoa (k + 1 : Nat)) :
    i = k := by
  have h1 : i + 1 = k + 1 := itoa_inj (List.append_cancel_left h)
  omega

theorem numbered_distinct {quests : List Quest} (h : Numbered quests) : IdsDistinct quests := by
  unfold IdsDistinct
  rw [h]
  refine List.Nodup.map ?_ List.nodup_range
  intro i k hik
  exact questID_inj hik

theorem numbered_snoc {quests : List Quest} {q : Quest} (h : Numbered quests)
    (hq : q.id = str "q" ++ itoa (quests.length + 1 : Nat)) : Numbered (quests ++ [q]) := by
  unfold Numbered at h ⊢
  rw [List.map_append, h, List.length_append, List.length_singleton, List.range_succ,
    List.map_append, List.map_singleton, List.map_singleton, hq]

/-- `PoseBoard` numbers its quests. -/
theorem poseBoard_numbered (instruction : GoString) : Numbered (poseBoard instruction) := by
  refine poseBoard_induct (P := Numbered) rfl ?_ instruction
  intro p h title organHint tool params dependsOn eta
  exact numbered_snoc h rfl

/-! ## Runs -/

theorem recoverMission_ids (m : Mission) :
    (recoverMission m).quests.map Quest.id = m.quests.map Quest.id := by
  unfold recoverMission
  split_ifs
  · rw [List.map_map]
    refine List.map_congr_left fun q _ => ?_
    dsimp only [Function.comp]
    split_ifs <;> rfl
  · rfl

/-- An operation on a board with distinct ids. -/
theorem effect_idsDistinct {m : Mission} {op : BoardOp} {qs : List Quest} (h : Effect m op qs)
    (hm : IdsDistinct m.quests) (hC : op.AddsFresh m) : IdsDistinct qs := by
  unfold IdsDistinct at hm ⊢
  cases h with
  | touched h =>
    rw [h.ids]
    exact hm
  | added hadd h hid =>
    rw [List.map_append, h.ids, List.map_singleton, hid]
    refine List.nodup_append.2 ⟨hm, List.nodup_singleton _, ?_⟩
    intro x hx y hy hxy
    rw [List.mem_singleton.1 hy] at hxy
    exact hC.1 hadd (hxy ▸ hx)
  | @failed summary err =>
    have h : (m.quests.map (failRunning err)).map Quest.id = m.quests.map Quest.id := by
      rw [List.map_map]
      exact List.map_congr_left fun q _ => failRunning_id err q
    rw [h]
    exact hm
  | filled => exact hC.2 _ rfl

theorem newMission_idsDistinct (now : Nat) (instruction : GoString) (posed : Bool) (st : Store) :
    IdsDistinct (newMission now instruction posed st).quests := by
  cases posed with
  | true => exact numbered_distinct (poseBoard_numbered instruction)
  | false => exact List.nodup_nil

/-- Where the ids are distinct, `FindQuest` finds every quest of the board by its id. -/
theorem findQuest_of_distinct {m : Mission} (h : IdsDistinct m.quests) {q : Quest}
    (hq : q ∈ m.quests) : m.findQuest q.id = some q := by
  have key : ∀ qs : List Quest, (qs.map Quest.id).Nodup → q ∈ qs →
      qs.find? (fun p => p.id = q.id) = some q := by
    intro qs hnd hq
    induction qs with
    | nil => exact nomatch hq
    | cons p qs ih =>
      obtain ⟨hp, hnd⟩ := List.nodup_cons.1 hnd
      rcases List.mem_cons.1 hq with rfl | hq
      · simp
      · have hne : p.id ≠ q.id := by
          intro heq
          exact hp (heq ▸ List.mem_map_of_mem hq)
        simp [hne, ih hnd hq]
  exact key m.quests h hq

/-- One operation of the relay. -/
theorem idsDistinct_apply {b : Boards} {op : StoreOp} (h : AllBoards (fun _ => IdsDistinct) b)
    (hC : AddsFresh b op) : AllBoards (fun _ => IdsDistinct) (op.apply b) := by
  refine allBoards_apply ?_ ?_ ?_ h
  · intro m hm
    unfold IdsDistinct at hm ⊢
    rw [recoverMission_ids]
    exact hm
  · intro now i bop m hop hget hm
    subst hop
    exact effect_idsDistinct (fn_effect bop m) hm (hC m hget)
  · intro now instruction posed _
    exact newMission_idsDistinct now instruction posed b.store

/-- As long as every id that is given out is new, the ids of every board are distinct, and `FindQuest`
finds the quest that is meant. -/
theorem questIds_distinct {perm : GoString → GoString → Permission} {acts : List SysAct}
    {sys : System} (hrun : runSteps sysStep (.boot ⟨∅, 0⟩ ∅ perm) acts = some sys)
    (hC : StepsMeet sysStep (EachOp AddsFresh) (.boot ⟨∅, 0⟩ ∅ perm) acts) {id : GoString}
    {m : Mission} (hm : getMission id sys.store = some m) :
    IdsDistinct m.quests ∧ ∀ q ∈ m.quests, m.findQuest q.id = some q := by
  have hboot : AllBoards (fun _ => IdsDistinct) (System.boot ⟨∅, 0⟩ ∅ perm).boards :=
    ⟨fun _ _ h => (nomatch h), fun _ _ h => (nomatch h)⟩
  have hall := boards_invariant (fun b op => idsDistinct_apply) hrun hC hboot
  have hd : IdsDistinct m.quests := hall.store id m hm
  exact ⟨hd, fun q hq => findQuest_of_distinct hd hq⟩

/-- A client poses one quest with the id `qid`, and then adds another. -/
def poseAndAdd (qid : GoString) : List SysAct :=
  [.create 0 "hi" [boardQuest qid []], .addQuest 0 "m0-1" "more" [] [] none [] 0]

/-- The board with these quests. -/
def clientBoard (quests : List Quest) : Mission :=
  ⟨"m0-1", "hi", quests, .active, [], [], none, 0, 0⟩

/-- The relay with this board. -/
def clientSystem (quests : List Quest) : System :=
  { System.boot ⟨AList.singleton (str "m0-1") (clientBoard quests), 1⟩ ∅ (fun _ _ => .allow) with
    log := [.created "m0-1"] }

/-- The quest that is added. -/
def moreQuest : Quest := { boardQuest "q2" [] with title := "more", tool := [], eta := 10 }

theorem questIds_distinct_q1 :
    IdsDistinct (clientBoard [boardQuest "q1" [], moreQuest]).quests ∧
      ∀ q ∈ (clientBoard [boardQuest "q1" [], moreQuest]).quests,
        (clientBoard [boardQuest "q1" [], moreQuest]).findQuest q.id = some q := by
  have hcreate : sysStep (.boot ⟨∅, 0⟩ ∅ fun _ _ => .allow)
      (.create 0 "hi" [boardQuest "q1" []]) = some (clientSystem [boardQuest "q1" []]) := rfl
  have hadd : sysStep (clientSystem [boardQuest "q1" []])
      (.addQuest 0 "m0-1" "more" [] [] none [] 0) =
        some (clientSystem [boardQuest "q1" [], moreQuest]) := rfl
  have hrun : runSteps sysStep (.boot ⟨∅, 0⟩ ∅ fun _ _ => .allow) (poseAndAdd "q1") =
      some (clientSystem [boardQuest "q1" [], moreQuest]) :=
    runSteps_cons_eq_some.2 ⟨_, hcreate, runSteps_cons_eq_some.2 ⟨_, hadd, rfl⟩⟩
  have hm : getMission "m0-1" (clientSystem [boardQuest "q1" [], moreQuest]).store =
      some (clientBoard [boardQuest "q1" [], moreQuest]) := rfl
  refine questIds_distinct hrun ?_ hm
  refine stepsMeet_cons ?_ hcreate (stepsMeet_cons ?_ hadd trivial)
  · refine ⟨trivial, fun b _ => ⟨fun m _ => ⟨fun h => h.elim, ?_⟩, fun _ _ => trivial⟩⟩
    intro quests h
    cases h
    decide
  · refine ⟨fun m hm => ⟨fun _ => ?_, fun _ h => nomatch h⟩, fun _ _ => trivial⟩
    cases hm
    decide

theorem questIds_twice : ∃ sys m q,
    runSteps sysStep (.boot ⟨∅, 0⟩ ∅ fun _ _ => .allow) (poseAndAdd "q2") = some sys ∧
      getMission "m0-1" sys.store = some m ∧ m.quests.map Quest.id = ["q2", "q2"] ∧
      q ∈ m.quests ∧ q.title = "more" ∧ (m.findQuest q.id).map Quest.title = some (str "q2") := by
  have hcreate : sysStep (.boot ⟨∅, 0⟩ ∅ fun _ _ => .allow)
      (.create 0 "hi" [boardQuest "q2" []]) = some (clientSystem [boardQuest "q2" []]) := rfl
  have hadd : sysStep (clientSystem [boardQuest "q2" []])
      (.addQuest 0 "m0-1" "more" [] [] none [] 0) =
        some (clientSystem [boardQuest "q2" [], moreQuest]) := rfl
  refine ⟨_, _, moreQuest,
    runSteps_cons_eq_some.2 ⟨_, hcreate, runSteps_cons_eq_some.2 ⟨_, hadd, rfl⟩⟩, rfl, rfl, ?_, rfl, rfl⟩
  exact List.mem_cons_of_mem _ (List.mem_cons_self ..)

/-! ## Mission ids -/

theorem missionID_inj {a b n k : Nat} (h : missionID a n = missionID b k) : a = b ∧ n = k := by
  have hsplit : ∀ a n : Nat, missionID a n = str "m" ++ (itoa a ++ 45 :: itoa n) := by
    intro a n
    unfold missionID
    rw [List.append_assoc, List.append_assoc]
    rfl
  rw [hsplit, hsplit] at h
  exact itoa_append_inj (by decide) (List.append_cancel_left h)

/-- Every mission has been loaded by the last restart, or has a number that the counter has passed. -/
def Counted (loaded : List GoString) (b : Boards) : Prop :=
  ∀ i ∈ b.store.missions, i ∈ loaded ∨ ∃ second n, i = missionID second n ∧ n ≤ b.store.seq

theorem counted_apply {loaded : List GoString} {b : Boards} {op : StoreOp} (h : Counted loaded b)
    (hop : op ≠ .reload) : Counted loaded (op.apply b) := by
  intro i hi
  obtain ⟨m, hm⟩ := mem_missions_iff.1 hi
  have hold : i ∈ b.store.missions → i ∈ loaded ∨
      ∃ second n, i = missionID second n ∧ n ≤ (op.apply b).store.seq := by
    intro hi
    rcases h i hi with hi | ⟨second, n, hi, hn⟩
    · exact .inl hi
    · exact .inr ⟨second, n, hi, Nat.le_trans hn (apply_seq hop)⟩
  cases stored_cases hm with
  | kept hm => exact hold (mem_missions_iff.2 ⟨m, hm⟩)
  | updated hm' => exact hold (mem_missions_iff.2 ⟨_, hm'⟩)
  | created heq => exact .inr ⟨_, _, heq, Nat.le_refl _⟩
  | reloaded => exact absurd rfl hop

/-- With the missions counted, a mission created now is new if and only if the survivors of the last
restart do not have its number. -/
theorem createsFresh_iff {loaded : List GoString} {b : Boards} (h : Counted loaded b) (op : StoreOp) :
    CreatesFresh b op ↔ NumbersApart loaded b op := by
  cases op with
  | create now instruction posed =>
    constructor
    · rintro ⟨hnew, -⟩ n - hn heq
      subst heq
      exact hnew hn
    · intro hapart
      have hnew : (newMissionID now b.store).1 ∉ b.store.missions := by
        intro hmem
        rcases h _ hmem with hloaded | ⟨second, n, heq, hn⟩
        · exact hapart _ hloaded hmem rfl
        · have heq' := (missionID_inj heq).2
          omega
      refine ⟨hnew, fun i m hm => ?_⟩
      have hi : i ≠ (newMissionID now b.store).1 := by
        rintro rfl
        exact hnew (mem_missions_iff.2 ⟨m, hm⟩)
      exact (AList.lookup_insert_ne hi).trans hm
  | _ => exact Iff.rfl

/-- The same for all the operations of a step. -/
theorem eachOp_createsFresh_iff {loaded : List GoString} {sys : System} (act : SysAct)
    (h : Counted loaded sys.boards) :
    EachOp CreatesFresh sys act ↔ EachOp (NumbersApart loaded) sys act := by
  by_cases hact : act = .restart
  · subst hact
    exact ⟨fun _ => ⟨trivial, fun _ _ => trivial⟩, fun _ => ⟨trivial, fun _ _ => trivial⟩⟩
  · refine stepsMeet_iff_of_invariant (P := Counted loaded) ?_
      (fun op _ b hb => createsFresh_iff hb op) h
    intro op hop b b' hb hb'
    cases hb'
    refine counted_apply hb ?_
    rintro rfl
    exact reload_notMem_ops hact hop

/-- A step with its history. -/
theorem counted_step {sys sys' : System} {loaded loaded' : List GoString} {act : SysAct}
    (h : Counted loaded sys.boards)
    (hstep : withHistory sysStep noteLoaded (sys, loaded) act = some (sys', loaded')) :
    Counted loaded' sys'.boards := by
  obtain ⟨hsys, hl⟩ := withHistory_eq_some.1 hstep
  have hsys : sysStep sys act = some sys' := hsys
  have hl : loaded' = noteLoaded sys act loaded := hl
  subst hl
  by_cases hact : act = .restart
  · subst hact
    cases hsys
    intro i hi
    refine .inl ?_
    obtain ⟨m, hm⟩ := mem_missions_iff.1 hi
    have hm' : (loadMissions sys.saved).lookup i = some m := hm
    rw [lookup_loadMissions] at hm'
    obtain ⟨m₀, hm₀, -⟩ := Option.map_eq_some_iff.1 hm'
    exact AList.mem_keys.1 (AList.lookup_isSome.1 (by rw [hm₀]; rfl))
  · have hnote : noteLoaded sys act loaded = loaded := by
      unfold noteLoaded
      split
      · exact absurd rfl hact
      · rfl
    rw [hnote, sysStep_ops hsys]
    refine runSteps_invariant_of_meet (P := Counted loaded) (C := fun _ op => op ≠ .reload)
      (fun b op b' hb hop hb' => ?_) (runSteps_boardStep _ _) (stepsMeet_of_forall ?_ _) h
    · cases hb'
      exact counted_apply hb hop
    · rintro op hop - rfl
      exact reload_notMem_ops hact hop

/-- For every set of missions in the database, the creations of a run overwrite no board if and only
if each of them finds the numbers of the loaded missions apart. -/
theorem creations_fresh_iff {saved : AList fun _ : GoString => Mission}
    {perm : GoString → GoString → Permission} {acts : List SysAct} :
    StepsMeet sysStep (EachOp CreatesFresh) (.boot ⟨∅, 0⟩ saved perm) acts ↔
      StepsMeet (withHistory sysStep noteLoaded) (fun p => EachOp (NumbersApart p.2) p.1)
        (.boot ⟨∅, 0⟩ saved perm, []) acts := by
  have hhist : StepsMeet (withHistory sysStep noteLoaded) (fun p a => EachOp CreatesFresh p.1 a)
      (.boot ⟨∅, 0⟩ saved perm, []) acts ↔
        StepsMeet sysStep (EachOp CreatesFresh) (.boot ⟨∅, 0⟩ saved perm) acts :=
    stepsMeet_withHistory
  rw [← hhist]
  refine stepsMeet_iff_of_invariant
    (P := fun p : System × List GoString => Counted p.2 p.1.boards) ?_
    (fun act _ p hp => eachOp_createsFresh_iff act hp) ?_
  · rintro act - ⟨sys, loaded⟩ ⟨sys', loaded'⟩ hp hstep
    exact counted_step hp hstep
  · intro i hi
    exact nomatch hi

/-- A board that a client has posed at the time `now`. -/
def clientMission (id instruction : GoString) (now : Nat) : Mission :=
  ⟨id, instruction, [boardQuest "q1" []], .active, [], [], none, now, now⟩

/-- The relay with these missions. -/
def missionSystem (missions saved : AList fun _ : GoString => Mission) (seq : Nat)
    (log : List SysEvent) : System :=
  { System.boot ⟨missions, seq⟩ saved (fun _ _ => .allow) with log := log }

/-- Two boards, of which the first is deleted before the relay restarts. A hundred thousand seconds
later there is a third. -/
def wrappedRun : List SysAct :=
  [.create 0 "first" [boardQuest "q1" []], .create 0 "second" [boardQuest "q1" []], .persist "m0-2",
    .delete "m0-1", .restart, .create 100000000 "third" [boardQuest "q1" []]]

def firstMission : Mission := clientMission "m0-1" "first" 0

def secondMission : Mission := clientMission "m0-2" "second" 0

def lostMission : Mission := recoverMission secondMission

def thirdMission : Mission := clientMission "m0-2" "third" 100000000

def firstBoard : AList fun _ : GoString => Mission := AList.singleton (str "m0-1") firstMission

def secondBoard : AList fun _ : GoString => Mission := AList.singleton (str "m0-2") secondMission

def lostBoard : AList fun _ : GoString => Mission := AList.singleton (str "m0-2") lostMission

def thirdBoard : AList fun _ : GoString => Mission := AList.singleton (str "m0-2") thirdMission

/-- The first two boards. -/
def twoBoards : AList fun _ : GoString => Mission where
  entries := [⟨str "m0-2", secondMission⟩, ⟨str "m0-1", firstMission⟩]
  nodupKeys := (by decide : List.Nodup [str "m0-2", str "m0-1"])

theorem wrapped_overwrites : ∃ sys sys' m m',
    runSteps sysStep (.boot ⟨∅, 0⟩ ∅ fun _ _ => .allow) (wrappedRun.take 5) = some sys ∧
      runSteps sysStep (.boot ⟨∅, 0⟩ ∅ fun _ _ => .allow) wrappedRun = some sys' ∧
      (newMissionID 100000000 sys.store).1 = str "m0-2" ∧
      getMission "m0-2" sys.store = some m ∧ m.instruction = str "second" ∧
      getMission "m0-2" sys'.store = some m' ∧ m'.instruction = str "third" := by
  have h1 : sysStep (.boot ⟨∅, 0⟩ ∅ fun _ _ => .allow) (.create 0 "first" [boardQuest "q1" []]) =
      some (missionSystem firstBoard ∅ 1 [.created "m0-1"]) := rfl
  have h2 : sysStep (missionSystem firstBoard ∅ 1 [.created "m0-1"])
      (.create 0 "second" [boardQuest "q1" []]) =
        some (missionSystem twoBoards ∅ 2 [.created "m0-1", .created "m0-2"]) := rfl
  have h3 : sysStep (missionSystem twoBoards ∅ 2 [.created "m0-1", .created "m0-2"])
      (.persist "m0-2") =
        some (missionSystem twoBoards secondBoard 2 [.created "m0-1", .created "m0-2"]) := rfl
  have h4 : sysStep (missionSystem twoBoards secondBoard 2 [.created "m0-1", .created "m0-2"])
      (.delete "m0-1") =
        some (missionSystem secondBoard secondBoard 2 [.created "m0-1", .created "m0-2"]) := rfl
  have h5 : sysStep (missionSystem secondBoard secondBoard 2 [.created "m0-1", .created "m0-2"])
      .restart = some (missionSystem lostBoard lostBoard 1 [.created "m0-1", .created "m0-2"]) := rfl
  have h6 : sysStep (missionSystem lostBoard lostBoard 1 [.created "m0-1", .created "m0-2"])
      (.create 100000000 "third" [boardQuest "q1" []]) =
        some (missionSystem thirdBoard lostBoard 2
          [.created "m0-1", .created "m0-2", .created "m0-2"]) := rfl
  have h15 : runSteps sysStep (.boot ⟨∅, 0⟩ ∅ fun _ _ => .allow) (wrappedRun.take 5) =
      some (missionSystem lostBoard lostBoard 1 [.created "m0-1", .created "m0-2"]) :=
    runSteps_cons_eq_some.2 ⟨_, h1, runSteps_cons_eq_some.2 ⟨_, h2, runSteps_cons_eq_some.2
      ⟨_, h3, runSteps_cons_eq_some.2 ⟨_, h4, runSteps_cons_eq_some.2 ⟨_, h5, rfl⟩⟩⟩⟩⟩
  have h16 : runSteps sysStep (.boot ⟨∅, 0⟩ ∅ fun _ _ => .allow) wrappedRun =
      some (missionSystem thirdBoard lostBoard 2
        [.created "m0-1", .created "m0-2", .created "m0-2"]) :=
    runSteps_append_eq_some.2 ⟨_, h15, runSteps_cons_eq_some.2 ⟨_, h6, rfl⟩⟩
  exact ⟨_, _, lostMission, thirdMission, h15, h16, rfl, rfl, rfl, rfl, rfl⟩

end Gafam.Orchestrator
