import Gafam.Moksa.Durability
import Gafam.Moksa.Executor
import Gafam.Moksa.Proofs.DurabilityProofs

/-!
# Calls on a board, and the store that they leave

`UpdateMission` hands the mission of the store to a function and rolls nothing back: what the function has
written before it returns an error stays. Only a call without an error changes the time of the mission
and reaches the hook.
-/

namespace Gafam.Moksa

open Gafam.Go

/-- `UpdateMission` up to its hook, over missions that are named by pointers. A pointer that shows
nothing stops the process. -/
def Durable.updateMission (now : Nat) (id : GoString) (fn : MissionFn) (s : Durable) :
    Option (Except GoString Mission × Durable) :=
  match s.missions.lookup id with
  | none => some (.error ("mission not found: " ++ id), s)
  | some ref =>
    (s.deref ref).map fun m =>
      match fn m with
      | (m', some e) => (.error e, { s with objects := s.objects.set ref m' })
      | (m', none) =>
        let m' := { m' with updatedAt := now }
        (.ok m',
          { s with objects := s.objects.set ref m', hooks := s.hooks ++ [.marshal ref] })

/-- The calls that change one board. -/
inductive BoardCall
  /-- `ClaimQuest`. -/
  | claim (missionID questID karakaID : GoString)
  /-- `RunQuest`, until the tool is called. -/
  | run (missionID questID : GoString)
  /-- `ApplyReward`. -/
  | reward (missionID questID verdict : GoString) (score : Rat) (reason : GoString) (autoAdd : Bool)
  /-- `AddQuest`. -/
  | add (missionID title organHint tool : GoString) (params : Params) (dependsOn : List GoString)
    (eta : Int)
  /-- `ApproveHandler`, once the body is read. -/
  | approve (missionID questID : GoString) (approve : Bool) (reason : GoString)

/-- The call up to its hook; `perm` is `CheckPermission`. -/
def BoardCall.perform (perm : GoString → GoString → Permission) (now : Nat) (s : Durable) :
    BoardCall → Option (Except GoString Mission × Durable)
  | claim missionID questID karakaID => s.updateMission now missionID (claimQuest questID karakaID)
  | run missionID questID => s.updateMission now missionID (runQuestStart perm questID)
  | reward missionID questID verdict score reason autoAdd =>
    match parseVerdict verdict with
    | none => some (.error ("invalid verdict: " ++ trimSpace (toLower verdict)), s)
    | some v => s.updateMission now missionID (applyReward questID v score reason autoAdd)
  | add missionID title organHint tool params dependsOn eta =>
    s.updateMission now missionID (addQuest title organHint tool params dependsOn eta)
  | approve missionID questID ok reason =>
    s.updateMission now missionID (approveQuest questID ok reason)

/-- A call on a board, or the next step of a hook. -/
inductive CallAct
  | call (now : Nat) (c : BoardCall)
  | hook (k : Nat)

/-- One step. -/
def callStep (perm : GoString → GoString → Permission) (s : Durable) : CallAct → Option Durable
  | .call now c => (c.perform perm now s).map Prod.snd
  | .hook k => durableStep s (.hook k)

/-- The act is a call that returns an error. -/
def CallAct.Fails (perm : GoString → GoString → Permission) (s : Durable) : CallAct → Prop
  | .call now c => ∃ e s', c.perform perm now s = some (.error e, s')
  | .hook _ => False

/-- The acts without the calls that return an error. -/
inductive Succeeding (perm : GoString → GoString → Permission) :
    Durable → List CallAct → List CallAct → Prop
  | nil (s : Durable) : Succeeding perm s [] []
  | kept {s s' : Durable} {act : CallAct} {acts rest : List CallAct}
      (hstep : callStep perm s act = some s') (hok : ¬act.Fails perm s)
      (h : Succeeding perm s' acts rest) : Succeeding perm s (act :: acts) (act :: rest)
  | left {s s' : Durable} {act : CallAct} {acts rest : List CallAct}
      (hstep : callStep perm s act = some s') (hfail : act.Fails perm s)
      (h : Succeeding perm s' acts rest) : Succeeding perm s (act :: acts) rest

/-!
## A call that fails leaves the boards as they are

Each function that the calls hand to `UpdateMission` makes all its checks before its first write, so there
is nothing to roll back.
-/

open Gafam.Go Gafam.Lib

variable {perm : GoString → GoString → Permission}

/-! ### The update -/

theorem set_deref {s : Durable} {ref : Nat} {m : Mission} (h : s.deref ref = some m) :
    s.objects.set ref m = s.objects := by
  unfold Durable.deref at h
  obtain ⟨hlt, rfl⟩ := List.getElem?_eq_some_iff.1 h
  exact List.set_getElem_self hlt

/-- The update is the step of the store with its hooks. -/
theorem updateMission_durableStep (now : Nat) (id : GoString) (u : MissionUpdate) (s : Durable) :
    (s.updateMission now id u.fn).map Prod.snd = durableStep s (.update now id u) := by
  simp only [Durable.updateMission, durableStep]
  cases s.missions.lookup id with
  | none => rfl
  | some ref =>
    dsimp only
    rw [Option.map_map]
    congr 1
    funext m
    rcases h : u.fn m with ⟨m', e⟩
    cases e with
    | none => simp [h]
    | some e => simp [h]

/-- The update returns in every store whose pointers show missions. -/
theorem updateMission_returns {s : Durable} (hw : s.WellFormed) (now : Nat) (id : GoString) (fn : MissionFn) :
    ∃ r, s.updateMission now id fn = some r := by
  unfold Durable.updateMission
  cases href : s.missions.lookup id with
  | none => exact ⟨_, rfl⟩
  | some ref =>
    obtain ⟨m, hm, -⟩ := hw id ref href
    exact ⟨_, congrArg (Option.map _) hm⟩

/-- An update by a function that writes nothing before its last check. -/
theorem updateMission_error {s s' : Durable} {now : Nat} {id : GoString} {fn : MissionFn} {e : GoString}
    (hclean : Clean fn) (h : s.updateMission now id fn = some (.error e, s')) : s' = s := by
  unfold Durable.updateMission at h
  cases href : s.missions.lookup id with
  | none =>
    rw [href] at h
    exact (Prod.mk.inj (Option.some.inj h)).2.symm
  | some ref =>
    simp only [href] at h
    obtain ⟨m, hm, h⟩ := Option.map_eq_some_iff.1 h
    rcases hfn : fn m with ⟨m', err⟩
    rw [hfn] at h
    cases err with
    | none => exact absurd (Prod.mk.inj h).1 nofun
    | some err =>
      have hm' : m' = m := by
        have := (hclean m).2 err (by rw [hfn])
        rwa [hfn] at this
      rw [← (Prod.mk.inj h).2, hm', set_deref hm]

/-! ### The calls -/

/-- A call refuses before it takes the lock, or it updates its mission by a function that writes nothing
before its last check. -/
theorem perform_cases (now : Nat) (c : BoardCall) (s : Durable) :
    (∃ e, c.perform perm now s = some (.error e, s)) ∨
      ∃ id fn, Clean fn ∧ c.perform perm now s = s.updateMission now id fn := by
  cases c with
  | claim missionID questID karakaID => exact .inr ⟨_, _, claimQuest_clean questID karakaID, rfl⟩
  | run missionID questID => exact .inr ⟨_, _, runQuestStart_clean questID perm, rfl⟩
  | reward missionID questID verdict score reason autoAdd =>
    simp only [BoardCall.perform]
    cases parseVerdict verdict with
    | none => exact .inl ⟨_, rfl⟩
    | some v => exact .inr ⟨_, _, applyReward_clean questID v score reason autoAdd, rfl⟩
  | add missionID title organHint tool params dependsOn eta =>
    exact .inr ⟨_, _, addQuest_clean title organHint tool params dependsOn eta, rfl⟩
  | approve missionID questID ok reason =>
    exact .inr ⟨_, _, approveQuest_clean questID ok reason, rfl⟩

theorem perform_returns {s : Durable} (hw : s.WellFormed) (now : Nat) (c : BoardCall) :
    ∃ r, c.perform perm now s = some r := by
  rcases @perform_cases perm now c s with ⟨e, he⟩ | ⟨id, fn, -, hfn⟩
  · exact ⟨_, he⟩
  · rw [hfn]
    exact updateMission_returns hw now id fn

theorem perform_error {now : Nat} {c : BoardCall} {s s' : Durable} {e : GoString}
    (h : c.perform perm now s = some (.error e, s')) : s' = s := by
  rcases @perform_cases perm now c s with ⟨e', he⟩ | ⟨id, fn, hclean, hfn⟩
  · rw [he] at h
    exact (Prod.mk.inj (Option.some.inj h)).2.symm
  · rw [hfn] at h
    exact updateMission_error hclean h

/-- A call that returns an error leaves the missions, the rows of the database and the hooks that are to
write as they are. -/
theorem failed_call_unchanged {now : Nat} {c : BoardCall} {s s' : Durable} {e : GoString}
    (h : c.perform perm now s = some (.error e, s')) : s' = s :=
  perform_error h

/-- A board of a mission that is over. -/
def overBoard : Durable where
  objects := [⟨"m1", "look", [], .done, [], [], none, 0, 3⟩]
  missions := AList.insert "m1" 0 ∅
  table := ∅
  hooks := []

theorem claim_over_unchanged :
    ∃ s', (BoardCall.claim "m1" "q1" "shell").perform (fun _ _ => .allow) 9 overBoard =
        some (.error "mission is done", s') ∧
      s' = overBoard :=
  ⟨overBoard, rfl, @failed_call_unchanged (fun _ _ => .allow) 9 (.claim "m1" "q1" "shell") overBoard overBoard
    "mission is done" rfl⟩

/-! ### Runs -/

end Gafam.Moksa
