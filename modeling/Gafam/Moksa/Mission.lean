import Gafam.Go.Text
import Mathlib.Data.List.AList

/-!
# Mission boards and their store

The data of a Mokṣa board: a mission is one user instruction with the list of quests that answer it.
A quest is named by its id; `FindQuest` returns the *first* quest with that id, and the code that
changes a quest does so through the pointer that `FindQuest` returns.
-/

namespace Gafam.Moksa

open Gafam.Go

/-- A decoded JSON value, the type of tool parameters and tool results. -/
inductive Json
  | null
  | bool (b : Bool)
  | num (q : Rat)
  | str (s : GoString)
  | arr (l : List Json)
  | obj (l : List (GoString × Json))

/-- The parameters of a tool call, `none` being the nil map. -/
abbrev Params := Option (List (GoString × Json))

/-- The status of a quest. The board accepts any text from a client, so a text that is none of the
code's own is kept as it is. -/
inductive QuestStatus
  | pending
  | claimed
  | running
  | done
  | failed
  | cancelled
  | waitingApproval
  | skipped
  | other (s : GoString)
deriving DecidableEq

/-- The text of a quest status. -/
def QuestStatus.text : QuestStatus → GoString
  | pending => "pending"
  | claimed => "claimed"
  | running => "running"
  | done => "done"
  | failed => "failed"
  | cancelled => "cancelled"
  | waitingApproval => "waiting_approval"
  | skipped => "skipped"
  | other s => s

/-- The status of a mission. -/
inductive MissionStatus
  | planning
  | active
  | waitingApproval
  | interrupted
  | synthesizing
  | done
  | cancelled
deriving DecidableEq

/-- The text of a mission status. -/
def MissionStatus.text : MissionStatus → GoString
  | planning => "planning"
  | active => "active"
  | waitingApproval => "waiting_approval"
  | interrupted => "interrupted"
  | synthesizing => "synthesizing"
  | done => "done"
  | cancelled => "cancelled"

/-- The verdict of a reward. -/
inductive Verdict
  | done
  | failed
  | needsMore
  | other (s : GoString)
deriving DecidableEq

/-- A quest verdict. -/
structure Reward where
  verdict : Verdict
  score : Rat
  reason : GoString
deriving DecidableEq

/-- The verifier's verdict on a finished mission. -/
structure Judge where
  verdict : GoString
  score : Rat
  rubric : GoString
  reason : GoString
deriving DecidableEq

/-- One cell of the board. -/
structure Quest where
  id : GoString
  title : GoString
  organHint : GoString
  tool : GoString
  params : Params
  dependsOn : List GoString
  status : QuestStatus
  claim : GoString
  eta : Int
  result : Option Json
  error : GoString
  reward : Option Reward

/-- A mission with its board. -/
structure Mission where
  id : GoString
  instruction : GoString
  quests : List Quest
  status : MissionStatus
  mode : GoString
  summary : GoString
  judge : Option Judge
  createdAt : Nat
  updatedAt : Nat

/-- `FindQuest`. -/
def Mission.findQuest (m : Mission) (qid : GoString) : Option Quest :=
  m.quests.find? fun q => q.id = qid

/-- A write through the pointer `FindQuest` returns: the first quest with the id is changed. -/
def updateFirst (qid : GoString) (f : Quest → Quest) : List Quest → List Quest
  | [] => []
  | q :: qs => if q.id = qid then f q :: qs else q :: updateFirst qid f qs

/-- The same on a mission; nothing happens when there is no such quest. -/
def Mission.updateQuest (m : Mission) (qid : GoString) (f : Quest → Quest) : Mission :=
  { m with quests := updateFirst qid f m.quests }

/-- `NextQuestID`. -/
def Mission.nextQuestID (m : Mission) : GoString := "q" ++ itoa (m.quests.length + 1)

/-!
## The mission store

The in-memory store of boards: a map from mission ids to missions and the counter that mission ids
are drawn from. Every change of a stored mission goes through `UpdateMission`.
-/

/-- The store of `moksa/store.go`: the map `missions` and the counter `seq`. -/
structure Store where
  missions : AList fun _ : GoString => Mission
  seq : Nat

/-- `newMissionID`: the id and the advanced counter. Clock readings are milliseconds. -/
def newMissionID (now : Nat) (st : Store) : GoString × Store :=
  ("m" ++ itoa (now / 1000 % 100000 : Nat) ++ "-" ++ itoa (st.seq + 1 : Nat),
    { st with seq := st.seq + 1 })

/-- `SaveMission`. -/
def saveMission (now : Nat) (m : Mission) (st : Store) : Store :=
  { st with missions := st.missions.insert m.id { m with updatedAt := now } }

/-- `GetMission`. -/
def getMission (id : GoString) (st : Store) : Option Mission := st.missions.lookup id

/-- The function that `UpdateMission` runs under the lock. It writes through a pointer, so what it
has written stays written when it then returns an error. -/
abbrev MissionFn := Mission → Mission × Option GoString

/-- `UpdateMission`. -/
def updateMission (now : Nat) (id : GoString) (fn : MissionFn) (st : Store) :
    Except GoString Mission × Store :=
  match st.missions.lookup id with
  | none => (.error ("mission not found: " ++ id), st)
  | some m =>
    match fn m with
    | (m', some e) => (.error e, { st with missions := st.missions.insert id m' })
    | (m', none) =>
      let m' := { m' with updatedAt := now }
      (.ok m', { st with missions := st.missions.insert id m' })

/-- `DeleteMission`. -/
def deleteMission (id : GoString) (st : Store) : Bool × Store :=
  if id ∈ st.missions then (true, { st with missions := st.missions.erase id }) else (false, st)

/-- `CreateEmptyMission`. -/
def createEmptyMission (now : Nat) (instruction : GoString) (st : Store) : Mission × Store :=
  let (id, st) := newMissionID now st
  let m : Mission :=
    { id := id
      instruction := trimSpace instruction
      quests := []
      status := .planning
      mode := []
      summary := []
      judge := none
      createdAt := now
      updatedAt := now }
  (m, saveMission now m st)

end Gafam.Moksa
