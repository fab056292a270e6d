import Gafam.Lib.Steps
import Gafam.Moksa.Mission

/-!
# Missions in memory and in the database

`SaveMission`, `UpdateMission` and `DeleteMission` change the store under the lock and call their hook
after they have released it. `PersistHook` marshals the mission that its pointer shows it at that
moment, and writes the row later; the columns beside the data it reads at the time of the write. So
every call has up to three steps, and other calls may come between them.
-/

namespace Gafam.Moksa

open Gafam.Go

/-- A row of `moksa_missions`. The data is the mission as it was marshalled. -/
structure Row where
  status : MissionStatus
  mode : GoString
  instruction : GoString
  updatedAt : Nat
  data : Mission

/-- The row that a write makes of the mission and of its marshalled data. -/
def Row.of (m data : Mission) : Row := ⟨m.status, m.mode, m.instruction, m.updatedAt, data⟩

/-- A function for `UpdateMission` as the code has them: it keeps the id of the mission, and leaves the
mission as it is when it fails. -/
def Clean (fn : MissionFn) : Prop :=
  ∀ m, (fn m).1.id = m.id ∧ ∀ e, (fn m).2 = some e → (fn m).1 = m

/-- A function for `UpdateMission`. -/
structure MissionUpdate where
  fn : MissionFn
  clean : Clean fn

/-- What is left of a call after its step under the lock. A mission is named by a pointer. -/
inductive Hook
  /-- Before `json.Marshal`. -/
  | marshal (ref : Nat)
  /-- Before the `INSERT`, with the marshalled data. -/
  | write (ref : Nat) (data : Mission)
  /-- Before the `DELETE`. -/
  | erase (id : GoString)

/-- The missions in memory, the rows of the database, and the calls that have not returned. -/
structure Durable where
  objects : List Mission
  missions : AList fun _ : GoString => Nat
  table : AList fun _ : GoString => Row
  hooks : List Hook

/-- The mission that a pointer shows. -/
def Durable.deref (s : Durable) (ref : Nat) : Option Mission := s.objects[ref]?

/-- The mission in the store. -/
def Durable.current (s : Durable) (id : GoString) : Option Mission :=
  (s.missions.lookup id).bind s.deref

/-- What can happen. -/
inductive DurableAct
  /-- The step of `SaveMission` under the lock. -/
  | save (now : Nat) (m : Mission)
  /-- The step of `UpdateMission` under the lock. -/
  | update (now : Nat) (id : GoString) (u : MissionUpdate)
  /-- The step of `DeleteMission` under the lock. -/
  | delete (id : GoString)
  /-- The next step of a hook. -/
  | hook (k : Nat)

/-- One step. -/
def durableStep (s : Durable) : DurableAct → Option Durable
  | .save now m =>
    some { s with
      objects := s.objects ++ [{ m with updatedAt := now }]
      missions := s.missions.insert m.id s.objects.length
      hooks := s.hooks ++ [.marshal s.objects.length] }
  | .update now id u =>
    match s.missions.lookup id with
    | none => some s
    | some ref =>
      (s.deref ref).map fun m =>
        match u.fn m with
        | (m', some _) => { s with objects := s.objects.set ref m' }
        | (m', none) =>
          { s with
            objects := s.objects.set ref { m' with updatedAt := now }
            hooks := s.hooks ++ [.marshal ref] }
  | .delete id =>
    some <|
      if id ∈ s.missions then
        { s with missions := s.missions.erase id, hooks := s.hooks ++ [.erase id] }
      else s
  | .hook k =>
    match s.hooks[k]? with
    | none => none
    | some (.marshal ref) =>
      (s.deref ref).map fun m => { s with hooks := s.hooks.set k (.write ref m) }
    | some (.write ref data) =>
      (s.deref ref).map fun m =>
        { s with table := s.table.insert m.id (Row.of m data), hooks := s.hooks.eraseIdx k }
    | some (.erase id) =>
      some { s with table := s.table.erase id, hooks := s.hooks.eraseIdx k }

/-- What the step does to the store when hooks are left out. -/
def DurableAct.inLock : DurableAct → Store → Store
  | .save now m, st => saveMission now m st
  | .update now id u, st => (updateMission now id u.fn st).2
  | .delete id, st => (deleteMission id st).2
  | .hook _, st => st

/-- The missions of the store. -/
def Durable.Shows (s : Durable) (st : Store) : Prop := ∀ id, s.current id = getMission id st

/-! ## Agreement -/

/-- The row that the database should have for a mission. -/
def Durable.rowNow (s : Durable) (id : GoString) : Option Row :=
  (s.current id).map fun m => Row.of m m

/-- The row of a mission is what the mission is now, and there is none if there is no mission. -/
def Durable.AgreesAt (s : Durable) (id : GoString) : Prop := s.table.lookup id = s.rowNow id

/-- The database holds the missions of the store, and nothing else. -/
def Durable.Agrees (s : Durable) : Prop := ∀ id, s.AgreesAt id

/-- The mission whose row a hook changes. -/
def Durable.target (s : Durable) : Hook → Option GoString
  | .marshal ref => (s.deref ref).map Mission.id
  | .write ref _ => (s.deref ref).map Mission.id
  | .erase id => some id

/-- What a hook makes of the row, as things are. -/
def Durable.rowOf (s : Durable) : Hook → Option Row
  | .marshal ref => (s.deref ref).map fun m => Row.of m m
  | .write ref data => (s.deref ref).map fun m => Row.of m data
  | .erase _ => none

/-- The hook makes the row of the mission what it should be. -/
def Durable.Settles (s : Durable) (id : GoString) (h : Hook) : Prop :=
  s.target h = some id ∧ s.rowOf h = s.rowNow id

/-- The next step of the hook changes a row. -/
def Hook.ChangesRow : Hook → Prop
  | .marshal _ => False
  | .write _ _ => True
  | .erase _ => True

/-- A row is changed only to what it should be, or while another call on the same mission is still going
to put it right. -/
def WritesInOrder (s : Durable) : DurableAct → Prop
  | .hook k =>
    ∀ h id, s.hooks[k]? = some h → h.ChangesRow → s.target h = some id →
      s.Settles id h ∨ ∃ j g, j ≠ k ∧ s.hooks[j]? = some g ∧ s.Settles id g
  | _ => True

/-- The pointers of the store show missions under their own ids. -/
def Durable.WellFormed (s : Durable) : Prop :=
  ∀ id ref, s.missions.lookup id = some ref → ∃ m, s.deref ref = some m ∧ m.id = id

/-- All calls have returned, and the database holds the missions. -/
structure Durable.Rested (s : Durable) : Prop where
  returned : s.hooks = []
  wellFormed : s.WellFormed
  agrees : s.Agrees

/-- Nothing has been saved yet. -/
def Durable.empty : Durable := ⟨[], ∅, ∅, []⟩

end Gafam.Moksa
