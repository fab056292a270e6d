import Gafam.Moksa.Durability

/-!
# Launches that are refused

`orchestratorRunHandler`, `triggerSelfQuest` and `runDueCronJobs` create the mission of a new instruction before they
try the lock of the orchestrator. A call on the store has its step under the lock and then its hook, and the calls of
others may come between any two of these steps.
-/

namespace Gafam.Orchestrator

open Gafam.Go Gafam.Moksa

/-- Where an instruction comes from: `orchestratorRunHandler`, `triggerSelfQuest`, or `runDueCronJobs`. -/
inductive LaunchEntry
  | web
  | sms
  | cron
deriving DecidableEq

/-- What is left of `PersistHook`: it has still to marshal, or its attempt number `n` to insert the row comes next. -/
inductive Persist
  | marshal (ref : Nat)
  | insert (ref : Nat) (data : Mission) (n : Nat)

/-- The pointer that the hook has been given. -/
def Persist.ref : Persist → Nat
  | marshal ref => ref
  | insert ref _ _ => ref

/-- The next step of the hook. There are five attempts; after the last one the hook gives up. -/
def Persist.step (d : Durable) (ok : Bool) : Persist → Option (Durable × Option Persist)
  | marshal ref => (d.deref ref).map fun m => (d, some (insert ref m 0))
  | insert ref data n =>
    (d.deref ref).map fun m =>
      if ok then ({ d with table := d.table.insert m.id (Row.of m data) }, none)
      else (d, if n + 1 < 5 then some (insert ref data (n + 1)) else none)

/-- Where the request is. -/
inductive LaunchPc
  | arrived
  /-- In the hook of `CreateEmptyMission`. -/
  | creating (id : GoString) (p : Persist)
  /-- Before the `UpdateMission` of a cron job. -/
  | modeless (id : GoString)
  /-- In the hook of this `UpdateMission`. -/
  | setting (id : GoString) (p : Persist)
  /-- Before `launchOrchestration`. -/
  | launching (id : GoString)
  /-- Before `DeleteMission`. -/
  | deleting (id : GoString)
  /-- In `DeleteHook`. -/
  | erasing (id : GoString)
  | refused (id : GoString)
  | launched (id : GoString)

/-- The mission that the request has created. -/
def LaunchPc.id : LaunchPc → Option GoString
  | arrived => none
  | creating id _ => some id
  | modeless id => some id
  | setting id _ => some id
  | launching id => some id
  | deleting id => some id
  | erasing id => some id
  | refused id => some id
  | launched id => some id

structure Launch where
  /-- The store, the table, and the calls of others that have not returned. -/
  d : Durable
  seq : Nat
  /-- `orchestratorMu` is locked. -/
  busy : Bool
  pc : LaunchPc
  /-- The missions on which others have worked since the request came in. -/
  touched : List GoString

/-- A request comes in. -/
def Launch.begin (d : Durable) (seq : Nat) (busy : Bool) : Launch := ⟨d, seq, busy, .arrived, []⟩

inductive LaunchEvent
  /-- The next step of the request. `ok` is the outcome of its statement, if there is one. -/
  | own (now : Nat) (ok : Bool)
  | other (act : DurableAct)
  /-- The statements of a call of another have failed. -/
  | lost (k : Nat)
  /-- Another draws an id. -/
  | number
  /-- Another takes the lock of the orchestrator, or gives it back. -/
  | lock (busy : Bool)

/-- The mission on which an action works. -/
def affects (d : Durable) : DurableAct → Option GoString
  | .save _ m => some m.id
  | .update _ id _ => some id
  | .delete id => some id
  | .hook k => d.hooks[k]?.bind d.target

/-- The next step of a request. -/
def Launch.own (entry : LaunchEntry) (instruction : GoString) (now : Nat) (ok : Bool) (s : Launch) : Option Launch :=
  match s.pc with
  | .arrived =>
    let (m, st) := createEmptyMission now instruction ⟨∅, s.seq⟩
    some { s with
      d := { s.d with
        objects := s.d.objects ++ [m]
        missions := s.d.missions.insert m.id s.d.objects.length }
      seq := st.seq
      pc := .creating m.id (.marshal s.d.objects.length) }
  | .creating id p =>
    (p.step s.d ok).map fun r =>
      { s with
        d := r.1
        pc := r.2.elim (if entry = .cron then .modeless id else .launching id) (.creating id) }
  | .modeless id =>
    match s.d.missions.lookup id with
    | none => some { s with pc := .launching id }
    | some ref =>
      (s.d.deref ref).map fun m =>
        { s with
          d := { s.d with objects := s.d.objects.set ref { m with mode := "cron", updatedAt := now } }
          pc := .setting id (.marshal ref) }
  | .setting id p =>
    (p.step s.d ok).map fun r => { s with d := r.1, pc := r.2.elim (.launching id) (.setting id) }
  | .launching id =>
    if s.busy then some { s with pc := if entry = .web then .refused id else .deleting id }
    else some { s with busy := true, pc := .launched id }
  | .deleting id =>
    if id ∈ s.d.missions then
      some { s with d := { s.d with missions := s.d.missions.erase id }, pc := .erasing id }
    else some { s with pc := .refused id }
  | .erasing id =>
    some { s with d := if ok then { s.d with table := s.d.table.erase id } else s.d, pc := .refused id }
  | .refused _ => none
  | .launched _ => none

/-- One step. -/
def Launch.step (entry : LaunchEntry) (instruction : GoString) (s : Launch) : LaunchEvent → Option Launch
  | .own now ok => s.own entry instruction now ok
  | .other act =>
    (durableStep s.d act).map fun d => { s with d := d, touched := (affects s.d act).toList ++ s.touched }
  | .lost k => some { s with d := { s.d with hooks := s.d.hooks.eraseIdx k } }
  | .number => some { s with seq := s.seq + 1 }
  | .lock busy => some { s with busy := busy }

/-! ## Purpose -/

/-- The mission and its row are as they were. -/
def Same (d₀ d : Durable) (id : GoString) : Prop :=
  d.current id = d₀.current id ∧ d.table.lookup id = d₀.table.lookup id

/-- Nothing is left of the mission `id`, and all the other missions are as they were, unless others have worked on
them. -/
def Traceless (d₀ : Durable) (s : Launch) (id : GoString) : Prop :=
  ∀ id', id' = id ∨ id' ∉ s.touched → Same d₀ s.d id'

/-- The id that is drawn is new, the others leave the mission alone, and its row is deleted if there is one. -/
def Unshared (s : Launch) : LaunchEvent → Prop
  | .own now ok =>
    match s.pc with
    | .arrived =>
      let id := (newMissionID now ⟨∅, s.seq⟩).1
      id ∉ s.d.missions ∧ id ∉ s.d.table ∧ id ∉ s.touched
    | .erasing id => ok = true ∨ id ∉ s.d.table
    | _ => True
  | .other act => s.pc.id = none ∨ affects s.d act ≠ s.pc.id
  | _ => True

end Gafam.Orchestrator
