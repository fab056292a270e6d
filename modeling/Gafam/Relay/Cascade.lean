import Gafam.Lib.Steps
import Gafam.Relay.SmsHandler
import Mathlib.Algebra.BigOperators.Group.Finset.Basic

/-!
# A network of nodes and its 911 cascades

Every handler invocation is a small program over the database of its node, whose steps are the single
database statements: invocations of one node interleave, and `mark911Seen` is two statements. A phone
may push any text from any number at any time, which covers every order of delivery, duplication and
loss of the messages in flight, and foreign messages besides.
-/

namespace Gafam.Relay

open Gafam.Go Gafam.Lib

/-! ## One handler invocation -/

/-- The `INSERT OR IGNORE` of `mark911Seen`; an empty id is not recorded. -/
def insertSeen (now : Nat) (alertID : GoString) (seen : List SeenAlert) : Bool × List SeenAlert :=
  if alertID = [] then (true, seen)
  else if Seen alertID seen then (false, seen)
  else (true, seen ++ [⟨alertID, now / 1000⟩])

/-- The rest of `mark911Seen`, which returned before for an empty id. -/
def pruneAfter (now : Nat) (alertID : GoString) (seen : List SeenAlert) : List SeenAlert :=
  if alertID = [] then seen else pruneSeen now seen

/-- The arguments of a call of `trigger911Cascade`, the alert id being chosen. -/
structure CascadeCall where
  sender : GoString
  alertID : GoString
  hop : Int
  origPhone : GoString
  origName : GoString
  message : GoString

/-- The body that the call relays. -/
def CascadeCall.body (c : CascadeCall) : GoString :=
  build911RelayBody c.alertID c.hop c.origPhone c.origName c.message

/-- Where an invocation stands. `next` is the received message when trigger (b) is still to come. -/
inductive Pc
  /-- `smsHandler`, before `relay911Alert`. -/
  | received (sender body : GoString)
  /-- `trigger911WebHandler`, before the cascade. -/
  | web (message : GoString)
  /-- `relay911Alert`: the two statements of `mark911Seen`. -/
  | relayMark (sender : GoString) (a : Alert)
  | relayPrune (sender : GoString) (a : Alert) (fresh : Bool)
  /-- `trigger911Cascade`: the two statements of `mark911Seen`, the query, the loop over its rows. -/
  | mark (c : CascadeCall) (next : Option (GoString × GoString))
  | prune (c : CascadeCall) (fresh : Bool) (next : Option (GoString × GoString))
  | query (c : CascadeCall) (next : Option (GoString × GoString))
  | sending (c : CascadeCall) (rest : List Guardian) (next : Option (GoString × GoString))
  /-- `smsHandler`, before trigger (b). -/
  | selfTrigger (sender body : GoString)
  | finished

/-- Where an invocation continues after `trigger911Cascade`. -/
def Pc.after : Option (GoString × GoString) → Pc
  | some (sender, body) => .selfTrigger sender body
  | none => .finished

/-- The guardians that take part in the 911 relay. -/
def relays (guardians : List Guardian) : List Guardian := guardians.filter fun g => g.relay911 = 1

/-- The call of `trigger911WebHandler`. -/
def webCall (newID message : GoString) (n : Node) : CascadeCall where
  sender := []
  alertID := newID
  hop := 1
  origPhone := phoneDigits n.selfPhone
  origName := if n.selfPhone = [] then "Admin GAFAM" else contactNameForPhone n.selfPhone n
  message := message

/-- One step of an invocation: where it stands next, the node, and the message it queued. `newID` is
what `new911AlertID` returns if it is called. -/
def Pc.step (now : Nat) (newID : GoString) (n : Node) : Pc → Pc × Node × Option (CascadeCall × Guardian)
  | received sender body =>
    match parse911Relay body with
    | some a => (relayMark sender a, n, none)
    | none =>
      match guardianDistress sender body n with
      | none => (selfTrigger sender body, n, none)
      | some g =>
        match messageAfterCode body g.keyword911 with
        | none => (finished, n, none)
        | some msg =>
          (mark ⟨sender, newID, 1, phoneDigits sender, g.name, msg⟩ (some (sender, body)), n, none)
  | web message => (mark (webCall newID message n) none, n, none)
  | relayMark sender a =>
    let (fresh, seen) := insertSeen now a.alertID n.seen
    (relayPrune sender a fresh, { n with seen := seen }, none)
  | relayPrune sender a fresh =>
    let n := { n with seen := pruneAfter now a.alertID n.seen }
    if !fresh then (finished, n, none)
    else if a.hop ≥ max911Hops then (finished, n, none)
    else
      let alertID := if a.alertID = [] then newID else a.alertID
      (mark ⟨sender, alertID, a.hop + 1, a.origPhone, a.origName, a.message⟩ none, n, none)
  | mark c next =>
    let (fresh, seen) := insertSeen now c.alertID n.seen
    (prune c fresh next, { n with seen := seen }, none)
  | prune c fresh next =>
    let n := { n with seen := pruneAfter now c.alertID n.seen }
    if !fresh then (after next, n, none)
    else if c.hop > max911Hops then (after next, n, none)
    else (query c next, n, none)
  | query c next => (sending c (relays n.guardians) next, n, none)
  | sending _ [] next => (after next, n, none)
  | sending c (g :: rest) next =>
    if phonesMatch g.phoneNumber c.sender then (sending c rest next, n, none)
    else (sending c rest next, queue911Sms now g.phoneNumber c.body n, some (c, g))
  | selfTrigger sender body =>
    if selfDistress sender body n then
      match messageAfterCode body default911Code with
      | none => (finished, n, none)
      | some msg =>
        (mark ⟨sender, newID, 1, phoneDigits sender, contactNameForPhone n.selfPhone n, msg⟩ none, n,
          none)
    else (finished, n, none)
  | finished => (finished, n, none)

/-- An invocation that runs alone for some steps, all within one clock reading. -/
def Pc.alone (now : Nat) (newID : GoString) : Nat → Node → Pc → Pc × Node
  | 0, n, pc => (pc, n)
  | m + 1, n, pc =>
    let (pc', n', _) := pc.step now newID n
    Pc.alone now newID m n' pc'

/-! ## The network -/

/-- A relay message that a node has queued, and the invocation that queued it. -/
structure Relayed (ι : Type) where
  node : ι
  invocation : Nat
  alertID : GoString
  hop : Int
  recipient : GoString
  body : GoString

/-- The nodes, all invocations so far, and all relay messages queued so far. -/
structure Network (ι : Type) where
  nodes : ι → Node
  invocations : List (ι × Pc)
  log : List (Relayed ι)

/-- What can happen in the network. -/
inductive Action (ι : Type)
  /-- A phone pushes a message to its node. -/
  | receive (i : ι) (sender body : GoString)
  /-- The alert is raised from the web client. -/
  | raise (i : ι) (message : GoString)
  /-- An invocation makes a step. -/
  | step (k now : Nat) (newID : GoString)
  /-- Anything else happens to a node; its guardians and its record of alerts stay. -/
  | other (i : ι) (n : Node)

/-- The entry of the log for a queued message. -/
def Relayed.of {ι : Type} (i : ι) (k : Nat) (q : CascadeCall × Guardian) : Relayed ι :=
  ⟨i, k, q.1.alertID, q.1.hop, q.2.phoneNumber, q.1.body⟩

/-- One step of the network. -/
def Network.step {ι : Type} [DecidableEq ι] (s : Network ι) : Action ι → Option (Network ι)
  | .receive i sender body =>
    some { s with invocations := s.invocations ++ [(i, .received sender body)] }
  | .raise i message => some { s with invocations := s.invocations ++ [(i, .web message)] }
  | .step k now newID =>
    match s.invocations[k]? with
    | none => none
    | some (i, pc) =>
      let (pc', n, queued) := pc.step now newID (s.nodes i)
      some
        { nodes := Function.update s.nodes i n
          invocations := s.invocations.set k (i, pc')
          log := s.log ++ (queued.map (Relayed.of i k)).toList }
  | .other i n =>
    if n.seen = (s.nodes i).seen ∧ n.guardians = (s.nodes i).guardians then
      some { s with nodes := Function.update s.nodes i n }
    else none

/-- Before the first invocation. -/
def Network.start {ι : Type} (nodes : ι → Node) : Network ι := ⟨nodes, [], []⟩

/-- All clock readings of a run lie within the retention of `gafam_911_seen`, counted from `t₀`
seconds. -/
def WithinRetention {ι : Type} (t₀ : Nat) (acts : List (Action ι)) : Prop :=
  ∀ k now newID, .step k now newID ∈ acts → t₀ ≤ now / 1000 ∧ now / 1000 ≤ t₀ + seenRetention

/-- What the guards of the cascade are for. -/
structure FloodSafe {ι : Type} [Fintype ι] (nodes : ι → Node) (log : List (Relayed ι)) : Prop where
  once : ∀ e ∈ log, ∀ e' ∈ log, e.node = e'.node → e.alertID = e'.alertID → e.alertID ≠ [] →
    e.invocation = e'.invocation
  hop : ∀ e ∈ log, 1 ≤ e.hop ∧ e.hop ≤ max911Hops ∧
    ∃ origPhone origName message,
      e.body = build911RelayBody e.alertID e.hop origPhone origName message
  bound : ∀ a : GoString, a ≠ [] →
    log.countP (fun e => e.alertID = a) ≤ ∑ i, (relays (nodes i).guardians).length

end Gafam.Relay
