import Gafam.Go.Text
import Gafam.Lib.Steps

/-!
# The bridge of the desktop manager

Each start command looks at `active`, spawns a task and is done. The task sets the shared state up, runs the bridge
and cleans up behind it. A stop command clones the sender that the shared state holds and sends on it. The lock on
the state is only held for the single steps, which those of different commands come between.

The start commands are numbered; given is the device that each is for. A call of `adb` or of the network may succeed
or fail, and a stream may end at any time.
-/

namespace Gafam.Scrcpy

open Gafam.Go Gafam.Lib

/-- `BridgeState`; `shutdown_tx` is the sender of the run with that number. -/
structure BridgeState where
  active : Bool
  deviceSerial : Option GoString
  vpcConnected : Bool
  framesSent : Nat
  shutdownTx : Option Nat

/-- `BridgeState::default`. -/
def BridgeState.default : BridgeState := ⟨false, none, false, 0, none⟩

/-- What the cleanup and the task that a run has failed in write. -/
def BridgeState.reset (s : BridgeState) : BridgeState :=
  { s with active := false, vpcConnected := false, deviceSerial := none, shutdownTx := none }

/-- How far a start command and its task have got. From `killing` on, the flag is whether `start_bridge` returns an
error. -/
inductive Phase
  | idle
  | checked
  | spawned
  | pushing
  | forwarding
  | launching
  | connecting
  | joining
  | relaying
  | leaving (failed : Bool)
  | killing (failed : Bool)
  | removing (failed : Bool)
  | failed
  | ended
deriving DecidableEq

/-- The phase behind a call of the set-up that succeeds. -/
def Phase.next : Phase → Option Phase
  | .pushing => some .forwarding
  | .forwarding => some .launching
  | .launching => some .connecting
  | .connecting => some .joining
  | .joining => some .relaying
  | _ => none

/-- From setting the state up to the cleanup, or to the error that `start_bridge` returns with. -/
def Phase.inProgress : Phase → Bool
  | .pushing | .forwarding | .launching | .connecting | .joining | .relaying | .leaving _ => true
  | _ => false

/-- `start_bridge` has not returned: the receiver exists. -/
def Phase.receives : Phase → Bool
  | .killing _ | .removing _ => true
  | p => p.inProgress

/-- The shared state, the phase of each start command, the channels that a message waits in, the devices' servers by
the run that launched them, and the senders that stop commands have cloned. -/
structure BridgeSystem where
  state : BridgeState
  phase : Nat → Phase
  signalled : Nat → Bool
  server : Nat → Bool
  cloned : List Nat

def BridgeSystem.initial : BridgeSystem := ⟨.default, fun _ => .idle, fun _ => false, fun _ => false, []⟩

def BridgeSystem.moved (b : BridgeSystem) (n : Nat) (p : Phase) : BridgeSystem :=
  { b with phase := fun m => if m = n then p else b.phase m }

inductive BridgeAction
  /-- The check of `active`. -/
  | check (n : Nat)
  /-- The path of the server is resolved, or not, and the task is spawned. -/
  | spawn (n : Nat) (ok : Bool)
  | setUp (n : Nat)
  /-- The next call of the set-up. -/
  | advance (n : Nat) (ok : Bool)
  | frame (n : Nat)
  /-- `select!` comes to an end, with the shutdown signal or with the end of a stream. -/
  | leave (n : Nat) (failed : Bool)
  | cleanUp (n : Nat)
  | kill (n : Nat)
  | removeForward (n : Nat)
  /-- The task resets the state after an error. -/
  | resetFailed (n : Nat)
  | cloneTx
  | send (k : Nat)

section
variable (device : Nat → GoString)

/-- One step of a command or a task; a message waits in a channel for at most one receiver, and while one waits
`send` does. -/
def BridgeSystem.step (b : BridgeSystem) : BridgeAction → Option BridgeSystem
  | .check n =>
    if b.phase n = .idle then some (b.moved n (if b.state.active then .ended else .checked)) else none
  | .spawn n ok =>
    if b.phase n = .checked then some (b.moved n (if ok then .spawned else .ended)) else none
  | .setUp n =>
    if b.phase n = .spawned then
      some { b.moved n .pushing with
        state := { b.state with
          active := true, deviceSerial := some (device n), framesSent := 0, shutdownTx := some n } }
    else none
  | .advance n ok =>
    (b.phase n).next.map fun p =>
      if ok then
        { b.moved n p with
          server := fun m => if m = n then p == .connecting || b.server n else b.server m
          state := { b.state with vpcConnected := p == .relaying || b.state.vpcConnected } }
      else b.moved n .failed
  | .frame n =>
    if b.phase n = .relaying then
      some { b with state := { b.state with framesSent := b.state.framesSent + 1 } }
    else none
  | .leave n failed =>
    -- `recv` gets the message, or nothing once every sender is gone
    if b.phase n = .relaying ∧ (failed ∨ b.signalled n ∨ (b.state.shutdownTx ≠ some n ∧ n ∉ b.cloned)) then
      some { b.moved n (.leaving failed) with
        signalled := fun m => if m = n then failed && b.signalled n else b.signalled m }
    else none
  | .cleanUp n =>
    match b.phase n with
    | .leaving failed => some { b.moved n (.killing failed) with state := b.state.reset }
    | _ => none
  | .kill n =>
    match b.phase n with
    | .killing failed =>
      -- `pkill -f scrcpy` on the device
      some { b.moved n (.removing failed) with server := fun m => b.server m && device m != device n }
    | _ => none
  | .removeForward n =>
    match b.phase n with
    | .removing failed => some (b.moved n (if failed then .failed else .ended))
    | _ => none
  | .resetFailed n =>
    if b.phase n = .failed then some { b.moved n .ended with state := b.state.reset } else none
  | .cloneTx =>
    match b.state.shutdownTx with
    | none => some b
    | some n => some { b with cloned := b.cloned ++ [n] }
  | .send k =>
    match b.cloned[k]? with
    | none => none
    | some n =>
      if (b.phase n).receives then
        if b.signalled n then none
        else some { b with
          cloned := b.cloned.eraseIdx k
          signalled := fun m => if m = n then true else b.signalled m }
      else some { b with cloned := b.cloned.eraseIdx k }

end

/-! ## What the flag and the sender are for -/

/-- At most one run is in progress, and the shared state is its own. -/
structure BridgeSystem.Owned (b : BridgeSystem) : Prop where
  one : ∀ n m, (b.phase n).inProgress = true → (b.phase m).inProgress = true → n = m
  own : ∀ n, (b.phase n).inProgress = true → b.state.active = true ∧ b.state.shutdownTx = some n

/-- The run whose cleanup a step belongs to. -/
def BridgeAction.cleansUp : BridgeAction → Option Nat
  | .cleanUp n | .kill n | .removeForward n | .resetFailed n => some n
  | _ => none

/-- A step of a cleanup leaves the state and the server of every other run that is in progress as they are. -/
def Spares (device : Nat → GoString) (b : BridgeSystem) (a : BridgeAction) : Prop :=
  ∀ b' n m, b.step device a = some b' → a.cleansUp = some n → m ≠ n → (b.phase m).inProgress = true →
    b'.state = b.state ∧ b'.server m = b.server m

/-- `stop_bridge`, called now, leaves a message in the channel of the run, if none waits there already. -/
def BridgeSystem.Stoppable (b : BridgeSystem) (device : Nat → GoString) (n : Nat) : Prop :=
  ∃ b₁, b.step device .cloneTx = some b₁ ∧
    (b₁.signalled n = true ∨ ∃ b₂, b₁.step device (.send b.cloned.length) = some b₂ ∧ b₂.signalled n = true)

/-! ## When they do it -/

/-- The task is going to reset the state after its run. -/
def Phase.owesReset : Phase → Bool
  | .killing f | .removing f => f
  | .failed => true
  | _ => false

/-- The task is going to kill the servers of its device. -/
def Phase.owesKill : Phase → Bool
  | .killing _ => true
  | _ => false

/-- The run has nothing left to do that could touch a run on the device: it is not in progress, its task is not going
to reset the state, and it is not going to kill the servers of that device. -/
structure BridgeSystem.SettledFor (b : BridgeSystem) (device : Nat → GoString) (m n : Nat) : Prop where
  not_inProgress : (b.phase m).inProgress = false
  not_owesReset : (b.phase m).owesReset = false
  not_owesKill : (b.phase m).owesKill = true → device m ≠ device n

/-- A task sets the state up once every other run is settled. -/
def SetsUpAlone (device : Nat → GoString) (b : BridgeSystem) (a : BridgeAction) : Prop :=
  ∀ n, a = .setUp n → ∀ m, m ≠ n → b.SettledFor device m n

end Gafam.Scrcpy
