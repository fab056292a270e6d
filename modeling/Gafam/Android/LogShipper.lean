import Gafam.Lib.Steps
import Mathlib.Data.List.Pairwise

/-!
# The log queue (`LogShipper.kt`)

Events are put into a queue, and a flush takes a batch off it, sends the batch, and puts it back where the
VPC refuses it. Calls run side by side: every operation on the queue and the exchange with the VPC are
steps of their own.
-/

namespace Gafam.Android

open Gafam.Lib

def maxQueue : Nat := 400

/-- The most entries of one batch. -/
def batchSize : Nat := 200

/-- What an exchange comes to: the code of the response, or an exception, before or after the VPC has
accepted the batch. -/
inductive Exchange
  | response (code : Int)
  | exception (accepted : Bool)
deriving DecidableEq

/-- `response.isSuccessful`; a batch is accepted with such a response, or before an exception. -/
def Exchange.accepts : Exchange → Bool
  | .response code => 200 ≤ code && code ≤ 299
  | .exception accepted => accepted

/-- Where a call of `enqueue` or `flush` stands. An entry is known by its number in the order in which
entries are offered to the queue. -/
inductive LogCall
  | enqueue
  | poll (size : Nat)
  | offer
  | flush (batch : List Nat)
  | execute (batch : List Nat)
  | requeue (batch : List Nat)
  | done
deriving DecidableEq

/-- What the call has taken off the queue and still answers for. -/
def LogCall.batch : LogCall → List Nat
  | .flush batch => batch
  | .execute batch => batch
  | .requeue batch => batch
  | _ => []

/-- The call is a flush that goes on. -/
def LogCall.flushes : LogCall → Bool
  | .flush _ => true
  | .execute _ => true
  | .requeue _ => true
  | _ => false

/-- An entry that `enqueue` has dropped, what was left in the queue, and the size that it had seen. -/
structure Drop where
  entry : Nat
  rest : List Nat
  size : Nat
deriving DecidableEq

structure LogShipper where
  queue : List Nat
  offered : Nat
  calls : List LogCall
  /-- what the VPC has accepted, in this order -/
  accepted : List Nat
  dropped : List Drop
  /-- a flush began while another one went on -/
  overlapped : Bool

inductive LogEvent
  | enqueue
  | flush
  | go (call : Nat)
  | exchange (call : Nat) (outcome : Exchange)

namespace LogShipper

def start : LogShipper := ⟨[], 0, [], [], [], false⟩

def goto (s : LogShipper) (i : Nat) (c : LogCall) : LogShipper := { s with calls := s.calls.set i c }

/-- The next operation of a call on the queue. -/
def go (s : LogShipper) (i : Nat) : LogCall → Option LogShipper
  | .enqueue => some (s.goto i (if maxQueue ≤ s.queue.length then .poll s.queue.length else .offer))
  | .poll size =>
    match s.queue with
    | [] => some (s.goto i .enqueue)
    | e :: rest =>
      some { s.goto i .enqueue with queue := rest, dropped := s.dropped ++ [⟨e, rest, size⟩] }
  | .offer => some { s.goto i .done with queue := s.queue ++ [s.offered], offered := s.offered + 1 }
  | .flush batch =>
    match s.queue with
    | [] => some (s.goto i (if batch = [] then .done else .execute batch))
    | e :: rest =>
      let batch := batch ++ [e]
      some { s.goto i (if batchSize ≤ batch.length then .execute batch else .flush batch) with queue := rest }
  | .requeue [] => some (s.goto i .done)
  | .requeue (e :: batch) => some { s.goto i (.requeue batch) with queue := s.queue ++ [e] }
  | _ => none

/-- The exchange of a batch. -/
def exchange (s : LogShipper) (i : Nat) (batch : List Nat) (outcome : Exchange) : LogShipper :=
  if outcome.accepts then { s.goto i .done with accepted := s.accepted ++ batch }
  else match outcome with
    | .response _ => s.goto i (.requeue batch)
    | .exception _ => s.goto i .done

def step (s : LogShipper) : LogEvent → Option LogShipper
  | .enqueue => some { s with calls := s.calls ++ [.enqueue] }
  | .flush =>
    some { s with calls := s.calls ++ [.flush []], overlapped := s.overlapped || s.calls.any LogCall.flushes }
  | .go i => s.calls[i]?.bind (s.go i)
  | .exchange i outcome =>
    match s.calls[i]? with
    | some (.execute batch) => some (s.exchange i batch outcome)
    | _ => none

/-! ## Purpose -/

/-- Entries leave the queue only to the VPC, or as the oldest ones of a queue that was full; and without
overlap the VPC gets them in their order. What a flush holds has not been decided on. -/
structure LosesByOverflow (s : LogShipper) : Prop where
  kept : ∀ e < s.offered, e ∈ s.queue ∨ (∃ c ∈ s.calls, e ∈ c.batch) ∨ e ∈ s.accepted ∨
    ∃ d ∈ s.dropped, d.entry = e
  overflow : ∀ d ∈ s.dropped, maxQueue ≤ d.size ∧ ∀ e ∈ d.rest, d.entry < e
  ordered : s.overlapped = false → s.accepted.Pairwise (· < ·)

/-- The exchange does not end in an exception before the VPC has accepted the batch, and what is put back
into the queue comes behind older entries only. -/
def Heeds (s : LogShipper) : LogEvent → Prop
  | .exchange _ outcome => outcome ≠ .exception false
  | .go i => ∀ e batch, s.calls[i]? = some (.requeue (e :: batch)) → ∀ x ∈ s.queue, x < e
  | _ => True

end LogShipper

end Gafam.Android
