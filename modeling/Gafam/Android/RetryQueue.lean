import Gafam.Lib.Steps

/-!
# The retry queue (`SmsDeliverReceiver.kt`)

An SMS that could not be pushed to the VPC is appended to the preference `sms_retry_queue`, and a push that works
retries what is queued. Every delivery has a thread of its own; reading the queue, each request and writing the queue
are separate steps, between which the other threads go on.
-/

namespace Gafam.Android

open Gafam.Lib

structure Sms where
  sender : String
  body : String
  timestamp : Int
deriving DecidableEq

/-- An entry of `sms_retry_queue`, with the number of the delivery that it comes from. -/
structure QueueItem where
  sms : Sms
  queuedAt : Int
  delivery : Nat
deriving DecidableEq

/-- What a request comes to: the code of its response, or nothing where it throws. -/
abbrev Answer := Option Int

def success (answer : Answer) : Bool := answer.any fun code => 200 ≤ code && code ≤ 299

/-- The push of `sendToVpc`: three attempts, the last of which may be missing after a success. -/
def pushed (answers : List Answer) : Bool := (answers.take 3).any success

/-- The thread of a delivery. -/
inductive RetryThread
  | enqueueRetry (sms : Sms)
  | append (item : QueueItem) (queue : List QueueItem)
  | flushRetryQueue
  | flush (queue rest remaining : List QueueItem)
  | done
deriving DecidableEq

/-- What the thread has read of the queue. -/
def RetryThread.queue : RetryThread → List QueueItem
  | .append _ queue => queue
  | .flush queue _ _ => queue
  | _ => []

structure Retries where
  smsRetryQueue : List QueueItem
  threads : List RetryThread
  /-- what `enqueueRetry` has put into the queue, and what a request of `flushRetryQueue` has delivered -/
  enqueued : List QueueItem
  answered : List QueueItem

/-- `leave` is a flush that returns early or throws: without pairing, without a client. -/
inductive RetryEvent
  | deliver (sms : Sms) (answers : List Answer)
  | read (thread : Nat) (now : Int)
  | request (thread : Nat) (answer : Answer)
  | write (thread : Nat)
  | leave (thread : Nat)

namespace Retries

def start : Retries := ⟨[], [], [], []⟩

/-- The thread goes on. -/
def goto (s : Retries) (i : Nat) (t : RetryThread) : Retries := { s with threads := s.threads.set i t }

/-- A flush of an empty queue returns at once; what has no payload or no good answer stays in the queue. -/
def step (s : Retries) : RetryEvent → Option Retries
  | .deliver sms answers =>
    let thread := if pushed answers then .flushRetryQueue else .enqueueRetry sms
    some { s with threads := s.threads ++ [thread] }
  | .read i now =>
    match s.threads[i]? with
    | some (.enqueueRetry sms) => some (s.goto i (.append ⟨sms, now, i⟩ s.smsRetryQueue))
    | some .flushRetryQueue =>
      some (s.goto i (if s.smsRetryQueue = [] then .done else .flush s.smsRetryQueue s.smsRetryQueue []))
    | _ => none
  | .request i answer =>
    match s.threads[i]? with
    | some (.flush queue (item :: rest) remaining) =>
      if success answer then some { s.goto i (.flush queue rest remaining) with answered := s.answered ++ [item] }
      else some (s.goto i (.flush queue rest (remaining ++ [item])))
    | _ => none
  | .write i =>
    match s.threads[i]? with
    | some (.append item queue) =>
      some { s.goto i .done with smsRetryQueue := queue ++ [item], enqueued := s.enqueued ++ [item] }
    | some (.flush _ [] remaining) => some { s.goto i .done with smsRetryQueue := remaining }
    | _ => none
  | .leave i =>
    match s.threads[i]? with
    | some .flushRetryQueue => some (s.goto i .done)
    | some (.flush _ _ _) => some (s.goto i .done)
    | _ => none

/-! ## Purpose -/

/-- No SMS that was put into the queue is lost. -/
def NoLoss (s : Retries) : Prop := ∀ x ∈ s.enqueued, x ∈ s.smsRetryQueue ∨ x ∈ s.answered

/-- A thread that writes the queue has read all that is in it and still has to be delivered. -/
def UpToDate (s : Retries) : RetryEvent → Prop
  | .write i => ∀ t, s.threads[i]? = some t → ∀ x ∈ s.smsRetryQueue, x ∈ t.queue ∨ x ∈ s.answered
  | _ => True

end Retries

end Gafam.Android
