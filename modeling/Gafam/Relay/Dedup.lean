import Gafam.Relay.Tables
import Mathlib.Data.List.Defs

/-!
# SMS deduplication

`insertSmsDeduped` is the only writer of new rows of `gafam_sms`. It looks for a stored row with the
same body, a close timestamp and a matching number among the first 40 candidates, and leaves the
rest to the unique index. Timestamps are milliseconds.
-/

namespace Gafam.Relay

open Gafam.Go Gafam.Lib

/-- `smsDedupWindowMs`. -/
def smsDedupWindowMs : Nat := 180000

/-- The distance of two timestamps is below the window. -/
def inWindow (a b : Int) : Bool := (a - b).natAbs < smsDedupWindowMs

/-- The `LIMIT` of the candidate query. -/
def candidateLimit : Nat := 40

/-- The rows of the query of `smsNearDuplicateID`. -/
def nearCandidates (t : SmsTable) (body : GoString) (timestamp : Int) : List (Row Sms) :=
  (t.rows.filter fun r => r.val.body == body && inWindow r.val.timestamp timestamp).take
    candidateLimit

/-- `smsNearDuplicateID`. -/
def smsNearDuplicateID (t : SmsTable) (sender body : GoString) (timestamp : Int) : Option Nat :=
  if body = [] ∨ timestamp = 0 then none
  else
    ((nearCandidates t body timestamp).find? fun r => phonesMatch sender r.val.sender).map (·.id)

/-- The result of `insertSmsDeduped`: the id of the new or of the matched row. -/
structure Deduped where
  id : Nat
  inserted : Bool
deriving DecidableEq, Repr

/-- `insertSmsDeduped`; `now` is the clock, read when the timestamp is missing. -/
def insertSmsDeduped (now : Int) (t : SmsTable) (sender body : GoString) (timestamp : Int)
    (status : SmsStatus) : Deduped × SmsTable :=
  let timestamp := if timestamp = 0 then now else timestamp
  match smsNearDuplicateID t sender body timestamp with
  | some id => (⟨id, false⟩, t)
  | none =>
    match t.insertOrIgnore ⟨sender, body, timestamp, status⟩ with
    | (some id, t') => (⟨id, true⟩, t')
    | (none, _) =>
      match smsNearDuplicateID t sender body timestamp with
      | some id => (⟨id, false⟩, t)
      | none => (⟨0, false⟩, t)

/-- One call of `insertSmsDeduped`. -/
structure DedupCall where
  now : Int
  sender : GoString
  body : GoString
  timestamp : Int
  status : SmsStatus
deriving DecidableEq, Repr

/-- The timestamp a call stores. -/
def DedupCall.time (c : DedupCall) : Int := if c.timestamp = 0 then c.now else c.timestamp

/-- The row a call stores. -/
def DedupCall.sms (c : DedupCall) : Sms := ⟨c.sender, c.body, c.time, c.status⟩

/-- The call, applied to the table. -/
def DedupCall.exec (t : SmsTable) (c : DedupCall) : SmsTable :=
  (insertSmsDeduped c.now t c.sender c.body c.timestamp c.status).2

/-- A sequence of calls. -/
def runCalls (t : SmsTable) (calls : List DedupCall) : SmsTable := calls.foldl DedupCall.exec t

/-- The message of the call is refused: the candidate query or the unique index knows it. -/
def Refused (t : SmsTable) (c : DedupCall) : Prop :=
  (smsNearDuplicateID t c.sender c.body c.time).isSome ∨ ∃ r ∈ t.rows, r.val.key = c.sms.key

instance (t : SmsTable) (c : DedupCall) : Decidable (Refused t c) := by
  unfold Refused; infer_instance

/-- Two messages that the deduplication is meant to tell apart from nothing: same non-empty body,
same peer, timestamps inside the window. -/
def SameMessage (a b : Sms) : Prop :=
  a.body = b.body ∧ a.body ≠ [] ∧ (a.sender = b.sender ∨ phonesMatch a.sender b.sender) ∧
    inWindow a.timestamp b.timestamp

instance (a b : Sms) : Decidable (SameMessage a b) := by unfold SameMessage; infer_instance

/-- No message is stored twice. -/
def NoNearDuplicates (t : SmsTable) : Prop :=
  t.rows.Pairwise fun a b => ¬ SameMessage a.val b.val

instance (t : SmsTable) : Decidable (NoNearDuplicates t) := by
  unfold NoNearDuplicates; infer_instance

/-- The deduplication can see that the table holds the message of the call already: one of the rows
of the candidate query has a matching number, or the very same key is stored. -/
def Visible (t : SmsTable) (c : DedupCall) : Prop :=
  (c.time ≠ 0 ∧ ∃ r ∈ nearCandidates t c.body c.time, phonesMatch c.sender r.val.sender) ∨
    ∃ r ∈ t.rows, r.val.key = c.sms.key

/-- If the table holds the message of the call, then the deduplication can see it. -/
def Recognised (t : SmsTable) (c : DedupCall) : Prop :=
  (∃ r ∈ t.rows, SameMessage r.val c.sms) → Visible t c

/-!
## The boot purge

At startup `purgeNearDuplicateSms` walks through `gafam_sms` in batches of the row id and deletes the
rows that repeat a row of the same batch.
-/

/-- `abs64` of an `int64`; the negation wraps around. -/
def abs64 (a : Int) : Int := if a < 0 then (-a).bmod (2 ^ 64) else a

/-- `abs64(a-b) < ms` of two `int64`, whose difference wraps around. -/
def isNear64 (ms : Nat) (a b : Int) : Bool := abs64 ((a - b).bmod (2 ^ 64)) < ms

/-- `batchSize`. -/
def purgeBatchSize : Nat := 5000

/-- `keptByBody` and `toDelete` while a batch is walked through. -/
structure PurgeState where
  keptByBody : GoString → List (Row Sms)
  toDelete : List Nat

/-- The start of a batch. -/
def PurgeState.init : PurgeState := ⟨fun _ => [], []⟩

/-- One row of a batch. The source filters the candidates in place (`alive := cands[:0]`), so when the
row is dropped the map keeps the old slice, whose front now holds the candidates that are alive. -/
def purgeRow (st : PurgeState) (r : Row Sms) : PurgeState :=
  let cands := st.keptByBody r.val.body
  let alive := cands.filter fun k => isNear64 (smsDedupWindowMs * 2) r.val.timestamp k.val.timestamp
  let dup := alive.any fun k =>
    phonesMatch r.val.sender k.val.sender && isNear64 smsDedupWindowMs r.val.timestamp k.val.timestamp
  let kept := if dup then alive ++ cands.drop alive.length else alive ++ [r]
  { keptByBody := fun body => if body = r.val.body then kept else st.keptByBody body
    toDelete := if dup then st.toDelete ++ [r.id] else st.toDelete }

/-- The ids that one batch deletes. -/
def purgeBatch (rows : List (Row Sms)) : List Nat := (rows.foldl purgeRow .init).toDelete

/-- The ids that the purge deletes. A batch starts behind the last id of the one before it, and a
deletion never touches the rows of a later batch. -/
def purgedIds (t : SmsTable) : List Nat := (t.rows.toChunks purgeBatchSize).flatMap purgeBatch

/-- `purgeNearDuplicateSms`. -/
def purgeNearDuplicateSms (t : SmsTable) : SmsTable := t.delete fun r => r.id ∈ purgedIds t

/-- `purgeNearDuplicateSms` where only the given deletions succeed: the others fail, or the query of a later batch
has failed before them. -/
def purgeWhere (succeeds : Nat → Bool) (t : SmsTable) : SmsTable :=
  t.delete fun r => r.id ∈ purgedIds t && succeeds r.id

/-! ### Purpose -/

/-- Two rows of one message: the same body, matching numbers, timestamps inside the window. -/
def Copies (a b : Sms) : Prop :=
  b.body = a.body ∧ phonesMatch b.sender a.sender = true ∧ inWindow b.timestamp a.timestamp = true

instance (a b : Sms) : Decidable (Copies a b) := by unfold Copies; infer_instance

/-- What the purge takes for one message that is stored twice. -/
def Repeats (a b : Sms) : Prop :=
  b.body = a.body ∧ phonesMatch b.sender a.sender = true ∧ isNear64 smsDedupWindowMs b.timestamp a.timestamp = true

instance (a b : Sms) : Decidable (Repeats a b) := by unfold Repeats; infer_instance

/-- The insertion of the second row was not compared with the first one: it compares nothing with a message that has no
body or no time, and only the first 40 of the rows before it that have its body and are close to it. -/
def Overlooked (t : SmsTable) (a b : Row Sms) : Prop :=
  b.val.body = [] ∨ b.val.timestamp = 0 ∨ inWindow b.val.timestamp a.val.timestamp = false ∨ candidateLimit ≤
    (t.rows.filter fun r => r.id < a.id && (r.val.body == b.val.body && inWindow r.val.timestamp b.val.timestamp)).length

/-- The row is dated too far from the other one: the purge filters the other one out when it comes to the row. -/
def IsFar (r k : Row Sms) : Prop := isNear64 (smsDedupWindowMs * 2) r.val.timestamp k.val.timestamp = false

/-- The purge no longer compares the two rows: a row of the same body between them is dated too far from the first. -/
def Forgotten (batch : List (Row Sms)) (a b : Row Sms) : Prop :=
  ∃ r ∈ batch, a.id < r.id ∧ r.id < b.id ∧ r.val.body = a.val.body ∧ IsFar r a

/-- In no batch do rows repeat each other that were not compared when the second one was inserted. -/
def NoneOverlooked (t : SmsTable) : Prop :=
  ∀ batch ∈ t.rows.toChunks purgeBatchSize, ∀ a ∈ batch, ∀ b ∈ batch, a.id < b.id → Repeats a.val b.val →
    Overlooked t a b → Forgotten batch a b

/-- Every row that the purge deletes is a copy of one before it that stays, whichever deletions succeed. -/
def PurgeSound (t : SmsTable) : Prop :=
  ∀ succeeds, ∀ r ∈ t.rows, r ∉ (purgeWhere succeeds t).rows →
    ∃ k ∈ (purgeWhere succeeds t).rows, k.id < r.id ∧ Copies k.val r.val

/-- No two rows that stay are copies of each other. -/
def PurgeComplete (t : SmsTable) : Prop :=
  (purgeNearDuplicateSms t).rows.Pairwise fun a b => ¬ Copies a.val b.val

/-- The row repeats none before it in the batch. -/
def Novel (batch : List (Row Sms)) (r : Row Sms) : Prop :=
  ∀ k ∈ batch, k.id < r.id → ¬ Repeats k.val r.val

/-- A row of the same body that repeats nothing stands between the two and is dated too far from the first: the first
one is filtered out for good. -/
def Dropped (batch : List (Row Sms)) (a b : Row Sms) : Prop :=
  ∃ r ∈ batch, Novel batch r ∧ a.id < r.id ∧ r.id < b.id ∧ r.val.body = a.val.body ∧ IsFar r a

/-- Whatever the row repeats in its batch has been filtered out before. -/
def Unmatched (batch : List (Row Sms)) (r : Row Sms) : Prop :=
  ∀ k ∈ batch, k.id < r.id → Repeats k.val r.val → Dropped batch k r

/-- Copies stand in one batch, and no row of their body between them is dated too far from the first. -/
def AllCompared (t : SmsTable) : Prop :=
  ∀ a ∈ t.rows, ∀ b ∈ t.rows, a.id < b.id → Copies a.val b.val →
    ∃ batch ∈ t.rows.toChunks purgeBatchSize, a ∈ batch ∧ b ∈ batch ∧ ¬ Forgotten batch a b

/-- Two rows are copies of each other and each is unmatched in its batch. -/
def UnmatchedCopies (t : SmsTable) : Prop :=
  ∃ a ∈ t.rows, ∃ b ∈ t.rows, a.id < b.id ∧ Copies a.val b.val ∧
    ∀ batch ∈ t.rows.toChunks purgeBatchSize, (a ∈ batch → Unmatched batch a) ∧ (b ∈ batch → Unmatched batch b)

/-- No two rows of one batch, with the same body and matching numbers, are dated so far apart that their difference
wraps around into the window. -/
def NeverWraps (t : SmsTable) : Prop :=
  ∀ batch ∈ t.rows.toChunks purgeBatchSize, ∀ a ∈ batch, ∀ b ∈ batch, a.id < b.id → Repeats a.val b.val →
    Copies a.val b.val

/-- A row is still remembered when another one comes whose time wraps around to its own, and this one is a copy of no
row before it. -/
def WrapsAround (t : SmsTable) : Prop :=
  ∃ batch ∈ t.rows.toChunks purgeBatchSize, ∃ a ∈ batch, ∃ b ∈ batch, a.id < b.id ∧ Repeats a.val b.val ∧
    Unmatched batch a ∧ ¬ Forgotten batch a b ∧ ∀ k ∈ t.rows, k.id < b.id → ¬ Copies k.val b.val

instance (r k : Row Sms) : Decidable (IsFar r k) := by unfold IsFar; infer_instance

instance (batch : List (Row Sms)) (a b : Row Sms) : Decidable (Forgotten batch a b) := by
  unfold Forgotten; infer_instance

instance (t : SmsTable) : Decidable (AllCompared t) := by
  unfold AllCompared
  have hcompared (a b : Row Sms) :
      Decidable (∃ batch ∈ t.rows.toChunks purgeBatchSize, a ∈ batch ∧ b ∈ batch ∧ ¬ Forgotten batch a b) :=
    inferInstance
  have hcopies (a b : Row Sms) := @instDecidableForall (Copies a.val b.val) _ _ (hcompared a b)
  have hearlier (a b : Row Sms) := @instDecidableForall (a.id < b.id) _ _ (hcopies a b)
  infer_instance

instance (batch : List (Row Sms)) (r : Row Sms) : Decidable (Novel batch r) := by unfold Novel; infer_instance

instance (batch : List (Row Sms)) (a b : Row Sms) : Decidable (Dropped batch a b) := by
  unfold Dropped; infer_instance

instance (batch : List (Row Sms)) (r : Row Sms) : Decidable (Unmatched batch r) := by
  unfold Unmatched; infer_instance

instance (t : SmsTable) : Decidable (UnmatchedCopies t) := by unfold UnmatchedCopies; infer_instance

instance (t : SmsTable) : Decidable (NeverWraps t) := by unfold NeverWraps; infer_instance

instance (t : SmsTable) : Decidable (WrapsAround t) := by unfold WrapsAround; infer_instance

instance (t : SmsTable) : Decidable (PurgeComplete t) := by unfold PurgeComplete; infer_instance

end Gafam.Relay
