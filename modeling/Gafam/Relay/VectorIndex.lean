import Gafam.Go.Text
import Gafam.Lib.Steps
import Mathlib.Logic.Function.Basic

/-!
# The index of embeddings

Embeddings are rows of `gafam_embeddings`, and a copy of all of them is kept in memory for the search. An
upsert writes its row and then reloads the copy: it reads the table, and installs what it has read. Other
calls go on between these steps.
-/

namespace Gafam.Relay

open Gafam.Go Gafam.Lib

/-! ## Vectors as blobs -/

/-- A `float32`, by its bits. -/
abbrev Float32Bits := UInt32

/-- `binary.LittleEndian.PutUint32`. -/
def putUint32 (v : Float32Bits) : GoString :=
  [UInt8.ofNat v.toNat, UInt8.ofNat (v.toNat / 256), UInt8.ofNat (v.toNat / 65536),
    UInt8.ofNat (v.toNat / 16777216)]

/-- `floatsToBytes`. -/
def floatsToBytes (f : List Float32Bits) : GoString := f.flatMap putUint32

/-- `bytesToFloats`. -/
def bytesToFloats : GoString → List Float32Bits
  | a :: b :: c :: d :: rest =>
    UInt32.ofNat (a.toNat + 256 * b.toNat + 65536 * c.toNat + 16777216 * d.toNat) :: bytesToFloats rest
  | _ => []

/-! ## The table and the copy -/

/-- A row of `gafam_embeddings`. -/
structure EmbeddingRow where
  entityType : GoString
  entityID : GoString
  model : GoString
  vec : GoString
deriving DecidableEq

/-- `vectorEntry`. -/
structure VectorEntry where
  entityID : GoString
  model : GoString
  vec : List Float32Bits
deriving DecidableEq

def EmbeddingRow.entry (r : EmbeddingRow) : VectorEntry := ⟨r.entityID, r.model, bytesToFloats r.vec⟩

/-- The columns of the unique index. -/
def EmbeddingRow.SameKey (r q : EmbeddingRow) : Prop :=
  r.entityType = q.entityType ∧ r.entityID = q.entityID ∧ r.model = q.model

instance (r q : EmbeddingRow) : Decidable (r.SameKey q) := by
  unfold EmbeddingRow.SameKey
  infer_instance

/-- `INSERT … ON CONFLICT(entity_type, entity_id, model) DO UPDATE`. -/
def upsertRow (r : EmbeddingRow) : List EmbeddingRow → List EmbeddingRow
  | [] => [r]
  | q :: rows => if q.SameKey r then r :: rows else q :: upsertRow r rows

/-- One row of the loop of `reload`. -/
def addRow (byType : GoString → List VectorEntry) (r : EmbeddingRow) : GoString → List VectorEntry :=
  Function.update byType r.entityType (byType r.entityType ++ [r.entry])

def groupRows (rows : List EmbeddingRow) : GoString → List VectorEntry := rows.foldl addRow fun _ => []

/-! ## Calls side by side -/

inductive VectorCall
  | upsert (entityType entityID model : GoString) (vec : List Float32Bits)
  | reload
deriving DecidableEq

/-- Where a call stands. `reading` is a reload that is about to read, `read` one that has. -/
inductive VectorPhase
  | writing
  | reading
  | read (number : Nat) (rows : List EmbeddingRow)
  | returned
deriving DecidableEq

/-- The table, the copy, and the calls. The readings of the table are numbered; `installed` is the number of
the one that the copy is from, `lastWrite` that of the last one before the last write. -/
structure VectorStore where
  rows : List EmbeddingRow
  byType : GoString → List VectorEntry
  calls : List (VectorCall × VectorPhase)
  reads : Nat
  installed : Nat
  lastWrite : Nat

/-- After `initVectorStore`, whose reload is the first reading. -/
def VectorStore.boot (rows : List EmbeddingRow) : VectorStore := ⟨rows, groupRows rows, [], 1, 1, 0⟩

inductive VectorAction
  | call (c : VectorCall)
  | write (i : Nat)
  | failWrite (i : Nat)
  | read (i : Nat)
  | failRead (i : Nat)
  | install (i : Nat)

/-- The first step of a call; `upsertEmbedding` refuses an empty vector. -/
def VectorCall.begin : VectorCall → VectorPhase
  | .upsert _ _ _ vec => if vec = [] then .returned else .writing
  | .reload => .reading

/-- The row that a call writes. -/
def VectorCall.row : VectorCall → Option EmbeddingRow
  | .upsert entityType entityID model vec => some ⟨entityType, entityID, model, floatsToBytes vec⟩
  | .reload => none

namespace VectorStore

/-- The call goes on to the next phase. -/
def advance (s : VectorStore) (i : Nat) (c : VectorCall) (p : VectorPhase) : VectorStore :=
  { s with calls := s.calls.set i (c, p) }

def step (s : VectorStore) : VectorAction → Option VectorStore
  | .call c => some { s with calls := s.calls ++ [(c, c.begin)] }
  | .write i =>
    match s.calls[i]? with
    | some (c, .writing) =>
      c.row.map fun r =>
        { s.advance i c .reading with rows := upsertRow r s.rows, lastWrite := s.reads }
    | _ => none
  | .failWrite i =>
    match s.calls[i]? with
    | some (c, .writing) => some (s.advance i c .returned)
    | _ => none
  | .read i =>
    match s.calls[i]? with
    | some (c, .reading) =>
      some { s.advance i c (.read (s.reads + 1) s.rows) with reads := s.reads + 1 }
    | _ => none
  | .failRead i =>
    match s.calls[i]? with
    | some (c, .reading) => some (s.advance i c .returned)
    | _ => none
  | .install i =>
    match s.calls[i]? with
    | some (c, .read number rows) =>
      some { s.advance i c .returned with byType := groupRows rows, installed := number }
    | _ => none

/-- All calls have returned. -/
def Quiet (s : VectorStore) : Prop := ∀ x ∈ s.calls, x.2 = .returned

instance (s : VectorStore) : Decidable s.Quiet :=
  inferInstanceAs (Decidable (∀ x ∈ s.calls, x.2 = .returned))

/-- The copy is the set of the embeddings in the table. -/
def Agrees (s : VectorStore) : Prop :=
  ∀ entityType entry, entry ∈ s.byType entityType ↔
    ∃ r ∈ s.rows, r.entityType = entityType ∧ r.entry = entry

/-- No reading is installed over a later one, and the reading of an upsert does not fail. -/
def InOrder (s : VectorStore) : VectorAction → Prop
  | .install i => ∀ c number rows, s.calls[i]? = some (c, .read number rows) → s.installed < number
  | .failRead i => ∀ c p, s.calls[i]? = some (c, p) → c = .reload
  | _ => True

end VectorStore

end Gafam.Relay
