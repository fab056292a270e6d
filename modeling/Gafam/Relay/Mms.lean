import Gafam.Go.Encoding
import Gafam.Lib.Steps
import Gafam.Lib.Table
import Mathlib.Data.List.Perm.Subperm

/-!
# The MMS store

An MMS is a row of `gafam_mms` and any number of rows of `gafam_mms_parts`. The phone uploads messages with their
parts, the oldest messages are deleted, and the web client is given the newest ones with what is in their parts.
-/

namespace Gafam.Relay

open Gafam.Go Gafam.Lib

structure MmsPartPayload where
  contentType : GoString
  name : GoString
  text : GoString
  dataBase64 : GoString
deriving DecidableEq

structure MmsMsgPayload where
  address : GoString
  timestamp : Int
  type : Int
  parts : List MmsPartPayload
deriving DecidableEq

/-- A row of `gafam_mms`. -/
structure MmsRow where
  address : GoString
  timestamp : Int
  status : GoString
  createdAt : GoString
deriving DecidableEq

/-- A row of `gafam_mms_parts`; no data is `NULL`. -/
structure MmsPart where
  mmsID : Nat
  contentType : GoString
  name : GoString
  text : GoString
  data : Option GoString
deriving DecidableEq

structure MmsStore where
  mms : Table MmsRow
  parts : Table MmsPart

namespace MmsStore

def empty : MmsStore := ⟨.empty, .empty⟩

/-! ## Uploads -/

/-- The data of a part, `none` if the part is passed over. A nil slice is stored as `NULL`. -/
def dataBlob (p : MmsPartPayload) : Option (Option GoString) :=
  if p.dataBase64 = [] then some none
  else match base64Decode p.dataBase64 with
    | none => none
    | some b => if 4 * 1024 * 1024 < b.length then none else some (some b)

/-- One part of the message with this id. -/
def storePart (id : Nat) (s : MmsStore) (p : MmsPartPayload) : MmsStore :=
  if p.contentType = [] then s
  else match dataBlob p with
    | none => s
    | some data => { s with parts := s.parts.insert ⟨id, p.contentType, p.name, p.text, data⟩ }

/-- The part is stored. -/
def isStored (p : MmsPartPayload) : Bool := p.contentType ≠ [] && (dataBlob p).isSome

/-- The columns of the unique index. -/
def holds (s : MmsStore) (m : MmsMsgPayload) : Bool :=
  s.mms.rows.any fun r => r.val.address = m.address && r.val.timestamp = m.timestamp

/-- The message is stored: it is complete, and `INSERT OR IGNORE` does not ignore it. -/
def accepts (s : MmsStore) (m : MmsMsgPayload) : Bool :=
  m.address ≠ [] && m.timestamp ≠ 0 && m.parts ≠ [] && !s.holds m

/-- The row of a message. -/
def row (createdAt : GoString) (m : MmsMsgPayload) : MmsRow :=
  ⟨m.address, m.timestamp, if m.type = 2 then "outbound" else "inbox", createdAt⟩

/-- One message of `syncMmsHandler`. -/
def storeMessage (createdAt : GoString) (s : MmsStore) (m : MmsMsgPayload) : MmsStore :=
  if s.accepts m then
    m.parts.foldl (storePart s.mms.nextId) { s with mms := s.mms.insert (row createdAt m) }
  else s

/-- `DELETE FROM gafam_mms WHERE id NOT IN (SELECT id … ORDER BY id DESC LIMIT n)` -/
def trim (n : Nat) (s : MmsStore) : MmsStore := { s with mms := s.mms.keepLast n }

/-- The rolling window. -/
def window : Nat := 5000

/-- `syncMmsHandler`, as far as the tables go. -/
def syncMmsHandler (createdAt : GoString) (messages : List MmsMsgPayload) (s : MmsStore) : MmsStore :=
  if 500 < messages.length then s else trim window (messages.foldl (storeMessage createdAt) s)

/-! ## The list for the web client -/

/-- A part in the answer of `getMmsHandler`. -/
structure PartEntry where
  id : Nat
  contentType : GoString
  name : GoString
  text : Option GoString
  size : Option Nat
deriving DecidableEq

structure Entry where
  id : Nat
  sender : GoString
  timestamp : Int
  status : GoString
  direction : GoString
  createdAt : GoString
  parts : List PartEntry

/-- `LENGTH(data)` is `NULL` where the data is, and `Scan` has no number for it. -/
def partEntry (r : Row MmsPart) : Option PartEntry :=
  r.val.data.map fun data =>
    ⟨r.id, r.val.contentType, r.val.name, if r.val.text = [] then none else some r.val.text,
      if data.length = 0 then none else some data.length⟩

def entry (s : MmsStore) (r : Row MmsRow) : Entry where
  id := r.id
  sender := r.val.address
  timestamp := r.val.timestamp
  status := r.val.status
  direction := if r.val.status = "outbound" ∨ r.val.status = "sent" then "outbound" else "inbound"
  createdAt := r.val.createdAt
  parts := (s.parts.rows.filter fun p => p.val.mmsID = r.id).filterMap partEntry

/-- What the query of `getMmsHandler` may answer: rows of one timestamp come in any order. -/
structure NewestFirst (t : Table MmsRow) where
  rows : List (Row MmsRow)
  rest : List (Row MmsRow)
  perm : (rows ++ rest).Perm t.rows
  sorted : (rows ++ rest).Pairwise fun a b => b.val.timestamp ≤ a.val.timestamp
  limit : rows.length = min 2000 t.rows.length

def getMmsHandler (s : MmsStore) (o : NewestFirst s.mms) : List Entry := o.rows.map s.entry

/-! ## Runs -/

/-- An upload is its messages one after the other, and the deletion behind them. -/
inductive Action
  | message (createdAt : GoString) (m : MmsMsgPayload)
  | trim

def step (s : MmsStore) : Action → Option MmsStore
  | .message createdAt m => some (s.storeMessage createdAt m)
  | .trim => some (s.trim window)

/-! ## Purpose -/

/-- The entry tells what the part holds. -/
structure Describes (e : PartEntry) (p : Row MmsPart) : Prop where
  id : e.id = p.id
  contentType : e.contentType = p.val.contentType
  name : e.name = p.val.name
  text : e.text.getD [] = p.val.text
  size : e.size.getD 0 = (p.val.data.getD []).length

/-- Every part belongs to a message, and is listed with it. -/
structure Sound (s : MmsStore) : Prop where
  refers : ∀ p ∈ s.parts.rows, ∃ m ∈ s.mms.rows, m.id = p.val.mmsID
  listed : ∀ o : NewestFirst s.mms, ∀ p ∈ s.parts.rows, ∀ m ∈ s.mms.rows, p.val.mmsID = m.id →
    ∃ e ∈ s.getMmsHandler o, e.id = m.id ∧ ∃ x ∈ e.parts, Describes x p

/-- Fewer than 2000 other messages are as new as this one. -/
def Recent (t : Table MmsRow) (m : Row MmsRow) : Prop :=
  (t.rows.filter fun r => r.id ≠ m.id && m.val.timestamp ≤ r.val.timestamp).length < 2000

/-- The message has a part that is stored. -/
def hasParts (s : MmsStore) (id : Nat) : Prop := ∃ p ∈ s.parts.rows, p.val.mmsID = id

/-- What is stored comes with data and leaves all messages with parts among the newest ones, and no message with
parts is deleted. -/
def Keeps (s : MmsStore) : Action → Prop
  | .message createdAt m => s.accepts m = true →
    (∀ p ∈ m.parts, p.contentType ≠ [] → p.dataBase64 ≠ []) ∧
      ∀ r ∈ (s.mms.insert (row createdAt m)).rows,
        s.hasParts r.id ∨ r.id = s.mms.nextId ∧ m.parts.any isStored = true → Recent (s.mms.insert (row createdAt m)) r
  | .trim => ∀ r ∈ s.mms.rows, s.hasParts r.id → r ∈ (s.trim window).mms.rows

end MmsStore

/-!
## Uploads whose inserts fail

The handler of the upload inserts the row of a message and then its parts, each by a statement of its own
whose error it passes over. A message that is uploaded again is known by the row, whatever has become of
the parts.
-/

/-- A message of an upload, whether the insert of its row fails, and which inserts of its parts do. -/
structure MmsUpload where
  createdAt : GoString
  message : MmsMsgPayload
  rowFails : Bool
  fails : Nat → Bool

namespace MmsImport

open MmsStore

/-- One part, with its place in the message. -/
def importPart (fails : Nat → Bool) (id : Nat) (s : MmsStore) (p : MmsPartPayload × Nat) : MmsStore :=
  if fails p.2 then s else storePart id s p.1

/-- One message of `syncMmsHandler`. -/
def importMessage (s : MmsStore) (u : MmsUpload) : MmsStore :=
  if u.rowFails then s
  else if s.accepts u.message then
    u.message.parts.zipIdx.foldl (importPart u.fails s.mms.nextId)
      { s with mms := s.mms.insert (row u.createdAt u.message) }
  else s

/-- The message is taken for a duplicate: it is complete, and `INSERT OR IGNORE` has inserted no row. -/
def skips (s : MmsStore) (u : MmsUpload) : Bool :=
  !u.rowFails && u.message.address ≠ [] && u.message.timestamp ≠ 0 && u.message.parts ≠ [] && s.holds u.message

inductive Action
  | message (u : MmsUpload)
  | trim

def step (s : MmsStore) : Action → Option MmsStore
  | .message u => some (importMessage s u)
  | .trim => some (s.trim window)

/-! ### Purpose -/

/-- The row of a part of this message, `none` if the rules for its type and its size do not admit it. -/
def partRow (id : Nat) (p : MmsPartPayload) : Option MmsPart :=
  if p.contentType = [] then none
  else (dataBlob p).map fun data => ⟨id, p.contentType, p.name, p.text, data⟩

/-- The parts that are stored for a message. -/
def storedParts (s : MmsStore) (id : Nat) : List MmsPart :=
  (s.parts.rows.map Row.val).filter fun p => p.mmsID = id

/-- The row has the columns of the unique index. -/
def Matches (m : MmsMsgPayload) (r : Row MmsRow) : Prop :=
  r.val.address = m.address ∧ r.val.timestamp = m.timestamp

/-- What is skipped as a duplicate is stored: the row has its direction, and all its parts. -/
def LosesNothing (s : MmsStore) : Action → Prop
  | .message u => skips s u = true → ∀ r ∈ s.mms.rows, Matches u.message r →
      r.val.status = (row u.createdAt u.message).status ∧
        (u.message.parts.filterMap (partRow r.id)).Subperm (storedParts s r.id)
  | .trim => True

/-! ### Uploads that have made rows -/

/-- The uploads that have made rows, with the ids of these. -/
abbrev Log := List (Nat × MmsUpload)

def note (s : MmsStore) : Action → Log → Log
  | .message u, log =>
    if !u.rowFails && s.accepts u.message then log ++ [(s.mms.nextId, u)] else log
  | .trim, log => log

/-- The parts of an upload that are admitted, and whose inserts do not fail. -/
def inserted (u : MmsUpload) (id : Nat) : List MmsPart :=
  u.message.parts.zipIdx.filterMap fun p => if u.fails p.2 then none else partRow id p.1

/-- The upload that has made the row of a skipped message had the same direction and, among its parts whose
inserts did not fail, all parts of this one. -/
def SameUpload (h : MmsStore × Log) : Action → Prop
  | .message u => skips h.1 u = true → ∀ r ∈ h.1.mms.rows, Matches u.message r →
      ∀ e ∈ h.2, e.1 = r.id → (e.2.message.type = 2 ↔ u.message.type = 2) ∧
        (u.message.parts.filterMap (partRow r.id)).Subperm (inserted e.2 r.id)
  | .trim => True

end MmsImport

end Gafam.Relay
