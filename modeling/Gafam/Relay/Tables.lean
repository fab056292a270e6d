import Gafam.Go.Text
import Gafam.Lib.Table

/-!
# The relay's tables

The SQLite tables that the SMS side of the relay reads and writes. `gafam_sms` carries the unique
index `idx_gafam_sms_dedup` over sender, body and timestamp as a field of its type, so a table with
two rows of one key cannot be built.
-/

namespace Gafam.Relay

open Gafam.Go Gafam.Lib

/-! ## Phone numbers -/

/-- `phoneDigits`. -/
def phoneDigits (s : GoString) : GoString := s.filter isDigit

/-- The last nine digits of a number, or all of them if there are fewer. -/
def lastNine (s : GoString) : GoString :=
  let out := phoneDigits s
  if 9 ≤ out.length then out.drop (out.length - 9) else out

/-- `phonesMatch`. -/
def phonesMatch (a b : GoString) : Bool :=
  lastNine a != [] && lastNine b != [] && lastNine a == lastNine b

/-- `phoneToSubdomain`. -/
def phoneToSubdomain (phone : GoString) : GoString :=
  let digits := phoneDigits phone
  if (str "33").isPrefixOf digits && 11 ≤ digits.length then "0" ++ digits.drop 2 else digits

/-! ## `gafam_sms` -/

/-- The values of the column `status`: `inbox` and `purgatory` for received messages, `outbound` for
queued ones, `sent` and `failed` after a delivery report. -/
inductive SmsStatus
  | inbox
  | purgatory
  | outbound
  | sent
  | failed
deriving DecidableEq, Repr

/-- The row was stored as a received message. -/
def SmsStatus.isInbound : SmsStatus → Bool
  | inbox | purgatory => true
  | outbound | sent | failed => false

/-- A row of `gafam_sms`. -/
structure Sms where
  sender : GoString
  body : GoString
  timestamp : Int
  status : SmsStatus
deriving DecidableEq, Repr

/-- The columns of the unique index. -/
def Sms.key (m : Sms) : GoString × GoString × Int := (m.sender, m.body, m.timestamp)

/-- The table `gafam_sms` with its unique index. -/
structure SmsTable extends Table Sms where
  unique : rows.Pairwise fun a b : Row Sms => a.val.key ≠ b.val.key

namespace SmsTable

/-- The table of a new node. -/
def empty : SmsTable := { Table.empty with unique := .nil }

theorem unique_append {l : List (Row Sms)} {m : Sms} {k : Nat}
    (h : l.Pairwise fun a b : Row Sms => a.val.key ≠ b.val.key) (hm : ∀ r ∈ l, r.val.key ≠ m.key) :
    (l ++ [(⟨k, m⟩ : Row Sms)]).Pairwise fun a b : Row Sms => a.val.key ≠ b.val.key := by
  refine List.pairwise_append.2 ⟨h, by simp, fun a ha b hb => ?_⟩
  simp only [List.mem_singleton] at hb
  subst hb
  exact hm a ha

/-- `INSERT OR IGNORE`: the new row id, or `none` when the unique index ignores the row. -/
def insertOrIgnore (t : SmsTable) (m : Sms) : Option Nat × SmsTable :=
  if h : ∀ r ∈ t.rows, r.val.key ≠ m.key then
    (some t.nextId, { t.toTable.insert m with unique := unique_append t.unique h })
  else (none, t)

/-- `UPDATE gafam_sms SET status = ? WHERE id = ?`. -/
def setStatus (t : SmsTable) (k : Nat) (status : SmsStatus) : SmsTable :=
  { t.toTable.update k fun m => { m with status := status } with
    unique := by
      refine List.pairwise_map.2 (t.unique.imp ?_)
      intro a b hab
      split <;> split <;> exact hab }

/-- `DELETE FROM gafam_sms WHERE p`. -/
def delete (t : SmsTable) (p : Row Sms → Bool) : SmsTable :=
  { t.toTable.delete p with unique := t.unique.filter _ }

/-- The rolling window: only the `n` newest rows stay. -/
def keepLast (t : SmsTable) (n : Nat) : SmsTable :=
  { t.toTable.keepLast n with unique := t.unique.sublist (List.drop_sublist _ _) }

@[simp] theorem rows_empty : empty.rows = [] := rfl

end SmsTable

/-! ## The other tables -/

/-- A row of `gafam_outbox`; `smsId` is 0 where the column is null. -/
structure OutboxMsg where
  recipient : GoString
  body : GoString
  smsId : Nat
deriving DecidableEq, Repr

/-- A row of `gafam_911_seen`; `createdAt` is in seconds. -/
structure SeenAlert where
  alertId : GoString
  createdAt : Nat
deriving DecidableEq, Repr

/-- A row of `trusted_guardians`. -/
structure Guardian where
  name : GoString
  phoneNumber : GoString
  keyword : GoString
  keyword911 : GoString
  relay911 : Int
deriving DecidableEq, Repr

/-- A row of `gafam_contacts`. -/
structure Contact where
  phone : GoString
  name : GoString
deriving DecidableEq, Repr

/-- A row of `gafam_sessions`. -/
structure Session where
  sessionId : GoString
  phone : GoString
  sessionToken : GoString
deriving DecidableEq, Repr

end Gafam.Relay
