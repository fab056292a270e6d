import Gafam.Lib.Table
import Gafam.Relay.Contacts

/-!
# The synchronisation of contacts, statement by statement

`syncContactsHandler` works in one transaction and rolls it back when a statement fails. Of the rows of its
query it takes those that it can scan, and it does not ask whether the rows came to an end by an error.
-/

namespace Gafam.Relay

open Gafam.Go Gafam.Lib

/-! ## The table -/

/-- The columns of `gafam_contacts` that the synchronisation neither reads nor writes. Times are the texts that
the database keeps. -/
structure ContactColumns where
  createdAt : GoString
  email : GoString
  profession : GoString
  skills : GoString
  languages : GoString
  notes : GoString
  autoProfile : GoString
  autoSkills : GoString
  autoLanguages : GoString
  autoProfession : GoString
  lastAnalyzedAt : Option GoString
  lastAnalysisTs : Int
deriving DecidableEq

/-- The defaults of the table. -/
def ContactColumns.default (now : GoString) : ContactColumns where
  createdAt := now
  email := []
  profession := []
  skills := "[]"
  languages := "[]"
  notes := []
  autoProfile := []
  autoSkills := "[]"
  autoLanguages := "[]"
  autoProfession := []
  lastAnalyzedAt := none
  lastAnalysisTs := 0

/-- A row of `gafam_contacts`, apart from its id. -/
structure StoredContact where
  phone : GoString
  name : GoString
  updatedAt : GoString
  columns : ContactColumns
deriving DecidableEq

/-- The table, whose numbers are unique. -/
structure StoredContacts where
  table : Table StoredContact
  unique : (table.rows.map fun r => r.val.phone).Nodup

namespace StoredContacts

/-- The numbers in the table. -/
def phones (t : StoredContacts) : List GoString := t.table.rows.map fun r => r.val.phone

/-- The rows after the statement for one contact with a number. -/
def upsertRow (t : Table StoredContact) (now : GoString) (c : ContactPayload) : Table StoredContact :=
  match t.rows.find? fun r => r.val.phone = c.phone with
  | some r => t.update r.id fun old => { old with name := c.displayName, updatedAt := now }
  | none => t.insert ⟨c.phone, c.displayName, now, .default now⟩

theorem map_update_phone (t : Table StoredContact) (id : Nat) {f : StoredContact → StoredContact}
    (hf : ∀ c, (f c).phone = c.phone) :
    (t.update id f).rows.map (fun r => r.val.phone) = t.rows.map fun r => r.val.phone := by
  show (t.rows.map fun r => if r.id = id then ⟨r.id, f r.val⟩ else r).map _ = _
  rw [List.map_map]
  refine List.map_congr_left fun r _ => ?_
  rw [Function.comp_apply]
  split_ifs
  · exact hf r.val
  · rfl

theorem unique_upsertRow (t : StoredContacts) (now : GoString) (c : ContactPayload) :
    ((upsertRow t.table now c).rows.map fun r => r.val.phone).Nodup := by
  unfold upsertRow
  cases h : t.table.rows.find? fun r => r.val.phone = c.phone with
  | some r =>
    have hsame := map_update_phone t.table r.id
      (f := fun old => { old with name := c.displayName, updatedAt := now }) fun _ => rfl
    rw [hsame]
    exact t.unique
  | none =>
    rw [Table.rows_insert, List.map_append]
    refine List.nodup_append.2 ⟨t.unique, List.nodup_singleton _, fun p hp q hq => ?_⟩
    rw [List.mem_singleton.1 hq]
    rintro rfl
    obtain ⟨r, hr, hrp⟩ := List.mem_map.1 hp
    exact absurd hrp (by simpa using List.find?_eq_none.1 h r hr)

/-- The statement for one contact with a number. -/
def upsert (t : StoredContacts) (now : GoString) (c : ContactPayload) : StoredContacts :=
  ⟨upsertRow t.table now c, unique_upsertRow t now c⟩

/-- `DELETE FROM gafam_contacts WHERE phone = ?`. -/
def delete (t : StoredContacts) (phone : GoString) : StoredContacts where
  table := t.table.delete fun r => r.val.phone = phone
  unique := (List.filter_sublist.map _).nodup t.unique

end StoredContacts

/-! ## The handler -/

/-- What becomes of the body: it is no JSON, it cannot be decrypted, or it has a text. -/
inductive SyncBody
  | invalid
  | undecryptable
  | text (t : ContactsText)

/-- What becomes of the statements: whether the transaction begins, the statement can be prepared, the statement for
the `i`-th contact with a number succeeds, the query succeeds, and the row with a number is delivered and scanned. The
times are those of the statements. -/
structure Statements where
  begins : Bool
  prepares : Bool
  inserts : Nat → Bool
  queries : Bool
  scans : GoString → Bool
  times : Nat → GoString

/-- The loop over the contacts from the `i`-th with a number on; `none` if a statement fails. -/
def upsertAll (o : Statements) : Nat → List ContactPayload → StoredContacts → Option StoredContacts
  | _, [], t => some t
  | i, c :: contacts, t =>
    if c.phone = [] then upsertAll o i contacts t
    else if o.inserts i then upsertAll o (i + 1) contacts (t.upsert (o.times i) c)
    else none

/-- The numbers that are to be deleted: those of the rows that come, if they have not been seen. -/
def stalePhones (o : Statements) (contacts : List ContactPayload) (t : StoredContacts) : List GoString :=
  t.phones.filter fun p => o.scans p && decide (p ∉ seenPhones contacts)

/-- `syncContactsHandler`: the status of the answer, and the table. A transaction that is rolled back leaves the table
as it was. -/
def syncContacts (o : Statements) (body : SyncBody) (t : StoredContacts) : Nat × StoredContacts :=
  match body with
  | .invalid => (400, t)
  | .undecryptable => (403, t)
  | .text text =>
    match readContacts text with
    | none => (400, t)
    | some (full, contacts) =>
      if full && maxContacts < contacts.length then (400, t)
      else if !o.begins then (500, t)
      else if !o.prepares then (500, t)
      else
        match upsertAll o 0 contacts t with
        | none => (500, t)
        | some t' =>
          if full then
            if !o.queries then (500, t)
            else (200, (stalePhones o contacts t').foldl StoredContacts.delete t')
          else (200, t')

/-! ## Purpose -/

/-- The name that comes last with the number. -/
def lastName (contacts : List ContactPayload) (phone : GoString) : Option GoString :=
  ((contacts.filter fun c => c.phone = phone).getLast?).map ContactPayload.displayName

/-- The table has the contacts of the list, with the columns of those that were there before. -/
structure FollowsList (contacts : List ContactPayload) (t t' : StoredContacts) : Prop where
  phones : ∀ phone, phone ∈ t'.phones ↔ phone ∈ seenPhones contacts
  names : ∀ r ∈ t'.table.rows, lastName contacts r.val.phone = some r.val.name
  columns : ∀ r ∈ t.table.rows, ∀ r' ∈ t'.table.rows, r'.val.phone = r.val.phone →
    r'.id = r.id ∧ r'.val.columns = r.val.columns

/-- What the answer stands for. -/
def Settles (contacts : List ContactPayload) (t : StoredContacts) (answer : Nat × StoredContacts) : Prop :=
  (answer.1 = 200 → FollowsList contacts t answer.2) ∧ (answer.1 ≠ 200 → answer.2 = t)

/-- How many contacts have a number. -/
def numbered (contacts : List ContactPayload) : Nat := (contacts.filter fun c => c.phone ≠ []).length

/-- A statement fails whose error ends the handler. -/
def StopsEarly (o : Statements) (contacts : List ContactPayload) : Prop :=
  o.begins = false ∨ o.prepares = false ∨ (∃ i < numbered contacts, o.inserts i = false) ∨ o.queries = false

/-- Every contact that is missing from the list comes out of the query. -/
def ScansStale (o : Statements) (contacts : List ContactPayload) (t : StoredContacts) : Prop :=
  ∀ phone ∈ t.phones, phone ∉ seenPhones contacts → o.scans phone = true

end Gafam.Relay
