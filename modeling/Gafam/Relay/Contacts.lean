import Gafam.Go.Json
import Gafam.Go.Net
import Mathlib.Data.List.Sort

/-!
# Contacts as a CSV file

The profiles of the contacts are exported as one CSV record each, and records are imported into the table.
`encoding/csv` is taken to give back the records that it was given, so a file is its list of records.
-/

namespace Gafam.Relay

open Gafam.Go

/-- A column that holds the JSON text of a `[]string`; `none` is `null`. -/
abbrev StringsColumn := Option (List GoString)

/-- The slice that the column is decoded into. -/
def StringsColumn.strings (c : StringsColumn) : List GoString := c.getD []

/-- A row of `gafam_contacts`, as far as the profile goes. -/
structure ContactExtended where
  phone : GoString
  name : GoString
  email : GoString
  profession : GoString
  skills : StringsColumn
  languages : StringsColumn
  notes : GoString
  autoProfession : GoString
  autoSkills : StringsColumn
deriving DecidableEq, Repr

/-- The table, in the order of its rows. -/
structure ContactsTable where
  rows : List ContactExtended
  unique : (rows.map ContactExtended.phone).Nodup

/-! ## Export -/

/-- `strings.Join`. -/
def joinStrings (sep : GoString) (l : List GoString) : GoString := sep.intercalate l

/-- A list in one cell. -/
def listCell (c : StringsColumn) : GoString := joinStrings "; " c.strings

def csvHeader : List GoString :=
  ["phone_number", "display_name", "email", "profession", "skills", "languages", "notes", "auto_profession",
    "auto_skills"]

def csvRecord (c : ContactExtended) : List GoString :=
  [c.phone, c.name, c.email, c.profession, listCell c.skills, listCell c.languages, c.notes, c.autoProfession,
    listCell c.autoSkills]

/-- The rows as the export's query returns them: by name, contacts of one name in any order. -/
structure ByName (t : ContactsTable) where
  rows : List ContactExtended
  perm : rows.Perm t.rows
  sorted : rows.Pairwise fun c d => c.name ≤ d.name

/-- `exportContactsCSVHandler`, for the rows that the query returns. -/
def exportContactsCSV (rows : List ContactExtended) : List (List GoString) := csvHeader :: rows.map csvRecord

/-! ## Import -/

/-- The column of a key: the last one, if several have the same name. -/
def colMap (header : List GoString) (key : GoString) : Option Nat :=
  (header.zipIdx.reverse.find? fun col => toLower (trimSpace col.1) == key).map Prod.snd

/-- `getVal`. -/
def getVal (header row : List GoString) (keys : List GoString) : GoString :=
  ((keys.findSome? fun k => (colMap header k).bind fun idx => row[idx]?).map trimSpace).getD []

/-- `json.Marshal` of a slice of strings that is nil when nothing has been appended to it. -/
def marshalStrings (l : List GoString) : StringsColumn := if l = [] then none else some (l.map reencode)

/-- The pieces of a cell: between semicolons or, where there is none, between commas. -/
def listParts (raw : GoString) : List GoString :=
  let parts := splitByte 0x3B raw
  if parts.length = 1 ∧ contains raw [0x2C] then splitByte 0x2C raw else parts

/-- `parseList`. -/
def parseList (raw : GoString) : StringsColumn :=
  if raw = [] then some []
  else marshalStrings (((listParts raw).map trimSpace).filter (· ≠ []))

/-- What a record of the file says about a contact. -/
structure ImportedContact where
  phone : GoString
  name : GoString
  email : GoString
  profession : GoString
  skills : StringsColumn
  languages : StringsColumn
  notes : GoString

/-- A record of the file; one without a phone number is skipped. -/
def readRecord (header row : List GoString) : Option ImportedContact :=
  let phone := getVal header row ["phone_number", "phone", "telephone", "tel"]
  if phone = [] then none
  else some
    { phone := phone
      name := getVal header row ["display_name", "name", "nom"]
      email := getVal header row ["email", "mail"]
      profession := getVal header row ["profession", "metier", "job"]
      skills := parseList (getVal header row ["skills", "competences"])
      languages := parseList (getVal header row ["languages", "langues"])
      notes := getVal header row ["notes", "note", "commentaires"] }

/-- The row that is inserted for a new number, with the defaults of the table. -/
def ImportedContact.newRow (r : ImportedContact) : ContactExtended :=
  { phone := r.phone, name := r.name, email := r.email, profession := r.profession, skills := r.skills,
    languages := r.languages, notes := r.notes, autoProfession := [], autoSkills := some [] }

/-- `CASE WHEN excluded.x != e THEN excluded.x ELSE gafam_contacts.x END`. -/
def unlessEmpty {α : Type} [DecidableEq α] (e old new : α) : α := if new ≠ e then new else old

/-- What the conflict clause makes of a row. -/
def ContactExtended.updatedBy (c : ContactExtended) (r : ImportedContact) : ContactExtended :=
  { c with
    name := unlessEmpty [] c.name r.name
    email := unlessEmpty [] c.email r.email
    profession := unlessEmpty [] c.profession r.profession
    skills := unlessEmpty (some []) c.skills r.skills
    languages := unlessEmpty (some []) c.languages r.languages
    notes := unlessEmpty [] c.notes r.notes }

/-- The rows after the statement for one record. -/
def upsertContact (rows : List ContactExtended) (r : ImportedContact) : List ContactExtended :=
  if rows.any fun c => c.phone == r.phone then
    rows.map fun c => if c.phone = r.phone then c.updatedBy r else c
  else rows ++ [r.newRow]

/-- `importContactsCSVHandler`: the rows it leaves behind, and the number of records it imported or the
text of its error. -/
def importContactsCSV (rows : List ContactExtended) : List (List GoString) →
    List ContactExtended × Except GoString Nat
  | header :: row :: records =>
    let imported := (row :: records).filterMap (readRecord header)
    (imported.foldl upsertContact rows, .ok imported.length)
  | _ => (rows, .error "CSV contains no data rows")

/-! ## Purpose -/

/-- Two rows show the same profile. -/
structure SameFields (c d : ContactExtended) : Prop where
  name : c.name = d.name
  email : c.email = d.email
  profession : c.profession = d.profession
  skills : c.skills.strings = d.skills.strings
  languages : c.languages.strings = d.languages.strings
  notes : c.notes = d.notes
  autoProfession : c.autoProfession = d.autoProfession
  autoSkills : c.autoSkills.strings = d.autoSkills.strings

/-- The contacts are exported and the file is imported: every contact is there with the fields it had. -/
def RoundTrips (t : ContactsTable) (q : ByName t) : Prop :=
  ∀ c ∈ t.rows, ∃ c', (importContactsCSV t.rows (exportContactsCSV q.rows)).1.find? (·.phone == c.phone) = some c' ∧
    SameFields c' c

/-- The record of `c` is one of those for the number of `d`, and the cell says something. -/
def Speaks (d : ContactExtended) (cell : ContactExtended → GoString) (c : ContactExtended) : Bool :=
  trimSpace c.phone == d.phone && d.phone ≠ [] && trimSpace (cell c) ≠ []

/-- The contact whose record is the last one to say something about a cell of `d`. -/
def lastSpeaker (rows : List ContactExtended) (d : ContactExtended) (cell : ContactExtended → GoString) :
    Option ContactExtended :=
  rows.reverse.find? (Speaks d cell)

/-- A list that a cell can carry. -/
structure PlainList (l : List GoString) : Prop where
  trimmed : ∀ x ∈ l, trimSpace x = x
  nonempty : ∀ x ∈ l, x ≠ []
  valid : ∀ x ∈ l, validString x = true
  noSemicolon : ∀ x ∈ l, (0x3B : UInt8) ∉ x
  noComma : ∀ x, l = [x] → (0x2C : UInt8) ∉ x

/-- The strings in a cell that is not empty. -/
def readCell (raw : GoString) : List GoString :=
  (((listParts raw).map trimSpace).filter (· ≠ [])).map reencode

/-- The cell of one list stands for another: the list is plain, where they are the same. -/
def Carries (l own : List GoString) : Prop :=
  if l = own then PlainList own else readCell (trimSpace (joinStrings "; " l)) = own

/-- For every field of `d`, the last record that says something about it says what `d` has. -/
structure SaysItsOwn (rows : List ContactExtended) (d : ContactExtended) : Prop where
  name : ∀ c, lastSpeaker rows d (·.name) = some c → trimSpace c.name = d.name
  email : ∀ c, lastSpeaker rows d (·.email) = some c → trimSpace c.email = d.email
  profession : ∀ c, lastSpeaker rows d (·.profession) = some c → trimSpace c.profession = d.profession
  skills : ∀ c, lastSpeaker rows d (listCell ·.skills) = some c → Carries c.skills.strings d.skills.strings
  languages : ∀ c, lastSpeaker rows d (listCell ·.languages) = some c →
    Carries c.languages.strings d.languages.strings
  notes : ∀ c, lastSpeaker rows d (·.notes) = some c → trimSpace c.notes = d.notes

/-!
## The mirror of the phone's contacts

The phone (`ContactSync.kt`) sends all contacts that its provider lists, and the VPC makes its table follow
them: contacts that are missing from the list are deleted, with their profiles. The encrypted JSON text is
taken to carry the list over as it is, and the statements of the handler to succeed.
-/

/-! ### The phone -/

/-- A row of the provider; a column may be null. -/
structure ProviderRow where
  displayName : Option GoString
  number : Option GoString

/-- What comes of the query: an exception, no cursor, or a cursor over some rows. -/
inductive ProviderQuery
  | fails
  | noCursor
  | cursor (rows : List ProviderRow)

structure ContactPayload where
  phone : GoString
  displayName : GoString
  isVerified : Nat

/-- `replace(" ", "")` -/
def withoutSpaces (s : GoString) : GoString := s.filter (· ≠ 0x20)

/-- The contact of a row, unless it has no number. -/
def contactOf (r : ProviderRow) : Option ContactPayload :=
  let phone := (r.number.map withoutSpaces).getD []
  if phone ≠ [] then some ⟨phone, r.displayName.getD "Unknown", 1⟩ else none

/-- The two shapes of the payload, or neither; `none` is a list that is missing or null. -/
inductive ContactsText
  | envelope (full : Bool) (contacts : Option (List ContactPayload))
  | list (contacts : List ContactPayload)
  | other

/-- What `doSync` sends; an exception leaves it, and without a cursor there is nothing to go through. -/
def ContactSync.doSync : ProviderQuery → Option ContactsText
  | .fails => none
  | .noCursor => some (.envelope true (some []))
  | .cursor rows => some (.envelope true (some (rows.filterMap contactOf)))

/-! ### The VPC -/

/-- The row that is inserted for a new number, with the defaults of the table. -/
def ContactPayload.newRow (c : ContactPayload) : ContactExtended :=
  { phone := c.phone, name := c.displayName, email := [], profession := [], skills := some [],
    languages := some [], notes := [], autoProfession := [], autoSkills := some [] }

/-- The statement for one contact: a number that is there gets the new name. -/
def upsertName (rows : List ContactExtended) (c : ContactPayload) : List ContactExtended :=
  if c.phone = [] then rows
  else if rows.any fun r => r.phone == c.phone then
    rows.map fun r => if r.phone = c.phone then { r with name := c.displayName } else r
  else rows ++ [c.newRow]

theorem phones_upsertName (rows : List ContactExtended) (c : ContactPayload) :
    (upsertName rows c).map ContactExtended.phone =
      if c.phone = [] ∨ c.phone ∈ rows.map ContactExtended.phone then rows.map ContactExtended.phone
      else rows.map ContactExtended.phone ++ [c.phone] := by
  have hany : (rows.any fun r => r.phone == c.phone) = true ↔ c.phone ∈ rows.map ContactExtended.phone := by
    simp
  unfold upsertName
  by_cases hempty : c.phone = []
  · rw [if_pos hempty, if_pos (.inl hempty)]
  rw [if_neg hempty]
  by_cases hmem : c.phone ∈ rows.map ContactExtended.phone
  · rw [if_pos (hany.2 hmem), if_pos (.inr hmem), List.map_map]
    refine List.map_congr_left fun r _ => ?_
    rw [Function.comp_apply]
    split_ifs <;> rfl
  · rw [if_neg fun h => hmem (hany.1 h), if_neg (not_or.2 ⟨hempty, hmem⟩), List.map_append]
    rfl

theorem nodup_upsertNames (contacts : List ContactPayload) {rows : List ContactExtended}
    (h : (rows.map ContactExtended.phone).Nodup) :
    ((contacts.foldl upsertName rows).map ContactExtended.phone).Nodup := by
  induction contacts generalizing rows with
  | nil => exact h
  | cons c contacts ih =>
    refine ih ?_
    rw [phones_upsertName]
    split_ifs with hc
    · exact h
    · refine List.nodup_append.2 ⟨h, List.nodup_singleton _, fun a ha b hb => ?_⟩
      rw [List.mem_singleton.1 hb]
      rintro rfl
      exact hc (.inr ha)

namespace ContactsTable

/-- All contacts are inserted or renamed. -/
def upsertNames (t : ContactsTable) (contacts : List ContactPayload) : ContactsTable :=
  ⟨contacts.foldl upsertName t.rows, nodup_upsertNames contacts t.unique⟩

/-- Only the contacts with these numbers stay. -/
def keepPhones (t : ContactsTable) (phones : List GoString) : ContactsTable :=
  ⟨t.rows.filter fun r => r.phone ∈ phones, (List.filter_sublist.map _).nodup t.unique⟩

end ContactsTable

/-- The numbers that the handler has seen. -/
def seenPhones (contacts : List ContactPayload) : List GoString :=
  (contacts.map ContactPayload.phone).filter (· ≠ [])

/-- The contacts of a payload, and whether they are all. -/
def readContacts : ContactsText → Option (Bool × List ContactPayload)
  | .envelope full (some contacts) => some (full, contacts)
  | .envelope _ none => none
  | .list contacts => some (false, contacts)
  | .other => none

/-- The most contacts of a full list. -/
def maxContacts : Nat := 5000

/-- `syncContactsHandler`: the status of the answer, and the table. -/
def syncContactsHandler (text : ContactsText) (t : ContactsTable) : Nat × ContactsTable :=
  match readContacts text with
  | none => (400, t)
  | some (full, contacts) =>
    if full && maxContacts < contacts.length then (400, t)
    else
      let t := t.upsertNames contacts
      (200, if full then t.keepPhones (seenPhones contacts) else t)

/-- A run of `ContactSync` whose exchange with the VPC, if it comes to one, succeeds. -/
def ContactSync.run (query : ProviderQuery) (t : ContactsTable) : ContactsTable :=
  match ContactSync.doSync query with
  | none => t
  | some text => (syncContactsHandler text t).2

/-! ### Purpose -/

def ContactsTable.phones (t : ContactsTable) : List GoString := t.rows.map ContactExtended.phone

/-- The number, without its spaces, is on the phone. -/
def OnPhone (rows : List ProviderRow) (phone : GoString) : Prop :=
  phone ≠ [] ∧ ∃ r ∈ rows, ∃ number, r.number = some number ∧ phone = withoutSpaces number

/-- After the query the table has the numbers that are on the phone; without a cursor it is as before. -/
def Mirrors (query : ProviderQuery) (t t' : ContactsTable) : Prop :=
  match query with
  | .cursor rows => ∀ phone, phone ∈ t'.phones ↔ OnPhone rows phone
  | _ => t' = t

/-- There is a cursor, over at most 5000 rows with a number; or the table needs no change. -/
def Mirrorable (query : ProviderQuery) (t : ContactsTable) : Prop :=
  match query with
  | .fails => True
  | .noCursor => t.rows = []
  | .cursor rows =>
    (rows.filter fun r => (contactOf r).isSome).length ≤ maxContacts ∨ ∀ phone, phone ∈ t.phones ↔ OnPhone rows phone

end Gafam.Relay
