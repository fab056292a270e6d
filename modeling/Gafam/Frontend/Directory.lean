import Gafam.Go.Encoding
import Gafam.Js.Json
import Gafam.Lib.Steps
import Gafam.Lib.Table

/-!
# The directory of safes

The relay deposits encrypted safes under a phone number and a time; a web client that knows both fetches
one, once. Each lookup is a request of its own to a serverless worker, and each of its database
statements is a step of its own, so that lookups overlap in any way. The clock counts milliseconds, and
the database writes down whole seconds.
-/

namespace Gafam.Frontend

open Gafam.Go Gafam.Js
open Gafam.Lib (Row Table)

/-! ## The database -/

/-- A row of `directory_v2`. -/
structure Safe where
  phoneNumber : JsString
  encryptedSafe : JsString
  salt : JsString
  iv : JsString
  accessTime : JsString
  consumed : Bool
  createdAt : Nat

/-- A row of `rate_limits`. -/
structure RateLimit where
  ipAddress : JsString
  phoneNumber : JsString
  attempts : Nat
  lastAttemptAt : Nat

/-- A lookup: where it comes from, and the phone and the time that it asks for. -/
structure Lookup where
  ip : JsString
  phone : JsString
  time : JsString
deriving DecidableEq

/-- The row counts the attempts of this address on this phone. -/
def RateLimit.Counts (r : RateLimit) (l : Lookup) : Prop := r.ipAddress = l.ip ∧ r.phoneNumber = l.phone

instance (r : RateLimit) (l : Lookup) : Decidable (r.Counts l) :=
  inferInstanceAs (Decidable (_ ∧ _))

/-- The tables. There is one counter for each address and phone. -/
structure Database where
  safes : Table Safe
  rates : List RateLimit
  unique : rates.Pairwise fun r r' =>
    ¬ (r.ipAddress = r'.ipAddress ∧ r.phoneNumber = r'.phoneNumber)

theorem unique_nil : ([] : List RateLimit).Pairwise fun r r' =>
    ¬ (r.ipAddress = r'.ipAddress ∧ r.phoneNumber = r'.phoneNumber) :=
  .nil

/-- `SELECT … FROM rate_limits WHERE ip_address = ? AND phone_number = ?`. -/
def Database.rate (db : Database) (l : Lookup) : Option RateLimit := db.rates.find? fun r => r.Counts l

/-- A row that keeps its address and its phone. -/
def RateLimit.put (r : RateLimit) (attempts lastAttemptAt : Nat) : RateLimit :=
  { r with attempts := attempts, lastAttemptAt := lastAttemptAt }

/-- `UPDATE rate_limits SET attempts = 0, last_attempt_at = CURRENT_TIMESTAMP WHERE …`. -/
def Database.resetRate (db : Database) (l : Lookup) (now : Nat) : Database where
  safes := db.safes
  rates := db.rates.map fun r => if r.Counts l then r.put 0 now else r
  unique := by
    refine List.pairwise_map.2 (db.unique.imp ?_)
    intro r r' h
    split_ifs <;> exact h

/-- `INSERT INTO rate_limits … ON CONFLICT … DO UPDATE SET attempts = attempts + 1, …`. -/
def Database.countAttempt (db : Database) (l : Lookup) (now : Nat) : Database where
  safes := db.safes
  rates :=
    if db.rates.any (fun r => r.Counts l) then
      db.rates.map fun r => if r.Counts l then r.put (r.attempts + 1) now else r
    else db.rates ++ [⟨l.ip, l.phone, 1, now⟩]
  unique := by
    split_ifs with h
    · refine List.pairwise_map.2 (db.unique.imp ?_)
      intro r r' h
      split_ifs <;> exact h
    · refine List.pairwise_append.2 ⟨db.unique, List.pairwise_singleton _ _, fun r hr r' hr' => ?_⟩
      obtain rfl := List.mem_singleton.1 hr'
      intro hcounts
      exact h (List.any_eq_true.2 ⟨r, hr, decide_eq_true hcounts⟩)

/-- The seconds in a day, `-24 hours`. -/
def day : Nat := 24 * 60 * 60

/-- `SELECT SUM(attempts) … WHERE phone_number = ? AND last_attempt_at > datetime('now', '-24 hours')`. -/
def Database.globalAttempts (db : Database) (phone : JsString) (now : Nat) : Nat :=
  ((db.rates.filter fun r => r.phoneNumber = phone ∧ now < r.lastAttemptAt + day).map
    RateLimit.attempts).sum

/-- The row answers this lookup: `WHERE phone_number = ? AND access_time = ? AND consumed = 0`. -/
def Safe.Matches (s : Safe) (l : Lookup) : Prop :=
  s.phoneNumber = l.phone ∧ s.accessTime = l.time ∧ s.consumed = false

instance (s : Safe) (l : Lookup) : Decidable (s.Matches l) := inferInstanceAs (Decidable (_ ∧ _ ∧ _))

/-- The row that `… ORDER BY created_at DESC LIMIT 1` returns, when the engine chooses `pick` among the
newest ones; `none` if this is not one of them. -/
def Database.newest (db : Database) (l : Lookup) (pick : Nat) : Option (Row Safe) :=
  db.safes.rows.find? fun r =>
    r.id = pick ∧ r.val.Matches l ∧
      ∀ r' ∈ db.safes.rows, r'.val.Matches l → r'.val.createdAt ≤ r.val.createdAt

/-- `DELETE FROM directory_v2 WHERE id = ?`. -/
def Database.destroy (db : Database) (id : Nat) : Database :=
  { db with safes := db.safes.delete fun r => r.id = id }

/-- `UPDATE directory_v2 SET consumed = 1 WHERE id = ?`. -/
def Database.consume (db : Database) (id : Nat) : Database :=
  { db with safes := db.safes.update id fun s => { s with consumed := true } }

/-! ## The answers -/

/-- An answer of the route. -/
structure Response where
  status : Nat
  body : List (JsString × JsonValue)

/-- The names of the fields of an answer. -/
def Response.fields (r : Response) : List JsString := r.body.map Prod.fst

/-- `btoa`. -/
def btoa (bytes : GoString) : JsString := ascii (base64Encode bytes)

/-- The random bytes of a decoy. -/
structure Decoy where
  safe : GoString
  salt : GoString
  iv : GoString
  safe_length : 130 ≤ safe.length ∧ safe.length < 150
  salt_length : salt.length = 16
  iv_length : iv.length = 12

/-- The fields of every answer with a safe. -/
def safeFields (encryptedSafe salt iv : JsString) : List (JsString × JsonValue) :=
  [(ascii "success", .bool true), (ascii "encrypted_safe", .str encryptedSafe), (ascii "salt", .str salt),
    (ascii "iv", .str iv)]

/-- `429`. -/
def tooMany : Response :=
  ⟨429, [(ascii "error", .str (ascii "Too many attempts. Try again later."))]⟩

/-- The safe itself. -/
def realAnswer (s : Safe) : Response := ⟨200, safeFields s.encryptedSafe s.salt s.iv⟩

/-- A decoy for a time without a safe. -/
def fakeAnswer (d : Decoy) : Response :=
  ⟨200, safeFields (btoa d.safe) (btoa d.salt) (btoa d.iv) ++ [(ascii "is_fake", .bool true)]⟩

/-- A decoy in place of a safe that is destroyed. -/
def lockdownAnswer (d : Decoy) : Response :=
  ⟨200, safeFields (btoa d.safe) (btoa d.salt) (btoa d.iv) ++
    [(ascii "locked_down_correct_time", .bool true)]⟩

/-! ## A lookup -/

/-- Ten minutes, in milliseconds. -/
def tenMinutes : Nat := 10 * 60 * 1000

/-- `now - lastAttempt < tenMinutes`. -/
def RateLimit.Recent (r : RateLimit) (clock : Nat) : Prop := clock < 1000 * r.lastAttemptAt + tenMinutes

instance (r : RateLimit) (clock : Nat) : Decidable (r.Recent clock) :=
  inferInstanceAs (Decidable (clock < _))

/-- Where a lookup stands: what it has read, and which statement comes next. -/
inductive Phase
  | start
  | rated (row : Option RateLimit)
  | resetting
  | looking
  | found (safe : Option (Row Safe))
  | destroying (safe : Row Safe)
  | counting (safe : Option (Row Safe))
  | consuming (safe : Row Safe)
  | answered (safe : Option (Row Safe)) (response : Response)

/-- One step of a lookup. The engine and the random generator decide on `pick` and `decoy`. -/
def lookupStep (db : Database) (clock : Nat) (l : Lookup) (pick : Option Nat) (decoy : Decoy) :
    Phase → Option (Database × Phase)
  | .start => some (db, .rated (db.rate l))
  | .rated none => some (db, .looking)
  | .rated (some row) =>
    if row.Recent clock then
      if 3 ≤ row.attempts then some (db, .answered none tooMany) else some (db, .looking)
    else some (db, .resetting)
  | .resetting => some (db.resetRate l (clock / 1000), .looking)
  | .looking =>
    match pick with
    | some id => (db.newest l id).map fun safe => (db, .found (some safe))
    | none => if ∃ r ∈ db.safes.rows, r.val.Matches l then none else some (db, .found none)
  | .found none => some (db, .counting none)
  | .found (some safe) =>
    if 20 ≤ db.globalAttempts l.phone (clock / 1000) then some (db, .destroying safe)
    else some (db, .counting (some safe))
  | .destroying safe => some (db.destroy safe.id, .answered none (lockdownAnswer decoy))
  | .counting none => some (db.countAttempt l (clock / 1000), .answered none (fakeAnswer decoy))
  | .counting (some safe) => some (db.countAttempt l (clock / 1000), .consuming safe)
  | .consuming safe => some (db.consume safe.id, .answered (some safe) (realAnswer safe.val))
  | .answered _ _ => none

/-! ## Lookups side by side -/

/-- A lookup and where it stands. -/
structure Request where
  lookup : Lookup
  phase : Phase

/-- The directory: the database, the clock, and the lookups that have arrived. -/
structure Directory where
  db : Database
  clock : Nat
  requests : List Request

/-- What can happen. A worker can die between two statements. -/
inductive DirectoryAction
  | tick (ms : Nat)
  | deposit (phone encryptedSafe salt iv accessTime : JsString)
  | arrive (l : Lookup)
  | turn (i : Nat) (pick : Option Nat) (decoy : Decoy)
  | die (i : Nat)

/-- `INSERT INTO directory_v2 …`. -/
def Database.deposit (db : Database) (phone encryptedSafe salt iv accessTime : JsString) (now : Nat) :
    Database :=
  { db with safes := db.safes.insert ⟨phone, encryptedSafe, salt, iv, accessTime, false, now⟩ }

/-- One step of the directory. -/
def directoryStep (s : Directory) : DirectoryAction → Option Directory
  | .tick ms => some { s with clock := s.clock + ms }
  | .deposit phone encryptedSafe salt iv accessTime =>
    if phone = [] ∨ encryptedSafe = [] ∨ salt = [] ∨ iv = [] ∨ accessTime = [] then some s
    else some { s with db := s.db.deposit phone encryptedSafe salt iv accessTime (s.clock / 1000) }
  | .arrive l =>
    if l.phone = [] ∨ l.time = [] then none
    else some { s with requests := s.requests ++ [⟨l, .start⟩] }
  | .turn i pick decoy => do
    let r ← s.requests[i]?
    let (db, phase) ← lookupStep s.db s.clock r.lookup pick decoy r.phase
    some { s with db := db, requests := s.requests.set i ⟨r.lookup, phase⟩ }
  | .die i => do
    let r ← s.requests[i]?
    match r.phase with
    | .answered _ _ => none
    | _ => some { s with requests := s.requests.eraseIdx i }

/-! ## One delivery -/

/-- The row whose safe the answer contains. -/
def Phase.delivered : Phase → Option Nat
  | .answered (some safe) _ => some safe.id
  | _ => none

/-- The number of answers with the safe of a row. -/
def Directory.deliveries (s : Directory) (id : Nat) : Nat :=
  s.requests.countP fun r => r.phase.delivered = some id

/-- A lookup that marks a safe as consumed finds it in the table, and not consumed yet. -/
def TakesUnconsumed (s : Directory) : DirectoryAction → Prop
  | .turn i _ _ => ∀ l safe, s.requests[i]? = some ⟨l, .consuming safe⟩ →
      ∃ row ∈ s.db.safes.rows, row.id = safe.id ∧ row.val.consumed = false
  | _ => True

/-! ## The shape of an answer -/

/-- A lookup can get this answer when nothing else happens meanwhile. -/
def Replies (db : Database) (clock : Nat) (l : Lookup) (r : Response) : Prop :=
  ∃ choices : List (Option Nat × Decoy), ∃ db' safe,
    Lib.runSteps directoryStep ⟨db, clock, [⟨l, .start⟩]⟩
        (choices.map fun c => .turn 0 c.1 c.2) =
      some ⟨db', clock, [⟨l, .answered safe r⟩]⟩

/-- The rate limiter refuses the lookup. -/
def Refused (db : Database) (clock : Nat) (l : Lookup) : Prop :=
  ∃ row, db.rate l = some row ∧ row.Recent clock ∧ 3 ≤ row.attempts

/-- The time that is asked for is one at which there is a safe. -/
def RealTime (db : Database) (l : Lookup) : Prop := ∃ r ∈ db.safes.rows, r.val.Matches l

/-- The databases differ only in whether there is a safe for this phone at this time. -/
structure DifferInTime (l : Lookup) (db db' : Database) : Prop where
  rates : db.rates = db'.rates
  others : ∀ r, ¬ r.val.Matches l → (r ∈ db.safes.rows ↔ r ∈ db'.safes.rows)
  real : RealTime db l
  unreal : ¬ RealTime db' l

/-- The answers cannot be told apart by their shape. -/
def SameShape (r r' : Response) : Prop := r.status = r'.status ∧ ∀ f, f ∈ r.fields ↔ f ∈ r'.fields

/-! ## The two limits -/

/-- A lookup that was let through to a safe or a decoy, at this second of the database. -/
structure Served where
  lookup : Lookup
  second : Nat

/-- The next step lets the lookup through: to a safe or a decoy when it is counted, and to a decoy when
its safe is destroyed. -/
def Phase.serves : Phase → Bool
  | .counting _ => true
  | .destroying _ => true
  | _ => false

/-- The lookups let through so far. -/
def served (s : Directory) (a : DirectoryAction) (log : List Served) : List Served :=
  match a with
  | .turn i _ _ =>
    match s.requests[i]? with
    | some r => if r.phase.serves then log ++ [⟨r.lookup, s.clock / 1000⟩] else log
    | none => log
  | _ => log

/-- The same address asks for the same phone. -/
def Lookup.SameSource (l l' : Lookup) : Prop := l.ip = l'.ip ∧ l.phone = l'.phone

instance (l l' : Lookup) : Decidable (l.SameSource l') := inferInstanceAs (Decidable (_ ∧ _))

/-- Ten minutes, in seconds. -/
def tenMinuteSeconds : Nat := 600

/-- In ten minutes, whenever they start, at most three lookups of one address on one phone. -/
def AtMostThree (log : List Served) : Prop :=
  ∀ l start, log.countP (fun e =>
    e.lookup.SameSource l ∧ start ≤ e.second ∧ e.second < start + tenMinuteSeconds) ≤ 3

/-- The counter of a phone is at least the number of lookups in the last 24 hours. -/
def CountsAll (s : Directory) (log : List Served) : Prop :=
  ∀ phone, log.countP (fun e => e.lookup.phone = phone ∧ s.clock / 1000 < e.second + day) ≤
    s.db.globalAttempts phone (s.clock / 1000)

/-- The counter of an address on a phone. -/
def Database.attempts (db : Database) (l : Lookup) : Nat := ((db.rate l).map RateLimit.attempts).getD 0

/-- A reset forgets no lookup of the last `window` seconds. -/
def ForgetsOnlyOld (window : Nat) (s : Directory) (l : Lookup) : Prop :=
  ∀ row, s.db.rate l = some row → row.attempts = 0 ∨ row.lastAttemptAt + window ≤ s.clock / 1000

/-- No lookup is answered without being counted, a reset forgets no lookup of the last `window` seconds,
and no lookup is counted whose counter does not stay within the limit. -/
def KeepsCount (window : Nat) (limit : Option Nat) (s : Directory) : DirectoryAction → Prop
  | .turn i _ _ => ∀ l phase, s.requests[i]? = some ⟨l, phase⟩ →
    match phase with
    | .resetting => ForgetsOnlyOld window s l
    | .destroying _ => False
    | .counting _ => ∀ n ∈ limit, s.db.attempts l < n
    | _ => True
  | _ => True

end Gafam.Frontend
