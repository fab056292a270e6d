import Gafam.Go.Json
import Gafam.Go.Net
import Gafam.Go.Time
import Gafam.Lib.Steps
import Mathlib.Data.List.Sort
import Mathlib.Data.List.Dedup

/-!
# The logs of the phone (`logs.go`)

Every day has a file with one JSON value a line, and a row of `log_days` with the size of the file. When all files
together are larger than the quota, whole days are erased.
-/

namespace Gafam.Relay

open Gafam.Go Gafam.Lib

def maxLogsBytes : Nat := 2 ^ 30

structure LogEntry where
  ts : Int64
  source : GoString
  level : GoString
  tag : GoString
  message : GoString
deriving DecidableEq

namespace LogEntry

/-! ## Entries -/

/-- Caps the size of a message. -/
def capMessage (n : Nat) (message : GoString) : GoString :=
  if n < message.length then message.take n ++ "…[truncated]" else message

/-- The entry with its defaults, `now` being the time of its arrival. -/
def fill (now : Int64) (e : LogEntry) : LogEntry where
  ts := if e.ts = 0 then now else e.ts
  source := if e.source = [] then "apk" else e.source
  level := if e.level = [] then "I" else e.level
  tag := if e.tag = [] then "GAFAM" else e.tag
  message := capMessage 8000 e.message

def day (e : LogEntry) : GoString := formatDay e.ts.toInt

def members (e : LogEntry) : List (GoString × GoString) :=
  [(str "ts", itoa e.ts.toInt), (str "source", marshalString e.source), (str "level", marshalString e.level),
    (str "tag", marshalString e.tag), (str "message", marshalString e.message)]

/-- `append(b, '\n')` -/
def line (e : LogEntry) : GoString := marshalObject e.members ++ [0x0A]

/-! ## Reading an entry -/

/-- A value for a field of type `string`; `none` is an error. -/
def readString (old : GoString) : JsonTree → Option GoString
  | .str s => some s
  | .null => some old
  | _ => none

/-- A value for a field of type `int64`. -/
def readInt64 (old : Int64) : JsonTree → Option Int64
  | .num text => (atoi text).map Int64.ofInt
  | .null => some old
  | _ => none

def member (e : LogEntry) (m : GoString × JsonTree) : Option LogEntry :=
  if isField "ts" m.1 then (readInt64 e.ts m.2).map fun ts => { e with ts := ts }
  else if isField "source" m.1 then (readString e.source m.2).map fun s => { e with source := s }
  else if isField "level" m.1 then (readString e.level m.2).map fun s => { e with level := s }
  else if isField "tag" m.1 then (readString e.tag m.2).map fun s => { e with tag := s }
  else if isField "message" m.1 then (readString e.message m.2).map fun s => { e with message := s }
  else some e

def zero : LogEntry := ⟨0, [], [], [], []⟩

/-- `json.Unmarshal` -/
def unmarshal (text : GoString) : Option LogEntry :=
  match parseJson text with
  | some (.obj members) => members.foldlM member zero
  | some .null => some zero
  | _ => none

end LogEntry

/-! ## The store -/

/-- A row of `log_days`. -/
structure LogDay where
  day : GoString
  bytes : Nat
  lines : Nat
deriving DecidableEq

structure LogStore where
  files : GoString → Option GoString
  days : List LogDay

namespace LogStore

def empty : LogStore := ⟨fun _ => none, []⟩

def totalBytes (days : List LogDay) : Nat := (days.map (·.bytes)).sum

/-- `INSERT INTO log_days … ON CONFLICT(day) DO UPDATE` -/
def countDay (days : List LogDay) (day : GoString) (bytes lines : Nat) : List LogDay :=
  if day ∈ days.map (·.day) then
    days.map fun d => if d.day = day then { d with bytes := d.bytes + bytes, lines := d.lines + lines } else d
  else days ++ [⟨day, bytes, lines⟩]

/-- The entries of one day are appended to its file. -/
def appendDay (es : List LogEntry) (s : LogStore) (day : GoString) : LogStore :=
  let dayEntries := es.filter (·.day = day)
  let text := dayEntries.flatMap LogEntry.line
  { files := fun d => if d = day then some ((s.files d).getD [] ++ text) else s.files d
    days := countDay s.days day text.length dayEntries.length }

/-- The file and the row of a day are removed. -/
def removeDay (s : LogStore) (day : GoString) : LogStore where
  files := fun d => if d = day then none else s.files d
  days := s.days.filter (·.day ≠ day)

/-! ## The quota -/

/-- The days that the loop of `enforceLogQuota` erases. -/
def erasedDays (quota total : Int) : List LogDay → List LogDay
  | [] => []
  | d :: days => if total ≤ quota then [] else d :: erasedDays quota (total - d.bytes) days

/-- `ORDER BY day ASC` -/
def sortedDays (days : List LogDay) : List LogDay := days.insertionSort fun d e => d.day ≤ e.day

def erased (s : LogStore) : List LogDay :=
  if totalBytes s.days ≤ maxLogsBytes then []
  else erasedDays maxLogsBytes (totalBytes s.days) (sortedDays s.days)

def enforceLogQuota (s : LogStore) : LogStore := s.erased.foldl (fun s d => s.removeDay d.day) s

/-! ## Requests -/

/-- The entries of a batch with the times at which they were looked at. -/
abbrev LogBatch := List (Int64 × LogEntry)

def filled (batch : LogBatch) : List LogEntry := batch.map fun p => p.2.fill p.1

/-- What a batch writes, before the quota is enforced; `order` is the order in which the map of the days is gone
through. -/
def writeBatch (s : LogStore) (batch : LogBatch) (order : List GoString) : LogStore :=
  order.foldl (appendDay (filled batch)) s

def appendLogEntries (s : LogStore) (batch : LogBatch) (order : List GoString) : LogStore :=
  if batch = [] then s else (s.writeBatch batch order).enforceLogQuota

/-- `deleteWebLogsHandler` with a day. -/
def deleteDay (s : LogStore) (day : GoString) : LogStore := if parsesDate day then s.removeDay day else s

/-- The lines of a file, up to the first one that does not fit into the buffer of the scanner with its end. -/
def scanLines (max : Nat) (text : GoString) : List GoString :=
  let parts := splitByte 0x0A text
  let lines := if parts.getLast? = some [] then parts.dropLast else parts
  (lines.takeWhile (·.length < max)).map fun l => if l.getLast? = some 0x0D then l.dropLast else l

/-- `none` is an error. -/
def readLogDay (s : LogStore) (day : GoString) (offset limit : Nat) : Option (List LogEntry × Nat) :=
  if parsesDate day then
    match s.files day with
    | none => some ([], 0)
    | some text =>
      let all := (scanLines (1024 * 1024) text).filterMap LogEntry.unmarshal
      if all.length ≤ offset then some ([], all.length)
      else some ((all.reverse.drop offset).take limit, all.length)
  else none

/-! ## Steps -/

inductive LogEvent
  | append (batch : LogBatch) (order : List GoString)
  | deleteDay (day : GoString)
  | deleteAll
  | enforce

def step (s : LogStore) : LogEvent → Option LogStore
  | .append batch order =>
    if order.Perm ((filled batch).map (·.day)).dedup then some (s.appendLogEntries batch order) else none
  | .deleteDay day => some (s.deleteDay day)
  | .deleteAll => some empty
  | .enforce => some s.enforceLogQuota

/-! ## Purpose -/

/-- The rows say how large the files are, and every file has a row. -/
structure Accounted (s : LogStore) : Prop where
  nodup : (s.days.map (·.day)).Nodup
  sizes : ∀ d ∈ s.days, ∃ text, s.files d.day = some text ∧ d.bytes = text.length ∧ d.lines = text.count 0x0A
  known : ∀ day text, s.files day = some text → ∃ d ∈ s.days, d.day = day

/-- These are the names of two days, of which the first one is earlier. -/
def Older (day day' : GoString) : Prop :=
  ∃ n n' : Int, formatDate (dateOf n) = day ∧ formatDate (dateOf n') = day' ∧ n < n'

/-- The store on which the quota is enforced. -/
def enforced (s : LogStore) : LogEvent → Option LogStore
  | .append batch order => if batch = [] then none else some (s.writeBatch batch order)
  | .enforce => some s
  | _ => none

/-- What a step has to leave behind, and what it may erase. -/
structure Accounts (s : LogStore) (e : LogEvent) (s' : LogStore) : Prop where
  accounted : Accounted s'
  quota : totalBytes s'.days ≤ maxLogsBytes ∨ s'.days = []
  oldestFirst : ∀ t, s.enforced e = some t →
    t.erased.Pairwise (fun d d' => Older d.day d'.day) ∧ ∀ d ∈ t.erased, ∀ r ∈ s'.days, Older d.day r.day

/-- Where days have to be erased, the order of their names is that of time. -/
def InOrder (s : LogStore) (e : LogEvent) : Prop :=
  ∀ t, s.enforced e = some t → maxLogsBytes < totalBytes t.days →
    ∀ d ∈ t.days, ∀ d' ∈ t.days, d.day < d'.day → Older d.day d'.day

/-- The answers to all queries for a day are the pages of a list of these entries of the day, the newest first. -/
def ReadsBack (s : LogStore) (log : List LogEntry) (day : GoString) : Prop :=
  ∃ l : List LogEntry, l.Perm (log.filter (·.day = day)) ∧ (l.Pairwise fun e e' => e'.ts ≤ e.ts) ∧
    ∀ offset limit, s.readLogDay day offset limit = some ((l.drop offset).take limit, l.length)

/-- The quota is not exceeded. -/
def UnderQuota (s : LogStore) (e : LogEvent) : Prop :=
  ∀ t, s.enforced e = some t → totalBytes t.days ≤ maxLogsBytes

/-- Batches, each with the order in which its days are written. -/
def appends (batches : List (LogBatch × List GoString)) : List LogEvent := batches.map fun b => .append b.1 b.2

/-- The entries of batches, with their defaults. -/
def stored (batches : List (LogBatch × List GoString)) : List LogEntry := batches.flatMap fun b => filled b.1

/-- Within a day the entries have come in the order of their times. -/
def Chronological (log : List LogEntry) : Prop := log.Pairwise fun e e' => e.day = e'.day → e.ts ≤ e'.ts

end LogStore

/-- What comes back of an entry is the entry: it is UTF-8, its line fits into the buffer of the scanner, and its year
has four digits. -/
structure LogEntry.Readable (e : LogEntry) : Prop where
  source : validString e.source = true
  level : validString e.level = true
  tag : validString e.tag = true
  message : validString e.message = true
  short : e.line.length ≤ 1024 * 1024
  year : 0 ≤ (dateOf (e.ts.toInt / 86400000)).year ∧ (dateOf (e.ts.toInt / 86400000)).year ≤ 9999

end Gafam.Relay
