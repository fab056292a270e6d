import Gafam.Go.Text
import Gafam.Lib.Inodes
import Gafam.Lib.Threads

/-!
# The model on the disk of the VPC

`StartModelInstall` looks at the directory before it takes the lock, and the run that it starts reads and writes the
directory without the lock. So every look at a file, every section under the lock, and every call of the client or of
the file system is a step of its own; the answer to a call is part of the step. A run counts from the section that
announces it. Nothing else writes to the directory.
-/

namespace Gafam.Edge.Install

open Gafam.Go Gafam.Lib

/-- `edgeModelFiles`. -/
def edgeModelFiles : List GoString :=
  ["chat_template.jinja", "config.json", "genai_config.json", "model.onnx", "tokenizer.json", "tokenizer_config.json"]

/-- `tmp`, the file next to `dest`. -/
def tmp (dest : GoString) : GoString := dest ++ ".partial"

/-- `os.Stat` finds a file that is not empty. -/
def present (dir : Disk GoString) (name : GoString) : Bool := (dir.content name).any (· ≠ [])

/-- `st.Size()`, and 0 where there is no file. -/
def size (dir : Disk GoString) (name : GoString) : Nat := ((dir.content name).getD []).length

/-! ## The manifest -/

structure ModelFileEntry where
  name : GoString
  size : Nat

structure ModelManifest where
  ready : Bool
  files : List ModelFileEntry

/-- `buildModelManifest`. -/
def buildModelManifest (dir : Disk GoString) : ModelManifest where
  ready := edgeModelFiles.all (present dir)
  files := edgeModelFiles.map fun name => ⟨name, if present dir name then size dir name else 0⟩

/-- `InstallStatus.Status`, which is empty at the start of the relay. -/
inductive Status
  | unset
  | idle
  | downloading
  | ready
  | error
deriving DecidableEq

structure InstallStatus where
  status : Status
  progress : Int
  currentFile : GoString
  message : GoString
  error : GoString
deriving DecidableEq

structure WebModelStatus where
  ready : Bool
  files : List ModelFileEntry
  totalBytes : Nat
  install : InstallStatus

/-- `BuildWebModelStatus`, which has the manifest from before the lock. -/
def buildWebModelStatus (manifest : ModelManifest) (st : InstallStatus) : WebModelStatus where
  ready := manifest.ready
  files := manifest.files
  totalBytes := (manifest.files.map ModelFileEntry.size).sum
  install :=
    if manifest.ready then ⟨.ready, 100, [], "Modèle ONNX prêt sur le VPC", []⟩
    else if st.status = .unset then { st with status := .idle }
    else st

/-! ## Runs -/

/-- Where a run stands with a file: behind `os.Stat` with a file that is there, or with one that is to be fetched, and
then in `downloadFile`, where `fd` is the open file and `body` what the response has sent when it ends. -/
inductive Fetch
  | skip
  | announce
  | request
  | create (body : GoString)
  | read (fd : Nat) (body : GoString) (written : Nat)
  | report (fd : Nat) (body : GoString) (written : Nat)
  | close (body : GoString)
  | rename (body : GoString)
deriving DecidableEq

/-- Where `runModelInstall` stands: in its first loop, in its second one, at a file of that, or before it puts down an
error. -/
inductive Run
  | mkdir
  | expect (todo : List GoString) (totalExpected : Int)
  | loop (todo : List GoString) (done totalExpected : Int)
  | file (name : GoString) (rest : List GoString) (done totalExpected : Int) (fetch : Fetch)
  | failed (errMsg : GoString)
  | ended
deriving DecidableEq

/-- Where `StartModelInstall` stands: among the files of `EdgeModelOnDisk`, before the lock, and behind it. -/
inductive Request
  | look (todo : List GoString)
  | missing
  | answered (status : GoString)

/-- A request to the handler, or a run. -/
inductive Thread
  | request (r : Request)
  | run (r : Run)

/-- What the threads share. `served` are the bodies that the server has begun to send, each with the name of its file. -/
structure State where
  dir : Disk GoString
  installSt : InstallStatus
  served : List (GoString × GoString)

/-- The start of the relay, with what an earlier one has left in the directory. -/
def boot (dir : Disk GoString) : Threads State Thread := ⟨⟨dir, ⟨.unset, 0, [], [], []⟩, []⟩, []⟩

/-- What the outside answers to the call that a run has made. -/
inductive Answer
  | ok
  | fail (err : GoString)
  | length (n : Option Int)
  | body (b : GoString)
  | chunk (n : Nat)

/-- A sum of the type `int64`. -/
def add64 (a b : Int) : Int := (a + b).bmod (2 ^ 64)

def State.setStatus (s : State) (st : InstallStatus) : State := { s with installSt := st }

/-- `setInstallProgress`. -/
def setInstallProgress (s : State) (currentFile : GoString) (done total : Int) (msg : GoString) : State :=
  let pct := ((100 * done).bmod (2 ^ 64)).tdiv total
  s.setStatus ⟨.downloading, if pct > 99 then 99 else pct, currentFile, msg, []⟩

/-- `setInstallError`. -/
def setInstallError (s : State) (errMsg : GoString) : State := s.setStatus ⟨.error, 0, [], [], errMsg⟩

/-- The way out of `downloadFile` behind `os.Create`: the `.partial` file is removed. -/
def State.discard (s : State) (name : GoString) : State := { s with dir := s.dir.remove (tmp name) }

/-- The text of an error of `downloadFile`. -/
def fileError (name err : GoString) : GoString := name ++ ": " ++ err

/-- One step of `downloadFile`, which ends with the state for the next file or with an error. A chunk is what one `Read`
brings, and an end of the body that comes with it is the next answer. -/
def downloadFile (s : State) (name : GoString) (rest : List GoString) (done total : Int) :
    Fetch → Answer → Option (State × Run)
  | .request, .body b => some ({ s with served := (name, b) :: s.served }, .file name rest done total (.create b))
  | .request, .fail err => some (s, .failed (fileError name err))
  | .create b, .ok =>
    let (dir, fd) := s.dir.create (tmp name)
    some ({ s with dir := dir }, .file name rest done total (.read fd b 0))
  | .create _, .fail err => some (s, .failed (fileError name err))
  | .read fd b written, .chunk n =>
    if 0 < n ∧ n ≤ 32 * 1024 ∧ written + n ≤ b.length then
      some ({ s with dir := s.dir.write fd written ((b.drop written).take n) },
        .file name rest done total (.report fd b (written + n)))
    else none
  | .report fd b written, .ok =>
    some (setInstallProgress s name (add64 done written) total ("Téléchargement " ++ name ++ "…"),
      .file name rest done total (.read fd b written))
  | .read _ b written, .ok => if written = b.length then some (s, .file name rest done total (.close b)) else none
  | .read _ _ _, .fail err => some (s.discard name, .failed (fileError name err))
  | .close b, .ok => some (s, .file name rest done total (.rename b))
  | .close _, .fail err => some (s.discard name, .failed (fileError name err))
  | .rename b, .ok =>
    if (s.dir.entries (tmp name)).isSome then
      some ({ s with dir := s.dir.rename (tmp name) name }, .loop rest (add64 done b.length) total)
    else none
  | .rename _, .fail err => some (s.discard name, .failed (fileError name err))
  | _, _ => none

/-- One step of `runModelInstall`. -/
def runModelInstall (s : State) : Run → Answer → Option (State × Run)
  | .mkdir, .ok => some (s, .expect edgeModelFiles 0)
  | .mkdir, .fail err => some (s, .failed ("mkdir: " ++ err))
  | .expect (name :: rest) total, .length n =>
    if present s.dir name then some (s, .expect rest (add64 total (size s.dir name)))
    else
      match n with
      | some sz => some (s, .expect rest (if sz > 0 then add64 total sz else total))
      | none => some (s, .expect rest total)
  | .expect [] total, .ok => some (s, .loop edgeModelFiles 0 (if total < 1 then 536870912 else total))
  | .loop (name :: rest) done total, .ok =>
    if present s.dir name then some (s, .file name rest (add64 done (size s.dir name)) total .skip)
    else some (s, .file name rest done total .announce)
  | .loop [] _ _, .ok => some (s.setStatus ⟨.ready, 100, [], "Modèle ONNX prêt — le tel peut Wake", []⟩, .ended)
  | .file name rest done total .skip, .ok =>
    some (setInstallProgress s name done total (name ++ " déjà présent"), .loop rest done total)
  | .file name rest done total .announce, .ok =>
    some (setInstallProgress s name done total ("Téléchargement " ++ name ++ "…"), .file name rest done total .request)
  | .file name rest done total fetch, e => downloadFile s name rest done total fetch e
  | .failed errMsg, .ok => some (setInstallError s errMsg, .ended)
  | _, _ => none

/-! ## Requests -/

/-- One step of `StartModelInstall`: a look at a file, or a section under the lock. -/
def startModelInstall (s : State) : Request → Option (Moved State Thread)
  | .look [] => some (s.setStatus ⟨.ready, 100, [], "Déjà présent", []⟩, .request (.answered "ready"), none)
  | .look (name :: rest) => some (s, .request (if present s.dir name then .look rest else .missing), none)
  | .missing =>
    if s.installSt.status = .downloading then some (s, .request (.answered "downloading"), none)
    else
      some (s.setStatus ⟨.downloading, 0, [], "Téléchargement HuggingFace → disque VPC…", []⟩,
        .request (.answered "started"), some (.run .mkdir))
  | .answered _ => none

/-- One step of a thread. -/
def advance (s : State) : Thread → Answer → Option (Moved State Thread)
  | .request r, _ => startModelInstall s r
  | .run r, e => (runModelInstall s r e).map fun m => (m.1, .run m.2, none)

/-- A request comes in. -/
def entry : Thread → Bool
  | .request (.look todo) => todo = edgeModelFiles
  | _ => false

abbrev step := Threads.step entry advance

/-! ## What the lock and the order of the steps are for -/

/-- All the files are there. -/
def Complete (dir : Disk GoString) : Prop := ∀ f ∈ edgeModelFiles, present dir f = true

/-- The run has not returned. -/
def Run.Alive (r : Run) : Prop := r ≠ .ended

/-- The run is on its way from `os.Stat` to the end of `downloadFile` for a file. -/
def Run.Fetching (r : Run) : Prop :=
  ∃ name rest done total fetch, r = .file name rest done total fetch ∧ fetch ≠ .skip

/-- The files that are not to do are there, but for those that the server has as empty files. -/
def Visited (dir : Disk GoString) (served : List (GoString × GoString)) (todo : List GoString) : Prop :=
  ∀ f ∈ edgeModelFiles, f ∉ todo → present dir f = true ∨ (f, []) ∈ served

/-- A file that is fetched is not there, and what has been written of the body is in its `.partial` file. -/
def Fetch.Good (dir : Disk GoString) (served : List (GoString × GoString)) (name : GoString) : Fetch → Prop
  | .skip => present dir name = true
  | .announce | .request => present dir name = false
  | .create b => present dir name = false ∧ (name, b) ∈ served
  | .read fd b written | .report fd b written =>
    present dir name = false ∧ (name, b) ∈ served ∧ dir.entries (tmp name) = some fd ∧
      dir.content (tmp name) = some (b.take written) ∧ written ≤ b.length
  | .close b | .rename b => present dir name = false ∧ (name, b) ∈ served ∧ dir.content (tmp name) = some b

def Run.Good (dir : Disk GoString) (served : List (GoString × GoString)) : Run → Prop
  | .loop todo _ total => 0 < total ∧ todo <:+ edgeModelFiles ∧ Visited dir served todo
  | .file name rest _ total fetch =>
    0 < total ∧ name :: rest <:+ edgeModelFiles ∧ Visited dir served (name :: rest) ∧ fetch.Good dir served name
  | _ => True

/-- What `looked`, and the status, say of the files. -/
def Thread.Good (s : State) : Thread → Prop
  | .request (.look todo) => ∀ f ∈ edgeModelFiles, f ∉ todo → present s.dir f = true
  | .request _ => True
  | .run r => r.Good s.dir s.served ∧ (r.Alive → s.installSt.status ≠ .downloading → Complete s.dir)

/-- The thread is a run that has not returned. -/
def Thread.Alive : Thread → Prop
  | .request _ => False
  | .run r => r.Alive

/-- What is on the disk comes from the server, or was there before, and the status does not promise too much. -/
structure Truthful (d : Disk GoString) (s : State) : Prop where
  whole : ∀ f ∈ edgeModelFiles, ∀ c, s.dir.content f = some c → d.content f = some c ∨ (f, c) ∈ s.served
  downloading : s.installSt.status = .downloading → s.installSt.progress ≤ 99
  ready : s.installSt.status = .ready → s.installSt.progress = 100 ∧ Visited s.dir s.served []
  error : s.installSt.status = .error → s.installSt.progress = 0

/-- Two runs are alive only when there is nothing left to fetch. -/
def Apart (s : State) (p q : Thread) : Prop := p.Alive → q.Alive → Complete s.dir

end Gafam.Edge.Install
