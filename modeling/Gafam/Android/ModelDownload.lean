import Gafam.Lib.Steps
import Mathlib.Logic.Function.Basic

/-!
# The download of the model (`EdgeModelDownloader.kt`, `edge/model.go`)

The phone fetches the files of the model that are not in its directory, each into a `.partial` file that is then
renamed. Runs are started one after the other, by one executor. A run can throw, and the process can die, between any
two steps; the directory stays as it is then.
-/

namespace Gafam.Android.ModelDownload

open Gafam.Lib

/-- `EdgeModelConfig.FILES`, and `edgeModelFiles` on the VPC. -/
inductive ModelFile
  | chatTemplate
  | config
  | genaiConfig
  | onnx
  | tokenizer
  | tokenizerConfig
deriving DecidableEq

def files : List ModelFile := [.chatTemplate, .config, .genaiConfig, .onnx, .tokenizer, .tokenizerConfig]

/-! ## The VPC -/

/-- The sizes of the files on the VPC, `none` where `os.Stat` fails. -/
abbrev Disk := ModelFile → Option Nat

structure ModelFileEntry where
  name : ModelFile
  size : Nat

structure ModelManifest where
  ready : Bool
  files : List ModelFileEntry

/-- One entry for each file; one that is absent or empty has the size 0 and spoils `ready`. -/
def buildModelManifest (disk : Disk) : ModelManifest where
  ready := files.all fun name => (disk name).any (· ≠ 0)
  files := files.map fun name => ⟨name, (disk name).getD 0⟩

/-- `sizes`: of several entries with a name the last one counts. -/
def sizes (m : ModelManifest) (name : ModelFile) : Option Nat :=
  (m.files.reverse.find? fun e => e.name = name).map ModelFileEntry.size

/-! ## The phone -/

/-- The names in the model directory. -/
inductive FileName
  | model (f : ModelFile)
  /-- `"$name.partial"` -/
  | tmp (f : ModelFile)
deriving DecidableEq

/-- Where a run stands: behind the look at the directory, in the loop over the files that are missing, in a body, or
behind it with the file still to rename. -/
inductive Pc
  | idle
  | manifest (missing : List ModelFile)
  | loop (missing : List ModelFile)
  | body (name : ModelFile) (rest : List ModelFile) (fileDone : Nat)
  | finalize (name : ModelFile) (rest : List ModelFile)
  | returned
  | thrown
deriving DecidableEq

/-- `expected $fileSize got $fileDone` -/
structure ShortBody where
  name : ModelFile
  fileSize : Nat
  fileDone : Nat
deriving DecidableEq

/-- The directory with the sizes of its files, the run, and the warnings in the log. -/
structure Device where
  dir : FileName → Option Nat
  pc : Pc
  warnings : List ShortBody

/-- Nothing has been downloaded. -/
def Device.start : Device := ⟨fun _ => none, .idle, []⟩

/-- All the files are there, and none is empty. -/
def isReady (s : Device) : Bool := files.all fun f => (s.dir (.model f)).any (0 < ·)

/-- `missing` -/
def missing (s : Device) : List ModelFile := files.filter fun f => (s.dir (.model f)).isNone

/-- What `ensureDownloaded` does next. `call` is a new run, with the pairing and the client there or not; `response` the
answer to the request for a file, `read` a chunk of its body, and `fail` an exception, such as for an HTTP error or a
connection that breaks off. -/
inductive Event
  | call (paired : Bool)
  | manifest
  | response
  | read (n : Nat)
  | endOfBody
  | renameTo (ok : Bool)
  | finish
  | fail
  | die

/-- A short body is only worth a warning. -/
def warn (fileSize : Option Nat) (name : ModelFile) (fileDone : Nat) : List ShortBody :=
  match fileSize with
  | some n => if 0 < n ∧ fileDone < n then [⟨name, n, fileDone⟩] else []
  | none => []

def step (disk : Disk) (s : Device) : Event → Option Device
  | .call paired =>
    match s.pc with
    | .idle | .returned | .thrown =>
      if ¬paired then some { s with pc := .thrown }
      else if missing s = [] then some { s with pc := .returned }
      else some { s with pc := .manifest (missing s) }
    | _ => none
  | .manifest =>
    match s.pc with
    | .manifest missing =>
      if (buildModelManifest disk).ready then some { s with pc := .loop missing } else some { s with pc := .thrown }
    | _ => none
  | .response =>
    match s.pc with
    | .loop (name :: rest) =>
      some { s with dir := Function.update s.dir (.tmp name) (some 0), pc := .body name rest 0 }
    | _ => none
  | .read n =>
    match s.pc with
    | .body name rest fileDone =>
      if 0 < n ∧ n ≤ 8192 then
        some { s with
          dir := Function.update s.dir (.tmp name) (some (fileDone + n)), pc := .body name rest (fileDone + n) }
      else none
    | _ => none
  | .endOfBody =>
    match s.pc with
    | .body name rest fileDone =>
      some { s with
        warnings := s.warnings ++ warn (sizes (buildModelManifest disk) name) name fileDone
        pc := .finalize name rest }
    | _ => none
  | .renameTo ok =>
    match s.pc with
    | .finalize name rest =>
      if ok then
        some { s with
          dir := Function.update (Function.update s.dir (.model name) (s.dir (.tmp name))) (.tmp name) none
          pc := .loop rest }
      else some { s with pc := .thrown }
    | _ => none
  | .finish =>
    match s.pc with
    | .loop [] => some { s with pc := .returned }
    | _ => none
  | .fail =>
    match s.pc with
    | .idle | .returned | .thrown => none
    | _ => some { s with pc := .thrown }
  | .die => some { s with pc := .idle }

/-! ## Complete downloads -/

/-- The size that the VPC announces. -/
def announced (disk : Disk) (f : ModelFile) : Option Nat := sizes (buildModelManifest disk) f

/-- Every file of the model has the announced size. -/
def Complete (disk : Disk) (s : Device) : Prop := ∀ f ∈ files, s.dir (.model f) = announced disk f

/-- A body that is given its name has come whole. -/
def Whole (disk : Disk) (s : Device) (e : Event) : Prop :=
  match s.pc, e with
  | .finalize f _, .renameTo true => s.dir (.tmp f) = announced disk f
  | _, _ => True

instance (disk : Disk) (s : Device) (e : Event) : Decidable (Whole disk s e) := by
  unfold Whole
  split <;> infer_instance

end Gafam.Android.ModelDownload
