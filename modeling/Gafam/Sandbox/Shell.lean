import Gafam.Go.Encoding
import Gafam.Python.Text
import Mathlib.Tactic.Common
import Mathlib.Data.List.Infix

/-!
# `POST /exec` and shell sessions

The sandbox server hands the command to `bash -c`. Of the language of bash, the model knows a pipeline of
simple commands whose words are written without quotes. What brace expansion, tilde expansion and pathname
expansion make of such a word is given.
-/

namespace Gafam.Sandbox

open Gafam.Go

/-! ## Reading a pipeline -/

/-- A space or a tab. -/
def isBlank (b : UInt8) : Bool := b == 0x20 || b == 0x09

/-- The bytes that make bash read more than words: a line break, `&`, `;`, `<`, `>`, `(`, `)`, quotes,
`$` and the backslash. -/
def operatorBytes : GoString := "\n&;<>()'\"\x60$\\"

/-- The byte of `|`. -/
def bar : UInt8 := 0x7C

/-- The words of a command. -/
def words (s : GoString) : List GoString := (s.splitOnP isBlank).filter fun w => w != []

/-- Words that bash does not take for the name of a command. -/
def reservedWords : List GoString :=
  ["!", "case", "coproc", "do", "done", "elif", "else", "esac", "fi", "for", "function", "if", "in",
    "select", "then", "until", "while", "\x7b", "\x7d", "time", "[[", "]]"]

/-- A simple command: its first word is not reserved and has no `=`, as an assignment has, and no word
begins a comment. -/
def isSimple (cmd : List GoString) : Bool :=
  match cmd with
  | [] => false
  | w :: _ => !reservedWords.contains w && !w.contains 0x3D && cmd.all fun v => v.head? != some 0x23

/-- The commands of a pipeline; `none` for a line that is something else. -/
def pipeline (line : GoString) : Option (List (List GoString)) :=
  let cmds := (line.splitOn bar).map words
  if line.all (fun b => !operatorBytes.contains b) && cmds.all isSimple then some cmds else none

/-! ## Running a file -/

variable (expand : GoString → List GoString)

/-- The line is a pipeline, and its last command runs the file at this path with the interpreter. -/
def RunsFile (interpreter path line : GoString) : Prop :=
  ∃ cmds last, pipeline line = some cmds ∧ cmds.getLast? = some last ∧
    [interpreter, path] <+: last.flatMap expand

/-- A letter, a digit or one of `+`, `-`, `/`, `=`, `.` and `_`. -/
def isWordByte (b : UInt8) : Bool :=
  (0x61 ≤ b && b ≤ 0x7A) || (0x41 ≤ b && b ≤ 0x5A) || isDigit b || (str "+-/=._").contains b

/-- A word of such bytes stands for itself. -/
def KeepsWords : Prop := ∀ w : GoString, w.all isWordByte = true → expand w = [w]

end Gafam.Sandbox

/-!
## Persistent shell sessions

A command is written to a long-lived bash together with an `echo` that prints a marker, the exit code and the
working directory behind the output of the command. What the shell prints arrives in pieces, and `run` reads
until the marker is there.
-/

namespace Gafam.Sandbox

open Gafam.Go Gafam.Python

/-- `SHELL_MARKER`. -/
def shellMarker : PyString := "__GAFAM_SHELL_DONE__"

/-- `SHELL_MARKER.encode()`. -/
def markerBytes : GoString := "__GAFAM_SHELL_DONE__"

/-! ### The read loop -/

/-- What `select` and `os.read` give the loop. -/
inductive ReadEvent
  | data (chunk : GoString)
  /-- the end of the stream, or an error -/
  | closed
  /-- nothing to read, and the shell is gone: what a last read finds -/
  | exited (rest : GoString)

/-- The loop of `run`: the bytes it has read, whether its deadline has passed, and what it has not seen. -/
def readLoop (buf : GoString) : List ReadEvent → GoString × Bool × List ReadEvent
  | [] => (buf, true, [])
  | .data chunk :: events =>
    if markerBytes <:+: buf ++ chunk then (buf ++ chunk, false, events) else readLoop (buf ++ chunk) events
  | .closed :: events => (buf, false, events)
  | .exited rest :: events => (buf ++ rest, false, events)

/-! ### The line of the marker -/

section
variable (D : Decimals)

/-- The groups of `SHELL_MARKER:(\d+):([^\n\r]*)` where it matches at the start of a text. -/
def matchLine (text : PyString) : Option (PyString × PyString) :=
  if shellMarker ++ [':'] <+: text then
    let rest := text.drop (shellMarker.length + 1)
    let digits := rest.takeWhile D.isDecimal
    let rest := rest.dropWhile D.isDecimal
    if digits ≠ [] ∧ rest.head? = some ':' then
      some (digits, rest.tail.takeWhile fun c => c ≠ '\n' && c ≠ '\r')
    else none
  else none

/-- `re.search`: the text in front of the first match, and its groups. -/
def searchLine : PyString → Option (PyString × PyString × PyString)
  | [] => none
  | c :: text =>
    match matchLine D (c :: text) with
    | some groups => some ([], groups)
    | none => (searchLine text).map fun found => (c :: found.1, found.2)

/-! ### `run` -/

/-- What `run` returns. -/
inductive ShellResult
  | sessionDead (output : Option PyString)
  | timeout (output : PyString)
  | done (output : PyString) (exitCode : Int) (cwd : PyString)
deriving DecidableEq

/-- What a call of `run` meets: whether the shell is there before and after it, whether the command could
be written, and what is read. -/
structure ShellCall where
  alive : Bool
  written : Bool
  events : List ReadEvent
  aliveAfter : Bool

/-- `ShellSession.run`: the result, the working directory that the session has noted, and what is left to
be read. -/
def ShellSession.run (cwd : PyString) (call : ShellCall) : ShellResult × PyString × List ReadEvent :=
  if call.alive = false ∨ call.written = false then (.sessionDead none, cwd, call.events)
  else
    let (buf, timedOut, events) := readLoop [] call.events
    let text := decodeReplace buf
    if timedOut then (.timeout text, cwd, events)
    else
      match searchLine D text with
      | some (output, digits, dir) =>
        let cwd := if strip dir = [] then cwd else strip dir
        let output := if output.getLast? = some '\n' then output.dropLast else output
        (.done output (D.int digits) cwd, cwd, events)
      | none =>
        if call.aliveAfter then (.done text (-1) cwd, cwd, events)
        else (.sessionDead (some text), cwd, events)

/-! ### Commands one after the other -/

/-- A command that comes to its end: what it has printed, its exit code, and the working directory after it. -/
structure Command where
  out : GoString
  rc : Nat
  pwd : GoString
  rc_lt : rc < 256
  absolute : pwd.head? = some 0x2F

/-- The line that the `echo` behind the command prints. -/
def Command.line (c : Command) : GoString := markerBytes ++ 0x3A :: (itoa c.rc ++ 0x3A :: (c.pwd ++ [0x0A]))

/-- A way in which bytes arrive: pieces of at most 65536 bytes. -/
structure Reads where
  cut : GoString → List GoString
  flatten_cut : ∀ s, (cut s).flatten = s
  size : ∀ s, ∀ chunk ∈ cut s, chunk ≠ [] ∧ chunk.length ≤ 65536

/-- A session between two commands, with the bytes that have not been read. -/
structure SessionState where
  cwd : PyString
  left : GoString

/-- The bytes of pieces that have arrived. -/
def unread (events : List ReadEvent) : GoString := events.flatMap fun
  | .data chunk => chunk
  | .closed => []
  | .exited rest => rest

/-- One command: what was left and what is printed now is read in some pieces. -/
def runCommand (s : SessionState) (c : Command × Reads) : ShellResult × SessionState :=
  let events := (c.2.cut (s.left ++ (c.1.out ++ c.1.line))).map .data
  let (result, cwd, rest) := ShellSession.run D s.cwd ⟨true, true, events, true⟩
  (result, ⟨cwd, unread rest⟩)

/-! ### Purpose -/

/-- The command's own output, exit code and working directory. -/
def Command.result (c : Command) : ShellResult := .done (decodeReplace c.out) c.rc (decodeReplace c.pwd)

/-- Every command gets its own result and leaves nothing behind. -/
def Isolated (s : SessionState) : List (Command × Reads) → Prop
  | [] => True
  | c :: cs =>
    (runCommand D s c).1 = c.1.result ∧ (runCommand D s c).2.left = [] ∧ Isolated (runCommand D s c).2 cs

/-- A text that holds what looks like the marker with an exit code. -/
def LooksDone (text : PyString) : Prop :=
  ∃ before digits after, text = before ++ (shellMarker ++ ':' :: (digits ++ ':' :: after)) ∧ digits ≠ [] ∧
    ∀ c ∈ digits, D.isDecimal c = true

/-- A command that the framing carries. -/
structure Framed (c : Command) (r : Reads) : Prop where
  /-- the read that brings the first marker brings all the rest -/
  whole : ∀ n < (r.cut (c.out ++ c.line)).length, ¬ markerBytes <:+: ((r.cut (c.out ++ c.line)).take n).flatten
  output : ¬ LooksDone D (decodeReplace c.out)
  newline : (decodeReplace c.out).getLast? ≠ some '\n'
  cwd : ∀ ch ∈ decodeReplace c.pwd, ch ≠ '\n' ∧ ch ≠ '\r'
  trailing : ∀ ch ∈ (decodeReplace c.pwd).getLast?, isspace ch = false

end

end Gafam.Sandbox
