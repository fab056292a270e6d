import Gafam.Go.Json
import Gafam.Karaka.Registry
import Gafam.Sandbox.Shell
import Gafam.Sandbox.Files

/-!
# Tools that are scripts of the sandbox

`rescanCustomTools` asks the sandbox for a listing and registers a tool for every script in it. The tool
of a script sends a command line to the sandbox that runs the script with the input on its standard input.
-/

namespace Gafam.Relay

open Gafam.Go Gafam.Karaka Gafam.Python Gafam.Sandbox

structure ParamSpec where
  type : GoString
  required : Bool
  description : GoString

/-- The parameters of a call. -/
abbrev Params := StringMap JsonTree

/-- The body of a request to `/exec`. -/
structure ExecRequest where
  command : GoString
  timeout : Nat

/-- A tool of the registry. The handler is known by the request that it posts to `/exec`, if it posts
one. -/
structure CustomTool where
  id : GoString
  description : GoString
  category : GoString
  params : List (GoString × ParamSpec)
  returns : GoString
  handler : Params → Option ExecRequest

/-- The tools of the registry. -/
abbrev ToolTable := StringMap CustomTool

/-! ## The listing -/

/-- The request target of the listing. -/
def listTarget : PyString := "/files?path=/files/tools"

/-- An entry, as far as it is decoded. -/
structure ToolFile where
  name : GoString
  type : GoString

/-- A value that is decoded into a string field; `none` is an error. -/
def textField (old : GoString) : JsonTree → Option GoString
  | .str s => some s
  | .null => some old
  | _ => none

/-- A member of an object that is decoded into an entry. -/
def ToolFile.member (e : ToolFile) (m : GoString × JsonTree) : Option ToolFile :=
  if isField "name" m.1 then (textField e.name m.2).map fun s => { e with name := s }
  else if isField "type" m.1 then (textField e.type m.2).map fun s => { e with type := s }
  else some e

/-- A value that is decoded into an entry. -/
def ToolFile.decode (e : ToolFile) : JsonTree → Option ToolFile
  | .obj members => members.foldlM ToolFile.member e
  | .null => some e
  | _ => none

/-- The elements of an array are decoded into what the memory of the slice still holds. -/
def decodeToolFiles : List JsonTree → List ToolFile → Option (List ToolFile)
  | [], memory => some memory
  | v :: l, [] => do
    let e ← ToolFile.decode ⟨[], []⟩ v
    let rest ← decodeToolFiles l []
    return e :: rest
  | v :: l, e :: memory => do
    let e ← e.decode v
    let rest ← decodeToolFiles l memory
    return e :: rest

/-- A member of the answer: the entries with the memory of their slice, and how many there are. -/
def listingMember (s : List ToolFile × Nat) (m : GoString × JsonTree) : Option (List ToolFile × Nat) :=
  if isField "entries" m.1 then
    match m.2 with
    | .null => some ([], 0)
    | .arr [] => some ([], 0)
    | .arr l => (decodeToolFiles l s.1).map fun memory => (memory, l.length)
    | _ => none
  else some s

/-- The entries of the answer. -/
def decodeListing : JsonTree → Option (List ToolFile)
  | .obj members => (members.foldlM listingMember ([], 0)).map fun s => s.1.take s.2
  | .null => some []
  | _ => none

/-- `json.NewDecoder(resp.Body).Decode(&result)`, which reads the first value of the body. -/
def decodeAnswer : Sandbox.Answer → Option (List ToolFile)
  | .json _ payload => decodeListing payload
  | .content bytes =>
    match parseValue 0 (bytes.length + 1) bytes with
    | some (v, _) => decodeListing v
    | none => none

/-! ## Descriptions -/

/-- The comment that describes a script, looked for in its first lines. -/
def describeLines : List GoString → GoString
  | [] => []
  | line :: lines =>
    let line := trimSpace line
    if hasPrefix line "# desc:" then trimSpace (line.drop (str "# desc:").length)
    else if line ≠ [] && !hasPrefix line "#" && !hasPrefix line "//" then []
    else describeLines lines

/-- `fetchToolDescription`. What the first read of the answer brings is given, `none` if the request
fails. -/
def fetchToolDescription (firstRead : GoString → Option GoString) (name : GoString) : GoString :=
  match firstRead name with
  | some buf => describeLines (buf.splitOn 0x0A)
  | none => []

/-! ## The tool of a script -/

/-- The id and the interpreter of a script. -/
def toolOf (name : GoString) : Option (GoString × GoString) :=
  if hasSuffix name ".sh" then some (str "custom." ++ trimSuffix name ".sh", "bash")
  else if hasSuffix name ".py" then some (str "custom." ++ trimSuffix name ".py", "python3")
  else none

/-- The bytes that a name must not have. -/
def unsafeBytes : GoString := "\"'\x60 $\\;|&"

/-- `!strings.ContainsAny(name, …)`. -/
def isSafeName (name : GoString) : Bool := name.all fun b => !unsafeBytes.contains b

/-- `/sandbox/files/tools/`. -/
def toolsDir : GoString := "/sandbox/files/tools/"

/-- `echo … | base64 -d | … /sandbox/files/tools/…`. -/
def scriptCommand (runner name input : GoString) : GoString :=
  str "echo " ++ base64Encode input ++ str " | base64 -d | " ++ runner ++ str " " ++ toolsDir ++ name

/-- The handler of a script. -/
def scriptHandler (runner name : GoString) (params : Params) : Option ExecRequest :=
  let input := match params.lookup (str "input") with
    | some (.str s) => s
    | _ => []
  some ⟨scriptCommand runner name (if input = [] then "\x7b\x7d" else input), 120⟩

/-- The tool that is registered for a script. -/
def scriptTool (firstRead : GoString → Option GoString) (name toolID runner : GoString) : CustomTool where
  id := toolID
  description :=
    let desc := fetchToolDescription firstRead name
    if desc = [] then
      str "Custom tool from sandbox /files/tools/" ++ name ++
        str " (JSON in on stdin, JSON out on stdout)"
    else desc
  category := "custom"
  params := [(str "input", ⟨"string", false, "JSON input for the script"⟩)]
  returns := "\x7b stdout: string, stderr: string, exit_code: int \x7d"
  handler := scriptHandler runner name

/-- An entry of the listing, as the loop takes it up. -/
def registerEntry (firstRead : GoString → Option GoString) (table : ToolTable) (e : ToolFile) : ToolTable :=
  if e.type ≠ str "file" then table
  else
    match toolOf e.name with
    | none => table
    | some (toolID, runner) =>
      if isSafeName e.name then table.insert toolID (scriptTool firstRead e.name toolID runner) else table

/-- `rescanCustomTools`; `none` if it gives up, because the request fails or the answer cannot be
decoded. -/
def rescanCustomTools (firstRead : GoString → Option GoString) (answer : Option Sandbox.Answer)
    (table : ToolTable) : Option ToolTable :=
  match answer with
  | none => none
  | some a => (decodeAnswer a).map fun entries => entries.foldl (registerEntry firstRead) table

/-! ## What the scan is for -/

/-- The entries of a directory, `none` if the path leads to none. -/
def entriesOf (root : Sandbox.Node) (path : PyString) : Option (List (GoString × Sandbox.Node)) :=
  match nodeAt root path with
  | some (.dir _ entries) => some entries
  | _ => none

/-- A script with a name that passes the guard. -/
def isScript (name : GoString) : Bool := (toolOf name).isSome && isSafeName name

/-- The scripts in `/files/tools`. -/
def toolScripts (root : Sandbox.Node) : List GoString :=
  match entriesOf root "/sandbox/files/tools" with
  | some entries => ((entries.filter fun e => e.2.isFile).map Prod.fst).filter isScript
  | none => []

def toolID (name : GoString) : GoString := ((toolOf name).getD ([], [])).1

def runnerOf (name : GoString) : GoString := ((toolOf name).getD ([], [])).2

section
variable (expand : GoString → List GoString)

/-- Whatever the tool is called with, it has the script run. -/
def RunsScript (t : CustomTool) (name : GoString) : Prop :=
  ∀ params, ∃ req, t.handler params = some req ∧
    RunsFile expand (runnerOf name) (toolsDir ++ name) req.command

/-- Every script in `/files/tools` is registered under its own id, and the tool runs it. -/
def ScriptsRegistered (root : Sandbox.Node) (table : ToolTable) : Prop :=
  (∀ s ∈ toolScripts root, ∃ t, table.lookup (toolID s) = some t ∧ RunsScript expand t s) ∧
    ∀ s ∈ toolScripts root, ∀ s' ∈ toolScripts root, toolID s = toolID s' → s = s'

/-! ## When it does it -/

/-- The scripts that stand in `/files` itself, in the order of their names; `none` if the listing of
`/files` fails. -/
def outerScripts (root : Sandbox.Node) : Option (List GoString) :=
  match entriesOf root "/sandbox/files" with
  | some entries =>
    if entries.all fun e => e.2.stat.isSome then
      some ((((sortedEntries entries).filter fun e => !e.2.isDir).map fun e => jsonText e.1).filter isScript)
    else none
  | none => none

/-- Called by its name at a command line, `name` is taken for `script`. -/
def ReadsAs (name script : GoString) : Prop :=
  RunsFile expand (runnerOf script) (toolsDir ++ script) (runnerOf name ++ str " " ++ toolsDir ++ name)

/-- The last script of `/files` with the id of this one is read as this one, or there is none and the
registry has a tool that runs this one. -/
def Overlaid (outer : List GoString) (table : ToolTable) (script : GoString) : Prop :=
  match outer.reverse.find? fun name => toolID name == toolID script with
  | some name => ReadsAs expand name script
  | none => ∃ t, table.lookup (toolID script) = some t ∧ RunsScript expand t script

end

end Gafam.Relay
