import Gafam.Python.Text
import Gafam.Go.Json
import Mathlib.Data.List.Sort

/-!
# The paths that the sandbox server serves

Every request for a file names it under one of five roots. The server joins the rest of the name to the
directory of the root, normalizes the result, and asks whether it still begins with the directory.
-/

namespace Gafam.Sandbox

open Gafam.Python

/-! ## The roots -/

def sandboxRoot : PyString := "/sandbox"

def filesDir : PyString := pathJoin sandboxRoot "files"

def tmpDir : PyString := pathJoin sandboxRoot "tmp"

def downloadsDir : PyString := pathJoin sandboxRoot "downloads"

def screenshotsDir : PyString := pathJoin sandboxRoot "screenshots"

def scriptsDir : PyString := pathJoin sandboxRoot "scripts"

/-- The dictionary `allowed`. -/
def allowed : List (PyString × PyString) :=
  [("/files", filesDir), ("/tmp", tmpDir), ("/downloads", downloadsDir), ("/screenshots", screenshotsDir),
    ("/scripts", scriptsDir)]

/-! ## `_safe_path` -/

/-- `subpath == start or subpath.startswith(start + "/")`. -/
def addresses (subpath start : PyString) : Bool :=
  subpath == start || (start ++ py "/").isPrefixOf subpath

/-- The path below the root: `os.path.normpath(os.path.join(real, subpath[len(start):].lstrip("/")))`. -/
def resolved (subpath start real : PyString) : PyString :=
  normpath (pathJoin real ((subpath.drop start.length).dropWhile (· == '/')))

/-- `_safe_path`. -/
def safePath (subpath : PyString) : Option PyString :=
  allowed.findSome? fun (start, real) =>
    if addresses subpath start && (normpath real).isPrefixOf (resolved subpath start real) then
      some (resolved subpath start real)
    else none

/-! ## What the check is for -/

/-- The directory itself, or a path strictly below it. -/
def Within (dir path : PyString) : Prop :=
  ∃ comps below, (∀ w ∈ comps ++ below, IsName w) ∧ dir = absolutePath comps ∧
    path = absolutePath (comps ++ below)

/-- Every path that the server goes on with is one of the roots or below one of them. -/
def StaysInRoots (subpath : PyString) : Prop :=
  ∀ path, safePath subpath = some path → ∃ root ∈ allowed, Within root.2 path

/-! ## Where a name leads to -/

/-- One component of a relative path: how many directories it has gone up so far, and what it has gone down
into from there, the last directory first. -/
def climbComp (at_ : Nat × List PyString) (comp : PyString) : Nat × List PyString :=
  if comp = [] ∨ comp = "." then at_
  else if comp ≠ ".." then (at_.1, comp :: at_.2)
  else
    match at_.2 with
    | [] => (at_.1 + 1, [])
    | _ :: down => (at_.1, down)

/-- How far the rest of a name goes up, and what it goes down into from there. -/
def climb (rest : PyString) : Nat × List PyString :=
  let (up, down) := (splitSep rest).foldl climbComp (0, [])
  (up, down.reverse)

/-- Another directory of `/sandbox` whose name begins with that of the root. -/
def Sibling (name w : PyString) : Prop := name <+: w ∧ w ≠ name

/-- The name goes up to `/sandbox`, or over it and back, and then down into a sibling of the root. -/
def LeadsToSibling (name rest : PyString) : Prop :=
  ((climb rest).1 = 1 ∧ ∃ w below, (climb rest).2 = w :: below ∧ Sibling name w) ∨
    (2 ≤ (climb rest).1 ∧ ∃ w below, (climb rest).2 = py "sandbox" :: w :: below ∧ Sibling name w)

/-- No root that the request addresses is left for a sibling. -/
def NoSibling (subpath : PyString) : Prop :=
  ∀ root ∈ allowed, addresses subpath root.1 = true →
    ¬ LeadsToSibling (root.1.drop 1) (subpath.drop root.1.length)

/-!
## `GET` of the sandbox server

A `GET` of a directory answers with what is in it, sorted by name, and a `GET` of a file with its bytes.
Names of files are bytes: Python reads them as text, a byte that is not UTF-8 as a lone surrogate, and who
decodes the answer gets the replacement character in its place. A link stands in the tree as what it leads
to.
-/

open Gafam.Go

structure Stat where
  size : Nat
  modified : Int

/-- What a name of the file system leads to. -/
inductive Node
  | file (stat : Stat) (content : GoString)
  | dir (stat : Stat) (entries : List (GoString × Node))
  /-- a device, a pipe or a socket -/
  | special (stat : Stat)
  /-- a link to nothing -/
  | dangling

/-- `os.stat`, which raises on a link to nothing. -/
def Node.stat : Node → Option Stat
  | .file st _ => some st
  | .dir st _ => some st
  | .special st => some st
  | .dangling => none

/-- `os.path.isdir`. -/
def Node.isDir : Node → Bool
  | .dir _ _ => true
  | _ => false

/-- `os.path.isfile`. -/
def Node.isFile : Node → Bool
  | .file _ _ => true
  | _ => false

/-- What these names lead to, one below the other. -/
def Node.find : Node → List GoString → Option Node
  | n, [] => some n
  | .dir _ entries, w :: ws =>
    match entries.lookup w with
    | some n => n.find ws
    | none => none
  | _, _ :: _ => none

/-- `os.fsencode`. -/
def fsencode (w : PyString) : GoString := w.flatMap String.utf8EncodeChar

/-- What a normalized absolute path leads to. -/
def nodeAt (root : Node) (path : PyString) : Option Node :=
  root.find (((splitSep path).filter fun w => w != []).map fsencode)

/-! ### Listing a directory -/

/-- The code points of `os.fsdecode`: a byte that is not UTF-8 becomes a lone surrogate. -/
def codePoints (name : GoString) : List Nat :=
  (segments name).map fun r =>
    match r.rune, r.bytes with
    | 0xFFFD, [b] => 0xDC00 + b.toNat
    | c, _ => c

/-- What a decoder of the answer reads of a name: a lone surrogate is the replacement character. -/
def jsonText (name : GoString) : GoString := (segments name).flatMap fun r => encodeRune r.rune

/-- `sorted(os.listdir(real))`. -/
def sortedEntries (entries : List (GoString × Node)) : List (GoString × Node) :=
  entries.insertionSort fun a b => ¬ codePoints b.1 < codePoints a.1

/-- An entry of the answer. -/
def entryJson (e : GoString × Node) : Option JsonTree :=
  e.2.stat.map fun st =>
    .obj [(str "name", .str (jsonText e.1)), (str "type", .str (if e.2.isDir then "dir" else "file")),
      (str "size", .num (itoa st.size)), (str "modified", .num (itoa st.modified))]

/-! ### `do_GET` -/

inductive Answer
  /-- `_send_json`, as the value that a decoder of the body reads -/
  | json (status : Nat) (payload : JsonTree)
  /-- the bytes of a file -/
  | content (bytes : GoString)

/-- The path of a request target: `urlparse` takes the fragment and the query off, and parameters off the
last part of what is left. -/
def urlPath (target : PyString) : PyString :=
  let path := target.takeWhile fun c => c != '?' && c != '#'
  let last := (path.reverse.takeWhile fun c => c != '/').reverse
  path.take (path.length - last.length) ++ last.takeWhile fun c => c != ';'

def errorJson (message : PyString) : JsonTree := .obj [(str "error", .str (fsencode message))]

/-- `do_GET`; `none` if the handler raises, which leaves the request without an answer. What
`_handle_storage` and `_handle_tree` answer is given. -/
def doGet (root : Node) (elsewhere : PyString → Option Answer) (target : PyString) : Option Answer :=
  let path := urlPath target
  if path = "/storage" ∨ path = "/tree" then elsewhere target
  else
    match safePath path with
    | none => some (.json 404 (errorJson "invalid path"))
    | some real =>
      match nodeAt root real with
      | some (.dir _ entries) =>
        ((sortedEntries entries).mapM entryJson).map fun l =>
          .json 200 (.obj [(str "path", .str (fsencode path)), (str "entries", .arr l)])
      | some (.file _ content) => some (.content content)
      | _ => some (.json 404 (errorJson "not found"))

end Gafam.Sandbox
