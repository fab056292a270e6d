import Gafam.Sandbox.Files

/-!
# `GET /tree` of the sandbox server

The tree of a directory is listed to a depth, and stops at a number of entries. The entries are counted over the
whole request, and a flag says that there were more.

Given are what the operating system says of a path, which may be anything: a directory may contain itself by a link,
it may not be listed, and an entry may be a link to nothing. Given are also `str.lower`, `int` and the time.
-/

namespace Gafam.Sandbox

open Gafam.Python

/-- `os.path.isdir`, `os.listdir` and `os.stat`; `none` is an `OSError`. -/
structure FileSystem where
  isdir : PyString → Bool
  listdir : PyString → Option (List PyString)
  stat : PyString → Option Stat

inductive TreeNode
  | dir (name path : PyString) (modified : Int) (children : List TreeNode)
  | file (name path : PyString) (size : Nat) (modified : Int)

/-- `counter` and `truncated`. -/
structure TreeState where
  counter : Nat
  truncated : Bool

def treeEntryCap : Nat := 2000

section
variable (fs : FileSystem) (lower : PyString → PyString)

/-- The names of a directory as the loop goes through them: directories first, each group by name. -/
def orderedNames (real : PyString) : List PyString :=
  let names := ((fs.listdir real).getD []).insertionSort fun a b => ¬ b < a
  let late := fun n => !fs.isdir (pathJoin real n)
  names.insertionSort fun a b => late a < late b ∨ late a = late b ∧ ¬ lower b < lower a

/-- `rel_path.rstrip("/") + "/" + child`. -/
def childPath (rel child : PyString) : PyString :=
  (rel.reverse.dropWhile (· == '/')).reverse ++ '/' :: child

/-- The loop over the names of a directory; a directory among them is listed by `sub`. -/
def treeLoop (sub : PyString → PyString → PyString → TreeState → TreeNode × TreeState) (rel real : PyString) :
    List PyString → TreeState → List TreeNode × TreeState
  | [], s => ([], s)
  | child :: names, s =>
    if s.counter ≥ treeEntryCap then ([], { s with truncated := true })
    else
      let counted := { s with counter := s.counter + 1 }
      let creal := pathJoin real child
      let crel := childPath rel child
      if fs.isdir creal then
        let (node, s') := sub child crel creal counted
        let (nodes, s'') := treeLoop sub rel real names s'
        (node :: nodes, s'')
      else
        let (nodes, s') := treeLoop sub rel real names counted
        match fs.stat creal with
        | some st => (.file child crel st.size st.modified :: nodes, s')
        | none => (nodes, s')

/-- `_tree_node`. -/
def treeNode : Nat → PyString → PyString → PyString → TreeState → TreeNode × TreeState
  | 0, name, rel, real, s => (.dir name rel (((fs.stat real).map Stat.modified).getD 0) [], s)
  | depth + 1, name, rel, real, s =>
    let (children, s') := treeLoop fs (treeNode depth) rel real (orderedNames fs lower real) s
    (.dir name rel (((fs.stat real).map Stat.modified).getD 0) children, s')

/-! ## `_handle_tree` -/

/-- `TOP_LEVEL`. -/
def topLevel : List (PyString × PyString) :=
  [("files", filesDir), ("downloads", downloadsDir), ("screenshots", screenshotsDir), ("scripts", scriptsDir),
    ("tmp", tmpDir)]

/-- The loop over `TOP_LEVEL`. -/
def topNodes (depth : Nat) : List (PyString × PyString) → TreeState → List TreeNode × TreeState
  | [], s => ([], s)
  | (label, real) :: tops, s =>
    if fs.isdir real then
      let (node, s') := treeNode fs lower depth label ('/' :: label) real s
      let (nodes, s'') := topNodes depth tops s'
      (node :: nodes, s'')
    else topNodes depth tops s

/-- The answer to a request; the format `ascii` shows the same tree as text. -/
inductive TreeAnswer
  | invalidPath
  | tree (path : PyString) (ascii : Bool) (root : TreeNode) (truncated : Bool)

/-- The first values of `path`, `depth` and `format`, where the query has them. -/
structure TreeQuery where
  path : Option PyString
  depth : Option PyString
  format : Option PyString

/-- `min(max(int(depth), 0), 8)`, and 4 for what is no number. -/
def TreeQuery.limit (q : TreeQuery) (int : PyString → Option Int) : Nat :=
  ((int (q.depth.getD "4")).map fun n => (min (max n 0) 8).toNat).getD 4

def TreeQuery.start (q : TreeQuery) : PyString := if q.path.getD "/" = [] then "/" else q.path.getD "/"

/-- `_handle_tree`. -/
def handleTree (int : PyString → Option Int) (now : Int) (q : TreeQuery) : TreeAnswer :=
  let ascii := q.format.getD "json" == py "ascii"
  if q.start = "/" then
    let (children, s) := topNodes fs lower (q.limit int) topLevel ⟨0, false⟩
    .tree q.start ascii (.dir "/" "/" now children) s.truncated
  else
    match safePath q.start with
    | none => .invalidPath
    | some real =>
      if fs.isdir real then
        let name := (q.start.reverse.dropWhile (· == '/')).reverse
        let (root, s) := treeNode fs lower (q.limit int) name q.start real ⟨0, false⟩
        .tree q.start ascii root s.truncated
      else .invalidPath

end

/-! ## What the tree is for -/

/-- The paths of nodes and below them, in the order of the tree. -/
def listed : List TreeNode → List PyString
  | [] => []
  | .dir _ path _ children :: nodes => path :: (listed children ++ listed nodes)
  | .file _ path _ _ :: nodes => path :: listed nodes

def TreeNode.children : TreeNode → List TreeNode
  | .dir _ _ _ children => children
  | .file _ _ _ _ => []

/-- An entry of a directory: its path in the tree, and the one in the file system. -/
structure TreeEntry where
  path : PyString
  real : PyString

/-- The entries of a directory to a depth, each in front of what is in it. -/
def entries (fs : FileSystem) (lower : PyString → PyString) : Nat → PyString → PyString → List TreeEntry
  | 0, _, _ => []
  | depth + 1, rel, real => (orderedNames fs lower real).flatMap fun child =>
    let creal := pathJoin real child
    let crel := childPath rel child
    ⟨crel, creal⟩ :: if fs.isdir creal then entries fs lower depth crel creal else []

/-- Those of a top-level directory, with its label. -/
def topEntries (fs : FileSystem) (lower : PyString → PyString) (depth : Nat) (top : PyString × PyString) :
    List TreeEntry :=
  if fs.isdir top.2 then entries fs lower depth ('/' :: top.1) top.2 else []

/-- An entry that is no link to nothing. -/
def FileSystem.shows (fs : FileSystem) (e : TreeEntry) : Bool := fs.isdir e.real || (fs.stat e.real).isSome

/-- No more paths are listed than the cap allows, all of them of entries; those of all entries that can be looked at,
unless the tree is said to be truncated; and it is said to be if and only if the cap leaves an entry out. -/
structure ListsUpToCap (fs : FileSystem) (all : List TreeEntry) (paths : List PyString) (truncated : Bool) : Prop where
  capped : paths.length ≤ treeEntryCap
  sound : ∀ p ∈ paths, ∃ e ∈ all, e.path = p
  complete : truncated = false → ∀ e ∈ all, fs.shows e = true → e.path ∈ paths
  exact : truncated = true ↔ treeEntryCap < all.length

/-- The entries that a request asks for: those of the directory, or of all the top-level ones. -/
def TreeQuery.entries (q : TreeQuery) (fs : FileSystem) (lower : PyString → PyString) (int : PyString → Option Int) :
    List TreeEntry :=
  if q.start = "/" then
    topLevel.flatMap (topEntries fs lower (q.limit int))
  else (safePath q.start).elim [] fun real => Sandbox.entries fs lower (q.limit int) q.start real

/-- The answer lists them; the top-level directories themselves are not counted. -/
def TreeAnswer.Lists (q : TreeQuery) (fs : FileSystem) (all : List TreeEntry) : TreeAnswer → Prop
  | .invalidPath => True
  | .tree _ _ root truncated =>
    ListsUpToCap fs all
      (if q.start = "/" then root.children.flatMap fun n => listed n.children else listed root.children) truncated

end Gafam.Sandbox
