import Gafam.Sandbox.Tree

/-!
# What a truncated tree leaves out

The walk counts the entries in the order in which it lists them, so the cap lets the first ones through, however they
are nested.
-/

namespace Gafam.Sandbox

open Gafam.Python

variable {fs : FileSystem} {lower : PyString → PyString}

/-- From one state to another the walk has gone through these entries, as far as the cap has let it, and has listed
these paths. -/
structure WalksThrough (fs : FileSystem) (all : List TreeEntry) (s s' : TreeState) (paths : List PyString) : Prop where
  counter_eq : s'.counter = s.counter + min all.length (treeEntryCap - s.counter)
  truncated_eq : s'.truncated = (s.truncated || decide (treeEntryCap - s.counter < all.length))
  paths_eq : paths = ((all.take (treeEntryCap - s.counter)).filter fs.shows).map TreeEntry.path

theorem WalksThrough.counter_le {all : List TreeEntry} {s s' : TreeState} {paths : List PyString}
    (h : WalksThrough fs all s s' paths) (hs : s.counter ≤ treeEntryCap) : s'.counter ≤ treeEntryCap := by
  rw [h.counter_eq]
  omega

theorem walksThrough_nil (s : TreeState) : WalksThrough fs [] s s [] where
  counter_eq := by rw [List.length_nil, Nat.zero_min, Nat.add_zero]
  truncated_eq := by rw [List.length_nil, decide_eq_false (Nat.not_lt_zero _), Bool.or_false]
  paths_eq := by rw [List.take_nil]; rfl

/-- One walk behind the other. -/
theorem WalksThrough.append {a b : List TreeEntry} {s s' s'' : TreeState} {p q : List PyString}
    (ha : WalksThrough fs a s s' p) (hb : WalksThrough fs b s' s'' q) : WalksThrough fs (a ++ b) s s'' (p ++ q) := by
  have hroom : treeEntryCap - s'.counter = treeEntryCap - s.counter - a.length := by
    rw [ha.counter_eq]
    omega
  refine ⟨?_, ?_, ?_⟩
  · rw [hb.counter_eq, hroom, ha.counter_eq, List.length_append]
    omega
  · rw [hb.truncated_eq, hroom, ha.truncated_eq, Bool.or_assoc, List.length_append, ← Bool.decide_or]
    congr 2
    exact propext (by omega)
  · rw [hb.paths_eq, hroom, ha.paths_eq, List.take_append, List.filter_append, List.map_append]

/-- An entry that is counted. -/
theorem walksThrough_one {e : TreeEntry} {s : TreeState} (hs : s.counter < treeEntryCap) :
    WalksThrough fs [e] s { s with counter := s.counter + 1 } (if fs.shows e then [e.path] else []) where
  counter_eq := by
    rw [List.length_singleton]
    dsimp only
    omega
  truncated_eq := by
    rw [List.length_singleton, decide_eq_false (by omega), Bool.or_false]
  paths_eq := by
    rw [List.take_of_length_le (by rw [List.length_singleton]; omega), List.filter_singleton]
    cases fs.shows e <;> rfl

/-- There is no room for any of them. -/
theorem walksThrough_full {all : List TreeEntry} (hall : all ≠ []) {s : TreeState} (hs : s.counter ≥ treeEntryCap) :
    WalksThrough fs all s { s with truncated := true } [] where
  counter_eq := by
    rw [Nat.sub_eq_zero_of_le hs, Nat.min_zero]
    rfl
  truncated_eq := by
    rw [Nat.sub_eq_zero_of_le hs, decide_eq_true (List.length_pos_of_ne_nil hall), Bool.or_true]
  paths_eq := by
    rw [Nat.sub_eq_zero_of_le hs, List.take_zero]
    rfl

/-! ## The walk -/

/-- What is in an entry, and itself. -/
def entriesOf (fs : FileSystem) (inside : PyString → PyString → List TreeEntry) (rel real : PyString)
    (child : PyString) : List TreeEntry :=
  ⟨childPath rel child, pathJoin real child⟩ ::
    if fs.isdir (pathJoin real child) then inside (childPath rel child) (pathJoin real child) else []

theorem treeLoop_walksThrough {sub : PyString → PyString → PyString → TreeState → TreeNode × TreeState}
    {inside : PyString → PyString → List TreeEntry}
    (hdir : ∀ name rel real s, ∃ m, (sub name rel real s).1 = .dir name rel m (sub name rel real s).1.children)
    (hsub : ∀ name rel real s, s.counter ≤ treeEntryCap →
      WalksThrough fs (inside rel real) s (sub name rel real s).2 (listed (sub name rel real s).1.children))
    (rel real : PyString) (names : List PyString) {s : TreeState} (hs : s.counter ≤ treeEntryCap) :
    WalksThrough fs (names.flatMap (entriesOf fs inside rel real)) s (treeLoop fs sub rel real names s).2
      (listed (treeLoop fs sub rel real names s).1) := by
  induction names generalizing s with
  | nil =>
    rw [treeLoop, listed]
    exact walksThrough_nil s
  | cons child names ih =>
    rw [List.flatMap_cons]
    by_cases hfull : s.counter ≥ treeEntryCap
    · rw [treeLoop, if_pos hfull, listed]
      exact walksThrough_full (List.cons_ne_nil _ _) hfull
    · have hone := @walksThrough_one fs ⟨childPath rel child, pathJoin real child⟩ s (Nat.lt_of_not_le hfull)
      rw [treeLoop, if_neg hfull, entriesOf, ← List.singleton_append, List.append_assoc]
      dsimp only
      have hle : ({ s with counter := s.counter + 1 } : TreeState).counter ≤ treeEntryCap := by
        dsimp only
        omega
      by_cases hd : fs.isdir (pathJoin real child) = true
      · have hbelow := hsub child (childPath rel child) (pathJoin real child) _ hle
        obtain ⟨m, hnode⟩ := hdir child (childPath rel child) (pathJoin real child)
          { s with counter := s.counter + 1 }
        have hrest := ih (hbelow.counter_le hle)
        have hshows : fs.shows ⟨childPath rel child, pathJoin real child⟩ = true := by
          rw [FileSystem.shows, hd, Bool.true_or]
        rw [if_pos hshows] at hone
        rw [if_pos hd, if_pos hd, hnode, listed]
        exact hone.append (hbelow.append hrest)
      · have hrest := ih hle
        rw [if_neg hd, if_neg hd, List.nil_append]
        cases hstat : fs.stat (pathJoin real child) with
        | some st =>
          have hshows : fs.shows ⟨childPath rel child, pathJoin real child⟩ = true := by
            rw [FileSystem.shows, hstat, Option.isSome_some, Bool.or_true]
          rw [if_pos hshows] at hone
          dsimp only
          rw [listed]
          exact hone.append hrest
        | none =>
          have hshows : fs.shows ⟨childPath rel child, pathJoin real child⟩ ≠ true := by
            rw [FileSystem.shows, hstat, Option.isSome_none, Bool.or_false]
            exact hd
          rw [if_neg hshows] at hone
          exact hone.append hrest

theorem treeNode_dir (depth : Nat) (name rel real : PyString) (s : TreeState) :
    ∃ m, (treeNode fs lower depth name rel real s).1 =
      .dir name rel m (treeNode fs lower depth name rel real s).1.children := by
  cases depth with
  | zero => exact ⟨_, rfl⟩
  | succ depth => exact ⟨_, rfl⟩

theorem treeNode_walksThrough (depth : Nat) (name rel real : PyString) {s : TreeState}
    (hs : s.counter ≤ treeEntryCap) :
    WalksThrough fs (entries fs lower depth rel real) s (treeNode fs lower depth name rel real s).2
      (listed (treeNode fs lower depth name rel real s).1.children) := by
  induction depth generalizing name rel real s with
  | zero =>
    rw [treeNode, TreeNode.children, listed]
    exact walksThrough_nil s
  | succ depth ih =>
    exact treeLoop_walksThrough (treeNode_dir depth) (fun name rel real s hs => ih name rel real hs) rel real _ hs

/-- The top-level directories share the counter and the flag. -/
theorem topNodes_walksThrough (depth : Nat) (tops : List (PyString × PyString)) {s : TreeState}
    (hs : s.counter ≤ treeEntryCap) :
    WalksThrough fs (tops.flatMap (topEntries fs lower depth)) s (topNodes fs lower depth tops s).2
      ((topNodes fs lower depth tops s).1.flatMap fun n => listed n.children) := by
  induction tops generalizing s with
  | nil =>
    rw [topNodes]
    exact walksThrough_nil s
  | cons top tops ih =>
    obtain ⟨label, real⟩ := top
    rw [List.flatMap_cons, topNodes, topEntries]
    by_cases hd : fs.isdir real = true
    · have hnode := @treeNode_walksThrough fs lower depth label ('/' :: label) real s hs
      have hrest := ih (hnode.counter_le hs)
      rw [if_pos hd, if_pos hd]
      dsimp only
      rw [List.flatMap_cons]
      exact hnode.append hrest
    · rw [if_neg hd, if_neg hd, List.nil_append]
      exact ih hs

/-- A walk from the beginning. -/
theorem WalksThrough.lists {all : List TreeEntry} {s : TreeState} {paths : List PyString}
    (h : WalksThrough fs all ⟨0, false⟩ s paths) : ListsUpToCap fs all paths s.truncated := by
  have hpaths : paths = ((all.take treeEntryCap).filter fs.shows).map TreeEntry.path := h.paths_eq
  have htruncated : s.truncated = decide (treeEntryCap < all.length) := by
    rw [h.truncated_eq]
    exact Bool.false_or _
  refine ⟨?_, ?_, ?_, ?_⟩
  · have hfilter := List.length_filter_le fs.shows (all.take treeEntryCap)
    have htake := List.length_take_le treeEntryCap all
    rw [hpaths, List.length_map]
    omega
  · intro p hp
    rw [hpaths] at hp
    obtain ⟨e, he, rfl⟩ := List.mem_map.1 hp
    exact ⟨e, List.mem_of_mem_take (List.mem_of_mem_filter he), rfl⟩
  · intro hwhole e he hshows
    rw [htruncated, decide_eq_false_iff_not, Nat.not_lt] at hwhole
    rw [hpaths, List.take_of_length_le hwhole]
    exact List.mem_map_of_mem (List.mem_filter.2 ⟨he, hshows⟩)
  · rw [htruncated, decide_eq_true_iff]

theorem treeNode_lists (fs : FileSystem) (lower : PyString → PyString) (depth : Nat) (name rel real : PyString) :
    ListsUpToCap fs (entries fs lower depth rel real)
      (listed (treeNode fs lower depth name rel real ⟨0, false⟩).1.children)
      (treeNode fs lower depth name rel real ⟨0, false⟩).2.truncated :=
  (treeNode_walksThrough depth name rel real (Nat.zero_le _)).lists

theorem handleTree_lists (fs : FileSystem) (lower : PyString → PyString) (int : PyString → Option Int) (now : Int)
    (q : TreeQuery) :
    (handleTree fs lower int now q).Lists q fs (q.entries fs lower int) := by
  unfold handleTree
  dsimp only
  by_cases hroot : q.start = "/"
  · rw [if_pos hroot, TreeAnswer.Lists, if_pos hroot, TreeQuery.entries, if_pos hroot]
    exact (topNodes_walksThrough _ _ (Nat.zero_le _)).lists
  · rw [if_neg hroot, TreeQuery.entries, if_neg hroot]
    cases safePath q.start with
    | none => trivial
    | some real =>
      dsimp only
      by_cases hd : fs.isdir real = true
      · rw [if_pos hd, TreeAnswer.Lists, if_neg hroot]
        exact treeNode_lists fs lower _ _ _ real
      · rw [if_neg hd]
        trivial

/-- The tree of a directory, and the answer to a request for it, list the entries that can be looked at up to the cap,
and say that they are truncated if and only if the cap leaves one out. -/
theorem tree_lists (fs : FileSystem) (lower : PyString → PyString) :
    (∀ depth name rel real, ListsUpToCap fs (entries fs lower depth rel real)
      (listed (treeNode fs lower depth name rel real ⟨0, false⟩).1.children)
      (treeNode fs lower depth name rel real ⟨0, false⟩).2.truncated) ∧
    ∀ int now q, (handleTree fs lower int now q).Lists q fs (q.entries fs lower int) :=
  ⟨treeNode_lists fs lower, handleTree_lists fs lower⟩

/-- A directory with nothing but a link to nothing. -/
def brokenLink : FileSystem where
  isdir := fun real => real == py "/sandbox/files"
  listdir := fun _ => some ["link"]
  stat := fun _ => none

theorem brokenLink_left_out :
    (treeNode brokenLink id 1 "files" "/files" "/sandbox/files" ⟨0, false⟩).2.truncated = false ∧
      ∃ e ∈ entries brokenLink id 1 "/files" "/sandbox/files",
        e.path ∉ listed (treeNode brokenLink id 1 "files" "/files" "/sandbox/files" ⟨0, false⟩).1.children := by
  refine ⟨by decide, ⟨"/files/link", "/sandbox/files/link"⟩, ?_, ?_⟩
  · exact List.mem_singleton_self _
  · have hchildren : (treeNode brokenLink id 1 "files" "/files" "/sandbox/files" ⟨0, false⟩).1.children = [] := rfl
    rw [hchildren, listed]
    exact List.not_mem_nil

end Gafam.Sandbox
