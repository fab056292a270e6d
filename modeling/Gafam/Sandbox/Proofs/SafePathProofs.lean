import Gafam.Sandbox.Files

/-!
# Which names leave the roots

The check compares strings, so it takes `/sandbox/files2` for a path below `/sandbox/files`. A name leaves
its root exactly if its dots lead to such a sibling.
-/

namespace Gafam.Sandbox

open Gafam.Python

/-! ## The roots -/

def rootNames : List PyString := ["files", "tmp", "downloads", "screenshots", "scripts"]

/-- The directory of a root. -/
def rootComps (name : PyString) : List PyString := ["sandbox", name]

theorem allowed_eq : allowed = rootNames.map fun name => ('/' :: name, absolutePath (rootComps name)) := by
  decide

theorem isName_of {w : PyString} (h : (w ≠ [] ∧ w ≠ py "." ∧ w ≠ py "..") ∧ '/' ∉ w) : IsName w :=
  ⟨h.1.1, h.1.2.1, h.1.2.2, h.2⟩

theorem isName_rootName {name : PyString} (h : name ∈ rootNames) : IsName name := by
  have hall : ∀ w ∈ rootNames, (w ≠ [] ∧ w ≠ py "." ∧ w ≠ py "..") ∧ '/' ∉ w := by decide
  exact isName_of (hall name h)

theorem isName_rootComps {name : PyString} (h : name ∈ rootNames) : ∀ w ∈ rootComps name, IsName w := by
  intro w hw
  rcases List.mem_cons.1 hw with rfl | hw
  · exact isName_of (by decide)
  · rw [List.mem_singleton.1 hw]
    exact isName_rootName h

/-- No root is a sibling of another. -/
theorem eq_of_prefix_rootName {name w : PyString} (hname : name ∈ rootNames) (hw : w ∈ rootNames)
    (h : name <+: w) : w = name := by
  have hall : ∀ a ∈ rootNames, ∀ b ∈ rootNames, a.isPrefixOf b = true → b = a := by decide
  exact hall name hname w hw (List.isPrefixOf_iff_prefix.2 h)

theorem normpath_root {name : PyString} (h : name ∈ rootNames) :
    normpath (absolutePath (rootComps name)) = absolutePath (rootComps name) := by
  have hall : ∀ w ∈ rootNames, normpath (absolutePath (rootComps w)) = absolutePath (rootComps w) := by decide
  exact hall name h

/-! ## Prefixes of paths -/

theorem prefix_slash {a b x y : PyString} (ha : '/' ∉ a) (hb : '/' ∉ b) :
    a ++ '/' :: x <+: b ++ '/' :: y ↔ a = b ∧ x <+: y := by
  induction a generalizing b with
  | nil =>
    cases b with
    | nil => simp [List.cons_prefix_cons]
    | cons d b =>
      have hd : '/' ≠ d := (List.ne_and_not_mem_of_not_mem_cons hb).1
      simp [List.cons_prefix_cons, hd]
  | cons c a ih =>
    obtain ⟨hc, ha⟩ := List.ne_and_not_mem_of_not_mem_cons ha
    cases b with
    | nil => simp [List.cons_prefix_cons, Ne.symm hc]
    | cons d b =>
      have hb := (List.ne_and_not_mem_of_not_mem_cons hb).2
      rw [List.cons_append, List.cons_append, List.cons_prefix_cons, ih ha hb, List.cons.injEq, and_assoc]

theorem prefix_append_slash {a b y : PyString} (ha : '/' ∉ a) : a <+: b ++ '/' :: y ↔ a <+: b := by
  constructor
  · intro h
    rcases List.prefix_or_prefix_of_prefix h (List.prefix_append b ('/' :: y)) with hab | ⟨s, rfl⟩
    · exact hab
    · rw [List.prefix_append_right_inj] at h
      cases s with
      | nil => rw [List.append_nil]
      | cons c s =>
        obtain ⟨rfl, -⟩ := List.cons_prefix_cons.1 h
        exact absurd (List.mem_append_right _ List.mem_cons_self) ha
  · exact fun h => h.trans (List.prefix_append _ _)

theorem prefix_joinSep {name w : PyString} {ws : List PyString} (h : '/' ∉ name) :
    name <+: joinSep (w :: ws) ↔ name <+: w := by
  cases ws with
  | nil => rfl
  | cons v ws => exact prefix_append_slash h

/-- What begins with the directory of a root: the entries of `/sandbox` whose name begins with that of the
root, and what is below them. -/
theorem prefix_root {name : PyString} {comps : List PyString} (hname : IsName name)
    (h : ∀ w ∈ comps, IsName w) :
    absolutePath (rootComps name) <+: absolutePath comps ↔
      ∃ w below, comps = py "sandbox" :: w :: below ∧ name <+: w := by
  unfold absolutePath
  rw [List.cons_prefix_cons]
  show '/' = '/' ∧ py "sandbox" ++ '/' :: name <+: joinSep comps ↔ _
  have hsandbox : '/' ∉ py "sandbox" := by decide
  rcases comps with _ | ⟨v, _ | ⟨w, below⟩⟩
  · simp [joinSep, py]
  · have hv := (h v List.mem_cons_self).noSlash
    constructor
    · rintro ⟨-, t, ht⟩
      have hmem : '/' ∈ py "sandbox" ++ '/' :: name ++ t :=
        List.mem_append_left t (List.mem_append_right _ List.mem_cons_self)
      rw [ht] at hmem
      exact absurd hmem hv
    · rintro ⟨w, below, heq, -⟩
      exact absurd (List.cons.inj heq).2 (List.cons_ne_nil _ _).symm
  · rw [joinSep, prefix_slash hsandbox (h v List.mem_cons_self).noSlash, prefix_joinSep hname.noSlash]
    · constructor
      · rintro ⟨-, rfl, hw⟩
        exact ⟨w, below, rfl, hw⟩
      · rintro ⟨w', below', heq, hw⟩
        simp only [List.cons.injEq] at heq
        obtain ⟨hv, rfl, -⟩ := heq
        exact ⟨rfl, hv.symm, hw⟩
    · exact List.cons_ne_nil _ _

/-! ## Climbing -/

theorem foldl_climb_names {comps : List PyString} {r : Nat × List PyString}
    (h : ∀ w ∈ comps, '/' ∉ w) (hr : ∀ w ∈ r.2, IsName w) :
    ∀ w ∈ (comps.foldl climbComp r).2, IsName w := by
  induction comps generalizing r with
  | nil => exact hr
  | cons v comps ih =>
    rw [List.foldl_cons]
    refine ih (fun w hw => h w (List.mem_cons_of_mem _ hw)) ?_
    unfold climbComp
    split_ifs with hskip hname
    · exact hr
    · intro w hw
      rcases List.mem_cons.1 hw with rfl | hw
      · obtain ⟨hnil, hdot⟩ := not_or.1 hskip
        exact ⟨hnil, hdot, hname, h _ List.mem_cons_self⟩
      · exact hr w hw
    · obtain ⟨up, _ | ⟨v, down⟩⟩ := r
      · exact hr
      · exact fun w hw => hr w (List.mem_cons_of_mem _ hw)

/-- `normpath` climbs, but not above the root of the file system. -/
theorem foldl_pushComp_climb {comps base : List PyString} (up : Nat) (down : List PyString)
    (hbase : ∀ w ∈ base, IsName w) (hdown : ∀ w ∈ down, IsName w) (h : ∀ w ∈ comps, '/' ∉ w) :
    comps.foldl (pushComp true) (down ++ base.drop up) =
      (comps.foldl climbComp (up, down)).2 ++ base.drop (comps.foldl climbComp (up, down)).1 := by
  induction comps generalizing up down with
  | nil => rfl
  | cons v comps ih =>
    have hcomps : ∀ w ∈ comps, '/' ∉ w := fun w hw => h w (List.mem_cons_of_mem _ hw)
    rw [List.foldl_cons, List.foldl_cons]
    by_cases hskip : v = [] ∨ v = py "."
    · have hpush : pushComp true (down ++ base.drop up) v = down ++ base.drop up := if_pos hskip
      have hclimb : climbComp (up, down) v = (up, down) := if_pos hskip
      rw [hpush, hclimb]
      exact ih up down hdown hcomps
    · by_cases hup : v = py ".."
      · have hhead : ∀ w ∈ down ++ base.drop up, w ≠ py ".." := by
          intro w hw
          rcases List.mem_append.1 hw with hw | hw
          · exact (hdown w hw).ne_dotdot
          · exact (hbase w (List.mem_of_mem_drop hw)).ne_dotdot
        have hpush : pushComp true (down ++ base.drop up) v = (down ++ base.drop up).tail := by
          unfold pushComp
          rw [if_neg hskip, if_neg]
          rintro (hne | ⟨htrue, -⟩ | hlast)
          · exact hne hup
          · cases htrue
          · exact hhead _ (List.mem_of_mem_head? hlast) rfl
        rw [hpush]
        cases down with
        | nil =>
          have hclimb : climbComp (up, []) v = (up + 1, []) := by
            unfold climbComp
            rw [if_neg hskip, if_neg (not_not.2 hup)]
          rw [hclimb, List.nil_append, List.tail_drop]
          exact ih (up + 1) [] (fun w hw => absurd hw List.not_mem_nil) hcomps
        | cons u down =>
          have hclimb : climbComp (up, u :: down) v = (up, down) := by
            unfold climbComp
            rw [if_neg hskip, if_neg (not_not.2 hup)]
          rw [hclimb]
          exact ih up down (fun w hw => hdown w (List.mem_cons_of_mem _ hw)) hcomps
      · have hname : IsName v := by
          obtain ⟨hnil, hdot⟩ := not_or.1 hskip
          exact ⟨hnil, hdot, hup, h v List.mem_cons_self⟩
        have hclimb : climbComp (up, down) v = (up, v :: down) := by
          unfold climbComp
          rw [if_neg hskip, if_pos hup]
        rw [pushComp_name hname, hclimb, ← List.cons_append]
        refine ih up (v :: down) (fun w hw => ?_) hcomps
        rcases List.mem_cons.1 hw with rfl | hw
        · exact hname
        · exact hdown w hw

theorem climb_names {rest : PyString} : ∀ w ∈ (climb rest).2, IsName w := by
  intro w hw
  refine foldl_climb_names (fun v hv => noSlash_of_mem_splitSep hv) ?_ w (List.mem_reverse.1 hw)
  exact fun w hw => absurd hw List.not_mem_nil

/-- The components of the path that a name is resolved to. -/
def resolvedComps (name rest : PyString) : List PyString :=
  (rootComps name).take (2 - (climb rest).1) ++ (climb rest).2

theorem resolvedComps_names {name : PyString} (hname : name ∈ rootNames) (rest : PyString) :
    ∀ w ∈ resolvedComps name rest, IsName w := by
  intro w hw
  rcases List.mem_append.1 hw with hw | hw
  · exact isName_rootComps hname w (List.mem_of_mem_take hw)
  · exact climb_names w hw

theorem normpath_climb {name rest : PyString} (hname : name ∈ rootNames) :
    normpath (absolutePath (rootComps name) ++ '/' :: rest) = absolutePath (resolvedComps name rest) := by
  have hbase : ∀ w ∈ (rootComps name).reverse, IsName w := fun w hw =>
    isName_rootComps hname w (List.mem_reverse.1 hw)
  have hne : rootComps name ≠ [] := List.cons_ne_nil _ _
  rw [normpath_join hne (isName_rootComps hname)]
  have hfold := foldl_pushComp_climb 0 [] hbase
    (fun w hw => absurd hw List.not_mem_nil) (fun v hv => noSlash_of_mem_splitSep (s := rest) hv)
  rw [List.nil_append, List.drop_zero] at hfold
  rw [hfold, List.reverse_append]
  unfold resolvedComps
  rw [List.drop_reverse, List.reverse_reverse]
  rfl

/-! ## The request -/

/-- Slashes at the start of the rest of a name change nothing. -/
theorem climb_dropSlashes (rest : PyString) : climb (rest.dropWhile (· == '/')) = climb rest := by
  induction rest with
  | nil => rfl
  | cons c rest ih =>
    by_cases hc : c = '/'
    · subst hc
      rw [List.dropWhile_cons_of_pos (by decide), ih]
      unfold climb
      rw [splitSep, if_pos rfl, List.foldl_cons]
      rfl
    · rw [List.dropWhile_cons_of_neg (by simpa using hc)]

theorem addresses_iff {subpath name : PyString} :
    addresses subpath ('/' :: name) = true ↔
      subpath = '/' :: name ∨ ∃ rest, subpath = '/' :: name ++ '/' :: rest := by
  unfold addresses
  rw [Bool.or_eq_true, beq_iff_eq, List.isPrefixOf_iff_prefix]
  refine or_congr_right ⟨?_, ?_⟩
  · rintro ⟨rest, rfl⟩
    exact ⟨rest, by simp [py]⟩
  · rintro ⟨rest, rfl⟩
    exact ⟨rest, by simp [py]⟩

/-- A request addresses one root. -/
theorem addresses_unique {subpath name name' : PyString} (hname : '/' ∉ name) (hname' : '/' ∉ name')
    (h : addresses subpath ('/' :: name) = true) (h' : addresses subpath ('/' :: name') = true) :
    name = name' := by
  have hfirst : ∀ {n : PyString}, '/' ∉ n → addresses subpath ('/' :: n) = true →
      (splitSep subpath)[1]? = some n := by
    intro n hn haddr
    rcases addresses_iff.1 haddr with rfl | ⟨rest, rfl⟩
    · rw [splitSep, if_pos rfl, splitSep_of_noSlash hn]
      rfl
    · rw [List.cons_append, splitSep, if_pos rfl, splitSep_append hn]
      rfl
  exact Option.some.inj ((hfirst hname h).symm.trans (hfirst hname' h'))

theorem resolved_eq {subpath name : PyString} (hname : name ∈ rootNames) :
    resolved subpath ('/' :: name) (absolutePath (rootComps name)) =
      absolutePath (resolvedComps name (subpath.drop ('/' :: name).length)) := by
  have hlast : (absolutePath (rootComps name)).getLast? ≠ some '/' := by
    have hall : ∀ w ∈ rootNames, (absolutePath (rootComps w)).getLast? ≠ some '/' := by decide
    exact hall name hname
  unfold resolved
  generalize subpath.drop ('/' :: name).length = rest
  have hhead : (rest.dropWhile (· == '/')).head? ≠ some '/' := by
    intro hslash
    have hnot := List.head?_dropWhile_not (· == '/') rest
    rw [hslash] at hnot
    exact absurd hnot (by decide)
  have hjoin : pathJoin (absolutePath (rootComps name)) (rest.dropWhile (· == '/')) =
      absolutePath (rootComps name) ++ '/' :: rest.dropWhile (· == '/') := by
    have hne : absolutePath (rootComps name) ≠ [] := List.cons_ne_nil _ _
    unfold pathJoin
    rw [if_neg hhead, if_neg (not_or.2 ⟨hne, hlast⟩)]
  rw [hjoin, normpath_climb hname]
  unfold resolvedComps
  rw [climb_dropSlashes]

theorem findSome?_unique {α β : Type} {f : α → Option β} {l : List α} {a : α} (ha : a ∈ l)
    (h : ∀ b ∈ l, b ≠ a → f b = none) : l.findSome? f = f a := by
  cases hf : l.findSome? f with
  | none => exact (List.findSome?_eq_none_iff.1 hf a ha).symm
  | some v =>
    obtain ⟨b, hb, hv⟩ := List.exists_of_findSome?_eq_some hf
    by_cases hba : b = a
    · rw [← hba, hv]
    · rw [h b hb hba] at hv
      cases hv

/-- The server goes on exactly if the resolved path begins with the directory of the root. -/
theorem safePath_eq_some {subpath name path : PyString} (hname : name ∈ rootNames)
    (haddr : addresses subpath ('/' :: name) = true) :
    safePath subpath = some path ↔
      path = absolutePath (resolvedComps name (subpath.drop ('/' :: name).length)) ∧
        absolutePath (rootComps name) <+: path := by
  unfold safePath
  rw [allowed_eq, List.findSome?_map, findSome?_unique hname]
  · simp only [Function.comp_apply, haddr, Bool.true_and, normpath_root hname, resolved_eq hname,
      List.isPrefixOf_iff_prefix]
    split_ifs with hpre
    · constructor
      · intro h
        obtain rfl := Option.some.inj h
        exact ⟨rfl, hpre⟩
      · rintro ⟨rfl, -⟩
        rfl
    · constructor
      · intro h
        cases h
      · rintro ⟨rfl, h⟩
        exact absurd h hpre
  · intro name' hname' hne
    have hno : addresses subpath ('/' :: name') ≠ true := fun haddr' =>
      hne (addresses_unique (isName_rootName hname').noSlash (isName_rootName hname).noSlash haddr' haddr)
    simp only [Function.comp_apply, Bool.eq_false_iff.2 hno, Bool.false_and]
    rfl

/-- A path below a root. -/
theorem within_root_iff {name : PyString} {comps : List PyString} (hname : name ∈ rootNames)
    (h : ∀ w ∈ comps, IsName w) :
    Within (absolutePath (rootComps name)) (absolutePath comps) ↔
      ∃ below, comps = py "sandbox" :: name :: below := by
  constructor
  · rintro ⟨root, below, hnames, hroot, hpath⟩
    have hrootNames : ∀ w ∈ root, IsName w := fun w hw => hnames w (List.mem_append_left _ hw)
    obtain rfl := absolutePath_inj (isName_rootComps hname) hrootNames hroot
    exact ⟨below, absolutePath_inj h hnames hpath⟩
  · rintro ⟨below, rfl⟩
    exact ⟨rootComps name, below, h, rfl, rfl⟩

/-- The components of the resolved path are those of a sibling. -/
theorem resolvedComps_sibling {name rest : PyString} :
    (∃ w below, resolvedComps name rest = py "sandbox" :: w :: below ∧ Sibling name w) ↔
      LeadsToSibling name rest := by
  unfold resolvedComps LeadsToSibling rootComps
  rcases hup : (climb rest).1 with _ | _ | up
  · -- the name stays below its root
    constructor
    · rintro ⟨w, below, heq, hw⟩
      have hwname : name = w := (List.cons.inj (List.cons.inj heq).2).1
      exact absurd hwname.symm hw.2
    · rintro (⟨h, -⟩ | ⟨h, -⟩)
      · cases h
      · omega
  · constructor
    · rintro ⟨w, below, heq, hw⟩
      exact .inl ⟨rfl, w, below, (List.cons.inj heq).2, hw⟩
    · rintro (⟨-, w, below, heq, hw⟩ | ⟨h, -⟩)
      · exact ⟨w, below, by rw [heq]; rfl, hw⟩
      · omega
  · have htake : 2 - (up + 1 + 1) = 0 := by omega
    rw [htake, List.take_zero, List.nil_append]
    constructor
    · intro h
      exact .inr ⟨by omega, h⟩
    · rintro (⟨h, -⟩ | ⟨-, h⟩)
      · omega
      · exact h

/-- The server stays in the roots exactly if the name does not lead to a sibling of its root. -/
theorem staysInRoots_iff (subpath : PyString) : StaysInRoots subpath ↔ NoSibling subpath := by
  unfold StaysInRoots NoSibling
  rw [allowed_eq]
  simp only [List.mem_map, exists_exists_and_eq_and, forall_exists_index, and_imp, forall_apply_eq_imp_iff₂,
    List.drop_succ_cons, List.drop_zero]
  constructor
  · intro h name hname haddr hsibling
    obtain ⟨w, below, hcomps, hw⟩ := resolvedComps_sibling.2 hsibling
    have hnames := resolvedComps_names hname (subpath.drop ('/' :: name).length)
    have hpre := (prefix_root (isName_rootName hname) hnames).2 ⟨w, below, hcomps, hw.1⟩
    obtain ⟨root, hroot, hwithin⟩ := h _ ((safePath_eq_some hname haddr).2 ⟨rfl, hpre⟩)
    obtain ⟨below', hcomps'⟩ := (within_root_iff hroot hnames).1 hwithin
    rw [hcomps] at hcomps'
    obtain rfl : w = root := (List.cons.inj (List.cons.inj hcomps').2).1
    exact hw.2 (eq_of_prefix_rootName hname hroot hw.1)
  · intro h path hpath
    by_cases haddr : ∃ name ∈ rootNames, addresses subpath ('/' :: name) = true
    · obtain ⟨name, hname, haddr⟩ := haddr
      obtain ⟨rfl, hpre⟩ := (safePath_eq_some hname haddr).1 hpath
      have hnames := resolvedComps_names hname (subpath.drop ('/' :: name).length)
      obtain ⟨w, below, hcomps, hw⟩ := (prefix_root (isName_rootName hname) hnames).1 hpre
      by_cases hwname : w = name
      · subst hwname
        exact ⟨w, hname, (within_root_iff hname hnames).2 ⟨below, hcomps⟩⟩
      · exact absurd (resolvedComps_sibling.1 ⟨w, below, hcomps, hw, hwname⟩) (h name hname haddr)
    · unfold safePath at hpath
      rw [allowed_eq, List.findSome?_map] at hpath
      obtain ⟨name, hname, hfound⟩ := List.exists_of_findSome?_eq_some hpath
      have hno : addresses subpath ('/' :: name) ≠ true := fun haddr' => haddr ⟨name, hname, haddr'⟩
      simp only [Function.comp_apply, Bool.eq_false_iff.2 hno, Bool.false_and] at hfound
      cases hfound

/-- `/files/../files2/x` is served from `/sandbox/files2`. -/
theorem files2_leaves : ¬ StaysInRoots "/files/../files2/x" := by
  intro h
  obtain ⟨root, hroot, hwithin⟩ := h (py "/sandbox/files2/x") (by decide)
  rw [allowed_eq] at hroot
  obtain ⟨name, hname, rfl⟩ := List.mem_map.1 hroot
  have hnames : ∀ w ∈ [py "sandbox", py "files2", py "x"], IsName w := by
    have hall : ∀ w ∈ [py "sandbox", py "files2", py "x"], (w ≠ [] ∧ w ≠ py "." ∧ w ≠ py "..") ∧ '/' ∉ w := by
      decide
    exact fun w hw => isName_of (hall w hw)
  obtain ⟨below, hcomps⟩ := (within_root_iff hname hnames).1 hwithin
  have hfiles2 : py "files2" ∈ rootNames := by
    rw [(List.cons.inj (List.cons.inj hcomps).2).1]
    exact hname
  exact absurd hfiles2 (by decide)

end Gafam.Sandbox
