import Gafam.Edge.Install

/-!
# Proofs: one download at a time

The look at the directory is old when the lock is taken, so that a second run may start beside a first one. It does so
only when the directory is complete, and then it has nothing to fetch.
-/

namespace Gafam.Edge.Install

open Gafam.Go Gafam.Lib

/-! ## Files -/

/-- No file of the model has the name of a `.partial` file. -/
theorem ne_tmp {f : GoString} (hf : f ∈ edgeModelFiles) (name : GoString) : f ≠ tmp name := by
  have hall : ∀ f ∈ edgeModelFiles, ¬(str ".partial" <:+ f) := by decide
  intro heq
  exact hall f hf (heq ▸ List.suffix_append name (str ".partial"))

theorem present_congr {dir dir' : Disk GoString} {f : GoString} (h : dir'.content f = dir.content f) :
    present dir' f = present dir f := by
  rw [present, present, h]

theorem present_of_content {dir : Disk GoString} {f c : GoString} (h : dir.content f = some c) :
    present dir f = decide (c ≠ []) := by
  rw [present, h]
  rfl

/-- What one step does to the files and to the record of the server: a file that is there stays as it is. -/
structure Grows (s s' : State) : Prop where
  served : ∀ x ∈ s.served, x ∈ s'.served
  files : ∀ f ∈ edgeModelFiles, s'.dir.content f = s.dir.content f ∨
    (present s.dir f = false ∧ ∃ b, (f, b) ∈ s'.served ∧ s'.dir.content f = some b)

theorem Grows.of_content {s s' : State} (hserved : ∀ x ∈ s.served, x ∈ s'.served)
    (h : ∀ f ∈ edgeModelFiles, s'.dir.content f = s.dir.content f) : Grows s s' :=
  ⟨hserved, fun f hf => .inl (h f hf)⟩

/-- The directory and the record are left alone. -/
theorem Grows.of_eq {s s' : State} (hdir : s'.dir = s.dir) (hserved : s'.served = s.served) : Grows s s' :=
  .of_content (fun x hx => hserved ▸ hx) fun f _ => by rw [hdir]

theorem Grows.content {s s' : State} (h : Grows s s') {f : GoString} (hf : f ∈ edgeModelFiles)
    (hp : present s.dir f = true) : s'.dir.content f = s.dir.content f := by
  rcases h.files f hf with heq | ⟨habsent, -⟩
  · exact heq
  · rw [hp] at habsent
    exact Bool.noConfusion habsent

theorem Grows.present {s s' : State} (h : Grows s s') {f : GoString} (hf : f ∈ edgeModelFiles)
    (hp : present s.dir f = true) : present s'.dir f = true :=
  (present_congr (h.content hf hp)).trans hp

theorem Grows.complete {s s' : State} (h : Grows s s') (hc : Complete s.dir) : Complete s'.dir :=
  fun f hf => h.present hf (hc f hf)

theorem Grows.visited {s s' : State} {todo : List GoString} (h : Grows s s') (hv : Visited s.dir s.served todo) :
    Visited s'.dir s'.served todo := by
  intro f hf hnot
  rcases hv f hf hnot with hp | hempty
  · exact .inl (h.present hf hp)
  · exact .inr (h.served _ hempty)

/-- One file less is to do. -/
theorem Visited.next {dir : Disk GoString} {served : List (GoString × GoString)} {name : GoString}
    {rest : List GoString} (h : Visited dir served (name :: rest))
    (hname : Gafam.Edge.Install.present dir name = true ∨ (name, []) ∈ served) : Visited dir served rest := by
  intro f hf hnot
  by_cases hfn : f = name
  · exact hfn ▸ hname
  · refine h f hf fun hmem => ?_
    rcases List.mem_cons.1 hmem with heq | hmem
    · exact hfn heq
    · exact hnot hmem

/-! ## One step of a run -/

/-- What a step of a run says about the status: the last word of a run is not that it downloads. -/
def StatusStep (s s' : State) (r' : Run) : Prop :=
  (s'.installSt = s.installSt ∧ r'.Alive) ∨
    (s'.installSt.status = .downloading ∧ s'.installSt.progress ≤ 99 ∧ r'.Alive) ∨
    (s'.installSt.status = .error ∧ s'.installSt.progress = 0 ∧ r' = .ended) ∨
    (s'.installSt.status = .ready ∧ s'.installSt.progress = 100 ∧ r' = .ended ∧ Visited s'.dir s'.served [])

/-- What a step of a run keeps. -/
structure RunStep (s s' : State) (r' : Run) : Prop where
  grows : Grows s s'
  good : r'.Good s'.dir s'.served
  quiet : Complete s.dir → s'.dir = s.dir
  status : StatusStep s s' r'

theorem setInstallProgress_progress (s : State) (name : GoString) (done total : Int) (msg : GoString) :
    (setInstallProgress s name done total msg).installSt.progress ≤ 99 := by
  show (if ((100 * done).bmod (2 ^ 64)).tdiv total > 99 then (99 : Int) else _) ≤ 99
  split <;> omega

/-- A report of progress. -/
theorem RunStep.progress {s : State} {r' : Run} (hr : r'.Good s.dir s.served) (halive : r'.Alive)
    (name : GoString) (done total : Int) (msg : GoString) : RunStep s (setInstallProgress s name done total msg) r' :=
  ⟨.of_eq rfl rfl, hr, fun _ => rfl, .inr (.inl ⟨rfl, setInstallProgress_progress .., halive⟩)⟩

/-- A step of the run alone. -/
theorem RunStep.alone {s : State} {r' : Run} (hr : r'.Good s.dir s.served) (halive : r'.Alive) : RunStep s s r' :=
  ⟨.of_eq rfl rfl, hr, fun _ => rfl, .inl ⟨rfl, halive⟩⟩

/-- The `.partial` file of a file that is not there changes. -/
theorem RunStep.partially {s : State} {r' : Run} {dir : Disk GoString} {name : GoString}
    (hname : name ∈ edgeModelFiles) (habsent : present s.dir name = false)
    (hdir : ∀ f, f ≠ tmp name → dir.content f = s.dir.content f)
    (hr : r'.Good dir s.served) (halive : r'.Alive) : RunStep s { s with dir := dir } r' where
  grows := .of_content (fun _ hx => hx) fun f hf => hdir f (ne_tmp hf name)
  good := hr
  quiet hc := by
    rw [hc name hname] at habsent
    exact Bool.noConfusion habsent
  status := .inl ⟨rfl, halive⟩

/-- **A file is fetched** into its `.partial` file, and then put in its place. -/
theorem downloadFile_spec {s s' : State} {name : GoString} {rest : List GoString} {done total : Int} {fetch : Fetch}
    {e : Answer} {r' : Run} (htotal : 0 < total) (htodo : name :: rest <:+ edgeModelFiles)
    (hv : Visited s.dir s.served (name :: rest)) (hg : fetch.Good s.dir s.served name)
    (h : downloadFile s name rest done total fetch e = some (s', r')) : RunStep s s' r' := by
  have hname : name ∈ edgeModelFiles := htodo.subset (List.mem_cons_self ..)
  have hself : ∀ {dir : Disk GoString}, (∀ f, f ≠ tmp name → dir.content f = s.dir.content f) →
      present dir name = present s.dir name ∧ Visited dir s.served (name :: rest) := by
    intro dir hdir
    refine ⟨present_congr (hdir name (ne_tmp hname name)), fun f hf hnot => ?_⟩
    rw [present_congr (hdir f (ne_tmp hf name))]
    exact hv f hf hnot
  have hfailed : ∀ {err : GoString}, Run.Good s.dir s.served (.failed err) ∧ Run.Alive (.failed err) :=
    ⟨trivial, Run.noConfusion⟩
  have hdiscard : ∀ {err : GoString}, present s.dir name = false → RunStep s (s.discard name) (.failed err) :=
    fun habsent => .partially hname habsent (fun f hf => Disk.content_remove_ne hf) trivial Run.noConfusion
  cases fetch with
  | skip => cases e <;> cases h
  | announce => cases e <;> cases h
  | request =>
    cases e with
    | body b =>
      cases h
      have hgrows : Grows s { s with served := (name, b) :: s.served } :=
        .of_content (fun x hx => List.mem_cons_of_mem _ hx) fun _ _ => rfl
      exact ⟨hgrows, ⟨htotal, htodo, hgrows.visited hv, hg, List.mem_cons_self ..⟩, fun _ => rfl,
        .inl ⟨rfl, Run.noConfusion⟩⟩
    | fail err =>
      cases h
      exact .alone hfailed.1 hfailed.2
    | ok | length | chunk => cases h
  | create b =>
    cases e with
    | ok =>
      cases h
      have hdir : ∀ f, f ≠ tmp name → (s.dir.create (tmp name)).1.content f = s.dir.content f :=
        fun f hf => Disk.content_create_ne hf
      refine .partially hname hg.1 hdir ⟨htotal, htodo, (hself hdir).2, ?_⟩ Run.noConfusion
      exact ⟨(hself hdir).1.trans hg.1, hg.2, Disk.entries_create_self, Disk.content_create_self, Nat.zero_le _⟩
    | fail err =>
      cases h
      exact .alone hfailed.1 hfailed.2
    | length | body | chunk => cases h
  | read fd b written =>
    obtain ⟨habsent, hserved, hfd, hcontent, hle⟩ := hg
    cases e with
    | chunk n =>
      simp only [downloadFile, Option.ite_none_right_eq_some, Option.some.injEq, Prod.mk.injEq] at h
      obtain ⟨⟨-, -, hn⟩, rfl, rfl⟩ := h
      have hdir : ∀ f, f ≠ tmp name →
          (s.dir.write fd written ((b.drop written).take n)).content f = s.dir.content f :=
        fun f hf => Disk.content_write_ne hfd hf
      refine .partially hname habsent hdir ⟨htotal, htodo, (hself hdir).2, ?_⟩ Run.noConfusion
      refine ⟨(hself hdir).1.trans habsent, hserved, hfd, ?_, hn⟩
      have hlen : (b.take written).length = written := by rw [List.length_take, Nat.min_eq_left hle]
      have hwrite : overwrite (b.take written) written ((b.drop written).take n) = b.take (written + n) := by
        rw [overwrite_at_end hlen, ← List.take_add]
      rw [Disk.content_write_self hfd hcontent, hwrite]
    | ok =>
      simp only [downloadFile, Option.ite_none_right_eq_some, Option.some.injEq, Prod.mk.injEq] at h
      obtain ⟨hend, rfl, rfl⟩ := h
      rw [hend, List.take_length] at hcontent
      exact .alone ⟨htotal, htodo, hv, habsent, hserved, hcontent⟩ Run.noConfusion
    | fail err =>
      cases h
      exact hdiscard habsent
    | length | body => cases h
  | report fd b written =>
    cases e with
    | ok =>
      cases h
      refine .progress ?_ Run.noConfusion ..
      exact ⟨htotal, htodo, hv, hg⟩
    | fail | length | body | chunk => cases h
  | close b =>
    cases e with
    | ok =>
      cases h
      exact .alone ⟨htotal, htodo, hv, hg⟩ Run.noConfusion
    | fail err =>
      cases h
      exact hdiscard hg.1
    | length | body | chunk => cases h
  | rename b =>
    obtain ⟨habsent, hserved, hcontent⟩ := hg
    cases e with
    | ok =>
      simp only [downloadFile, Option.ite_none_right_eq_some, Option.some.injEq, Prod.mk.injEq] at h
      obtain ⟨-, rfl, rfl⟩ := h
      have hnew : (s.dir.rename (tmp name) name).content name = some b :=
        Disk.content_rename_self.trans hcontent
      have hgrows : Grows s { s with dir := s.dir.rename (tmp name) name } := by
        refine ⟨fun _ hx => hx, fun f hf => ?_⟩
        by_cases hfn : f = name
        · subst hfn
          exact .inr ⟨habsent, b, hserved, hnew⟩
        · exact .inl (Disk.content_rename_ne (ne_tmp hf name) hfn)
      refine ⟨hgrows, ⟨htotal, (List.suffix_cons name rest).trans htodo, ?_⟩, fun hc => ?_, .inl ⟨rfl, Run.noConfusion⟩⟩
      · refine (hgrows.visited hv).next ?_
        by_cases hb : b = []
        · exact .inr (hb ▸ hserved)
        · exact .inl ((present_of_content hnew).trans (decide_eq_true hb))
      · rw [hc name hname] at habsent
        exact Bool.noConfusion habsent
    | fail err =>
      cases h
      exact hdiscard habsent
    | length | body | chunk => cases h

/-- **One step of a run.** -/
theorem runModelInstall_spec {s s' : State} {r r' : Run} {e : Answer} (hg : r.Good s.dir s.served)
    (h : runModelInstall s r e = some (s', r')) : RunStep s s' r' := by
  cases r with
  | mkdir =>
    cases e with
    | ok | fail =>
      cases h
      exact .alone trivial Run.noConfusion
    | length | body | chunk => cases h
  | expect todo total =>
    cases todo with
    | cons name rest =>
      cases e with
      | length n =>
        simp only [runModelInstall] at h
        split at h
        · cases h
          exact .alone trivial Run.noConfusion
        · cases n with
          | none | some =>
            cases h
            exact .alone trivial Run.noConfusion
      | ok | fail | body | chunk => cases h
    | nil =>
      cases e with
      | ok =>
        cases h
        refine .alone ⟨?_, List.suffix_refl _, fun f hf hnot => absurd hf hnot⟩ Run.noConfusion
        split <;> omega
      | fail | length | body | chunk => cases h
  | loop todo done total =>
    obtain ⟨htotal, htodo, hv⟩ := hg
    cases todo with
    | cons name rest =>
      cases e with
      | ok =>
        simp only [runModelInstall] at h
        split at h
        · rename_i hp
          cases h
          exact .alone ⟨htotal, htodo, hv, hp⟩ Run.noConfusion
        · rename_i hp
          cases h
          exact .alone ⟨htotal, htodo, hv, Bool.eq_false_iff.2 hp⟩ Run.noConfusion
      | fail | length | body | chunk => cases h
    | nil =>
      cases e with
      | ok =>
        cases h
        exact ⟨.of_eq rfl rfl, trivial, fun _ => rfl, .inr (.inr (.inr ⟨rfl, rfl, rfl, hv⟩))⟩
      | fail | length | body | chunk => cases h
  | file name rest done total fetch =>
    obtain ⟨htotal, htodo, hv, hfetch⟩ := hg
    cases fetch with
    | skip =>
      cases e with
      | ok =>
        cases h
        refine .progress ?_ Run.noConfusion ..
        exact ⟨htotal, (List.suffix_cons name rest).trans htodo, hv.next (.inl hfetch)⟩
      | fail | length | body | chunk => cases h
    | announce =>
      cases e with
      | ok =>
        cases h
        refine .progress ?_ Run.noConfusion ..
        exact ⟨htotal, htodo, hv, hfetch⟩
      | fail | length | body | chunk => cases h
    | request | create | read | report | close | rename => exact downloadFile_spec htotal htodo hv hfetch h
  | failed errMsg =>
    cases e with
    | ok =>
      cases h
      exact ⟨.of_eq rfl rfl, trivial, fun _ => rfl, .inr (.inr (.inl ⟨rfl, rfl, rfl⟩))⟩
    | fail | length | body | chunk => cases h
  | ended => cases e <;> cases h

/-! ## Threads -/

theorem Visited.mono {dir : Disk GoString} {served served' : List (GoString × GoString)} {todo : List GoString}
    (hs : ∀ x ∈ served, x ∈ served') (h : Visited dir served todo) : Visited dir served' todo :=
  fun f hf hnot => (h f hf hnot).imp_right (hs _)

/-- What holds of a run does not depend on how much more the server has sent. -/
theorem Run.Good.mono {dir : Disk GoString} {served served' : List (GoString × GoString)} {r : Run}
    (hs : ∀ x ∈ served, x ∈ served') (h : r.Good dir served) : r.Good dir served' := by
  cases r with
  | mkdir | expect | failed | ended => trivial
  | loop todo done total => exact ⟨h.1, h.2.1, h.2.2.mono hs⟩
  | file name rest done total fetch =>
    obtain ⟨htotal, htodo, hv, hg⟩ := h
    refine ⟨htotal, htodo, hv.mono hs, ?_⟩
    cases fetch with
    | skip | announce | request => exact hg
    | create b => exact ⟨hg.1, hs _ hg.2⟩
    | read fd b written | report fd b written => exact ⟨hg.1, hs _ hg.2.1, hg.2.2⟩
    | close b | rename b => exact ⟨hg.1, hs _ hg.2.1, hg.2.2⟩

/-- What a step of a request does: it leaves the files alone, and gives the status only as the lock allows. -/
structure RequestStep (s s' : State) (p' : Thread) (o : Option Thread) : Prop where
  dir : s'.dir = s.dir
  served : s'.served = s.served
  thread : p'.Good s'
  request : ¬p'.Alive
  status : (s'.installSt = s.installSt ∧ o = none) ∨
    (s'.installSt.status = .ready ∧ s'.installSt.progress = 100 ∧ Complete s.dir ∧ o = none) ∨
    (s.installSt.status ≠ .downloading ∧ s'.installSt.status = .downloading ∧ s'.installSt.progress = 0 ∧
      o = some (.run .mkdir))

theorem startModelInstall_spec {s s' : State} {r : Request} {p' : Thread} {o : Option Thread}
    (hg : Thread.Good s (.request r)) (h : startModelInstall s r = some (s', p', o)) : RequestStep s s' p' o := by
  cases r with
  | look todo =>
    cases todo with
    | nil =>
      cases h
      exact ⟨rfl, rfl, trivial, id, .inr (.inl ⟨rfl, rfl, fun f hf => hg f hf (by simp), rfl⟩)⟩
    | cons name rest =>
      cases h
      refine ⟨rfl, rfl, ?_, id, .inl ⟨rfl, rfl⟩⟩
      split
      · rename_i hp
        intro f hf hnot
        by_cases hfn : f = name
        · exact hfn ▸ hp
        · exact hg f hf fun hmem => (List.mem_cons.1 hmem).elim hfn hnot
      · trivial
  | missing =>
    simp only [startModelInstall] at h
    split at h
    · cases h
      exact ⟨rfl, rfl, trivial, id, .inl ⟨rfl, rfl⟩⟩
    · rename_i hstatus
      cases h
      exact ⟨rfl, rfl, trivial, id, .inr (.inr ⟨hstatus, rfl, rfl, rfl⟩)⟩
  | answered status => cases h

/-- A step of a thread is one of a request or one of a run that has not returned. -/
theorem advance_cases {s s' : State} {p p' : Thread} {e : Answer} {o : Option Thread} (hg : p.Good s)
    (h : advance s p e = some (s', p', o)) :
    (¬p.Alive ∧ RequestStep s s' p' o) ∨
      ∃ r r', p = .run r ∧ p' = .run r' ∧ o = none ∧ r.Alive ∧ RunStep s s' r' := by
  cases p with
  | request r => exact .inl ⟨id, startModelInstall_spec hg h⟩
  | run r =>
    simp only [advance, Option.map_eq_some_iff, Prod.mk.injEq, Prod.exists] at h
    obtain ⟨t, r', hstep, rfl, rfl, rfl⟩ := h
    refine .inr ⟨r, r', rfl, rfl, rfl, ?_, runModelInstall_spec hg.1 hstep⟩
    rintro rfl
    cases e <;> cases hstep

theorem advance_grows {s s' : State} {p p' : Thread} {e : Answer} {o : Option Thread} (hg : p.Good s)
    (h : advance s p e = some (s', p', o)) : Grows s s' := by
  rcases advance_cases hg h with ⟨-, hreq⟩ | ⟨_, _, -, -, -, -, hrun⟩
  · exact .of_eq hreq.dir hreq.served
  · exact hrun.grows

/-- A step that keeps the status, or gives one that the files bear out. -/
theorem Truthful.step {d : Disk GoString} {s s' : State} (ht : Truthful d s) (hgrows : Grows s s')
    (hst : s'.installSt = s.installSt ∨ (s'.installSt.status = .downloading ∧ s'.installSt.progress ≤ 99) ∨
      (s'.installSt.status = .error ∧ s'.installSt.progress = 0) ∨
      (s'.installSt.status = .ready ∧ s'.installSt.progress = 100 ∧ Visited s'.dir s'.served [])) :
    Truthful d s' := by
  have hwhole : ∀ f ∈ edgeModelFiles, ∀ c, s'.dir.content f = some c → d.content f = some c ∨ (f, c) ∈ s'.served := by
    intro f hf c hc
    rcases hgrows.files f hf with heq | ⟨-, b, hb, heq⟩
    · exact (ht.whole f hf c (heq ▸ hc)).imp_right (hgrows.served _)
    · rw [heq] at hc
      cases hc
      exact .inr hb
  rcases hst with hst | ⟨hdown, hprogress⟩ | ⟨herror, hprogress⟩ | ⟨hready, hprogress, hv⟩
  · refine ⟨hwhole, fun hs => ?_, fun hs => ?_, fun hs => ?_⟩ <;> rw [hst] at hs ⊢
    · exact ht.downloading hs
    · exact ⟨(ht.ready hs).1, hgrows.visited (ht.ready hs).2⟩
    · exact ht.error hs
  · refine ⟨hwhole, fun _ => hprogress, fun hs => ?_, fun hs => ?_⟩ <;> exact Status.noConfusion (hdown.symm.trans hs)
  · refine ⟨hwhole, fun hs => ?_, fun hs => ?_, fun _ => hprogress⟩ <;> exact Status.noConfusion (herror.symm.trans hs)
  · refine ⟨hwhole, fun hs => ?_, fun _ => ⟨hprogress, hv⟩, fun hs => ?_⟩ <;>
      exact Status.noConfusion (hready.symm.trans hs)

theorem advance_truthful {d : Disk GoString} {s s' : State} {p p' : Thread} {e : Answer} {o : Option Thread}
    (hg : p.Good s) (h : advance s p e = some (s', p', o)) (ht : Truthful d s) : Truthful d s' := by
  have hgrows := advance_grows hg h
  refine ht.step hgrows ?_
  rcases advance_cases hg h with ⟨-, hreq⟩ | ⟨_, _, -, -, -, -, hrun⟩
  · rcases hreq.status with ⟨hst, -⟩ | ⟨hready, hprogress, hc, -⟩ | ⟨-, hdown, hprogress, -⟩
    · exact .inl hst
    · exact .inr (.inr (.inr ⟨hready, hprogress, fun f hf _ => .inl (hgrows.present hf (hc f hf))⟩))
    · exact .inr (.inl ⟨hdown, by omega⟩)
  · rcases hrun.status with ⟨hst, -⟩ | ⟨hdown, hprogress, -⟩ | ⟨herror, hprogress, -⟩ | ⟨hready, hprogress, -, hv⟩
    · exact .inl hst
    · exact .inr (.inl ⟨hdown, hprogress⟩)
    · exact .inr (.inr (.inl ⟨herror, hprogress⟩))
    · exact .inr (.inr (.inr ⟨hready, hprogress, hv⟩))

/-- What a request has seen stays. -/
theorem Grows.request {s s' : State} {r : Request} (h : Grows s s') (hr : Thread.Good s (.request r)) :
    Thread.Good s' (.request r) := by
  cases r with
  | look todo => exact fun f hf hnot => h.present hf (hr f hf hnot)
  | missing | answered => trivial

/-- The thread that moved is as it should be, and so is a run that it has started. -/
theorem advance_own {s s' : State} {p p' : Thread} {e : Answer} {o : Option Thread} (hg : p.Good s)
    (h : advance s p e = some (s', p', o)) :
    p'.Good s' ∧ ∀ n, o = some n → n.Good s' ∧ Apart s' p' n ∧ Apart s' n p' := by
  rcases advance_cases hg h with ⟨-, hreq⟩ | ⟨r, r', rfl, rfl, rfl, halive, hrun⟩
  · refine ⟨hreq.thread, fun n hn => ?_⟩
    rcases hreq.status with ⟨-, ho⟩ | ⟨-, -, -, ho⟩ | ⟨-, hdown, -, ho⟩
    · exact nomatch ho.symm.trans hn
    · exact nomatch ho.symm.trans hn
    · cases ho.symm.trans hn
      exact ⟨⟨trivial, fun _ hs => absurd hdown hs⟩, fun hp => absurd hp hreq.request,
        fun _ hp => absurd hp hreq.request⟩
  · refine ⟨⟨hrun.good, fun hr' hs => ?_⟩, fun n hn => nomatch hn⟩
    rcases hrun.status with ⟨hst, -⟩ | ⟨hdown, -⟩ | ⟨-, -, hended⟩ | ⟨-, -, hended, -⟩
    · exact hrun.grows.complete (hg.2 halive (hst ▸ hs))
    · exact absurd hdown hs
    · exact absurd hended hr'
    · exact absurd hended hr'

/-- The other threads stay as they should be. -/
theorem advance_other {s s' : State} {p p' q : Thread} {e : Answer} {o : Option Thread} (hp : p.Good s)
    (hq : q.Good s) (hpq : Apart s p q) (h : advance s p e = some (s', p', o)) :
    q.Good s' ∧ Apart s' p' q ∧ Apart s' q p' ∧ ∀ n, o = some n → Apart s' n q ∧ Apart s' q n := by
  have hgrows := advance_grows hp h
  have hpair : ∀ {a : Thread}, (a.Alive → q.Alive → Complete s.dir) → Apart s' a q ∧ Apart s' q a :=
    fun hc => ⟨fun ha hqa => hgrows.complete (hc ha hqa), fun hqa ha => hgrows.complete (hc ha hqa)⟩
  rcases advance_cases hp h with ⟨-, hreq⟩ | ⟨r, r', rfl, rfl, rfl, halive, hrun⟩
  · have hp' := hpair fun ha _ => absurd ha hreq.request
    refine ⟨?_, hp'.1, hp'.2, fun n hn => hpair fun _ hqa => ?_⟩
    · cases q with
      | request r => exact hgrows.request hq
      | run r =>
        refine ⟨by rw [hreq.dir, hreq.served]; exact hq.1, fun hr hs => ?_⟩
        rcases hreq.status with ⟨hst, -⟩ | ⟨-, -, hc, -⟩ | ⟨-, hdown, -⟩
        · exact hgrows.complete (hq.2 hr (hst ▸ hs))
        · exact hgrows.complete hc
        · exact absurd hdown hs
    · rcases hreq.status with ⟨-, ho⟩ | ⟨-, -, -, ho⟩ | ⟨hstatus, -⟩
      · exact nomatch ho.symm.trans hn
      · exact nomatch ho.symm.trans hn
      · cases q with
        | request r => exact absurd hqa id
        | run r => exact hq.2 hqa hstatus
  · have hp' : Apart s' (.run r') q ∧ Apart s' q (.run r') := hpair fun _ hqa => hpq halive hqa
    refine ⟨?_, hp'.1, hp'.2, fun n hn => nomatch hn⟩
    cases q with
    | request r => exact hgrows.request hq
    | run r₂ =>
      refine ⟨?_, fun hr _ => hgrows.complete (hpq halive hr)⟩
      by_cases hr : r₂ = .ended
      · subst hr
        trivial
      · rw [hrun.quiet (hpq halive hr)]
        exact hq.1.mono hrun.grows.served

/-- **No thread breaks what another one relies on.** -/
theorem free (d : Disk GoString) : FreeOfInterference entry advance (Truthful d) Thread.Good Apart where
  enter s p hp _ := by
    cases p with
    | run r => exact nomatch hp
    | request r =>
      cases r with
      | missing | answered => exact nomatch hp
      | look todo =>
        have htodo : todo = edgeModelFiles := of_decide_eq_true hp
        exact ⟨fun f hf hnot => absurd (htodo ▸ hf) hnot,
          fun q _ => ⟨fun ha => absurd ha id, fun _ ha => absurd ha id⟩⟩
  own s p e s' p' o h ht hg := ⟨advance_truthful hg h ht, advance_own hg h⟩
  other s p e s' p' o q h _ hp hq hpq _ := advance_other hp hq hpq h
  rest s p e s' p' o q r h _ hp _ _ hqr := fun hq hr => (advance_grows hp h).complete (hqr hq hr)

theorem safe_boot (d : Disk GoString) : Safe (Truthful d) Thread.Good Apart (boot d) :=
  .of_nil ⟨fun _ _ _ hc => .inl hc, (nomatch ·), (nomatch ·), (nomatch ·)⟩

/-- Every state behind a start is safe. -/
theorem safe {d : Disk GoString} {as : List (Turn Thread Answer)} {s : Threads State Thread}
    (hrun : runSteps step (boot d) as = some s) : Safe (Truthful d) Thread.Good Apart s :=
  (free d).runs (safe_boot d) hrun

/-- The status that downloads is backed by a run. -/
theorem backed {d : Disk GoString} {as : List (Turn Thread Answer)} {s : Threads State Thread}
    (hrun : runSteps step (boot d) as = some s) :
    Backed (fun s => s.installSt.status = .downloading) (fun _ p => p.Alive) s := by
  refine (runSteps_invariant (P := fun s => Safe (Truthful d) Thread.Good Apart s ∧
    Backed (fun s => s.installSt.status = .downloading) (fun _ p => p.Alive) s) ?_ hrun
    ⟨safe_boot d, (nomatch ·)⟩).2
  rintro s a t ⟨hs, hb⟩ hstep
  refine ⟨(free d).step hs hstep, Backed.step ?_ hs hb hstep⟩
  intro s p e s' p' o h _ hg hdown
  rcases advance_cases hg h with ⟨hp, hreq⟩ | ⟨r, r', rfl, rfl, rfl, -, hrun⟩
  · rcases hreq.status with ⟨hst, -⟩ | ⟨hready, -⟩ | ⟨-, -, -, ho⟩
    · exact .inr (.inr ⟨hst ▸ hdown, hp, fun _ => id⟩)
    · exact Status.noConfusion (hready.symm.trans hdown)
    · exact .inr (.inl ⟨_, ho, Run.noConfusion⟩)
  · rcases hrun.status with ⟨-, halive⟩ | ⟨-, -, halive⟩ | ⟨herror, -⟩ | ⟨hready, -⟩
    · exact .inl halive
    · exact .inl halive
    · exact Status.noConfusion (herror.symm.trans hdown)
    · exact Status.noConfusion (hready.symm.trans hdown)

/-! ## Results -/

/-- A file that is fetched is missing. -/
theorem absent_of_fetching {dir : Disk GoString} {served : List (GoString × GoString)} {r : Run}
    (hg : r.Good dir served) (hf : r.Fetching) : ¬Complete dir := by
  obtain ⟨name, rest, done, total, fetch, rfl, hskip⟩ := hf
  obtain ⟨-, htodo, -, hfetch⟩ := hg
  intro hc
  have hp := hc name (htodo.subset (List.mem_cons_self ..))
  have habsent : present dir name = false := by
    cases fetch with
    | skip => exact absurd rfl hskip
    | announce | request => exact hfetch
    | create | read | report | close | rename => exact hfetch.1
  rw [habsent] at hp
  exact Bool.noConfusion hp

/-- A request, and the run that it starts in an empty directory, up to the first byte of the first file. -/
def firstByte : List (Turn Thread Answer) :=
  [.enter (.request (.look edgeModelFiles)), .run 0 .ok, .run 0 .ok, .run 1 .ok] ++
    List.replicate 6 (.run 1 (.length none)) ++
    [.run 1 .ok, .run 1 .ok, .run 1 .ok, .run 1 (.body "ab"), .run 1 .ok, .run 1 (.chunk 1), .run 1 .ok]

theorem firstByte_runs : ∃ s, runSteps step (boot .empty) firstByte = some s :=
  Option.isSome_iff_exists.1 (show (runSteps step (boot .empty) firstByte).isSome = true by decide)

/-- **A file of the model comes whole from the server**, or from before the start, and once it is there nothing
changes it. -/
theorem installed_whole {d : Disk GoString} {as : List (Turn Thread Answer)} {s : Threads State Thread}
    (hrun : runSteps step (boot d) as = some s) {f : GoString} (hf : f ∈ edgeModelFiles) :
    (∀ c, s.shared.dir.content f = some c → d.content f = some c ∨ (f, c) ∈ s.shared.served) ∧
    (present s.shared.dir f = true → ∀ bs t, runSteps step s bs = some t →
      t.shared.dir.content f = s.shared.dir.content f) := by
  have hs := safe hrun
  refine ⟨hs.shared.whole f hf, fun hp bs t ht => ?_⟩
  refine (runSteps_invariant (P := fun t : Threads State Thread => Safe (Truthful d) Thread.Good Apart t ∧
    t.shared.dir.content f = s.shared.dir.content f) ?_ ht ⟨hs, rfl⟩).2
  rintro u a v ⟨hu, hsame⟩ hstep
  refine ⟨(free d).step hu hstep, ?_⟩
  cases a with
  | enter p =>
    obtain ⟨-, rfl⟩ := Threads.step_enter_eq_some.1 hstep
    exact hsame
  | run k e =>
    obtain ⟨p, s', p', o, hk, hadv, rfl⟩ := Threads.step_run_eq_some.1 hstep
    exact ((advance_grows (hu.each k p hk) hadv).content hf ((present_congr hsame).trans hp)).trans hsame

theorem installed_whole_firstByte : ∃ s, runSteps step (boot .empty) firstByte = some s ∧
    ∀ c, s.shared.dir.content "model.onnx" = some c → (str "model.onnx", c) ∈ s.shared.served := by
  obtain ⟨s, hs⟩ := firstByte_runs
  refine ⟨s, hs, fun c hc => ?_⟩
  rcases (@installed_whole _ _ _ hs "model.onnx" (by decide)).1 c hc with hold | hserved
  · exact nomatch hold
  · exact hserved

/-- **The status is true**: what is said to download is downloaded by a run, what is said to be ready is on the disk
but for the files that the server has as empty ones, and no run divides by nothing. -/
theorem status_true {d : Disk GoString} {as : List (Turn Thread Answer)} {s : Threads State Thread}
    (hrun : runSteps step (boot d) as = some s) :
    (s.shared.installSt.status = .downloading → s.shared.installSt.progress ≤ 99 ∧
      ∃ (k : Nat) (r : Run), s.threads[k]? = some (.run r) ∧ r.Alive) ∧
    (s.shared.installSt.status = .ready → s.shared.installSt.progress = 100 ∧
      ∀ f ∈ edgeModelFiles, present s.shared.dir f = true ∨ (f, []) ∈ s.shared.served) ∧
    ∀ (k : Nat) name rest done total fetch, s.threads[k]? = some (.run (.file name rest done total fetch)) →
      0 < total := by
  have hs := safe hrun
  refine ⟨fun hdown => ⟨hs.shared.downloading hdown, ?_⟩, fun hready => ?_, fun k _ _ _ _ _ hk => (hs.each k _ hk).1.1⟩
  · obtain ⟨k, p, hk, halive⟩ := backed hrun hdown
    cases p with
    | request r => exact absurd halive id
    | run r => exact ⟨k, r, hk, halive⟩
  · obtain ⟨hprogress, hv⟩ := hs.shared.ready hready
    exact ⟨hprogress, fun f hf => hv f hf (by simp)⟩

theorem status_true_firstByte : ∃ s, runSteps step (boot .empty) firstByte = some s ∧
    s.shared.installSt.progress ≤ 99 := by
  obtain ⟨s, hs⟩ := firstByte_runs
  have hdown : s.shared.installSt.status = .downloading := by
    rw [← Option.get_of_eq_some (by decide) hs]
    rfl
  exact ⟨s, hs, ((status_true hs).1 hdown).1⟩

end Gafam.Edge.Install
