import Gafam.Moksa.Durability
import Gafam.Moksa.Executor

/-!
# When the database keeps up

As long as writes reach the database in order, the row of every mission is right, or a call is under way
that will make it right.
-/

namespace Gafam.Moksa

open Gafam.Go Gafam.Lib

/-! ## The functions of the code -/

section

variable (x : GoString)

theorem claimQuest_clean (karakaID : GoString) : Clean (claimQuest x karakaID) := by
  intro m
  unfold claimQuest
  by_cases hover : m.status = .cancelled ∨ m.status = .done
  · rw [if_pos hover]
    exact ⟨rfl, fun _ _ => rfl⟩
  · rw [if_neg hover]
    cases m.findQuest x with
    | none => exact ⟨rfl, fun _ _ => rfl⟩
    | some q =>
      dsimp only
      split_ifs
      · exact ⟨rfl, fun _ _ => rfl⟩
      · exact ⟨rfl, fun _ _ => rfl⟩
      · exact ⟨rfl, nofun⟩

theorem runQuestStart_clean (perm : GoString → GoString → Permission) :
    Clean (runQuestStart perm x) := by
  intro m
  unfold runQuestStart
  cases m.findQuest x with
  | none => exact ⟨rfl, fun _ _ => rfl⟩
  | some q =>
    dsimp only
    split_ifs
    · exact ⟨rfl, fun _ _ => rfl⟩
    · exact ⟨rfl, fun _ _ => rfl⟩
    · exact ⟨rfl, fun _ _ => rfl⟩
    · exact ⟨rfl, fun _ _ => rfl⟩
    · exact ⟨rfl, nofun⟩

theorem applyReward_clean (verdict : Verdict) (score : Rat) (reason : GoString) (autoAdd : Bool) :
    Clean (applyReward x verdict score reason autoAdd) := by
  intro m
  unfold applyReward
  dsimp only
  cases m.findQuest x with
  | none => exact ⟨rfl, fun _ _ => rfl⟩
  | some q =>
    cases verdict with
    | done => exact ⟨rfl, nofun⟩
    | failed => exact ⟨rfl, nofun⟩
    | needsMore => cases autoAdd <;> exact ⟨rfl, nofun⟩
    | other _ => exact ⟨rfl, nofun⟩

theorem addQuest_clean (title organHint tool : GoString) (params : Params)
    (dependsOn : List GoString) (eta : Int) :
    Clean (addQuest title organHint tool params dependsOn eta) := by
  intro m
  unfold addQuest
  dsimp only
  split_ifs
  · exact ⟨rfl, fun _ _ => rfl⟩
  · exact ⟨rfl, fun _ _ => rfl⟩
  · exact ⟨rfl, nofun⟩
  · exact ⟨rfl, nofun⟩

theorem approveQuest_clean (approve : Bool) (reason : GoString) :
    Clean (approveQuest x approve reason) := by
  intro m
  unfold approveQuest
  dsimp only
  cases m.findQuest x with
  | none => exact ⟨rfl, fun _ _ => rfl⟩
  | some q =>
    dsimp only
    by_cases hwaiting : q.status ≠ .waitingApproval
    · rw [if_pos hwaiting]
      exact ⟨rfl, fun _ _ => rfl⟩
    rw [if_neg hwaiting]
    by_cases happrove : approve = true
    · rw [if_pos happrove]
      split_ifs
      · exact ⟨rfl, nofun⟩
      · exact ⟨rfl, nofun⟩
    · rw [if_neg happrove]
      exact ⟨rfl, nofun⟩

end

/-! ## What a step leaves alone -/

/-- The missions under an id, and their pointers, are in the second state as they are in the first. -/
structure KeepsMission (s s' : Durable) (id : GoString) : Prop where
  lookup : s'.missions.lookup id = s.missions.lookup id
  deref : ∀ ref m, s.deref ref = some m → m.id = id → s'.deref ref = some m

theorem KeepsMission.current {s s' : Durable} {id : GoString} (h : KeepsMission s s' id)
    (hw : s.WellFormed) : s'.current id = s.current id := by
  unfold Durable.current
  rw [h.lookup]
  cases hr : s.missions.lookup id with
  | none => rfl
  | some ref =>
    obtain ⟨m, hm, hid⟩ := hw id ref hr
    have hm' := h.deref ref m hm hid
    simp only [Option.bind_some]
    rw [hm, hm']

theorem KeepsMission.rowNow {s s' : Durable} {id : GoString} (h : KeepsMission s s' id)
    (hw : s.WellFormed) : s'.rowNow id = s.rowNow id := by
  unfold Durable.rowNow
  rw [h.current hw]

theorem KeepsMission.settles {s s' : Durable} {id : GoString} (h : KeepsMission s s' id)
    (hw : s.WellFormed) {g : Hook} (hs : s.Settles id g) : s'.Settles id g := by
  obtain ⟨htarget, hrow⟩ := hs
  have hnow := h.rowNow hw
  -- the pointer of the hook shows a mission under this id
  cases g with
  | marshal ref =>
    obtain ⟨m, hm, hid⟩ := Option.map_eq_some_iff.1 htarget
    have hm' := h.deref ref m hm hid
    have hrow : (s.deref ref).map (fun m => Row.of m m) = s.rowNow id := hrow
    rw [hm] at hrow
    constructor
    · show (s'.deref ref).map Mission.id = some id
      rw [hm', ← hid]
      rfl
    · show (s'.deref ref).map (fun m => Row.of m m) = s'.rowNow id
      rw [hm', hnow]
      exact hrow
  | write ref data =>
    obtain ⟨m, hm, hid⟩ := Option.map_eq_some_iff.1 htarget
    have hm' := h.deref ref m hm hid
    have hrow : (s.deref ref).map (fun m => Row.of m data) = s.rowNow id := hrow
    rw [hm] at hrow
    constructor
    · show (s'.deref ref).map Mission.id = some id
      rw [hm', ← hid]
      rfl
    · show (s'.deref ref).map (fun m => Row.of m data) = s'.rowNow id
      rw [hm', hnow]
      exact hrow
  | erase id' => exact ⟨htarget, hrow.trans hnow.symm⟩

/-- The row of the mission is right, or will be. -/
def Durable.KeepsUp (s : Durable) (id : GoString) : Prop :=
  s.AgreesAt id ∨ ∃ h ∈ s.hooks, s.Settles id h

/-- A step that leaves the mission, its row and the calls on it alone. -/
theorem KeepsMission.keepsUp {s s' : Durable} {id : GoString} (h : KeepsMission s s' id)
    (hw : s.WellFormed) (ht : s'.table.lookup id = s.table.lookup id)
    (hh : ∀ g ∈ s.hooks, s.Settles id g → g ∈ s'.hooks) (hs : s.KeepsUp id) : s'.KeepsUp id := by
  rcases hs with hagree | ⟨g, hg, hsettles⟩
  · left
    show s'.table.lookup id = s'.rowNow id
    rw [ht, h.rowNow hw]
    exact hagree
  · exact .inr ⟨g, hh g hg hsettles, h.settles hw hsettles⟩

/-! ## Pointers -/

theorem deref_append {s : Durable} {ref : Nat} {m new : Mission} (h : s.deref ref = some m) :
    (s.objects ++ [new])[ref]? = some m := by
  obtain ⟨hlt, -⟩ := List.getElem?_eq_some_iff.1 h
  rw [List.getElem?_append_left hlt]
  exact h

theorem deref_set {s : Durable} {ref : Nat} {m new : Mission} (h : s.deref ref = some m) :
    (s.objects.set ref new)[ref]? = some new := by
  obtain ⟨hlt, -⟩ := List.getElem?_eq_some_iff.1 h
  exact List.getElem?_set_self hlt

theorem deref_set_ne {s : Durable} {ref ref' : Nat} {new : Mission} (h : ref' ≠ ref) :
    (s.objects.set ref new)[ref']? = s.deref ref' :=
  List.getElem?_set_ne (Ne.symm h)

/-- Two missions have two pointers. -/
theorem ref_ne {s : Durable} (hw : s.WellFormed) {id id' : GoString} {ref ref' : Nat}
    (h : s.missions.lookup id = some ref) (h' : s.missions.lookup id' = some ref') (hid : id ≠ id') :
    ref ≠ ref' := by
  rintro rfl
  obtain ⟨m, hm, hmid⟩ := hw id ref h
  obtain ⟨m', hm', hmid'⟩ := hw id' ref h'
  rw [hm] at hm'
  cases hm'
  exact hid (hmid.symm.trans hmid')

/-! ## Steps -/

/-- What a step under the lock does, or a step of a hook. -/
inductive DurableStepped (s : Durable) : DurableAct → Durable → Prop
  | same {act : DurableAct} : DurableStepped s act s
  | saved {now : Nat} {m : Mission} :
    DurableStepped s (.save now m)
      { s with
        objects := s.objects ++ [{ m with updatedAt := now }]
        missions := s.missions.insert m.id s.objects.length
        hooks := s.hooks ++ [.marshal s.objects.length] }
  | updated {now : Nat} {id : GoString} {u : MissionUpdate} {ref : Nat} {m : Mission}
    (href : s.missions.lookup id = some ref) (hm : s.deref ref = some m) :
    DurableStepped s (.update now id u)
      { s with
        objects := s.objects.set ref { (u.fn m).1 with updatedAt := now }
        hooks := s.hooks ++ [.marshal ref] }
  | deleted {id : GoString} :
    DurableStepped s (.delete id)
      { s with missions := s.missions.erase id, hooks := s.hooks ++ [.erase id] }
  | marshalled {k ref : Nat} {m : Mission} (hk : s.hooks[k]? = some (.marshal ref))
    (hm : s.deref ref = some m) :
    DurableStepped s (.hook k) { s with hooks := s.hooks.set k (.write ref m) }
  | written {k ref : Nat} {data m : Mission} (hk : s.hooks[k]? = some (.write ref data))
    (hm : s.deref ref = some m) :
    DurableStepped s (.hook k)
      { s with table := s.table.insert m.id (Row.of m data), hooks := s.hooks.eraseIdx k }
  | erased {k : Nat} {id : GoString} (hk : s.hooks[k]? = some (.erase id)) :
    DurableStepped s (.hook k)
      { s with table := s.table.erase id, hooks := s.hooks.eraseIdx k }

theorem durableStep_cases {s s' : Durable} {act : DurableAct} (h : durableStep s act = some s') :
    DurableStepped s act s' := by
  cases act with
  | save now m => cases h; exact .saved
  | update now id u =>
    unfold durableStep at h
    dsimp only at h
    cases href : s.missions.lookup id with
    | none => rw [href] at h; cases h; exact .same
    | some ref =>
      rw [href] at h
      obtain ⟨m, hm, hs'⟩ := Option.map_eq_some_iff.1 h
      have hfail := (u.clean m).2
      cases hfn : u.fn m with
      | mk m' e =>
        rw [hfn] at hs' hfail
        cases e with
        | none =>
          dsimp only at hs'
          have hm' : m' = (u.fn m).1 := by rw [hfn]
          rw [← hs', hm']
          exact .updated href hm
        | some e =>
          -- a function that fails has changed nothing
          dsimp only at hs' hfail
          have hset : s.objects.set ref m' = s.objects := by
            rw [hfail e rfl]
            obtain ⟨hlt, hget⟩ := List.getElem?_eq_some_iff.1 hm
            rw [← hget]
            exact List.set_getElem_self hlt
          rw [← hs', hset]
          exact .same
  | delete id =>
    unfold durableStep at h
    dsimp only at h
    split_ifs at h
    · cases h; exact .deleted
    · cases h; exact .same
  | hook k =>
    unfold durableStep at h
    dsimp only at h
    cases hk : s.hooks[k]? with
    | none => rw [hk] at h; exact nomatch h
    | some g =>
      rw [hk] at h
      cases g with
      | marshal ref =>
        obtain ⟨m, hm, rfl⟩ := Option.map_eq_some_iff.1 h
        exact .marshalled hk hm
      | write ref data =>
        obtain ⟨m, hm, rfl⟩ := Option.map_eq_some_iff.1 h
        exact .written hk hm
      | erase id => cases h; exact .erased hk

/-! ## The store under the lock -/

/-- `UpdateMission`, with a function that leaves the mission as it is when it fails. -/
theorem lookup_updateMission (now : Nat) {id : GoString} (u : MissionUpdate) {st : Store} {m : Mission}
    (hm : st.missions.lookup id = some m) (id' : GoString) :
    (updateMission now id u.fn st).2.missions.lookup id' =
      if id' = id then
        some (if (u.fn m).2 = none then { (u.fn m).1 with updatedAt := now } else m)
      else st.missions.lookup id' := by
  unfold updateMission
  rw [hm]
  dsimp only
  have hfail := (u.clean m).2
  cases hfn : u.fn m with
  | mk m' e =>
    rw [hfn] at hfail
    cases e with
    | none =>
      dsimp only
      by_cases hid : id' = id
      · subst hid
        rw [if_pos rfl, if_pos rfl, AList.lookup_insert]
      · rw [if_neg hid, AList.lookup_insert_ne hid]
    | some e =>
      have hclean : m' = m := hfail e rfl
      dsimp only
      by_cases hid : id' = id
      · subst hid
        rw [if_pos rfl, if_neg (nofun : some e ≠ none), AList.lookup_insert, hclean]
      · rw [if_neg hid, AList.lookup_insert_ne hid]

/-- The steps under the lock are `SaveMission`, `UpdateMission` and `DeleteMission`, and hooks change no
mission. -/
theorem shows_step {s s' : Durable} {act : DurableAct} {st : Store} (hw : s.WellFormed)
    (h : s.Shows st) (hstep : durableStep s act = some s') : s'.Shows (act.inLock st) := by
  intro id'
  have h' : (s.missions.lookup id').bind s.deref = st.missions.lookup id' := h id'
  cases act with
  | save now m =>
    cases hstep
    show ((s.missions.insert m.id s.objects.length).lookup id').bind _
      = (st.missions.insert m.id _).lookup id'
    by_cases hid : id' = m.id
    · subst hid
      rw [AList.lookup_insert, AList.lookup_insert]
      exact List.getElem?_concat_length ..
    · rw [AList.lookup_insert_ne hid, AList.lookup_insert_ne hid, ← h']
      cases hr : s.missions.lookup id' with
      | none => rfl
      | some ref =>
        obtain ⟨m', hm', -⟩ := hw id' ref hr
        exact (deref_append hm').trans hm'.symm
  | update now id u =>
    have hid : (s.missions.lookup id).bind s.deref = st.missions.lookup id := h id
    show s'.current id' = (updateMission now id u.fn st).2.missions.lookup id'
    unfold durableStep at hstep
    dsimp only at hstep
    cases href : s.missions.lookup id with
    | none =>
      rw [href] at hstep hid
      cases hstep
      unfold updateMission
      rw [← hid]
      exact h'
    | some ref =>
      rw [href] at hstep hid
      obtain ⟨m, hm, hs'⟩ := Option.map_eq_some_iff.1 hstep
      rw [lookup_updateMission now u (hid.symm.trans hm) id', ← hs']
      have hset : ∀ new : Mission,
          ((s.missions.lookup id').bind fun ref' => (s.objects.set ref new)[ref']?) =
            if id' = id then some new else st.missions.lookup id' := by
        intro new
        split_ifs with heq
        · subst heq
          rw [href]
          exact deref_set hm
        · rw [← h']
          cases hr : s.missions.lookup id' with
          | none => rfl
          | some ref' => exact deref_set_ne (ref_ne hw hr href heq)
      have hfail := (u.clean m).2
      cases hfn : u.fn m with
      | mk m' e =>
        rw [hfn] at hfail
        cases e with
        | none => exact hset _
        | some e =>
          have hclean : m' = m := hfail e rfl
          exact (hset m').trans (by rw [hclean]; rfl)
  | delete id =>
    cases hstep
    show Durable.current _ id' = (deleteMission id st).2.missions.lookup id'
    have hmem : id ∈ s.missions ↔ id ∈ st.missions := by
      have hid : (s.missions.lookup id).bind s.deref = st.missions.lookup id := h id
      rw [← AList.lookup_isSome, ← AList.lookup_isSome, ← hid]
      cases hr : s.missions.lookup id with
      | none => exact Iff.rfl
      | some ref =>
        obtain ⟨m, hm, -⟩ := hw id ref hr
        simp only [Option.bind_some, hm, Option.isSome_some]
    unfold deleteMission
    by_cases hin : id ∈ s.missions
    · rw [if_pos hin, if_pos (hmem.1 hin)]
      show ((s.missions.erase id).lookup id').bind s.deref = (st.missions.erase id).lookup id'
      by_cases hid : id' = id
      · subst hid
        rw [AList.lookup_erase, AList.lookup_erase]
        rfl
      · rw [AList.lookup_erase_ne hid, AList.lookup_erase_ne hid]
        exact h'
    · rw [if_neg hin, if_neg fun h => hin (hmem.2 h)]
      exact h'
  | hook k =>
    have hsame : s'.current id' = s.current id' := by
      cases durableStep_cases hstep <;> rfl
    exact hsame.trans h'

/-! ## Every step keeps up -/

theorem wellFormed_step {s s' : Durable} {act : DurableAct} (hw : s.WellFormed)
    (hstep : durableStep s act = some s') : s'.WellFormed := by
  intro id' ref' hlookup
  cases durableStep_cases hstep with
  | same => exact hw id' ref' hlookup
  | @saved now m =>
    have hlookup : (s.missions.insert m.id s.objects.length).lookup id' = some ref' := hlookup
    by_cases hid : id' = m.id
    · subst hid
      rw [AList.lookup_insert] at hlookup
      cases hlookup
      exact ⟨{ m with updatedAt := now }, List.getElem?_concat_length .., rfl⟩
    · rw [AList.lookup_insert_ne hid] at hlookup
      obtain ⟨m', hm', hid'⟩ := hw id' ref' hlookup
      exact ⟨m', deref_append hm', hid'⟩
  | @updated now id u ref m href hm =>
    obtain ⟨m', hm', hid'⟩ := hw id' ref' hlookup
    by_cases heq : ref' = ref
    · subst heq
      have hmm : m' = m := Option.some.inj (hm'.symm.trans hm)
      refine ⟨{ (u.fn m).1 with updatedAt := now }, deref_set hm, ?_⟩
      show (u.fn m).1.id = id'
      rw [(u.clean m).1, ← hmm, hid']
    · exact ⟨m', (deref_set_ne heq).trans hm', hid'⟩
  | @deleted id =>
    have hlookup : (s.missions.erase id).lookup id' = some ref' := hlookup
    by_cases hid : id' = id
    · subst hid
      rw [AList.lookup_erase] at hlookup
      exact nomatch hlookup
    · rw [AList.lookup_erase_ne hid] at hlookup
      exact hw id' ref' hlookup
  | marshalled hk hm => exact hw id' ref' hlookup
  | written hk hm => exact hw id' ref' hlookup
  | erased hk => exact hw id' ref' hlookup

/-- A call on a mission in the store, before it marshals. -/
theorem settles_marshal {s : Durable} {id : GoString} {ref : Nat} {m : Mission}
    (hlookup : s.missions.lookup id = some ref) (hm : s.deref ref = some m) (hid : m.id = id) :
    s.Settles id (.marshal ref) := by
  constructor
  · show (s.deref ref).map Mission.id = some id
    rw [hm, ← hid]
    rfl
  · show (s.deref ref).map (fun m => Row.of m m) = s.rowNow id
    unfold Durable.rowNow Durable.current
    rw [hlookup]
    rfl

/-- A hook that changes a row and returns. -/
theorem keepsUp_changesRow {s : Durable} {k : Nat} {h : Hook} {table : AList fun _ : GoString => Row}
    (hk : s.hooks[k]? = some h) (hchanges : h.ChangesRow) (hw : s.WellFormed)
    (hC : WritesInOrder s (.hook k)) (hrow : ∀ id, s.target h = some id → table.lookup id = s.rowOf h)
    (hother : ∀ id, s.target h ≠ some id → table.lookup id = s.table.lookup id)
    {id : GoString} (hs : s.KeepsUp id) :
    Durable.KeepsUp { s with table := table, hooks := s.hooks.eraseIdx k } id := by
  have hkeeps : KeepsMission s { s with table := table, hooks := s.hooks.eraseIdx k } id :=
    ⟨rfl, fun ref m hm _ => hm⟩
  by_cases htarget : s.target h = some id
  · rcases hC h id hk hchanges htarget with hsettles | ⟨j, g, hj, hg, hsettles⟩
    · left
      show table.lookup id = _
      rw [hrow id htarget, hkeeps.rowNow hw]
      exact hsettles.2
    · right
      refine ⟨g, ?_, hkeeps.settles hw hsettles⟩
      exact List.mem_eraseIdx_iff_getElem?.2 ⟨j, hj, hg⟩
  · refine hkeeps.keepsUp hw (hother id htarget) (fun g hg hsettles => ?_) hs
    obtain ⟨j, hj⟩ := List.getElem?_of_mem hg
    refine List.mem_eraseIdx_iff_getElem?.2 ⟨j, ?_, hj⟩
    rintro rfl
    rw [hk] at hj
    cases hj
    exact htarget hsettles.1

theorem keepsUp_step {s s' : Durable} {act : DurableAct} (hw : s.WellFormed)
    (hC : WritesInOrder s act) (hstep : durableStep s act = some s') {id' : GoString}
    (hs : s.KeepsUp id') : s'.KeepsUp id' := by
  cases durableStep_cases hstep with
  | same => exact hs
  | @saved now m =>
    by_cases hid : id' = m.id
    · subst hid
      right
      refine ⟨.marshal s.objects.length, List.mem_append_right _ (List.mem_singleton_self _), ?_⟩
      exact settles_marshal (AList.lookup_insert _) (List.getElem?_concat_length ..) rfl
    · refine KeepsMission.keepsUp ⟨?_, ?_⟩ hw rfl (fun g hg _ => List.mem_append_left _ hg) hs
      · exact AList.lookup_insert_ne hid
      · intro ref m' hm' _
        exact deref_append hm'
  | @updated now id u ref m href hm =>
    obtain ⟨m₀, hm₀, hmid⟩ := hw id ref href
    have hmm : m₀ = m := Option.some.inj (hm₀.symm.trans hm)
    subst hmm
    by_cases hid : id' = id
    · subst hid
      right
      refine ⟨.marshal ref, List.mem_append_right _ (List.mem_singleton_self _), ?_⟩
      exact settles_marshal href (deref_set hm) (((u.clean m₀).1).trans hmid)
    · refine KeepsMission.keepsUp (s := s) ⟨rfl, ?_⟩ hw rfl
        (fun g hg _ => List.mem_append_left _ hg) hs
      intro ref' m' hm' hid'
      -- the pointer shows a mission of another id
      have hne : ref' ≠ ref := by
        rintro rfl
        rw [hm] at hm'
        cases hm'
        exact hid (hid'.symm.trans hmid)
      exact (deref_set_ne hne).trans hm'
  | @deleted id =>
    by_cases hid : id' = id
    · subst hid
      right
      refine ⟨.erase id', List.mem_append_right _ (List.mem_singleton_self _), rfl, ?_⟩
      show none = ((s.missions.erase id').lookup id' |>.bind s.deref).map _
      rw [AList.lookup_erase]
      rfl
    · refine KeepsMission.keepsUp ⟨?_, ?_⟩ hw rfl (fun g hg _ => List.mem_append_left _ hg) hs
      · exact AList.lookup_erase_ne hid
      · intro ref m hm _
        exact hm
  | @marshalled k ref m hk hm =>
    have hkeeps : KeepsMission s { s with hooks := s.hooks.set k (.write ref m) } id' :=
      ⟨rfl, fun ref m hm _ => hm⟩
    rcases hs with hagree | ⟨g, hg, hsettles⟩
    · exact .inl hagree
    · right
      obtain ⟨j, hj⟩ := List.getElem?_of_mem hg
      by_cases hjk : k = j
      · subst hjk
        rw [hk] at hj
        cases hj
        -- the data is what the pointer shows, so the row is as it was to be
        refine ⟨.write ref m, List.mem_set (List.getElem?_eq_some_iff.1 hk).1 _, hsettles.1, ?_⟩
        have hrow : (s.deref ref).map (fun m => Row.of m m) = s.rowNow id' := hsettles.2
        show (s.deref ref).map (fun m' => Row.of m' m) = s.rowNow id'
        rw [hm] at hrow ⊢
        exact hrow
      · refine ⟨g, List.mem_iff_getElem?.2 ⟨j, ?_⟩, hkeeps.settles hw hsettles⟩
        show (s.hooks.set k _)[j]? = some g
        rw [List.getElem?_set_ne hjk]
        exact hj
  | @written k ref data m hk hm =>
    have htarget : s.target (.write ref data) = some m.id := by
      show (s.deref ref).map Mission.id = _
      rw [hm]
      rfl
    refine keepsUp_changesRow hk trivial hw hC (fun id hid => ?_) (fun id hid => ?_) hs
    · rw [htarget] at hid
      cases hid
      show _ = (s.deref ref).map fun m => Row.of m data
      rw [hm]
      exact AList.lookup_insert _
    · rw [htarget] at hid
      exact AList.lookup_insert_ne fun h => hid (congrArg some h.symm)
  | @erased k id hk =>
    refine keepsUp_changesRow hk trivial hw hC (fun id' hid => ?_) (fun id' hid => ?_) hs
    · cases hid
      exact AList.lookup_erase ..
    · exact AList.lookup_erase_ne fun h => hid (congrArg some h.symm)

/-- When writes are in order and all calls have returned, the database holds the missions of the store. -/
theorem agrees_of_writesInOrder {s s' : Durable} {acts : List DurableAct} (hrested : s.Rested)
    (hrun : runSteps durableStep s acts = some s') (hC : StepsMeet durableStep WritesInOrder s acts)
    (hreturned : s'.hooks = []) : s'.Agrees := by
  have hinv : s'.WellFormed ∧ ∀ id, s'.KeepsUp id := by
    refine runSteps_invariant_of_meet (P := fun s => s.WellFormed ∧ ∀ id, s.KeepsUp id)
      (fun s act s' h hC hstep => ?_) hrun hC ⟨hrested.wellFormed, fun id => .inl (hrested.agrees id)⟩
    exact ⟨wellFormed_step h.1 hstep, fun id => keepsUp_step h.1 hC hstep (h.2 id)⟩
  intro id
  rcases hinv.2 id with hagree | ⟨h, hh, -⟩
  · exact hagree
  · rw [hreturned] at hh
    exact absurd hh List.not_mem_nil

/-- The pointers and the hooks refine the store: after a run the missions are those that the steps under the
lock alone leave, in the order in which they took it. -/
theorem shows_run {s s' : Durable} {acts : List DurableAct} {st : Store} (hw : s.WellFormed) (h : s.Shows st)
    (hrun : runSteps durableStep s acts = some s') :
    s'.Shows (acts.foldl (fun st act => act.inLock st) st) := by
  induction acts generalizing s st with
  | nil =>
    cases hrun
    exact h
  | cons act acts ih =>
    obtain ⟨t, ht, hrun⟩ := runSteps_cons_eq_some.1 hrun
    exact ih (wellFormed_step hw ht) (shows_step hw h ht) hrun

/-! ## Two updates -/

/-- An update that sets the summary. -/
def summarize (text : GoString) : MissionUpdate where
  fn := fun m => ({ m with summary := text }, none)
  clean := fun _ => ⟨rfl, nofun⟩

/-- A board that has just been created. -/
def board : Mission where
  id := "m1"
  instruction := "a"
  quests := []
  status := .planning
  mode := []
  summary := []
  judge := none
  createdAt := 0
  updatedAt := 0

/-- The board is saved, and then two updates have marshalled it, each after its own step under the lock. -/
def twoUpdates : List DurableAct :=
  [.save 1 board, .hook 0, .hook 0, .update 2 "m1" (summarize "b"), .hook 0,
    .update 3 "m1" (summarize "c"), .hook 1]

/-- The board after its last update. -/
def boardNow : Mission := { board with summary := "c", updatedAt := 3 }

/-- The state in which both updates are about to write. -/
def beforeWrites : Durable where
  objects := [boardNow]
  missions := AList.insert "m1" 0 ∅
  table := AList.insert "m1" (Row.of { board with updatedAt := 1 } { board with updatedAt := 1 }) ∅
  hooks := [.write 0 { board with summary := "b", updatedAt := 2 }, .write 0 boardNow]

theorem empty_rested : Durable.empty.Rested := ⟨rfl, nofun, fun _ => rfl⟩

theorem writesInOrder_marshal {s : Durable} {k ref : Nat} (hk : s.hooks[k]? = some (.marshal ref)) :
    WritesInOrder s (.hook k) := by
  intro h id hh hchanges _
  rw [hk] at hh
  cases hh
  exact hchanges.elim

theorem writesInOrder_settles {s : Durable} {k : Nat} {h : Hook} {id : GoString}
    (hk : s.hooks[k]? = some h) (htarget : s.target h = some id)
    (hs : s.Settles id h ∨ ∃ j g, j ≠ k ∧ s.hooks[j]? = some g ∧ s.Settles id g) :
    WritesInOrder s (.hook k) := by
  intro h' id' hh _ hid
  rw [hk] at hh
  cases hh
  rw [htarget] at hid
  cases hid
  exact hs

/-- The updates write in the order in which they have marshalled. -/
theorem twoUpdates_inOrder :
    StepsMeet durableStep WritesInOrder Durable.empty (twoUpdates ++ [.hook 0, .hook 0]) := by
  refine stepsMeet_cons trivial rfl ?_
  refine stepsMeet_cons (writesInOrder_marshal rfl) rfl ?_
  refine stepsMeet_cons (writesInOrder_settles rfl rfl (.inl ⟨rfl, rfl⟩)) rfl ?_
  refine stepsMeet_cons trivial rfl ?_
  refine stepsMeet_cons (writesInOrder_marshal rfl) rfl ?_
  refine stepsMeet_cons trivial rfl ?_
  refine stepsMeet_cons (writesInOrder_marshal rfl) rfl ?_
  -- the first data is stale, but the second update is still to write
  refine stepsMeet_cons (writesInOrder_settles rfl rfl (.inr ⟨1, _, nofun, rfl, rfl, rfl⟩)) rfl ?_
  exact stepsMeet_cons (writesInOrder_settles rfl rfl (.inl ⟨rfl, rfl⟩)) rfl trivial

theorem twoUpdates_agrees :
    ∃ s', runSteps durableStep Durable.empty (twoUpdates ++ [.hook 0, .hook 0]) = some s' ∧
      s'.Agrees :=
  ⟨_, rfl, agrees_of_writesInOrder empty_rested rfl twoUpdates_inOrder rfl⟩

/-- The other order: all calls have returned, and the row has the summary of the first update. -/
theorem twoUpdates_stale :
    ¬ ∀ acts s', runSteps durableStep Durable.empty acts = some s' → s'.hooks = [] → s'.Agrees := by
  intro h
  have hagrees := h (twoUpdates ++ [.hook 1, .hook 0]) _ rfl rfl "m1"
  have hdata := congrArg (Option.map fun row => row.data.summary) hagrees
  exact absurd hdata (by decide)

theorem shows_run_twoUpdates :
    ∃ s', runSteps durableStep Durable.empty twoUpdates = some s' ∧
      s'.Shows (twoUpdates.foldl (fun st act => act.inLock st) ⟨∅, 0⟩) :=
  ⟨_, rfl, shows_run empty_rested.wellFormed (fun _ => rfl) rfl⟩

/-- A late write brings the row of a deleted mission back. -/
example :
    ((runSteps durableStep Durable.empty
      [.save 1 board, .hook 0, .delete "m1", .hook 1, .hook 0]).map fun s =>
        (s.hooks.length, s.missions.keys, s.table.keys)) = some (0, [], [str "m1"]) := rfl

end Gafam.Moksa
