import Gafam.Relay.Mms

/-!
# The parts of the messages

As long as every part is stored with data, every message with parts is among the newest ones, and none of them is
deleted, every part belongs to a message and is listed with it.
-/

namespace Gafam.Relay.MmsStore

open Gafam.Go Gafam.Lib

/-! ## What an upload stores -/

theorem dataBlob_eq_none {p : MmsPartPayload} (h : dataBlob p = some none) : p.dataBase64 = [] := by
  unfold dataBlob at h
  split_ifs at h with hempty
  · exact hempty
  · split at h
    · cases h
    · split_ifs at h
      cases h

theorem storePart_mms (id : Nat) (s : MmsStore) (p : MmsPartPayload) : (storePart id s p).mms = s.mms := by
  unfold storePart
  split_ifs
  · rfl
  · split <;> rfl

/-- A row of the parts is an old one, or that of a part that is stored. -/
theorem mem_storePart {id : Nat} {s : MmsStore} {p : MmsPartPayload} {r : Row MmsPart}
    (h : r ∈ (storePart id s p).parts.rows) :
    r ∈ s.parts.rows ∨ isStored p = true ∧ r.val.mmsID = id ∧ dataBlob p = some r.val.data := by
  unfold storePart at h
  split_ifs at h with htype
  · exact .inl h
  · split at h
    · exact .inl h
    · next data hdata =>
      rcases Table.mem_insert.1 h with h | rfl
      · exact .inl h
      · refine .inr ⟨?_, rfl, hdata⟩
        simp [isStored, htype, hdata]

theorem storeParts_mms (id : Nat) (ps : List MmsPartPayload) (s : MmsStore) :
    (ps.foldl (storePart id) s).mms = s.mms := by
  induction ps generalizing s with
  | nil => rfl
  | cons p ps ih => rw [List.foldl_cons, ih, storePart_mms]

theorem mem_storeParts {id : Nat} {ps : List MmsPartPayload} {s : MmsStore} {r : Row MmsPart}
    (h : r ∈ (ps.foldl (storePart id) s).parts.rows) :
    r ∈ s.parts.rows ∨ ∃ p ∈ ps, isStored p = true ∧ r.val.mmsID = id ∧ dataBlob p = some r.val.data := by
  induction ps generalizing s with
  | nil => exact .inl h
  | cons p ps ih =>
    rcases ih h with h | ⟨q, hq, h⟩
    · rcases mem_storePart h with h | h
      · exact .inl h
      · exact .inr ⟨p, List.mem_cons_self .., h⟩
    · exact .inr ⟨q, List.mem_cons_of_mem _ hq, h⟩

/-! ## The invariant -/

theorem keepLast_sublist {α : Type} (t : Table α) (n : Nat) : (t.keepLast n).rows.Sublist t.rows :=
  List.drop_sublist _ _

theorem Recent.sublist {t t' : Table MmsRow} {m : Row MmsRow} (hsub : t'.rows.Sublist t.rows) (h : Recent t m) :
    Recent t' m := by
  unfold Recent at h ⊢
  exact Nat.lt_of_le_of_lt (hsub.filter _).length_le h

/-- What every state keeps. -/
structure Kept (s : MmsStore) : Prop where
  refers : ∀ p ∈ s.parts.rows, ∃ m ∈ s.mms.rows, m.id = p.val.mmsID
  data : ∀ p ∈ s.parts.rows, p.val.data ≠ none
  recent : ∀ m ∈ s.mms.rows, s.hasParts m.id → Recent s.mms m

theorem kept_empty : Kept empty where
  refers _ hp := absurd hp List.not_mem_nil
  data _ hp := absurd hp List.not_mem_nil
  recent _ hm := absurd hm List.not_mem_nil

theorem kept_message {s : MmsStore} {createdAt : GoString} {m : MmsMsgPayload} (h : Kept s)
    (hkeeps : Keeps s (.message createdAt m)) : Kept (s.storeMessage createdAt m) := by
  unfold storeMessage
  split_ifs with haccepts
  · obtain ⟨hdata, hrecent⟩ := hkeeps haccepts
    refine ⟨fun p hp => ?_, fun p hp => ?_, fun r hr hparts => ?_⟩
    · rw [storeParts_mms]
      rcases mem_storeParts hp with hp | ⟨-, -, -, hid, -⟩
      · obtain ⟨r, hr, hid⟩ := h.refers p hp
        exact ⟨r, Table.mem_insert.2 (.inl hr), hid⟩
      · exact ⟨_, Table.mem_insert.2 (.inr rfl), hid.symm⟩
    · rcases mem_storeParts hp with hp | ⟨q, hq, hstored, -, hblob⟩
      · exact h.data p hp
      · intro hnone
        rw [hnone] at hblob
        have htype : q.contentType ≠ [] := of_decide_eq_true (Bool.and_eq_true _ _ ▸ hstored).1
        exact hdata q hq htype (dataBlob_eq_none hblob)
    · rw [storeParts_mms] at hr ⊢
      refine hrecent r hr ?_
      obtain ⟨p, hp, hid⟩ := hparts
      rcases mem_storeParts hp with hp | ⟨q, hq, hstored, hnew, -⟩
      · exact .inl ⟨p, hp, hid⟩
      · exact .inr ⟨hid ▸ hnew, List.any_eq_true.2 ⟨q, hq, hstored⟩⟩
  · exact h

theorem kept_trim {s : MmsStore} {n : Nat} (h : Kept s)
    (hkeeps : ∀ r ∈ s.mms.rows, s.hasParts r.id → r ∈ (s.trim n).mms.rows) : Kept (s.trim n) where
  refers p hp := by
    obtain ⟨r, hr, hid⟩ := h.refers p hp
    exact ⟨r, hkeeps r hr ⟨p, hp, hid.symm⟩, hid⟩
  data := h.data
  recent r hr hparts := by
    have hsub : (s.trim n).mms.rows.Sublist s.mms.rows := keepLast_sublist s.mms n
    exact (h.recent r (hsub.subset hr) hparts).sublist hsub

theorem kept_step {s s' : MmsStore} {a : Action} (h : Kept s) (hkeeps : Keeps s a) (hs : step s a = some s') :
    Kept s' := by
  cases a with
  | message createdAt m =>
    cases hs
    exact kept_message h hkeeps
  | trim => exact Option.some.inj hs ▸ kept_trim h hkeeps

/-! ## The answer -/

/-- A recent message is among the rows that the query answers. -/
theorem mem_newest {t : Table MmsRow} (o : NewestFirst t) {m : Row MmsRow} (hm : m ∈ t.rows) (h : Recent t m) :
    m ∈ o.rows := by
  by_contra hnot
  have hrest : m ∈ o.rest := (List.mem_append.1 (o.perm.mem_iff.2 hm)).resolve_left hnot
  -- The rows that are answered are as new as the message, and there are 2000 of them.
  have hnewer : ∀ r ∈ o.rows, r.id ≠ m.id ∧ m.val.timestamp ≤ r.val.timestamp := by
    intro r hr
    have hsorted := (List.pairwise_append.1 o.sorted).2.2 r hr m hrest
    refine ⟨fun hid => hnot ?_, hsorted⟩
    have hrt : r ∈ t.rows := o.perm.mem_iff.1 (List.mem_append_left _ hr)
    rwa [← Table.row_unique hrt hm hid]
  have hlength : o.rows.length = 2000 := by
    have hperm := o.perm.length_eq
    have hpos := List.length_pos_of_mem hrest
    have hlimit := o.limit
    rw [List.length_append] at hperm
    omega
  have hcount : o.rows.length ≤ (t.rows.filter fun r => r.id ≠ m.id && m.val.timestamp ≤ r.val.timestamp).length := by
    rw [← (o.perm.filter _).length_eq, List.filter_append, List.length_append,
      List.filter_eq_self.2 fun r hr => by simpa using hnewer r hr]
    exact Nat.le_add_right _ _
  unfold Recent at h
  omega

theorem describes_partEntry {r : Row MmsPart} {e : PartEntry} (h : partEntry r = some e) : Describes e r := by
  obtain ⟨data, hdata, rfl⟩ := Option.map_eq_some_iff.1 h
  refine ⟨rfl, rfl, rfl, ?_, ?_⟩
  · dsimp only
    split_ifs with htext
    · exact htext.symm
    · rfl
  · dsimp only
    rw [hdata]
    split_ifs with hlen
    · exact hlen.symm
    · rfl

theorem sound_of_kept {s : MmsStore} (h : Kept s) : s.Sound where
  refers := h.refers
  listed o p hp m hm hid := by
    have hmem := mem_newest o hm (h.recent m hm ⟨p, hp, hid⟩)
    obtain ⟨data, hdata⟩ := Option.ne_none_iff_exists'.1 (h.data p hp)
    obtain ⟨e, he⟩ : ∃ e, partEntry p = some e := ⟨_, by rw [partEntry, hdata]; rfl⟩
    refine ⟨s.entry m, List.mem_map.2 ⟨m, hmem, rfl⟩, rfl, e, ?_, describes_partEntry he⟩
    exact List.mem_filterMap.2 ⟨p, List.mem_filter.2 ⟨hp, decide_eq_true hid⟩, he⟩

/-! ## Runs -/

/-- An upload that is not refused is a run. -/
theorem syncMmsHandler_run (createdAt : GoString) {messages : List MmsMsgPayload} (h : messages.length ≤ 500)
    (s : MmsStore) : runSteps step s (messages.map (.message createdAt) ++ [.trim]) =
      some (syncMmsHandler createdAt messages s) := by
  have hmessages (s : MmsStore) : runSteps step s (messages.map (.message createdAt)) =
      some (messages.foldl (storeMessage createdAt) s) := by
    clear h
    induction messages generalizing s with
    | nil => rfl
    | cons m messages ih => exact ih (s.storeMessage createdAt m)
  unfold syncMmsHandler
  rw [if_neg (Nat.not_lt.2 h)]
  exact runSteps_append_eq_some.2 ⟨_, hmessages s, rfl⟩

/-- In every run whose steps keep to the condition, every part belongs to a message and is listed with it. -/
theorem sound_of_keeps {s : MmsStore} {as : List Action} (hrun : runSteps step empty as = some s)
    (h : StepsMeet step Keeps empty as) : s.Sound :=
  sound_of_kept (runSteps_invariant_of_meet (fun _ _ _ => kept_step) hrun h kept_empty)

/-- A picture of three bytes. -/
def pictureMms : MmsMsgPayload := ⟨"+33612345678", 1700000000000, 1, [⟨"image/jpeg", "a.jpg", "", "AAAA"⟩]⟩

theorem sound_picture : (syncMmsHandler "2026-01-01 00:00:00" [pictureMms] empty).Sound := by
  refine sound_of_keeps (syncMmsHandler_run "2026-01-01 00:00:00" (by decide) empty)
    ⟨fun _ => ⟨by decide, ?_⟩, fun s' hs' => ⟨?_, fun _ _ => trivial⟩⟩
  · intro r hr _
    obtain rfl := List.mem_singleton.1 hr
    unfold Recent
    decide
  · cases hs'
    intro r hr _
    exact hr

/-- A text, as it stands in every MMS that has one. -/
def textMms : MmsMsgPayload := ⟨"+33612345678", 1700000000000, 1, [⟨"text/plain", "text_0", "hello", ""⟩]⟩

/-- The part is stored and is not listed. -/
theorem textPart_missing : ¬(syncMmsHandler "2026-01-01 00:00:00" [textMms] empty).Sound := by
  intro h
  let m : Row MmsRow := ⟨1, row "2026-01-01 00:00:00" textMms⟩
  have hlisted := h.listed ⟨[m], [], .refl _, by simp, rfl⟩ ⟨1, ⟨1, "text/plain", "text_0", "hello", none⟩⟩
    (List.mem_singleton_self _) m (List.mem_singleton_self _) rfl
  obtain ⟨e, he, -, x, hx, -⟩ := hlisted
  obtain rfl := List.mem_singleton.1 he
  cases hx

end Gafam.Relay.MmsStore

/-!
## What a duplicate stands for

The parts that are stored for a row are those that were inserted by the upload that has made it. So a
message that is skipped is stored exactly if that upload had its direction and got its parts in.
-/

namespace Gafam.Relay.MmsImport

open Gafam.Go Gafam.Lib MmsStore

/-! ### One message -/

/-- The contents of the part table. -/
def partRows (s : MmsStore) : List MmsPart := s.parts.rows.map Row.val

theorem partRows_storePart (id : Nat) (s : MmsStore) (p : MmsPartPayload) :
    partRows (storePart id s p) = partRows s ++ (partRow id p).toList := by
  unfold storePart partRow
  split_ifs
  · exact (List.append_nil _).symm
  · cases dataBlob p with
    | none => exact (List.append_nil _).symm
    | some data => exact List.map_append

theorem importPart_mms (fails : Nat → Bool) (id : Nat) (s : MmsStore) (p : MmsPartPayload × Nat) :
    (importPart fails id s p).mms = s.mms := by
  unfold importPart
  split_ifs
  · rfl
  · exact storePart_mms id s p.1

/-- The parts of a message, some of whose inserts fail. -/
theorem importParts (fails : Nat → Bool) (id : Nat) (ps : List (MmsPartPayload × Nat)) (s : MmsStore) :
    (ps.foldl (importPart fails id) s).mms = s.mms ∧
      partRows (ps.foldl (importPart fails id) s) =
        partRows s ++ ps.filterMap fun p => if fails p.2 then none else partRow id p.1 := by
  induction ps generalizing s with
  | nil => exact ⟨rfl, (List.append_nil _).symm⟩
  | cons p ps ih =>
    obtain ⟨hmms, hparts⟩ := ih (importPart fails id s p)
    rw [List.foldl_cons, hmms, hparts, importPart_mms]
    refine ⟨rfl, ?_⟩
    unfold importPart
    by_cases hfail : fails p.2 = true
    · rw [if_pos hfail, List.filterMap_cons_none (by rw [if_pos hfail])]
    · rw [if_neg hfail, partRows_storePart, List.append_assoc]
      cases hrow : partRow id p.1 with
      | none => rw [List.filterMap_cons_none (by rw [if_neg hfail, hrow])]; rfl
      | some v => rw [List.filterMap_cons_some (by rw [if_neg hfail, hrow])]; rfl

/-- Without a failure this is the handler that does not look at errors. -/
theorem importMessage_eq_storeMessage {u : MmsUpload} (hrow : u.rowFails = false)
    (hparts : ∀ i, u.fails i = false) (s : MmsStore) :
    importMessage s u = storeMessage u.createdAt s u.message := by
  have hpart : ∀ (id : Nat) (s : MmsStore) (p : MmsPartPayload × Nat),
      importPart u.fails id s p = storePart id s p.1 := by
    intro id s p
    rw [importPart, hparts]
    rfl
  have hfold : ∀ (id : Nat) (ps : List MmsPartPayload) (k : Nat) (s : MmsStore),
      (ps.zipIdx k).foldl (importPart u.fails id) s = ps.foldl (storePart id) s := by
    intro id ps
    induction ps with
    | nil => exact fun _ _ => rfl
    | cons p ps ih =>
      intro k s
      rw [List.zipIdx_cons, List.foldl_cons, List.foldl_cons, hpart, ih]
  rw [importMessage, hrow, storeMessage, hfold]
  rfl

/-- The message makes a row. -/
def makesRow (s : MmsStore) (u : MmsUpload) : Bool := !u.rowFails && s.accepts u.message

theorem importMessage_of_not {s : MmsStore} {u : MmsUpload} (h : makesRow s u = false) :
    importMessage s u = s := by
  unfold importMessage
  split_ifs with hrow haccepts
  · rfl
  · rw [makesRow, haccepts, Bool.and_true, Bool.not_eq_false'] at h
    exact absurd h hrow
  · rfl

theorem importMessage_of_makesRow {s : MmsStore} {u : MmsUpload} (h : makesRow s u = true) :
    (importMessage s u).mms = s.mms.insert (row u.createdAt u.message) ∧
      partRows (importMessage s u) = partRows s ++ inserted u s.mms.nextId := by
  obtain ⟨hrow, haccepts⟩ := Bool.and_eq_true_iff.1 h
  have hrow' : ¬ u.rowFails = true := by rwa [Bool.not_eq_true, ← Bool.not_eq_true']
  rw [importMessage, if_neg hrow', if_pos haccepts]
  exact importParts _ _ _ _

theorem note_message (s : MmsStore) (u : MmsUpload) (log : Log) :
    note s (.message u) log = if makesRow s u = true then log ++ [(s.mms.nextId, u)] else log := rfl

/-! ### The invariant -/

/-- Every row was made by one upload, and its parts are those which that upload has inserted. -/
structure Traced (h : MmsStore × Log) : Prop where
  parts : ∀ p ∈ partRows h.1, p.mmsID ≤ h.1.mms.seq
  ids : ∀ e ∈ h.2, e.1 ≤ h.1.mms.seq
  once : ∀ e ∈ h.2, ∀ e' ∈ h.2, e.1 = e'.1 → e = e'
  origin : ∀ r ∈ h.1.mms.rows, ∃ u, (r.id, u) ∈ h.2 ∧ r.val = row u.createdAt u.message ∧
    storedParts h.1 r.id = inserted u r.id

theorem traced_empty : Traced (empty, []) where
  parts _ hp := absurd hp List.not_mem_nil
  ids _ he := absurd he List.not_mem_nil
  once _ he := absurd he List.not_mem_nil
  origin _ hr := absurd hr List.not_mem_nil

theorem mmsID_inserted {u : MmsUpload} {id : Nat} {p : MmsPart} (h : p ∈ inserted u id) : p.mmsID = id := by
  obtain ⟨q, -, hq⟩ := List.mem_filterMap.1 h
  rw [Option.ite_none_left_eq_some] at hq
  unfold partRow at hq
  obtain ⟨-, hmap⟩ := Option.ite_none_left_eq_some.1 hq.2
  obtain ⟨data, -, rfl⟩ := Option.map_eq_some_iff.1 hmap
  rfl

theorem traced_message {s : MmsStore} {log : Log} (h : Traced (s, log)) (u : MmsUpload) :
    Traced (importMessage s u, note s (.message u) log) := by
  rw [note_message]
  by_cases hmakes : makesRow s u = true
  · rw [if_pos hmakes]
    obtain ⟨hmms, hparts⟩ := importMessage_of_makesRow hmakes
    have hseq : (importMessage s u).mms.seq = s.mms.seq + 1 := by rw [hmms]; rfl
    have hnew : s.mms.nextId = s.mms.seq + 1 := rfl
    have hstored : ∀ id, storedParts (importMessage s u) id =
        storedParts s id ++ (inserted u s.mms.nextId).filter fun p => p.mmsID = id := by
      intro id
      rw [storedParts, ← partRows, hparts, List.filter_append]
      rfl
    refine ⟨fun p hp => ?_, fun e he => ?_, fun e he e' he' hid => ?_, fun r hr => ?_⟩
    · show p.mmsID ≤ (importMessage s u).mms.seq
      rw [hseq]
      rw [show partRows (importMessage s u, _).1 = partRows (importMessage s u) from rfl, hparts] at hp
      rcases List.mem_append.1 hp with hp | hp
      · exact Nat.le_succ_of_le (h.parts p hp)
      · exact Nat.le_of_eq (mmsID_inserted hp)
    · show e.1 ≤ (importMessage s u).mms.seq
      rw [hseq]
      rcases List.mem_append.1 he with he | he
      · exact Nat.le_succ_of_le (h.ids e he)
      · rw [List.mem_singleton.1 he]
        exact Nat.le_refl _
    · rcases List.mem_append.1 he with he | he <;> rcases List.mem_append.1 he' with he' | he'
      · exact h.once e he e' he' hid
      · have hle : e.1 ≤ s.mms.seq := h.ids e he
        rw [List.mem_singleton.1 he'] at hid
        exact absurd hid (by rw [hnew]; omega)
      · have hle : e'.1 ≤ s.mms.seq := h.ids e' he'
        rw [List.mem_singleton.1 he] at hid
        exact absurd hid (by rw [hnew]; omega)
      · rw [List.mem_singleton.1 he, List.mem_singleton.1 he']
    · rw [show (importMessage s u, _).1.mms.rows = (importMessage s u).mms.rows from rfl, hmms] at hr
      rcases Table.mem_insert.1 hr with hr | rfl
      · obtain ⟨u', hmem, hval, hkept⟩ := h.origin r hr
        refine ⟨u', List.mem_append_left _ hmem, hval, ?_⟩
        have hle : r.id ≤ s.mms.seq := s.mms.le_seq r hr
        have hnone : ((inserted u s.mms.nextId).filter fun p => p.mmsID = r.id) = [] := by
          refine List.filter_eq_nil_iff.2 fun p hp => ?_
          rw [decide_eq_true_eq, mmsID_inserted hp, hnew]
          omega
        rw [hstored, hnone, List.append_nil]
        exact hkept
      · refine ⟨u, List.mem_append_right _ (List.mem_singleton.2 rfl), rfl, ?_⟩
        have hnone : storedParts s s.mms.nextId = [] := by
          refine List.filter_eq_nil_iff.2 fun p hp => ?_
          have hle : p.mmsID ≤ s.mms.seq := h.parts p hp
          rw [decide_eq_true_eq, hnew]
          omega
        have hall : ((inserted u s.mms.nextId).filter fun p => p.mmsID = s.mms.nextId) =
            inserted u s.mms.nextId :=
          List.filter_eq_self.2 fun p hp => decide_eq_true (mmsID_inserted hp)
        rw [hstored, hnone, hall]
        rfl
  · rw [if_neg hmakes, importMessage_of_not (Bool.not_eq_true _ ▸ hmakes)]
    exact h

theorem traced_trim {s : MmsStore} {log : Log} (h : Traced (s, log)) (n : Nat) : Traced (s.trim n, log) :=
  ⟨h.parts, h.ids, h.once, fun r hr => h.origin r (List.mem_of_mem_drop hr)⟩

theorem traced_step {h h' : MmsStore × Log} {a : Action} (ht : Traced h)
    (hs : withHistory step note h a = some h') : Traced h' := by
  obtain ⟨s', hstep, rfl⟩ := Option.map_eq_some_iff.1 hs
  cases a with
  | message u =>
    cases hstep
    exact traced_message ht u
  | trim => exact Option.some.inj hstep ▸ traced_trim ht window

/-! ### Runs -/

theorem losesNothing_iff {h : MmsStore × Log} (ht : Traced h) (a : Action) :
    LosesNothing h.1 a ↔ SameUpload h a := by
  cases a with
  | trim => exact Iff.rfl
  | message u =>
    have hstatus : ∀ m : MmsMsgPayload, ((row u.createdAt m).status = (row u.createdAt u.message).status ↔
        (m.type = 2 ↔ u.message.type = 2)) := by
      intro m
      by_cases hm : m.type = 2 <;> by_cases hu : u.message.type = 2 <;> simp [row, hm, hu] <;> decide
    refine forall_congr' fun hskips => forall_congr' fun r => forall_congr' fun hr => forall_congr' fun hm => ?_
    obtain ⟨v, hv, hval, hkept⟩ := ht.origin r hr
    have hmade : r.val.status = (row u.createdAt v.message).status := by rw [hval]; rfl
    rw [hmade, hstatus, hkept]
    constructor
    · intro hsame e he hid
      have heq := ht.once e he (r.id, v) hv hid
      subst heq
      exact hsame
    · exact fun hall => hall (r.id, v) hv rfl

/-- Every message that is skipped is stored exactly if the uploads that have made the rows had the same
messages and got their parts in. -/
theorem losesNothing_iff_sameUpload (as : List Action) :
    StepsMeet step LosesNothing empty as ↔ StepsMeet (withHistory step note) SameUpload (empty, []) as := by
  have hhistory : StepsMeet (withHistory step note) (fun p a => LosesNothing p.1 a) (empty, []) as ↔
      StepsMeet step LosesNothing empty as := stepsMeet_withHistory
  rw [← hhistory]
  exact stepsMeet_iff_of_invariant (fun _ _ _ _ ht hs => traced_step ht hs)
    (fun a _ h ht => losesNothing_iff ht a) traced_empty

/-- A message of one part. -/
def cat : MmsMsgPayload := ⟨"+33612345678", 1700000000000, 1, [⟨"text/plain", "", "cat", ""⟩]⟩

/-- The insert of its part fails, and the message is uploaded again. -/
theorem part_lost : ¬ ∀ as, StepsMeet step LosesNothing empty as := by
  intro h
  have hrun := h [.message ⟨"2026-01-01 00:00:00", cat, false, fun _ => true⟩,
    .message ⟨"2026-01-01 00:10:00", cat, false, fun _ => false⟩]
  have hskip := (hrun.2 _ rfl).1 (by decide) ⟨1, row "2026-01-01 00:00:00" cat⟩ (by decide) ⟨rfl, rfl⟩
  have hlen := hskip.2.length_le
  exact absurd hlen (by decide)

end Gafam.Relay.MmsImport
