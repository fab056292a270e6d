import Gafam.Relay.VectorIndex

/-!
# Proofs: the index of embeddings

Every upsert reads the table after its own write. So the latest reading, at rest, is one of the table as it
is, and the copy is up to date unless an older reading was installed over it.
-/

namespace Gafam.Relay

open Gafam.Go Gafam.Lib

/-! ## Blobs -/

theorem bytesToFloats_putUint32 (v : Float32Bits) (rest : GoString) :
    bytesToFloats (putUint32 v ++ rest) = v :: bytesToFloats rest := by
  have hv := v.toNat_lt
  have hsum : v.toNat % 256 + 256 * (v.toNat / 256 % 256) + 65536 * (v.toNat / 65536 % 256)
      + 16777216 * (v.toNat / 16777216 % 256) = v.toNat := by omega
  unfold putUint32
  simp only [List.cons_append, List.nil_append, bytesToFloats, UInt8.toNat_ofNat']
  rw [show (2 : Nat) ^ 8 = 256 from rfl, hsum, UInt32.ofNat_toNat]

/-- The search sees the vectors that were embedded. -/
theorem bytesToFloats_floatsToBytes (f : List Float32Bits) : bytesToFloats (floatsToBytes f) = f := by
  induction f with
  | nil => rfl
  | cons v f ih =>
    unfold floatsToBytes at ih ⊢
    rw [List.flatMap_cons, bytesToFloats_putUint32, ih]

/-! ## The loop over the rows -/

theorem mem_foldl_addRow {rows : List EmbeddingRow} {byType : GoString → List VectorEntry}
    {entityType : GoString} {entry : VectorEntry} :
    entry ∈ rows.foldl addRow byType entityType ↔
      entry ∈ byType entityType ∨ ∃ r ∈ rows, r.entityType = entityType ∧ r.entry = entry := by
  induction rows generalizing byType with
  | nil => simp
  | cons r rows ih =>
    rw [List.foldl_cons, ih]
    unfold addRow
    by_cases h : r.entityType = entityType
    · subst h
      rw [Function.update_self, List.mem_append, List.mem_singleton, or_assoc]
      simp only [List.mem_cons, exists_eq_or_imp, true_and, eq_comm (a := entry)]
    · rw [Function.update_of_ne (Ne.symm h)]
      simp only [List.mem_cons, exists_eq_or_imp, h, false_and, false_or]

/-- The copy of a table is the set of its embeddings. -/
theorem mem_groupRows {rows : List EmbeddingRow} {entityType : GoString} {entry : VectorEntry} :
    entry ∈ groupRows rows entityType ↔ ∃ r ∈ rows, r.entityType = entityType ∧ r.entry = entry := by
  unfold groupRows
  rw [mem_foldl_addRow]
  simp only [List.not_mem_nil, false_or]

/-! ## Readings and writes -/

/-- An upsert that has written and whose reading is still to be installed, a reading after the last write. -/
def VectorStore.Pending (s : VectorStore) : Prop :=
  ∃ x ∈ s.calls, x.1 ≠ .reload ∧
    (x.2 = .reading ∨ ∃ number rows, x.2 = .read number rows ∧ s.lastWrite < number)

/-- What holds between the steps. -/
structure VectorStore.Numbered (s : VectorStore) : Prop where
  write_le : s.lastWrite ≤ s.reads
  read_le : ∀ x ∈ s.calls, ∀ number rows, x.2 = .read number rows → number ≤ s.reads
  current : ∀ x ∈ s.calls, ∀ number rows, x.2 = .read number rows → s.lastWrite < number → rows = s.rows
  installed_le : s.installed ≤ s.reads
  fresh : s.lastWrite < s.installed → s.byType = groupRows s.rows
  pending : s.lastWrite < s.installed ∨ s.Pending
  upserts : ∀ x ∈ s.calls, x.2 = .writing → x.1 ≠ .reload

namespace VectorStore

variable {s s' : VectorStore} {i : Nat} {c : VectorCall} {p q : VectorPhase}

theorem numbered_boot (rows : List EmbeddingRow) : (boot rows).Numbered where
  write_le := Nat.zero_le 1
  read_le := by simp [boot]
  current := by simp [boot]
  installed_le := Nat.le_refl 1
  fresh _ := rfl
  pending := .inl Nat.zero_lt_one
  upserts := by simp [boot]

theorem mem_advance {x : VectorCall × VectorPhase} (hx : x ∈ (s.advance i c p).calls) :
    x ∈ s.calls ∨ x = (c, p) := List.mem_or_eq_of_mem_set hx

theorem mem_advance_of_ne {x y : VectorCall × VectorPhase} (hx : x ∈ s.calls) (hy : s.calls[i]? = some y)
    (hne : x ≠ y) : x ∈ (s.advance i c p).calls := by
  obtain ⟨j, hj⟩ := List.mem_iff_getElem?.1 hx
  have hij : i ≠ j := by
    rintro rfl
    rw [hy] at hj
    exact hne (Option.some.inj hj).symm
  refine List.mem_iff_getElem?.2 ⟨j, ?_⟩
  unfold advance
  rw [List.getElem?_set_ne hij]
  exact hj

/-- The call itself is where it has gone on to. -/
theorem mem_advance_self {y : VectorCall × VectorPhase} (hy : s.calls[i]? = some y) :
    (c, p) ∈ (s.advance i c p).calls :=
  List.mem_set (List.getElem?_eq_some_iff.1 hy).1 ..

/-- A call that has nothing to install may return. -/
theorem pending_advance (h : s.Pending) (hy : s.calls[i]? = some (c, q))
    (hq : c = .reload ∨ q ≠ .reading ∧ ∀ number rows, q = .read number rows → number ≤ s.lastWrite) :
    (s.advance i c p).Pending := by
  obtain ⟨x, hx, hcall, hphase⟩ := h
  refine ⟨x, mem_advance_of_ne hx hy ?_, hcall, hphase⟩
  rintro rfl
  rcases hq with hreload | ⟨hreading, hread⟩
  · exact hcall hreload
  · rcases hphase with hphase | ⟨number, rows, hphase, hlt⟩
    · exact hreading hphase
    · exact absurd (hread number rows hphase) (by omega)

/-- Steps that change neither the table nor the copy, and bring no reading. -/
theorem Numbered.of_calls (h : s.Numbered) {calls : List (VectorCall × VectorPhase)}
    (hcalls : ∀ x ∈ calls, x ∈ s.calls ∨ x.2 = .returned ∨ x.2 = .reading ∨ x.1 ≠ .reload ∧ x.2 = .writing)
    (hpending : s.Pending → Pending { s with calls := calls }) : Numbered { s with calls := calls } where
  write_le := h.write_le
  read_le x hx number rows hread := by
    rcases hcalls x hx with hx | hr | hr | hr
    · exact h.read_le x hx number rows hread
    · rw [hr] at hread; cases hread
    · rw [hr] at hread; cases hread
    · rw [hr.2] at hread; cases hread
  current x hx number rows hread := by
    rcases hcalls x hx with hx | hr | hr | hr
    · exact h.current x hx number rows hread
    · rw [hr] at hread; cases hread
    · rw [hr] at hread; cases hread
    · rw [hr.2] at hread; cases hread
  installed_le := h.installed_le
  fresh := h.fresh
  pending := h.pending.imp_right hpending
  upserts x hx hwriting := by
    rcases hcalls x hx with hx | hr | hr | hr
    · exact h.upserts x hx hwriting
    · rw [hr] at hwriting; cases hwriting
    · rw [hr] at hwriting; cases hwriting
    · exact hr.1

theorem numbered_call (h : s.Numbered) (c : VectorCall) :
    Numbered { s with calls := s.calls ++ [(c, c.begin)] } := by
  refine h.of_calls ?_ ?_
  · intro x hx
    rcases List.mem_append.1 hx with hx | hx
    · exact .inl hx
    · rw [List.mem_singleton] at hx
      subst hx
      cases c with
      | reload => exact .inr (.inr (.inl rfl))
      | upsert entityType entityID model vec =>
        by_cases hvec : vec = []
        · exact .inr (.inl (if_pos hvec))
        · exact .inr (.inr (.inr ⟨VectorCall.noConfusion, if_neg hvec⟩))
  · rintro ⟨x, hx, hcall, hphase⟩
    exact ⟨x, List.mem_append_left _ hx, hcall, hphase⟩

/-- A call that returns without an installation. -/
theorem numbered_return (h : s.Numbered) (hc : s.calls[i]? = some (c, q))
    (hq : c = .reload ∨ q = .writing) : (s.advance i c .returned).Numbered := by
  refine h.of_calls (fun x hx => ?_) fun hpending => ?_
  · rcases mem_advance hx with hx | rfl
    · exact .inl hx
    · exact .inr (.inl rfl)
  · refine pending_advance hpending hc (hq.imp_right ?_)
    rintro rfl
    exact ⟨VectorPhase.noConfusion, fun _ _ hread => VectorPhase.noConfusion hread⟩

theorem numbered_write {r : EmbeddingRow} (h : s.Numbered) (hc : s.calls[i]? = some (c, .writing)) :
    Numbered { s.advance i c .reading with rows := upsertRow r s.rows, lastWrite := s.reads } where
  write_le := Nat.le_refl _
  read_le x hx number rows hread := by
    rcases mem_advance hx with hx | rfl
    · exact h.read_le x hx number rows hread
    · cases hread
  current x hx number rows hread hlt := by
    rcases mem_advance hx with hx | rfl
    · exact absurd (h.read_le x hx number rows hread) (Nat.not_le_of_lt hlt)
    · cases hread
  installed_le := h.installed_le
  fresh hlt := absurd h.installed_le (Nat.not_le_of_lt hlt)
  pending :=
    .inr ⟨(c, .reading), mem_advance_self hc, h.upserts (c, .writing) (List.mem_of_getElem? hc) rfl, .inl rfl⟩
  upserts x hx hwriting := by
    rcases mem_advance hx with hx | rfl
    · exact h.upserts x hx hwriting
    · cases hwriting

theorem numbered_read (h : s.Numbered) (hc : s.calls[i]? = some (c, .reading)) :
    Numbered { s.advance i c (.read (s.reads + 1) s.rows) with reads := s.reads + 1 } where
  write_le := Nat.le_succ_of_le h.write_le
  read_le x hx number rows hread := by
    rcases mem_advance hx with hx | rfl
    · exact Nat.le_succ_of_le (h.read_le x hx number rows hread)
    · cases hread
      exact Nat.le_refl _
  current x hx number rows hread hlt := by
    rcases mem_advance hx with hx | rfl
    · exact h.current x hx number rows hread hlt
    · cases hread
      rfl
  installed_le := Nat.le_succ_of_le h.installed_le
  fresh := h.fresh
  pending := by
    refine h.pending.imp_right fun ⟨x, hx, hcall, hphase⟩ => ?_
    -- the call that reads is pending with the reading that it gets
    by_cases hxc : x = (c, .reading)
    · subst hxc
      have hlt : s.lastWrite < s.reads + 1 := Nat.lt_succ_of_le h.write_le
      exact ⟨_, mem_advance_self hc, hcall, .inr ⟨_, _, rfl, hlt⟩⟩
    · exact ⟨x, mem_advance_of_ne hx hc hxc, hcall, hphase⟩
  upserts x hx hwriting := by
    rcases mem_advance hx with hx | rfl
    · exact h.upserts x hx hwriting
    · cases hwriting

theorem numbered_install {number : Nat} {rows : List EmbeddingRow} (h : s.Numbered)
    (hc : s.calls[i]? = some (c, .read number rows)) (horder : s.installed < number) :
    Numbered { s.advance i c .returned with byType := groupRows rows, installed := number } where
  write_le := h.write_le
  read_le x hx k l hread := by
    rcases mem_advance hx with hx | rfl
    · exact h.read_le x hx k l hread
    · cases hread
  current x hx k l hread hlt := by
    rcases mem_advance hx with hx | rfl
    · exact h.current x hx k l hread hlt
    · cases hread
  installed_le := h.read_le _ (List.mem_of_getElem? hc) number rows rfl
  fresh hlt := congrArg groupRows (h.current _ (List.mem_of_getElem? hc) number rows rfl hlt)
  pending := by
    rcases Nat.lt_or_ge s.lastWrite number with hlt | hge
    · exact .inl hlt
    · rcases h.pending with hinstalled | hpending
      · exact absurd hinstalled (by omega)
      · refine .inr (pending_advance hpending hc (.inr ⟨VectorPhase.noConfusion, fun k l hread => ?_⟩))
        cases hread
        exact hge
  upserts x hx hwriting := by
    rcases mem_advance hx with hx | rfl
    · exact h.upserts x hx hwriting
    · cases hwriting

theorem numbered_step {a : VectorAction} (h : s.Numbered) (horder : s.InOrder a)
    (hstep : s.step a = some s') : s'.Numbered := by
  cases a with
  | call c =>
    cases hstep
    exact numbered_call h c
  | write i =>
    unfold step at hstep
    dsimp only at hstep
    split at hstep
    · next c hc =>
      obtain ⟨r, -, rfl⟩ := Option.map_eq_some_iff.1 hstep
      exact numbered_write h hc
    · cases hstep
  | failWrite i =>
    unfold step at hstep
    dsimp only at hstep
    split at hstep
    · next c hc =>
      cases hstep
      exact numbered_return h hc (.inr rfl)
    · cases hstep
  | read i =>
    unfold step at hstep
    dsimp only at hstep
    split at hstep
    · next c hc =>
      cases hstep
      exact numbered_read h hc
    · cases hstep
  | failRead i =>
    unfold step at hstep
    dsimp only at hstep
    split at hstep
    · next c hc =>
      cases hstep
      exact numbered_return h hc (.inl (horder c _ hc))
    · cases hstep
  | install i =>
    unfold step at hstep
    dsimp only at hstep
    split at hstep
    · next c number rows hc =>
      cases hstep
      exact numbered_install h hc (horder c number rows hc)
    · cases hstep

/-- Once all calls have returned, the copy is the set of the embeddings in the table. -/
theorem agrees_of_quiet {rows : List EmbeddingRow} {acts : List VectorAction}
    (hrun : runSteps step (boot rows) acts = some s) (horder : StepsMeet step InOrder (boot rows) acts)
    (hquiet : s.Quiet) : s.Agrees := by
  have h : s.Numbered :=
    runSteps_invariant_of_meet (fun _ _ _ h hC hstep => numbered_step h hC hstep) hrun horder
      (numbered_boot rows)
  have hfresh : s.lastWrite < s.installed := by
    rcases h.pending with hlt | ⟨x, hx, -, hphase⟩
    · exact hlt
    · rw [hquiet x hx] at hphase
      rcases hphase with hphase | ⟨number, l, hphase, -⟩
      · cases hphase
      · cases hphase
  intro entityType entry
  rw [h.fresh hfresh]
  exact mem_groupRows

/-! ## Two upserts -/

/-- Two embeddings of notes. -/
def firstNote : VectorCall := .upsert "note" "n1" "hash" [0x3F800000]

def secondNote : VectorCall := .upsert "note" "n2" "hash" [0x3F800000]

/-- The second upsert writes, reads and installs while the first one has read and not installed. -/
def overtaken : List VectorAction :=
  [.call firstNote, .call secondNote, .write 0, .read 0, .write 1, .read 1, .install 1, .install 0]

/-- One after the other. -/
def inTurn : List VectorAction :=
  [.call firstNote, .call secondNote, .write 0, .read 0, .write 1, .read 1, .install 0, .install 1]

theorem agrees_inTurn : ∃ s, runSteps step (boot []) inTurn = some s ∧ s.Quiet ∧ s.Agrees := by
  obtain ⟨s, hrun, hquiet⟩ : ∃ s, runSteps step (boot []) inTurn = some s ∧ s.Quiet := ⟨_, rfl, by decide⟩
  refine ⟨s, hrun, hquiet, agrees_of_quiet hrun ?_ hquiet⟩
  refine stepsMeet_cons trivial rfl (stepsMeet_cons trivial rfl (stepsMeet_cons trivial rfl ?_))
  refine stepsMeet_cons trivial rfl (stepsMeet_cons trivial rfl (stepsMeet_cons trivial rfl ?_))
  refine stepsMeet_cons (fun c number rows hc => ?_) rfl (stepsMeet_cons (fun c number rows hc => ?_) rfl ?_)
  · cases hc
    decide
  · cases hc
    decide
  · trivial

theorem overtaken_misses : ∃ s, runSteps step (boot []) overtaken = some s ∧ s.Quiet ∧ ¬ s.Agrees := by
  refine ⟨_, rfl, by decide, fun hagrees => ?_⟩
  have hmem := (hagrees "note" ⟨"n2", "hash", [0x3F800000]⟩).2
    ⟨_, List.mem_cons_of_mem _ (List.mem_singleton_self _), rfl, by decide⟩
  exact absurd hmem (by decide)

end VectorStore

end Gafam.Relay
