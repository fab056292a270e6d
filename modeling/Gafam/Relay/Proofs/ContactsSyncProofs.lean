import Gafam.Relay.ContactsSync
import Gafam.Relay.Proofs.ContactsProofs

/-!
# What a full list leaves in the table

The loop gives each number of the list its last name and leaves the other rows alone; the deletions take away
what is missing from the list, as far as the query has shown it.
-/

namespace Gafam.Relay

open Gafam.Go Gafam.Lib

/-! ## One contact -/

namespace StoredContacts

variable {t : StoredContacts} {now : GoString} {c : ContactPayload}

theorem mem_phones {phone : GoString} : phone ∈ t.phones ↔ ∃ r ∈ t.table.rows, r.val.phone = phone := List.mem_map

/-- A number names at most one row. -/
theorem row_of_phone {r r' : Row StoredContact} (hr : r ∈ t.table.rows) (hr' : r' ∈ t.table.rows)
    (h : r.val.phone = r'.val.phone) : r = r' :=
  List.inj_on_of_nodup_map t.unique hr hr' h

/-- A row after the statement: it has the new name and its old columns, or it is for another number. -/
theorem mem_upsert {r' : Row StoredContact} (h : r' ∈ (t.upsert now c).table.rows) :
    (r'.val.phone ≠ c.phone ∧ r' ∈ t.table.rows) ∨
      (r'.val.phone = c.phone ∧ r'.val.name = c.displayName ∧
        ∀ r ∈ t.table.rows, r.val.phone = c.phone → r'.id = r.id ∧ r'.val.columns = r.val.columns) := by
  have h' : r' ∈ (upsertRow t.table now c).rows := h
  unfold upsertRow at h'
  cases hfind : t.table.rows.find? fun r => r.val.phone = c.phone with
  | some r =>
    have hr := List.mem_of_find?_eq_some hfind
    have hphone : r.val.phone = c.phone := by simpa using List.find?_some hfind
    rw [hfind] at h'
    rcases Table.mem_update.1 h' with ⟨hr', hid⟩ | ⟨v, hv, rfl⟩
    · refine .inl ⟨fun heq => hid ?_, hr'⟩
      rw [row_of_phone hr' hr (heq.trans hphone.symm)]
    · have hsame : r = ⟨r.id, v⟩ := Table.row_unique hr hv rfl
      have hval : r.val = v := congrArg Row.val hsame
      refine .inr ⟨hval ▸ hphone, rfl, fun r₁ hr₁ hphone₁ => ?_⟩
      rw [row_of_phone hr₁ hr (hphone₁.trans hphone.symm)]
      exact ⟨rfl, by rw [hval]⟩
  | none =>
    have hnone : ∀ r ∈ t.table.rows, r.val.phone ≠ c.phone := fun r hr => by
      simpa using List.find?_eq_none.1 hfind r hr
    rw [hfind] at h'
    rcases Table.mem_insert.1 h' with hr' | rfl
    · exact .inl ⟨hnone r' hr', hr'⟩
    · exact .inr ⟨rfl, rfl, fun r hr hphone => absurd hphone (hnone r hr)⟩

theorem phones_upsert (phone : GoString) : phone ∈ (t.upsert now c).phones ↔ phone ∈ t.phones ∨ phone = c.phone := by
  show phone ∈ (upsertRow t.table now c).rows.map (fun r => r.val.phone) ↔ _
  unfold upsertRow
  cases hfind : t.table.rows.find? fun r => r.val.phone = c.phone with
  | some r =>
    have hsame := map_update_phone t.table r.id
      (f := fun old => { old with name := c.displayName, updatedAt := now }) fun _ => rfl
    dsimp only
    rw [hsame]
    refine ⟨.inl, fun h => h.elim id ?_⟩
    rintro rfl
    exact mem_phones.2 ⟨r, List.mem_of_find?_eq_some hfind, by simpa using List.find?_some hfind⟩
  | none =>
    rw [Table.rows_insert, List.map_append, List.mem_append]
    exact or_congr_right List.mem_singleton

/-- A row before the statement is there after it, with its columns. -/
theorem upsert_keeps {r : Row StoredContact} (hr : r ∈ t.table.rows) :
    ∃ r' ∈ (t.upsert now c).table.rows, r'.val.phone = r.val.phone ∧ r'.id = r.id ∧
      r'.val.columns = r.val.columns := by
  obtain ⟨r', hr', hphone⟩ := mem_phones.1 ((@phones_upsert t now c r.val.phone).2
    (.inl (mem_phones.2 ⟨r, hr, rfl⟩)))
  refine ⟨r', hr', hphone, ?_⟩
  rcases mem_upsert hr' with ⟨-, hold⟩ | ⟨hc, -, hcolumns⟩
  · rw [row_of_phone hold hr hphone]
    exact ⟨rfl, rfl⟩
  · exact hcolumns r hr (hphone.symm.trans hc)

theorem mem_deleteAll {phones : List GoString} {r : Row StoredContact} :
    r ∈ (phones.foldl delete t).table.rows ↔ r ∈ t.table.rows ∧ r.val.phone ∉ phones := by
  induction phones generalizing t with
  | nil => simp
  | cons p phones ih =>
    have hone : r ∈ (t.delete p).table.rows ↔ r ∈ t.table.rows ∧ r.val.phone ≠ p := by
      show r ∈ (t.table.delete _).rows ↔ _
      rw [Table.rows_delete, List.mem_filter]
      simp
    rw [List.foldl_cons, ih, hone, List.mem_cons, not_or, and_assoc]

end StoredContacts

open StoredContacts

/-! ## The list -/

theorem lastName_cons {contacts : List ContactPayload} {phone name : GoString} (c : ContactPayload)
    (h : lastName contacts phone = some name) : lastName (c :: contacts) phone = some name := by
  unfold lastName at h ⊢
  obtain ⟨last, hlast, rfl⟩ := Option.map_eq_some_iff.1 h
  rw [List.filter_cons]
  split_ifs
  · rw [List.getLast?_cons, hlast]
    rfl
  · rw [hlast]
    rfl

theorem lastName_head {contacts : List ContactPayload} (c : ContactPayload) (h : ∀ d ∈ contacts, d.phone ≠ c.phone) :
    lastName (c :: contacts) c.phone = some c.displayName := by
  have hnil : contacts.filter (fun d => d.phone = c.phone) = [] :=
    List.filter_eq_nil_iff.2 fun d hd => by simpa using h d hd
  unfold lastName
  rw [List.filter_cons, hnil]
  simp

theorem mem_seenPhones_cons {contacts : List ContactPayload} {c : ContactPayload} {phone : GoString} :
    phone ∈ seenPhones (c :: contacts) ↔ phone ≠ [] ∧ c.phone = phone ∨ phone ∈ seenPhones contacts := by
  rw [mem_seenPhones, mem_seenPhones, ← and_or_left]
  simp

/-- What the loop makes of the table. -/
structure Merged (contacts : List ContactPayload) (t t' : StoredContacts) : Prop where
  phones : ∀ phone, phone ∈ t'.phones ↔ phone ∈ t.phones ∨ phone ∈ seenPhones contacts
  rows : ∀ r' ∈ t'.table.rows, (r'.val.phone ∉ seenPhones contacts ∧ r' ∈ t.table.rows) ∨
    lastName contacts r'.val.phone = some r'.val.name ∧
      ∀ r ∈ t.table.rows, r'.val.phone = r.val.phone → r'.id = r.id ∧ r'.val.columns = r.val.columns

theorem merged_cons {contacts : List ContactPayload} {c : ContactPayload} {now : GoString} {t t' : StoredContacts}
    (hc : c.phone ≠ []) (h : Merged contacts (t.upsert now c) t') : Merged (c :: contacts) t t' := by
  refine ⟨fun phone => ?_, fun r' hr' => ?_⟩
  · rw [h.phones, phones_upsert, mem_seenPhones_cons, or_assoc]
    refine or_congr_right (or_congr_left ⟨?_, fun h => h.2.symm⟩)
    rintro rfl
    exact ⟨hc, rfl⟩
  · rcases h.rows r' hr' with ⟨hnot, hmem⟩ | ⟨hname, hcolumns⟩
    · rcases mem_upsert hmem with ⟨hother, hold⟩ | ⟨hphone, hname, hcolumns⟩
      · refine .inl ⟨fun hseen => ?_, hold⟩
        rcases mem_seenPhones_cons.1 hseen with ⟨-, heq⟩ | hseen
        · exact hother heq.symm
        · exact hnot hseen
      · refine .inr ⟨?_, fun r hr heq => hcolumns r hr (heq.symm.trans hphone)⟩
        rw [hphone, hname]
        refine lastName_head c fun d hd heq => hnot ?_
        rw [hphone]
        exact mem_seenPhones.2 ⟨hc, d, hd, heq⟩
    · refine .inr ⟨lastName_cons c hname, fun r hr heq => ?_⟩
      obtain ⟨r₁, hr₁, hphone₁, hid₁, hcolumns₁⟩ := @upsert_keeps _ now c _ hr
      obtain ⟨hid, hcols⟩ := hcolumns r₁ hr₁ (heq.trans hphone₁.symm)
      exact ⟨hid.trans hid₁, hcols.trans hcolumns₁⟩

theorem merged_skip {contacts : List ContactPayload} {c : ContactPayload} {t t' : StoredContacts} (hc : c.phone = [])
    (h : Merged contacts t t') : Merged (c :: contacts) t t' := by
  have hseen : ∀ phone, phone ∈ seenPhones (c :: contacts) ↔ phone ∈ seenPhones contacts := by
    intro phone
    rw [mem_seenPhones_cons, hc]
    exact or_iff_right fun h => h.1 h.2.symm
  refine ⟨fun phone => by rw [h.phones, hseen], fun r' hr' => ?_⟩
  rw [hseen]
  exact (h.rows r' hr').imp_right fun h => ⟨lastName_cons c h.1, h.2⟩

theorem merged_upsertAll {o : Statements} {i : Nat} {contacts : List ContactPayload} {t t' : StoredContacts}
    (h : upsertAll o i contacts t = some t') : Merged contacts t t' := by
  induction contacts generalizing i t with
  | nil =>
    cases h
    exact ⟨fun phone => by simp [seenPhones], fun r' hr' => .inl ⟨by simp [seenPhones], hr'⟩⟩
  | cons c contacts ih =>
    unfold upsertAll at h
    split_ifs at h with hc hi
    · exact merged_skip hc (ih h)
    · exact merged_cons hc (ih h)

/-- The loop ends early exactly if one of its statements fails. -/
theorem upsertAll_eq_none {o : Statements} {i : Nat} {contacts : List ContactPayload} {t : StoredContacts} :
    upsertAll o i contacts t = none ↔ ∃ j < numbered contacts, o.inserts (i + j) = false := by
  induction contacts generalizing i t with
  | nil => simp [upsertAll, numbered]
  | cons c contacts ih =>
    unfold upsertAll
    by_cases hc : c.phone = []
    · have hn : numbered (c :: contacts) = numbered contacts := by simp [numbered, hc]
      rw [if_pos hc, ih, hn]
    · have hn : numbered (c :: contacts) = numbered contacts + 1 := by simp [numbered, hc]
      rw [if_neg hc, hn]
      cases hi : o.inserts i with
      | false => exact iff_of_true (if_neg Bool.false_ne_true) ⟨0, Nat.succ_pos _, hi⟩
      | true =>
        rw [if_pos rfl, ih]
        constructor
        · rintro ⟨j, hj, hfail⟩
          exact ⟨j + 1, Nat.succ_lt_succ hj, by rwa [Nat.add_comm j 1, ← Nat.add_assoc]⟩
        · rintro ⟨j, hj, hfail⟩
          cases j with
          | zero =>
            rw [Nat.add_zero, hi] at hfail
            cases hfail
          | succ j => exact ⟨j, Nat.lt_of_succ_lt_succ hj, by rwa [Nat.add_assoc, Nat.add_comm 1 j]⟩

/-! ## The answer -/

/-- An answer that is an error leaves the table as it was, whatever the body. -/
theorem syncContacts_error (o : Statements) (body : SyncBody) (t : StoredContacts)
    (h : (syncContacts o body t).1 ≠ 200) : (syncContacts o body t).2 = t := by
  unfold syncContacts at h ⊢
  cases body with
  | invalid => rfl
  | undecryptable => rfl
  | text text =>
    dsimp only at h ⊢
    cases hread : readContacts text with
    | none => rfl
    | some p =>
      obtain ⟨full, contacts⟩ := p
      rw [hread] at h
      dsimp only at h ⊢
      cases hall : upsertAll o 0 contacts t with
      | none =>
        dsimp only
        split_ifs <;> rfl
      | some t' =>
        rw [hall] at h
        dsimp only at h ⊢
        split_ifs at h ⊢
        · rfl
        · rfl
        · rfl
        · rfl
        · exact absurd rfl h
        · exact absurd rfl h

/-- The answer to a full list within the limit. -/
theorem syncContacts_full {o : Statements} {text : ContactsText} {contacts : List ContactPayload} (t : StoredContacts)
    (hread : readContacts text = some (true, contacts)) (hsize : contacts.length ≤ maxContacts) :
    (StopsEarly o contacts ∧ (syncContacts o (.text text) t).1 ≠ 200) ∨
      ¬StopsEarly o contacts ∧ ∃ t', Merged contacts t t' ∧
        syncContacts o (.text text) t = (200, (stalePhones o contacts t').foldl StoredContacts.delete t') := by
  simp only [syncContacts, hread, Bool.true_and, decide_eq_true_eq, if_neg (Nat.not_lt.2 hsize)]
  cases hb : o.begins with
  | false => exact .inl ⟨.inl hb, by simp⟩
  | true =>
    cases hp : o.prepares with
    | false => exact .inl ⟨.inr (.inl hp), by simp⟩
    | true =>
      cases hall : upsertAll o 0 contacts t with
      | none =>
        obtain ⟨j, hj, hfail⟩ := upsertAll_eq_none.1 hall
        rw [Nat.zero_add] at hfail
        exact .inl ⟨.inr (.inr (.inl ⟨j, hj, hfail⟩)), by simp⟩
      | some t' =>
        cases hq : o.queries with
        | false => exact .inl ⟨.inr (.inr (.inr hq)), by simp⟩
        | true =>
          refine .inr ⟨?_, t', merged_upsertAll hall, by simp⟩
          rintro (h | h | ⟨j, hj, hfail⟩ | h)
          · rw [hb] at h
            cases h
          · rw [hp] at h
            cases h
          · have hnone : upsertAll o 0 contacts t = none :=
              upsertAll_eq_none.2 ⟨j, hj, by rwa [Nat.zero_add]⟩
            rw [hall] at hnone
            cases hnone
          · rw [hq] at h
            cases h

theorem mem_stalePhones {o : Statements} {contacts : List ContactPayload} {t : StoredContacts} {phone : GoString} :
    phone ∈ stalePhones o contacts t ↔ phone ∈ t.phones ∧ o.scans phone = true ∧ phone ∉ seenPhones contacts := by
  unfold stalePhones
  rw [List.mem_filter, Bool.and_eq_true, decide_eq_true_eq]

/-- The deletions after the loop: a number stays that has been seen, or that the query has not shown. -/
theorem phones_afterDeletes {o : Statements} {contacts : List ContactPayload} {t t' : StoredContacts}
    (h : Merged contacts t t') (phone : GoString) :
    phone ∈ ((stalePhones o contacts t').foldl StoredContacts.delete t').phones ↔
      phone ∈ seenPhones contacts ∨ phone ∈ t.phones ∧ o.scans phone = false := by
  have hmem : phone ∈ ((stalePhones o contacts t').foldl StoredContacts.delete t').phones ↔
      phone ∈ t'.phones ∧ phone ∉ stalePhones o contacts t' := by
    rw [mem_phones, mem_phones]
    constructor
    · rintro ⟨r, hr, rfl⟩
      obtain ⟨hr, hstale⟩ := mem_deleteAll.1 hr
      exact ⟨⟨r, hr, rfl⟩, hstale⟩
    · rintro ⟨⟨r, hr, rfl⟩, hstale⟩
      exact ⟨r, mem_deleteAll.2 ⟨hr, hstale⟩, rfl⟩
  rw [hmem, mem_stalePhones, h.phones]
  by_cases hseen : phone ∈ seenPhones contacts
  · simp [hseen]
  · cases hscan : o.scans phone with
    | true => simp [hseen]
    | false => simp [hseen]

/-- The table after the deletions follows the list exactly if every missing contact has come out of the query. -/
theorem followsList_iff {o : Statements} {contacts : List ContactPayload} {t t' : StoredContacts}
    (h : Merged contacts t t') :
    FollowsList contacts t ((stalePhones o contacts t').foldl StoredContacts.delete t') ↔ ScansStale o contacts t := by
  constructor
  · intro hf phone hphone hnot
    by_contra hscan
    have hstays := (phones_afterDeletes (o := o) h phone).2 (.inr ⟨hphone, Bool.eq_false_iff.2 hscan⟩)
    exact hnot ((hf.phones phone).1 hstays)
  · intro hscans
    have hphones : ∀ phone, phone ∈ ((stalePhones o contacts t').foldl StoredContacts.delete t').phones ↔
        phone ∈ seenPhones contacts := by
      intro phone
      rw [phones_afterDeletes h]
      refine or_iff_left_of_imp fun hstays => ?_
      by_contra hnot
      have hscan := hscans phone hstays.1 hnot
      rw [hstays.2] at hscan
      cases hscan
    -- a row that stays has been listed
    have hlisted : ∀ r' ∈ ((stalePhones o contacts t').foldl StoredContacts.delete t').table.rows,
        lastName contacts r'.val.phone = some r'.val.name ∧
          ∀ r ∈ t.table.rows, r'.val.phone = r.val.phone → r'.id = r.id ∧ r'.val.columns = r.val.columns := by
      intro r' hr'
      have hseen := (hphones r'.val.phone).1 (mem_phones.2 ⟨r', hr', rfl⟩)
      exact (h.rows r' (mem_deleteAll.1 hr').1).resolve_left fun hold => hold.1 hseen
    exact ⟨hphones, fun r' hr' => (hlisted r' hr').1, fun r hr r' hr' heq => (hlisted r' hr').2 r hr heq⟩

/-- The answer to a full list stands for the table exactly if a statement has failed whose error ends the handler, or
each contact that is missing from the list comes out of the query. -/
theorem syncContacts_settles_iff (o : Statements) {text : ContactsText} {contacts : List ContactPayload}
    (t : StoredContacts) (hread : readContacts text = some (true, contacts)) (hsize : contacts.length ≤ maxContacts) :
    Settles contacts t (syncContacts o (.text text) t) ↔ StopsEarly o contacts ∨ ScansStale o contacts t := by
  have herror := syncContacts_error o (.text text) t
  rcases syncContacts_full (o := o) t hread hsize with ⟨hstops, hstatus⟩ | ⟨hstops, t', hlisted, hanswer⟩
  · exact iff_of_true ⟨fun h => absurd h hstatus, herror⟩ (.inl hstops)
  · rw [hanswer, Settles, or_iff_right hstops]
    have hok : (200 : Nat) ≠ 200 → (stalePhones o contacts t').foldl StoredContacts.delete t' = t :=
      fun h => absurd rfl h
    rw [and_iff_left hok, imp_iff_right rfl]
    exact followsList_iff hlisted

/-- A table with one contact. -/
def annaStored : StoredContacts where
  table := Table.empty.insert ⟨"+33612345678", "Anna", "2024", .default "2024"⟩
  unique := by decide

/-- All statements succeed, and the query shows these rows. -/
def showing (scans : GoString → Bool) : Statements := ⟨true, true, fun _ => true, true, scans, fun _ => "2025"⟩

/-- Anna is not on the list, and the query comes to an end before her row. -/
theorem annaStored_stays : ¬∀ (o : Statements) (text : ContactsText) (contacts : List ContactPayload) (t : StoredContacts),
    readContacts text = some (true, contacts) → contacts.length ≤ maxContacts →
      Settles contacts t (syncContacts o (.text text) t) := by
  intro h
  have hsettles := h (showing fun _ => false) (.envelope true (some [])) [] annaStored rfl (Nat.zero_le _)
  have hmem : str "+33612345678" ∈ seenPhones [] := ((hsettles.1 rfl).phones _).1 (by decide)
  cases hmem

/-- Anna is renamed, and Bob is new. -/
theorem annaStored_renamed :
    let contacts : List ContactPayload := [⟨"+33612345678", "Ann", 0⟩, ⟨"+33698765432", "Bob", 0⟩]
    Settles contacts annaStored
      (syncContacts (showing fun _ => true) (.text (.envelope true (some contacts))) annaStored) := by
  intro contacts
  exact (syncContacts_settles_iff (showing fun _ => true) annaStored rfl (by decide)).2 (.inr fun _ _ _ => rfl)

end Gafam.Relay
