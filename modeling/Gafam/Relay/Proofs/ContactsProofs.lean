import Gafam.Go.Proofs.TrimProofs
import Gafam.Relay.Contacts
import Mathlib.Data.List.Induction

/-!
# What a contact is after its file has been imported

The records of one number are folded into its row field by field, so the last record that says something about
a field decides what it holds. A list comes out of its cell as it went in when it is plain, and only then.
-/

namespace Gafam.Relay

open Gafam.Go

/-! ## The cells of a list -/

theorem joinStrings_cons_cons (x y : GoString) (l : List GoString) :
    joinStrings "; " (x :: y :: l) = x ++ 0x3B :: 0x20 :: joinStrings "; " (y :: l) := by
  unfold joinStrings
  rw [List.intercalate_cons_cons, show str "; " = [0x3B, 0x20] from by decide, List.append_assoc]
  rfl

theorem joinStrings_singleton (x : GoString) : joinStrings "; " [x] = x := by
  unfold joinStrings
  exact List.intercalate_singleton

/-- A text whose parts have no white space at their ends has none at its own. -/
theorem noEdgeSpace_joinStrings {l : List GoString} (hne : l ≠ []) (htrim : ∀ x ∈ l, NoEdgeSpace x)
    (hnonempty : ∀ x ∈ l, x ≠ []) (hvalid : ∀ x ∈ l, validString x = true) :
    NoEdgeSpace (joinStrings "; " l) ∧ joinStrings "; " l ≠ [] := by
  induction l with
  | nil => exact absurd rfl hne
  | cons x l ih =>
    cases l with
    | nil =>
      rw [joinStrings_singleton]
      exact ⟨htrim x (List.mem_singleton_self _), hnonempty x (List.mem_singleton_self _)⟩
    | cons y l =>
      obtain ⟨hrest, hrestne⟩ := ih (List.cons_ne_nil _ _) (fun z hz => htrim z (List.mem_cons_of_mem _ hz))
        (fun z hz => hnonempty z (List.mem_cons_of_mem _ hz)) fun z hz => hvalid z (List.mem_cons_of_mem _ hz)
      rw [joinStrings_cons_cons]
      refine ⟨?_, fun h => List.cons_ne_nil _ _ (List.append_eq_nil_iff.1 h).2⟩
      exact noEdgeSpace_append (m := [0x3B, 0x20]) (htrim x (List.mem_cons_self ..))
        (hnonempty x (List.mem_cons_self ..)) (hvalid x (List.mem_cons_self ..)) (by decide) hrest hrestne

/-- The parts of a joined text are the texts, with a space in front of all but the first. -/
theorem splitByte_joinStrings {x : GoString} {l : List GoString} (h : ∀ y ∈ x :: l, (0x3B : UInt8) ∉ y) :
    splitByte 0x3B (joinStrings "; " (x :: l)) = x :: l.map (0x20 :: ·) := by
  induction l generalizing x with
  | nil =>
    rw [joinStrings_singleton]
    exact splitByte_of_notMem (h x (List.mem_cons_self ..))
  | cons y l ih =>
    have htail := ih fun z hz => h z (List.mem_cons_of_mem _ hz)
    rw [joinStrings_cons_cons, splitByte_append (h x (List.mem_cons_self ..)), splitByte_cons_ne (by decide) htail]
    rfl

theorem listParts_joinStrings {l : List GoString} (hne : l ≠ []) (h : PlainList l) :
    (listParts (joinStrings "; " l)).map trimSpace = l := by
  cases l with
  | nil => exact absurd rfl hne
  | cons x l =>
    have hparts := splitByte_joinStrings h.noSemicolon
    have hcommas : ¬ ((splitByte 0x3B (joinStrings "; " (x :: l))).length = 1 ∧
        contains (joinStrings "; " (x :: l)) [0x2C] = true) := by
      rw [hparts, List.length_cons, List.length_map]
      rintro ⟨hlen, hcomma⟩
      obtain rfl : l = [] := List.length_eq_zero_iff.1 (by omega)
      rw [joinStrings_singleton, contains_byte] at hcomma
      exact h.noComma x rfl hcomma
    have htail : (l.map (0x20 :: ·)).map trimSpace = l := by
      rw [List.map_map]
      refine (List.map_congr_left fun y hy => ?_).trans (List.map_id l)
      rw [Function.comp_apply, trimSpace_space]
      exact h.trimmed y (List.mem_cons_of_mem _ hy)
    unfold listParts
    dsimp only
    rw [if_neg hcommas, hparts, List.map_cons, htail, h.trimmed x (List.mem_cons_self ..)]

theorem strings_parseList {raw : GoString} (h : raw ≠ []) : (parseList raw).strings = readCell raw := by
  unfold parseList readCell marshalStrings StringsColumn.strings
  rw [if_neg h]
  split_ifs with hnil
  · rw [hnil]
    rfl
  · rfl

theorem parseList_eq_empty {raw : GoString} : parseList raw = some [] ↔ raw = [] := by
  unfold parseList marshalStrings
  split_ifs with hraw hnil
  · exact ⟨fun _ => hraw, fun _ => rfl⟩
  · exact ⟨fun h => absurd h (by simp), fun h => absurd h hraw⟩
  · refine ⟨fun h => absurd (List.map_eq_nil_iff.1 (Option.some.inj h)) hnil, fun h => absurd h hraw⟩

/-- Every string that is read is trimmed, holds text, and no separator. -/
theorem mem_readCell {raw x : GoString} (h : x ∈ readCell raw) :
    trimSpace x = x ∧ x ≠ [] ∧ validString x = true ∧ ∃ p ∈ listParts raw, ∀ b : UInt8, b.toNat < 0x80 → b ∈ x → b ∈ p := by
  obtain ⟨y, hy, rfl⟩ := List.mem_map.1 h
  obtain ⟨hy, hne⟩ := List.mem_filter.1 hy
  obtain ⟨p, hp, rfl⟩ := List.mem_map.1 hy
  refine ⟨trimSpace_of_noEdgeSpace (noEdgeSpace_reencode (noEdgeSpace_trimSpace p)),
    reencode_ne_nil (of_decide_eq_true hne), validString_reencode _, p, hp, fun b hb hmem => ?_⟩
  exact mem_of_mem_trimSpace (mem_of_mem_reencode hb hmem)

/-- No piece holds a semicolon, and none holds a comma where there is no semicolon in the cell. -/
theorem notMem_listParts {raw p : GoString} (h : p ∈ listParts raw) :
    (0x3B : UInt8) ∉ p ∧ ((0x3B : UInt8) ∉ raw → (0x2C : UInt8) ∉ p) := by
  unfold listParts at h
  dsimp only at h
  split_ifs at h with hcommas
  · have hraw := notMem_of_length_splitByte hcommas.1
    exact ⟨fun hp => hraw (mem_of_mem_part h hp), fun _ => notMem_of_mem_splitByte h⟩
  · refine ⟨notMem_of_mem_splitByte h, fun hraw hp => hcommas ⟨?_, ?_⟩⟩
    · rw [splitByte_of_notMem hraw]
      rfl
    · rw [contains_byte]
      exact mem_of_mem_part h hp

/-- A cell that says something gives a list back as it was exactly when the list is plain. -/
theorem readCell_joinStrings {l : List GoString} (hne : trimSpace (joinStrings "; " l) ≠ []) :
    readCell (trimSpace (joinStrings "; " l)) = l ↔ PlainList l := by
  have hl : l ≠ [] := by
    rintro rfl
    exact hne (by decide)
  constructor
  · intro h
    have hmem := fun x (hx : x ∈ l) => mem_readCell (h.symm ▸ hx)
    have hsemicolon : ∀ x ∈ l, (0x3B : UInt8) ∉ x := fun x hx hc =>
      (hmem x hx).2.2.2.elim fun p hp => (notMem_listParts hp.1).1 (hp.2 _ (by decide) hc)
    refine ⟨fun x hx => (hmem x hx).1, fun x hx => (hmem x hx).2.1, fun x hx => (hmem x hx).2.2.1, hsemicolon, ?_⟩
    rintro x rfl hc
    obtain ⟨p, hp, hin⟩ := (hmem x (List.mem_singleton_self _)).2.2.2
    refine (notMem_listParts hp).2 (fun hraw => ?_) (hin _ (by decide) hc)
    rw [joinStrings_singleton] at hraw
    exact hsemicolon x (List.mem_singleton_self _) (mem_of_mem_trimSpace hraw)
  · intro h
    have hedges := noEdgeSpace_joinStrings hl (fun x hx => trimSpace_eq_self_iff.1 (h.trimmed x hx)) h.nonempty h.valid
    have hfilter : l.filter (· ≠ []) = l := List.filter_eq_self.2 fun x hx => decide_eq_true (h.nonempty x hx)
    unfold readCell
    rw [trimSpace_of_noEdgeSpace hedges.1, listParts_joinStrings hl h, hfilter]
    exact (List.map_congr_left fun x hx => reencode_valid (h.valid x hx)).trans (List.map_id l)

theorem carries_iff {l own : List GoString} (hne : trimSpace (joinStrings "; " l) ≠ []) :
    Carries l own ↔ (parseList (trimSpace (joinStrings "; " l))).strings = own := by
  rw [strings_parseList hne]
  unfold Carries
  split_ifs with h
  · rw [← h]
    exact (readCell_joinStrings hne).symm
  · exact Iff.rfl

/-! ## Records -/

/-- What the record of a contact says. -/
def saysOf (c : ContactExtended) : ImportedContact :=
  { phone := trimSpace c.phone, name := trimSpace c.name, email := trimSpace c.email,
    profession := trimSpace c.profession, skills := parseList (trimSpace (listCell c.skills)),
    languages := parseList (trimSpace (listCell c.languages)), notes := trimSpace c.notes }

theorem getVal_first {header row keys : List GoString} {key cell : GoString} {k : Nat}
    (hcol : colMap header key = some k) (hcell : row[k]? = some cell) :
    getVal header row (key :: keys) = trimSpace cell := by
  unfold getVal
  rw [List.findSome?_cons, hcol, Option.bind_some, hcell]
  rfl

theorem readRecord_csvRecord (c : ContactExtended) :
    readRecord csvHeader (csvRecord c) = if trimSpace c.phone = [] then none else some (saysOf c) := by
  have hphone : colMap csvHeader "phone_number" = some 0 := by decide
  have hname : colMap csvHeader "display_name" = some 1 := by decide
  have hemail : colMap csvHeader "email" = some 2 := by decide
  have hprofession : colMap csvHeader "profession" = some 3 := by decide
  have hskills : colMap csvHeader "skills" = some 4 := by decide
  have hlanguages : colMap csvHeader "languages" = some 5 := by decide
  have hnotes : colMap csvHeader "notes" = some 6 := by decide
  unfold readRecord saysOf
  dsimp only
  rw [getVal_first hphone rfl, getVal_first hname rfl, getVal_first hemail rfl, getVal_first hprofession rfl,
    getVal_first hskills rfl, getVal_first hlanguages rfl, getVal_first hnotes rfl]

/-- The records that are imported from a file that was exported. -/
theorem imported_export (rows : List ContactExtended) :
    (rows.map csvRecord).filterMap (readRecord csvHeader) =
      (rows.filter fun c => trimSpace c.phone ≠ []).map saysOf := by
  induction rows with
  | nil => rfl
  | cons c rows ih =>
    rw [List.map_cons, List.filterMap_cons, readRecord_csvRecord, List.filter_cons, ih]
    by_cases h : trimSpace c.phone = []
    · simp [h]
    · simp [h]

theorem importContactsCSV_export (rows order : List ContactExtended) :
    (importContactsCSV rows (exportContactsCSV order)).1 =
      ((order.filter fun c => trimSpace c.phone ≠ []).map saysOf).foldl upsertContact rows := by
  cases order with
  | nil => rfl
  | cons c order =>
    rw [← imported_export]
    rfl

/-! ## One row under many records -/

section
variable {rows : List ContactExtended} {d : ContactExtended} {phone : GoString}

/-- A record changes no number. -/
theorem phone_comp (r : ImportedContact) :
    ((fun c : ContactExtended => c.phone == phone) ∘ fun c : ContactExtended =>
      if c.phone = r.phone then c.updatedBy r else c) = fun c => c.phone == phone := by
  funext c
  rw [Function.comp_apply]
  split_ifs <;> rfl

theorem find_upsert_self {r : ImportedContact} (h : rows.find? (·.phone == r.phone) = some d) :
    (upsertContact rows r).find? (·.phone == r.phone) = some (d.updatedBy r) := by
  have hphone : d.phone = r.phone := by simpa using List.find?_some h
  have hany : (rows.any fun c => c.phone == r.phone) = true :=
    List.any_eq_true.2 ⟨d, List.mem_of_find?_eq_some h, beq_iff_eq.2 hphone⟩
  unfold upsertContact
  rw [if_pos hany, List.find?_map, phone_comp, h, Option.map_some, if_pos hphone]

theorem find_upsert_other {r : ImportedContact} (hr : r.phone ≠ phone)
    (h : rows.find? (·.phone == phone) = some d) : (upsertContact rows r).find? (·.phone == phone) = some d := by
  have hphone : d.phone = phone := by simpa using List.find?_some h
  unfold upsertContact
  split_ifs with hany
  · rw [List.find?_map, phone_comp, h, Option.map_some, if_neg (hphone ▸ Ne.symm hr)]
  · rw [List.find?_append, h, Option.some_or]

/-- The records of a number are folded into its row. -/
theorem find_import (l : List ImportedContact) (h : rows.find? (·.phone == phone) = some d) :
    (l.foldl upsertContact rows).find? (·.phone == phone) =
      some ((l.filter fun r => r.phone = phone).foldl ContactExtended.updatedBy d) := by
  induction l generalizing rows d with
  | nil => exact h
  | cons r l ih =>
    rw [List.foldl_cons, List.filter_cons]
    by_cases hr : r.phone = phone
    · subst hr
      rw [if_pos (decide_eq_true rfl), List.foldl_cons]
      exact ih (find_upsert_self h)
    · rw [if_neg (by simpa using hr)]
      exact ih (find_upsert_other hr h)

end

/-- Numbers stay unique. -/
theorem unique_upsert {rows : List ContactExtended} (h : (rows.map ContactExtended.phone).Nodup) (r : ImportedContact) :
    ((upsertContact rows r).map ContactExtended.phone).Nodup := by
  unfold upsertContact
  split_ifs with hany
  · have hphones : (rows.map fun c => if c.phone = r.phone then c.updatedBy r else c).map ContactExtended.phone =
        rows.map ContactExtended.phone := by
      rw [List.map_map]
      refine List.map_congr_left fun c _ => ?_
      rw [Function.comp_apply]
      split_ifs <;> rfl
    rw [hphones]
    exact h
  · rw [List.map_append, List.nodup_append]
    refine ⟨h, List.nodup_singleton _, fun phone hphone other hother heq => hany (List.any_eq_true.2 ?_)⟩
    obtain ⟨c, hc, rfl⟩ := List.mem_map.1 hphone
    exact ⟨c, hc, beq_iff_eq.2 (heq.trans (List.mem_singleton.1 hother))⟩

/-- The row of a contact is found under its number. -/
theorem ContactsTable.find_phone (t : ContactsTable) {c : ContactExtended} (h : c ∈ t.rows) :
    t.rows.find? (·.phone == c.phone) = some c := by
  have hnodup := t.unique
  generalize t.rows = rows at h hnodup
  induction rows with
  | nil => cases h
  | cons d rows ih =>
    rw [List.map_cons, List.nodup_cons] at hnodup
    rcases List.mem_cons.1 h with rfl | h
    · rw [List.find?_cons, beq_self_eq_true]
    · have hne : d.phone ≠ c.phone := fun heq => hnodup.1 (heq ▸ List.mem_map_of_mem h)
      rw [List.find?_cons, beq_false_of_ne hne]
      exact ih h hnodup.2

/-! ## One field under many records -/

/-- The last record that says something decides what a field holds. -/
theorem foldl_unlessEmpty {α β γ : Type} [DecidableEq α] (e : α) (f : β → α) (g : α → γ) (l : List β) (old : α) :
    g (l.foldl (fun old r => unlessEmpty e old (f r)) old) = g old ↔
      ∀ r, l.reverse.find? (fun r => f r ≠ e) = some r → g (f r) = g old := by
  induction l using List.reverseRecOn with
  | nil => simp
  | append_singleton l r ih =>
    rw [List.foldl_concat, List.reverse_concat, List.find?_cons]
    by_cases h : f r = e
    · rw [unlessEmpty, if_neg (not_not.2 h)]
      simpa [h] using ih
    · rw [unlessEmpty, if_pos h]
      simp [h]

/-- The records that speak, first as records and then as contacts. -/
theorem find_saysOf {α : Type} [DecidableEq α] {order : List ContactExtended} {d : ContactExtended} {e : α}
    {f : ImportedContact → α} {cell : ContactExtended → GoString}
    (hcell : ∀ c, f (saysOf c) = e ↔ trimSpace (cell c) = []) :
    ((((order.filter fun c => trimSpace c.phone ≠ []).map saysOf).filter fun r => r.phone = d.phone).reverse.find?
      fun r => f r ≠ e) = (lastSpeaker order d cell).map saysOf := by
  unfold lastSpeaker
  rw [List.filter_map, List.filter_filter, ← List.map_reverse, List.find?_map, ← List.filter_reverse,
    List.find?_filter]
  congr 2
  funext c
  unfold Speaks
  rw [Function.comp_apply, Function.comp_apply]
  by_cases hd : trimSpace c.phone = d.phone
  · have hphone : (saysOf c).phone = d.phone := hd
    simp [hphone, hd, hcell]
  · have hphone : (saysOf c).phone ≠ d.phone := hd
    simp [hphone, hd]

/-- The row of a contact after the records of a file. -/
def afterFile (order : List ContactExtended) (d : ContactExtended) : ContactExtended :=
  (((order.filter fun c => trimSpace c.phone ≠ []).map saysOf).filter fun r => r.phone = d.phone).foldl
    ContactExtended.updatedBy d

theorem field_kept {α γ : Type} [DecidableEq α] (order : List ContactExtended) (d : ContactExtended) {e : α}
    {f : ImportedContact → α} (field : ContactExtended → α) (cell : ContactExtended → GoString) (g : α → γ)
    (hfield : ∀ c r, field (c.updatedBy r) = unlessEmpty e (field c) (f r))
    (hcell : ∀ c, f (saysOf c) = e ↔ trimSpace (cell c) = []) :
    g (field (afterFile order d)) = g (field d) ↔
      ∀ c, lastSpeaker order d cell = some c → g (f (saysOf c)) = g (field d) := by
  unfold afterFile
  have hfold (l : List ImportedContact) : field (l.foldl ContactExtended.updatedBy d) =
      l.foldl (fun old r => unlessEmpty e old (f r)) (field d) :=
    (List.foldl_hom field fun c r => (hfield c r).symm).symm
  rw [hfold, foldl_unlessEmpty, find_saysOf hcell]
  constructor
  · exact fun h c hc => h (saysOf c) (by rw [hc]; rfl)
  · intro h r hr
    obtain ⟨c, hc, rfl⟩ := Option.map_eq_some_iff.1 hr
    exact h c hc

/-- What is generated by the analysis is not imported. -/
theorem auto_kept (order : List ContactExtended) (d : ContactExtended) :
    (afterFile order d).autoProfession = d.autoProfession ∧ (afterFile order d).autoSkills = d.autoSkills := by
  unfold afterFile
  generalize List.filter _ _ = l
  induction l generalizing d with
  | nil => exact ⟨rfl, rfl⟩
  | cons r l ih => exact ih (d.updatedBy r)

theorem cell_of_lastSpeaker {order : List ContactExtended} {d c : ContactExtended} {cell : ContactExtended → GoString}
    (h : lastSpeaker order d cell = some c) : trimSpace (cell c) ≠ [] := by
  have hspeaks : Speaks d cell c = true := List.find?_some h
  unfold Speaks at hspeaks
  simp only [Bool.and_eq_true, decide_eq_true_eq] at hspeaks
  exact hspeaks.2

/-- A list column keeps its list. -/
theorem list_kept (order : List ContactExtended) (d : ContactExtended) {f : ImportedContact → StringsColumn}
    (field : ContactExtended → StringsColumn)
    (hfield : ∀ c r, field (c.updatedBy r) = unlessEmpty (some []) (field c) (f r))
    (hreads : ∀ c, f (saysOf c) = parseList (trimSpace (listCell (field c)))) :
    (field (afterFile order d)).strings = (field d).strings ↔
      ∀ c, lastSpeaker order d (fun c => listCell (field c)) = some c →
        Carries (field c).strings (field d).strings := by
  rw [field_kept order d field (fun c => listCell (field c)) StringsColumn.strings hfield fun c => by
    rw [hreads c, parseList_eq_empty]]
  refine forall_congr' fun c => imp_congr_right fun hc => ?_
  rw [hreads c]
  exact (carries_iff (cell_of_lastSpeaker hc)).symm

theorem sameFields_iff (order : List ContactExtended) (d : ContactExtended) :
    SameFields (afterFile order d) d ↔ SaysItsOwn order d := by
  have hname := field_kept order d (·.name) (·.name) id (fun _ _ => rfl) fun _ => Iff.rfl
  have hemail := field_kept order d (·.email) (·.email) id (fun _ _ => rfl) fun _ => Iff.rfl
  have hprofession := field_kept order d (·.profession) (·.profession) id (fun _ _ => rfl) fun _ => Iff.rfl
  have hnotes := field_kept order d (·.notes) (·.notes) id (fun _ _ => rfl) fun _ => Iff.rfl
  have hskills := list_kept order d (·.skills) (fun _ _ => rfl) fun _ => rfl
  have hlanguages := list_kept order d (·.languages) (fun _ _ => rfl) fun _ => rfl
  obtain ⟨hautoProfession, hautoSkills⟩ := auto_kept order d
  constructor
  · intro h
    exact ⟨hname.1 h.name, hemail.1 h.email, hprofession.1 h.profession, hskills.1 h.skills,
      hlanguages.1 h.languages, hnotes.1 h.notes⟩
  · intro h
    exact ⟨hname.2 h.name, hemail.2 h.email, hprofession.2 h.profession, hskills.2 h.skills,
      hlanguages.2 h.languages, hnotes.2 h.notes, hautoProfession, congrArg StringsColumn.strings hautoSkills⟩

/-- The contacts come through their own file unchanged exactly when, for every field of every one of them, the
last record for its number that says something about the field says what the contact has. -/
theorem roundTrips_iff (t : ContactsTable) (q : ByName t) : RoundTrips t q ↔ ∀ d ∈ t.rows, SaysItsOwn q.rows d := by
  refine forall₂_congr fun d hd => ?_
  rw [importContactsCSV_export, find_import _ (t.find_phone hd), ← sameFields_iff]
  constructor
  · rintro ⟨c, heq, h⟩
    rw [← Option.some.inj heq] at h
    exact h
  · exact fun h => ⟨_, rfl, h⟩

/-- A contact with one skill, whose text has a comma. -/
def salesContact : ContactExtended :=
  { phone := "+33600000001", name := "Ana", email := [], profession := [], skills := some ["sales, France"],
    languages := some [], notes := [], autoProfession := [], autoSkills := some [] }

def salesTable : ContactsTable := ⟨[salesContact], by decide⟩

def salesByName : ByName salesTable := ⟨[salesContact], .refl _, List.pairwise_singleton ..⟩

/-- The one skill comes back as two. -/
theorem commaSkill_cut : ¬ RoundTrips salesTable salesByName := by
  intro h
  obtain ⟨c, hfind, hsame⟩ := h salesContact (List.mem_singleton_self _)
  have hafter : (importContactsCSV salesTable.rows (exportContactsCSV salesByName.rows)).1.find?
      (·.phone == salesContact.phone) = some { salesContact with skills := some ["sales", "France"] } := by
    decide
  rw [hafter] at hfind
  have hskills := hsame.skills
  rw [← Option.some.inj hfind] at hskills
  exact absurd hskills (by decide)

/-!
## When the table follows the phone

The statements for a full list leave exactly the numbers of the list, whatever was in the table. So the
mirror fails only with lists that the handler refuses, and with the empty list that is sent where there
was no cursor.
-/

theorem mem_seenPhones {contacts : List ContactPayload} {phone : GoString} :
    phone ∈ seenPhones contacts ↔ phone ≠ [] ∧ ∃ c ∈ contacts, c.phone = phone := by
  rw [seenPhones, List.mem_filter, List.mem_map, and_comm, decide_eq_true_eq]

theorem phones_upsertNames (t : ContactsTable) (contacts : List ContactPayload) (phone : GoString) :
    phone ∈ (t.upsertNames contacts).phones ↔ phone ∈ t.phones ∨ phone ∈ seenPhones contacts := by
  show phone ∈ (contacts.foldl upsertName t.rows).map ContactExtended.phone ↔
    phone ∈ t.rows.map ContactExtended.phone ∨ _
  generalize t.rows = rows
  induction contacts generalizing rows with
  | nil => simp [seenPhones]
  | cons c contacts ih =>
    have hstep : phone ∈ (upsertName rows c).map ContactExtended.phone ↔
        phone ∈ rows.map ContactExtended.phone ∨ phone ≠ [] ∧ c.phone = phone := by
      rw [phones_upsertName]
      split_ifs with hc
      · refine ⟨.inl, ?_⟩
        rintro (h | ⟨hne, rfl⟩)
        · exact h
        · exact hc.resolve_left hne
      · rw [List.mem_append, List.mem_singleton]
        refine or_congr_right ⟨?_, fun h => h.2.symm⟩
        rintro rfl
        exact ⟨fun hempty => hc (.inl hempty), rfl⟩
    rw [List.foldl_cons, ih, hstep, or_assoc, mem_seenPhones, mem_seenPhones]
    refine or_congr_right ?_
    rw [← and_or_left]
    refine and_congr_right fun _ => ?_
    simp

/-- A full list leaves its numbers. -/
theorem phones_fullSync (t : ContactsTable) (contacts : List ContactPayload) (phone : GoString) :
    phone ∈ ((t.upsertNames contacts).keepPhones (seenPhones contacts)).phones ↔ phone ∈ seenPhones contacts := by
  have hfilter : phone ∈ ((t.upsertNames contacts).keepPhones (seenPhones contacts)).phones ↔
      phone ∈ (t.upsertNames contacts).phones ∧ phone ∈ seenPhones contacts := by
    simp only [ContactsTable.phones, ContactsTable.keepPhones, List.mem_map, List.mem_filter, decide_eq_true_eq]
    constructor
    · rintro ⟨r, ⟨hr, hseen⟩, rfl⟩
      exact ⟨⟨r, hr, rfl⟩, hseen⟩
    · rintro ⟨⟨r, hr, rfl⟩, hseen⟩
      exact ⟨r, ⟨hr, hseen⟩, rfl⟩
  rw [hfilter, phones_upsertNames]
  exact ⟨fun h => h.2, fun h => ⟨.inr h, h⟩⟩

/-- The numbers of the list are those on the phone. -/
theorem mem_seenPhones_contactOf {rows : List ProviderRow} {phone : GoString} :
    phone ∈ seenPhones (rows.filterMap contactOf) ↔ OnPhone rows phone := by
  rw [mem_seenPhones, OnPhone]
  refine and_congr_right fun hne => ?_
  constructor
  · rintro ⟨c, hc, rfl⟩
    obtain ⟨r, hr, hrc⟩ := List.mem_filterMap.1 hc
    unfold contactOf at hrc
    obtain ⟨hphone, hsome⟩ := Option.ite_none_right_eq_some.1 hrc
    cases hsome
    cases hnumber : r.number with
    | none =>
      rw [hnumber] at hphone
      exact absurd rfl hphone
    | some number => exact ⟨r, hr, number, hnumber, rfl⟩
  · rintro ⟨r, hr, number, hnumber, rfl⟩
    refine ⟨⟨withoutSpaces number, r.displayName.getD "Unknown", 1⟩, List.mem_filterMap.2 ⟨r, hr, ?_⟩, rfl⟩
    unfold contactOf
    rw [hnumber]
    exact if_pos hne

theorem run_noCursor (t : ContactsTable) :
    ContactSync.run .noCursor t = (t.upsertNames []).keepPhones (seenPhones []) := rfl

theorem run_cursor (rows : List ProviderRow) (t : ContactsTable) :
    ContactSync.run (.cursor rows) t =
      if maxContacts < (rows.filterMap contactOf).length then t
      else (t.upsertNames (rows.filterMap contactOf)).keepPhones (seenPhones (rows.filterMap contactOf)) := by
  simp only [ContactSync.run, ContactSync.doSync, syncContactsHandler, readContacts, Bool.true_and, decide_eq_true_eq]
  split_ifs <;> rfl

theorem length_contactOf (rows : List ProviderRow) :
    (rows.filterMap contactOf).length = (rows.filter fun r => (contactOf r).isSome).length := by
  rw [List.length_filterMap_eq_countP, List.countP_eq_length_filter]

/-- The table follows the phone exactly if there is a cursor and the list is not too long, or it does
already. -/
theorem mirrors_iff (query : ProviderQuery) (t : ContactsTable) :
    Mirrors query t (ContactSync.run query t) ↔ Mirrorable query t := by
  cases query with
  | fails => exact iff_of_true rfl trivial
  | noCursor =>
    rw [run_noCursor, Mirrorable]
    constructor
    · intro h
      have hrows : ((t.upsertNames []).keepPhones (seenPhones [])).rows = t.rows := congrArg ContactsTable.rows h
      rw [← hrows]
      exact List.filter_eq_nil_iff.2 fun r _ => by simp [seenPhones]
    · intro h
      obtain ⟨rows, hunique⟩ := t
      cases h
      rfl
  | cursor rows =>
    rw [run_cursor, Mirrorable, ← length_contactOf]
    split_ifs with hlong
    · exact ⟨.inr, fun h => h.resolve_left (Nat.not_le.2 hlong)⟩
    · refine iff_of_true (fun phone => ?_) (.inl (Nat.not_lt.1 hlong))
      rw [phones_fullSync, mem_seenPhones_contactOf]

/-- A table with one contact. -/
def oneContact : ContactsTable := ⟨[ContactPayload.newRow ⟨"+33612345678", "Anna", 1⟩], by decide⟩

/-- There is no cursor, and the contact is deleted. -/
theorem noCursor_erases : ¬ ∀ (query : ProviderQuery) (t : ContactsTable), Mirrors query t (ContactSync.run query t) := by
  intro h
  have hsame : ContactSync.run .noCursor oneContact = oneContact := h .noCursor oneContact
  have hnone : (ContactSync.run .noCursor oneContact).rows = [] := by decide
  rw [hsame] at hnone
  cases hnone

end Gafam.Relay
