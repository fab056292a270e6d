import Gafam.Lib.Steps
import Gafam.Relay.Dedup
import Mathlib.Data.List.Induction

/-!
# What deduplication keeps apart

`insertSmsDeduped` either leaves the table as it is or appends one row, and it appends the row
exactly when neither the candidate query nor the unique index recognises the message. From this one
fact follows when a history of insertions stays free of near-duplicates.
-/

namespace Gafam.Relay

open Gafam.Go Gafam.Lib

/-! ## Phone numbers -/

theorem phonesMatch_iff {a b : GoString} :
    phonesMatch a b = true ↔ lastNine a ≠ [] ∧ lastNine a = lastNine b := by
  simp only [phonesMatch, Bool.and_eq_true, bne_iff_ne, beq_iff_eq]
  constructor
  · rintro ⟨⟨ha, -⟩, hab⟩
    exact ⟨ha, hab⟩
  · rintro ⟨ha, hab⟩
    exact ⟨⟨ha, hab ▸ ha⟩, hab⟩

theorem phonesMatch_symm {a b : GoString} (h : phonesMatch a b = true) :
    phonesMatch b a = true := by
  obtain ⟨ha, hab⟩ := phonesMatch_iff.1 h
  exact phonesMatch_iff.2 ⟨hab ▸ ha, hab.symm⟩

theorem phonesMatch_self {a : GoString} (h : lastNine a ≠ []) : phonesMatch a a = true :=
  phonesMatch_iff.2 ⟨h, rfl⟩

theorem inWindow_symm (a b : Int) : inWindow a b = inWindow b a := by
  have h : (a - b).natAbs = (b - a).natAbs := by omega
  rw [inWindow, inWindow, h]

theorem SameMessage.symm {a b : Sms} (h : SameMessage a b) : SameMessage b a := by
  obtain ⟨hb, hne, hs, hw⟩ := h
  refine ⟨hb.symm, hb ▸ hne, ?_, by rw [inWindow_symm]; exact hw⟩
  rcases hs with h | h
  · exact .inl h.symm
  · exact .inr (phonesMatch_symm h)

/-! ## One insertion -/

theorem mem_of_mem_nearCandidates {t : SmsTable} {body : GoString} {ts : Int} {r : Row Sms}
    (h : r ∈ nearCandidates t body ts) :
    r ∈ t.rows ∧ r.val.body = body ∧ inWindow r.val.timestamp ts = true := by
  obtain ⟨hr, hp⟩ := List.mem_filter.1 (List.mem_of_mem_take h)
  simp only [Bool.and_eq_true, beq_iff_eq] at hp
  exact ⟨hr, hp.1, hp.2⟩

/-- The row that `smsNearDuplicateID` reports is stored, has the body, lies in the window and has a
matching number. -/
theorem smsNearDuplicateID_eq_some {t : SmsTable} {sender body : GoString} {ts : Int} {k : Nat}
    (h : smsNearDuplicateID t sender body ts = some k) :
    body ≠ [] ∧ ts ≠ 0 ∧ ∃ r ∈ nearCandidates t body ts, r.id = k ∧
      phonesMatch sender r.val.sender = true := by
  unfold smsNearDuplicateID at h
  split_ifs at h with h0
  push Not at h0
  obtain ⟨r, hr, rfl⟩ := Option.map_eq_some_iff.1 h
  exact ⟨h0.1, h0.2, r, List.mem_of_find?_eq_some hr, rfl, by simpa using List.find?_some hr⟩

theorem smsNearDuplicateID_eq_none {t : SmsTable} {sender body : GoString} {ts : Int} :
    smsNearDuplicateID t sender body ts = none ↔
      body = [] ∨ ts = 0 ∨ ∀ r ∈ nearCandidates t body ts, phonesMatch sender r.val.sender = false := by
  unfold smsNearDuplicateID
  split_ifs with h0
  · simp only [true_iff]
    tauto
  · push Not at h0
    simp [h0.1, h0.2]

theorem smsNearDuplicateID_isSome {t : SmsTable} {sender body : GoString} {ts : Int} :
    (smsNearDuplicateID t sender body ts).isSome ↔
      body ≠ [] ∧ ts ≠ 0 ∧
        ∃ r ∈ nearCandidates t body ts, phonesMatch sender r.val.sender = true := by
  rw [← not_iff_not, Option.not_isSome_iff_eq_none, smsNearDuplicateID_eq_none]
  push Not
  constructor
  · rintro (h | h | h) hb h0 r hr
    · exact absurd h hb
    · exact absurd h h0
    · simp [h r hr]
  · intro h
    by_cases hb : body = []
    · exact .inl hb
    · by_cases h0 : ts = 0
      · exact .inr (.inl h0)
      · exact .inr (.inr fun r hr => by simpa using h hb h0 r hr)

/-- The unique index ignores the row of a stored key. -/
theorem insertOrIgnore_of_mem {t : SmsTable} {m : Sms} (h : ∃ r ∈ t.rows, r.val.key = m.key) :
    t.insertOrIgnore m = (none, t) := by
  unfold SmsTable.insertOrIgnore
  rw [dif_neg]
  push Not
  exact h

/-- A row with a new key is appended under the next id. -/
theorem insertOrIgnore_of_fresh {t : SmsTable} {m : Sms} (h : ∀ r ∈ t.rows, r.val.key ≠ m.key) :
    (t.insertOrIgnore m).1 = some t.nextId ∧
      (t.insertOrIgnore m).2.rows = t.rows ++ [⟨t.nextId, m⟩] ∧
      (t.insertOrIgnore m).2.seq = t.nextId := by
  unfold SmsTable.insertOrIgnore
  rw [dif_pos h]
  exact ⟨rfl, rfl, rfl⟩

/-- What `insertSmsDeduped` does, in the two cases. -/
theorem insertSmsDeduped_cases (t : SmsTable) (c : DedupCall) :
    (Refused t c ∧
      insertSmsDeduped c.now t c.sender c.body c.timestamp c.status =
        (⟨(smsNearDuplicateID t c.sender c.body c.time).getD 0, false⟩, t)) ∨
    (¬ Refused t c ∧
      (insertSmsDeduped c.now t c.sender c.body c.timestamp c.status).1 = ⟨t.nextId, true⟩ ∧
      (c.exec t).rows = t.rows ++ [⟨t.nextId, c.sms⟩] ∧ (c.exec t).seq = t.nextId) := by
  unfold DedupCall.exec insertSmsDeduped
  cases hn : smsNearDuplicateID t c.sender c.body c.time with
  | some k =>
    refine .inl ⟨.inl (by simp [hn]), ?_⟩
    rw [DedupCall.time] at hn
    simp [hn]
  | none =>
    have hn' := hn
    rw [DedupCall.time] at hn'
    by_cases hk : ∃ r ∈ t.rows, r.val.key = c.sms.key
    · refine .inl ⟨.inr hk, ?_⟩
      have := insertOrIgnore_of_mem hk
      rw [DedupCall.sms, DedupCall.time] at this
      simp [hn', this]
    · refine .inr ⟨?_, ?_⟩
      · rintro (h | h)
        · simp [hn] at h
        · exact hk h
      · push Not at hk
        obtain ⟨h1, h2, h3⟩ := insertOrIgnore_of_fresh hk
        rw [DedupCall.sms, DedupCall.time] at h1 h2 h3
        simp only [hn']
        generalize t.insertOrIgnore _ = x at h1 h2 h3 ⊢
        obtain ⟨k, t'⟩ := x
        simp only at h1 h2 h3
        subst h1
        exact ⟨rfl, h2, h3⟩

/-- A refused call leaves the table as it is. -/
theorem exec_of_refused {t : SmsTable} {c : DedupCall} (h : Refused t c) : c.exec t = t := by
  rcases insertSmsDeduped_cases t c with ⟨-, h'⟩ | ⟨h', -⟩
  · rw [DedupCall.exec, h']
  · exact absurd h h'

/-- An accepted call appends its row. -/
theorem rows_exec_of_not_refused {t : SmsTable} {c : DedupCall} (h : ¬ Refused t c) :
    (c.exec t).rows = t.rows ++ [⟨t.nextId, c.sms⟩] := by
  rcases insertSmsDeduped_cases t c with ⟨h', -⟩ | ⟨-, -, h', -⟩
  · exact absurd h' h
  · exact h'

/-- The stored rows are a prefix of the rows after a call. -/
theorem rows_prefix_exec (t : SmsTable) (c : DedupCall) : t.rows <+: (c.exec t).rows := by
  by_cases h : Refused t c
  · exact (exec_of_refused h).symm ▸ List.prefix_rfl
  · exact (rows_exec_of_not_refused h).symm ▸ List.prefix_append _ _

theorem Visible.of_refused {t : SmsTable} {c : DedupCall} (h : Refused t c) : Visible t c := by
  rcases h with h | h
  · obtain ⟨-, h0, r, hr, hp⟩ := smsNearDuplicateID_isSome.1 h
    exact .inl ⟨h0, r, hr, hp⟩
  · exact .inr h

theorem Visible.refused {t : SmsTable} {c : DedupCall} (hb : c.body ≠ []) (h : Visible t c) :
    Refused t c := by
  rcases h with ⟨h0, r, hr, hp⟩ | h
  · exact .inl (smsNearDuplicateID_isSome.2 ⟨hb, h0, r, hr, hp⟩)
  · exact .inr h

/-! ## Sequences of insertions -/

/-- One call keeps the table free of near-duplicates exactly when it recognises its message. -/
theorem noNearDuplicates_exec_iff {t : SmsTable} (c : DedupCall) (ht : NoNearDuplicates t) :
    NoNearDuplicates (c.exec t) ↔ Recognised t c := by
  by_cases h : Refused t c
  · rw [exec_of_refused h]
    exact ⟨fun _ _ => Visible.of_refused h, fun _ => ht⟩
  · have hnew : NoNearDuplicates (c.exec t) ↔ ∀ r ∈ t.rows, ¬ SameMessage r.val c.sms := by
      unfold NoNearDuplicates at ht ⊢
      rw [rows_exec_of_not_refused h, List.pairwise_append]
      simp [ht]
    rw [hnew]
    constructor
    · rintro hno ⟨r, hr, hs⟩
      exact absurd hs (hno r hr)
    · intro hrec r hr hs
      have hb : c.body ≠ [] := hs.symm.2.1
      exact h ((hrec ⟨r, hr, hs⟩).refused hb)

theorem runCalls_snoc (t : SmsTable) (cs : List DedupCall) (c : DedupCall) :
    runCalls t (cs ++ [c]) = c.exec (runCalls t cs) := by
  simp [runCalls]

theorem NoNearDuplicates.of_exec {t : SmsTable} {c : DedupCall}
    (h : NoNearDuplicates (c.exec t)) : NoNearDuplicates t :=
  List.Pairwise.sublist (rows_prefix_exec t c).sublist h

/-- The row is too close for the purge to forget it. -/
def isNear (r k : Row Sms) : Bool := isNear64 (smsDedupWindowMs * 2) r.val.timestamp k.val.timestamp

theorem isNear_of_window {r k : Row Sms}
    (h : isNear64 smsDedupWindowMs r.val.timestamp k.val.timestamp = true) : isNear r k = true := by
  have hlt : abs64 ((r.val.timestamp - k.val.timestamp).bmod (2 ^ 64)) < (smsDedupWindowMs : Int) := of_decide_eq_true h
  refine decide_eq_true (Int.lt_of_lt_of_le hlt ?_)
  decide

/-- The row is one that the purge would delete. -/
def isDup (st : PurgeState) (r : Row Sms) : Prop :=
  ∃ k ∈ st.keptByBody r.val.body, phonesMatch r.val.sender k.val.sender = true ∧
    isNear64 smsDedupWindowMs r.val.timestamp k.val.timestamp = true

theorem any_alive_iff {st : PurgeState} {r : Row Sms} :
    (((st.keptByBody r.val.body).filter fun k => isNear r k).any fun k =>
      phonesMatch r.val.sender k.val.sender && isNear64 smsDedupWindowMs r.val.timestamp k.val.timestamp) = true ↔ isDup st r := by
  simp only [List.any_eq_true, List.mem_filter, Bool.and_eq_true]
  constructor
  · rintro ⟨k, ⟨hk, -⟩, hmatch⟩
    exact ⟨k, hk, hmatch⟩
  · rintro ⟨k, hk, hmatch⟩
    exact ⟨k, ⟨hk, isNear_of_window hmatch.2⟩, hmatch⟩

theorem purgeRow_toDelete (st : PurgeState) (r : Row Sms) :
    (purgeRow st r).toDelete = [] ↔ st.toDelete = [] ∧ ¬isDup st r := by
  show (if _ then st.toDelete ++ [r.id] else st.toDelete) = [] ↔ _
  split_ifs with h
  · simp [any_alive_iff.1 h]
  · exact ⟨fun hnil => ⟨hnil, fun hd => h (any_alive_iff.2 hd)⟩, fun hnil => hnil.1⟩

/-- What is remembered when the row is kept. -/
theorem mem_keptByBody {st : PurgeState} {r : Row Sms} (h : ¬isDup st r) {body : GoString} {k : Row Sms} :
    k ∈ (purgeRow st r).keptByBody body ↔
      if body = r.val.body then k ∈ st.keptByBody body ∧ isNear r k = true ∨ k = r else k ∈ st.keptByBody body := by
  have hkept : (purgeRow st r).keptByBody body =
      if body = r.val.body then ((st.keptByBody r.val.body).filter fun k => isNear r k) ++ [r]
      else st.keptByBody body :=
    congrArg (fun kept => if body = r.val.body then kept else st.keptByBody body)
      (if_neg fun hany => h (any_alive_iff.1 hany))
  rw [hkept]
  split_ifs with hbody
  · rw [hbody, List.mem_append, List.mem_filter, List.mem_singleton]
  · exact Iff.rfl

/-- In these rows, in the order of their ids, every repetition is forgotten. -/
def AllForgotten (l : List (Row Sms)) : Prop :=
  ∀ a ∈ l, ∀ b ∈ l, a.id < b.id → Repeats a.val b.val → Forgotten l a b

/-- While nothing is deleted, a row is remembered as long as no row of its body comes that is far from it. -/
theorem purgeBatch_spec {l : List (Row Sms)} (hl : l.Pairwise fun a b : Row Sms => a.id < b.id) :
    ((l.foldl purgeRow .init).toDelete = [] ↔ AllForgotten l) ∧
      ((l.foldl purgeRow .init).toDelete = [] → ∀ body k, k ∈ (l.foldl purgeRow .init).keptByBody body ↔
        k ∈ l ∧ k.val.body = body ∧ ∀ x ∈ l, k.id < x.id → x.val.body = body → isNear x k = true) := by
  induction l using List.reverseRecOn with
  | nil =>
    refine ⟨⟨fun _ a ha => absurd ha List.not_mem_nil, fun _ => rfl⟩, fun _ body k => ?_⟩
    exact ⟨fun h => absurd h List.not_mem_nil, fun h => absurd h.1 List.not_mem_nil⟩
  | append_singleton l r ih =>
    obtain ⟨hsorted, -, hlast⟩ := List.pairwise_append.1 hl
    have hlt : ∀ x ∈ l, x.id < r.id := fun x hx => hlast x hx r (List.mem_singleton_self r)
    obtain ⟨hdelete, hkept⟩ := ih hsorted
    rw [List.foldl_append, List.foldl_cons, List.foldl_nil]
    -- The row is a duplicate of one that is remembered, or all that it repeats is forgotten.
    have hdup (hnone : (l.foldl purgeRow .init).toDelete = []) : ¬isDup (l.foldl purgeRow .init) r ↔
        ∀ a ∈ l, Repeats a.val r.val → Forgotten (l ++ [r]) a r := by
      constructor
      · intro hno a ha hrepeats
        by_contra hnot
        refine hno ⟨a, (hkept hnone _ a).2 ⟨ha, hrepeats.1.symm, fun x hx hax hbody => ?_⟩, hrepeats.2⟩
        by_contra hfar
        exact hnot ⟨x, List.mem_append_left _ hx, hax, hlt x hx, hbody.trans hrepeats.1, Bool.eq_false_iff.2 hfar⟩
      · rintro hall ⟨a, ha, hmatch⟩
        obtain ⟨ha, hbody, hnear⟩ := (hkept hnone _ a).1 ha
        obtain ⟨x, hx, hax, hxr, hxbody, hfar⟩ := hall a ha ⟨hbody.symm, hmatch⟩
        rcases List.mem_append.1 hx with hx | hx
        · have hstill := hnear x hx hax (hxbody.trans hbody)
          exact absurd (hstill.symm.trans hfar) (by decide)
        · rw [List.mem_singleton.1 hx] at hxr
          exact absurd hxr (Nat.lt_irrefl _)
    have hforgotten (a b : Row Sms) (hb : b ∈ l) : Forgotten (l ++ [r]) a b ↔ Forgotten l a b := by
      constructor
      · rintro ⟨x, hx, hax, hxb, h⟩
        rcases List.mem_append.1 hx with hx | hx
        · exact ⟨x, hx, hax, hxb, h⟩
        · have := hlt b hb
          rw [List.mem_singleton.1 hx] at hxb
          omega
      · rintro ⟨x, hx, h⟩
        exact ⟨x, List.mem_append_left _ hx, h⟩
    have hsplit : AllForgotten (l ++ [r]) ↔
        AllForgotten l ∧ ∀ a ∈ l, Repeats a.val r.val → Forgotten (l ++ [r]) a r := by
      constructor
      · intro h
        refine ⟨fun a ha b hb hab hrepeats => ?_, fun a ha => ?_⟩
        · exact (hforgotten a b hb).1
            (h a (List.mem_append_left _ ha) b (List.mem_append_left _ hb) hab hrepeats)
        · exact h a (List.mem_append_left _ ha) r (List.mem_append_right _ (List.mem_singleton_self r)) (hlt a ha)
      · rintro ⟨hold, hnew⟩ a ha b hb hab hrepeats
        rcases List.mem_append.1 hb with hb | hb
        · rcases List.mem_append.1 ha with ha | ha
          · exact (hforgotten a b hb).2 (hold a ha b hb hab hrepeats)
          · have := hlt b hb
            rw [List.mem_singleton.1 ha] at hab
            omega
        · rw [List.mem_singleton.1 hb] at hab hrepeats ⊢
          rcases List.mem_append.1 ha with ha | ha
          · exact hnew a ha hrepeats
          · rw [List.mem_singleton.1 ha] at hab
            exact absurd hab (Nat.lt_irrefl _)
    refine ⟨?_, fun hnone body k => ?_⟩
    · rw [purgeRow_toDelete, hsplit, ← hdelete]
      exact and_congr_right hdup
    · obtain ⟨hnone, hno⟩ := (purgeRow_toDelete _ r).1 hnone
      rw [mem_keptByBody hno]
      split_ifs with hbody
      · rw [hkept hnone]
        constructor
        · rintro (⟨⟨hk, hkbody, hall⟩, hnear⟩ | rfl)
          · refine ⟨List.mem_append_left _ hk, hkbody, fun x hx hkx hxbody => ?_⟩
            rcases List.mem_append.1 hx with hx | hx
            · exact hall x hx hkx hxbody
            · rw [List.mem_singleton.1 hx]
              exact hnear
          · refine ⟨List.mem_append_right _ (List.mem_singleton_self _), hbody.symm, fun x hx hkx _ => ?_⟩
            rcases List.mem_append.1 hx with hx | hx
            · have := hlt x hx
              omega
            · rw [List.mem_singleton.1 hx] at hkx
              exact absurd hkx (Nat.lt_irrefl _)
        · rintro ⟨hk, hkbody, hall⟩
          rcases List.mem_append.1 hk with hk | hk
          · refine .inl ⟨⟨hk, hkbody, fun x hx => hall x (List.mem_append_left _ hx)⟩, ?_⟩
            exact hall r (List.mem_append_right _ (List.mem_singleton_self r)) (hlt k hk) hbody.symm
          · exact .inr (List.mem_singleton.1 hk)
      · rw [hkept hnone]
        constructor
        · rintro ⟨hk, hkbody, hall⟩
          refine ⟨List.mem_append_left _ hk, hkbody, fun x hx hkx hxbody => ?_⟩
          rcases List.mem_append.1 hx with hx | hx
          · exact hall x hx hkx hxbody
          · rw [List.mem_singleton.1 hx] at hxbody
            exact absurd hxbody.symm hbody
        · rintro ⟨hk, hkbody, hall⟩
          rcases List.mem_append.1 hk with hk | hk
          · exact ⟨hk, hkbody, fun x hx => hall x (List.mem_append_left _ hx)⟩
          · rw [List.mem_singleton.1 hk] at hkbody
            exact absurd hkbody.symm hbody

/-- A batch is left alone exactly if every repetition in it is forgotten. -/
theorem purgeBatch_eq_nil_iff {l : List (Row Sms)} (hl : l.Pairwise fun a b : Row Sms => a.id < b.id) :
    purgeBatch l = [] ↔ AllForgotten l := (purgeBatch_spec hl).1

/-! ### The table -/

theorem flatten_toChunks {α : Type} (n : Nat) (l : List α) : (l.toChunks n).flatten = l := by
  have hgo (n : Nat) (l : List α) (chunk : Array α) (chunks : Array (List α)) :
      (List.toChunks.go n l chunk chunks).flatten = chunks.toList.flatten ++ (chunk.toList ++ l) := by
    induction l generalizing chunk chunks with
    | nil => simp [List.toChunks.go]
    | cons a l ih =>
      unfold List.toChunks.go
      split_ifs
      · rw [ih]
        simp
      · rw [ih]
        simp
  cases l with
  | nil => cases n <;> rfl
  | cons a l =>
    cases n with
    | zero => exact List.append_nil _
    | succ n => exact hgo (n + 1) l #[a] #[]

theorem mem_of_mem_purgeBatch {l : List (Row Sms)} {k : Nat} (h : k ∈ purgeBatch l) : ∃ r ∈ l, r.id = k := by
  have hmem (st : PurgeState) (h : k ∈ (l.foldl purgeRow st).toDelete) : k ∈ st.toDelete ∨ ∃ r ∈ l, r.id = k := by
    clear * - h
    induction l generalizing st with
    | nil => exact .inl h
    | cons r l ih =>
      rcases ih _ h with h | ⟨x, hx, hid⟩
      · have h : k ∈ if _ then st.toDelete ++ [r.id] else st.toDelete := h
        split_ifs at h
        · rcases List.mem_append.1 h with h | h
          · exact .inl h
          · exact .inr ⟨r, List.mem_cons_self .., (List.mem_singleton.1 h).symm⟩
        · exact .inl h
      · exact .inr ⟨x, List.mem_cons_of_mem _ hx, hid⟩
  exact (hmem .init h).resolve_left List.not_mem_nil

/-- The purge leaves the table as it is exactly if no batch deletes anything. -/
theorem purge_rows_eq_iff (t : SmsTable) :
    (purgeNearDuplicateSms t).rows = t.rows ↔ ∀ batch ∈ t.rows.toChunks purgeBatchSize, purgeBatch batch = [] := by
  have hbatch {batch : List (Row Sms)} (h : batch ∈ t.rows.toChunks purgeBatchSize) : ∀ r ∈ batch, r ∈ t.rows := by
    intro r hr
    rw [← flatten_toChunks purgeBatchSize t.rows]
    exact List.mem_flatten.2 ⟨batch, h, hr⟩
  show (t.rows.filter fun r => !decide (r.id ∈ purgedIds t)) = t.rows ↔ _
  rw [List.filter_eq_self]
  constructor
  · intro h batch hmem
    refine List.eq_nil_iff_forall_not_mem.2 fun k hk => ?_
    obtain ⟨r, hr, rfl⟩ := mem_of_mem_purgeBatch hk
    have hpurged : r.id ∈ purgedIds t := List.mem_flatMap.2 ⟨batch, hmem, hk⟩
    have hkept := h r (hbatch hmem r hr)
    rw [decide_eq_true hpurged] at hkept
    cases hkept
  · intro h r hr
    have hnone : r.id ∉ purgedIds t := by
      intro hpurged
      obtain ⟨batch, hmem, hk⟩ := List.mem_flatMap.1 hpurged
      rw [h batch hmem] at hk
      cases hk
    rw [decide_eq_false hnone]
    rfl

/-! ### What the insertions let through -/

/-- A candidate that the query does not answer stands behind 40 others. -/
theorem limit_of_notMem {l : List (Row Sms)} (hl : l.Pairwise fun a b : Row Sms => a.id < b.id) {a : Row Sms} {n : Nat}
    (ha : a ∈ l) (hnot : a ∉ l.take n) : n ≤ (l.filter fun r => r.id < a.id).length := by
  have hdrop : a ∈ l.drop n := by
    rw [← List.take_append_drop n l] at ha
    exact (List.mem_append.1 ha).resolve_left hnot
  rw [← List.take_append_drop n l] at hl
  have hbefore := (List.pairwise_append.1 hl).2.2
  have hlength : (l.take n).length = n := by
    have hpos := List.length_pos_of_mem hdrop
    rw [List.length_drop] at hpos
    rw [List.length_take]
    omega
  have hall : (l.take n).filter (fun r => r.id < a.id) = l.take n :=
    List.filter_eq_self.2 fun r hr => decide_eq_true (hbefore r hr a hdrop)
  calc n = ((l.take n).filter fun r => r.id < a.id).length := by rw [hall, hlength]
    _ ≤ (l.filter fun r => r.id < a.id).length := ((List.take_sublist n l).filter _).length_le

theorem Overlooked.mono {t t' : SmsTable} {a b : Row Sms} (h : t.rows <+: t'.rows) (ho : Overlooked t a b) :
    Overlooked t' a b :=
  ho.imp_right fun ho => ho.imp_right fun ho => ho.imp_right fun ho =>
    Nat.le_trans ho (h.sublist.filter _).length_le

/-- A row that is inserted although it repeats another one has not been compared with it. -/
theorem overlooked_of_exec {t : SmsTable} {c : DedupCall} (h : ¬Refused t c) {a : Row Sms} (ha : a ∈ t.rows)
    (hrepeats : Repeats a.val c.sms) : Overlooked t a ⟨t.nextId, c.sms⟩ := by
  by_cases hbody : c.body = []
  · exact .inl hbody
  by_cases htime : c.time = 0
  · exact .inr (.inl htime)
  obtain ⟨hsame, hphones, -⟩ := hrepeats
  by_cases hwindow : inWindow c.time a.val.timestamp = true
  case neg => exact .inr (.inr (.inl (Bool.eq_false_iff.2 hwindow)))
  refine .inr (.inr (.inr ?_))
  have hnotMem : a ∉ nearCandidates t c.body c.time := fun hmem =>
    h (.inl (smsNearDuplicateID_isSome.2 ⟨hbody, htime, a, hmem, hphones⟩))
  have hmem : a ∈ t.rows.filter fun r => r.val.body == c.body && inWindow r.val.timestamp c.time := by
    refine List.mem_filter.2 ⟨ha, Bool.and_eq_true _ _ ▸ ⟨?_, ?_⟩⟩
    · exact beq_iff_eq.2 hsame.symm
    · rw [inWindow_symm]
      exact hwindow
  have hlimit := limit_of_notMem (t.sorted.filter _) hmem hnotMem
  rw [List.filter_filter] at hlimit
  exact hlimit

/-- In a table that the insertions have built, only such rows repeat each other. -/
theorem overlooked_of_runCalls (calls : List DedupCall) {a b : Row Sms} (ha : a ∈ (runCalls .empty calls).rows)
    (hb : b ∈ (runCalls .empty calls).rows) (hab : a.id < b.id) (hrepeats : Repeats a.val b.val) :
    Overlooked (runCalls .empty calls) a b := by
  induction calls using List.reverseRecOn generalizing a b with
  | nil => exact absurd ha List.not_mem_nil
  | append_singleton calls c ih =>
    rw [runCalls_snoc] at ha hb ⊢
    generalize runCalls .empty calls = t at ih ha hb ⊢
    by_cases href : Refused t c
    · rw [exec_of_refused href] at ha hb ⊢
      exact ih ha hb hab hrepeats
    · have hmono := rows_prefix_exec t c
      rw [rows_exec_of_not_refused href] at ha hb
      rcases List.mem_append.1 ha with ha | ha
      · rcases List.mem_append.1 hb with hb | hb
        · exact (ih ha hb hab hrepeats).mono hmono
        · obtain rfl := List.mem_singleton.1 hb
          exact (overlooked_of_exec href ha hrepeats).mono hmono
      · -- No row has a larger id than the new one.
        obtain rfl := List.mem_singleton.1 ha
        rcases List.mem_append.1 hb with hb | hb
        · have hle := t.le_seq b hb
          have : t.seq + 1 < b.id := hab
          omega
        · rw [List.mem_singleton.1 hb] at hab
          exact absurd hab (Nat.lt_irrefl _)

/-- Two messages without a body, a second apart. -/
def emptyBodies : List DedupCall :=
  [⟨0, "+33612345678", "", 1700000000000, .inbox⟩, ⟨0, "+33612345678", "", 1700000001000, .inbox⟩]

theorem toDelete_of_dup {st : PurgeState} {r : Row Sms} (h : isDup st r) :
    (purgeRow st r).toDelete = st.toDelete ++ [r.id] :=
  if_pos (any_alive_iff.2 h)

theorem toDelete_of_not_dup {st : PurgeState} {r : Row Sms} (h : ¬isDup st r) :
    (purgeRow st r).toDelete = st.toDelete :=
  if_neg fun hany => h (any_alive_iff.1 hany)

/-- For a row that is dropped the slice is filtered in place: what was alive stays in the list. -/
theorem keptByBody_of_dup {st : PurgeState} {r : Row Sms} (h : isDup st r) (body : GoString) :
    (purgeRow st r).keptByBody body =
      if body = r.val.body then
        ((st.keptByBody body).filter fun k => isNear r k) ++
          (st.keptByBody body).drop ((st.keptByBody body).filter fun k => isNear r k).length
      else st.keptByBody body := by
  have hkept : (purgeRow st r).keptByBody body =
      if body = r.val.body then
        ((st.keptByBody r.val.body).filter fun k => isNear r k) ++
          (st.keptByBody r.val.body).drop ((st.keptByBody r.val.body).filter fun k => isNear r k).length
      else st.keptByBody body :=
    congrArg (fun kept => if body = r.val.body then kept else st.keptByBody body) (if_pos (any_alive_iff.2 h))
  rw [hkept]
  by_cases hbody : body = r.val.body
  · rw [if_pos hbody, if_pos hbody, hbody]
  · rw [if_neg hbody, if_neg hbody]

/-- Nothing new is remembered but the row itself. -/
theorem mem_of_mem_keptByBody {st : PurgeState} {r k : Row Sms} {body : GoString}
    (hk : k ∈ (purgeRow st r).keptByBody body) :
    k ∈ st.keptByBody body ∨ ¬isDup st r ∧ k = r ∧ body = r.val.body := by
  by_cases h : isDup st r
  · rw [keptByBody_of_dup h] at hk
    split_ifs at hk
    · rcases List.mem_append.1 hk with hk | hk
      · exact .inl (List.mem_of_mem_filter hk)
      · exact .inl (List.mem_of_mem_drop hk)
    · exact .inl hk
  · rw [mem_keptByBody h] at hk
    split_ifs at hk with hbody
    · exact hk.imp And.left fun hr => ⟨h, hr, hbody⟩
    · exact .inl hk

/-- A row that is near stays remembered. -/
theorem remembered_of_near {st : PurgeState} {r k : Row Sms} {body : GoString} (hk : k ∈ st.keptByBody body)
    (hnear : r.val.body = body → isNear r k = true) : k ∈ (purgeRow st r).keptByBody body := by
  by_cases h : isDup st r
  · rw [keptByBody_of_dup h]
    split_ifs with hbody
    · exact List.mem_append_left _ (List.mem_filter.2 ⟨hk, hnear hbody.symm⟩)
    · exact hk
  · rw [mem_keptByBody h]
    split_ifs with hbody
    · exact .inl ⟨hk, hnear hbody.symm⟩
    · exact hk

/-! ### One batch -/

/-- What holds after the first rows of a batch. -/
structure Walked (p : List (Row Sms)) (st : PurgeState) : Prop where
  kept : ∀ body, ∀ k ∈ st.keptByBody body, k ∈ p ∧ k.val.body = body ∧ k.id ∉ st.toDelete
  filtered : ∀ body, ∀ k ∈ st.keptByBody body, ∀ x ∈ p, Novel p x → k.id < x.id → x.val.body = body →
    isNear x k = true
  deleted : ∀ id ∈ st.toDelete, ∃ r ∈ p, r.id = id ∧
    ∃ k ∈ p, k.id ∉ st.toDelete ∧ k.id < r.id ∧ Repeats k.val r.val ∧ ¬Dropped p k r
  remembered : ∀ a ∈ p, a.id ∉ st.toDelete →
    (∀ x ∈ p, a.id < x.id → x.val.body = a.val.body → isNear x a = true) → a ∈ st.keptByBody a.val.body
  compared : ∀ a ∈ p, ∀ b ∈ p, a.id < b.id → Repeats a.val b.val → ¬Forgotten p a b →
    a.id ∈ st.toDelete ∨ b.id ∈ st.toDelete

theorem walked_init : Walked [] .init where
  kept := fun _ _ hk => absurd hk List.not_mem_nil
  filtered := fun _ _ hk => absurd hk List.not_mem_nil
  deleted := fun _ hid => absurd hid List.not_mem_nil
  remembered := fun _ ha => absurd ha List.not_mem_nil
  compared := fun _ ha => absurd ha List.not_mem_nil

section Step

variable {p : List (Row Sms)} {st : PurgeState} {r : Row Sms}

/-- What is deleted by a step is the row itself. -/
theorem mem_toDelete_step {id : Nat} :
    id ∈ (purgeRow st r).toDelete ↔ id ∈ st.toDelete ∨ isDup st r ∧ id = r.id := by
  by_cases h : isDup st r
  · rw [toDelete_of_dup h, List.mem_append, List.mem_singleton]
    exact or_congr_right ⟨fun hid => ⟨h, hid⟩, And.right⟩
  · rw [toDelete_of_not_dup h]
    exact ⟨.inl, fun hid => hid.resolve_right fun hr => h hr.1⟩

theorem Novel.old {x : Row Sms} (h : Novel (p ++ [r]) x) : Novel p x :=
  fun k hk => h k (List.mem_append_left _ hk)

theorem dropped_snoc {a b : Row Sms} (hb : b.id ≤ r.id) : Dropped (p ++ [r]) a b → Dropped p a b := by
  rintro ⟨x, hx, hnovel, hax, hxb, h⟩
  rcases List.mem_append.1 hx with hx | hx
  · exact ⟨x, hx, hnovel.old, hax, hxb, h⟩
  · rw [List.mem_singleton.1 hx] at hxb
    omega

variable (hlt : ∀ x ∈ p, x.id < r.id)
include hlt

theorem stays_step {k : Row Sms} (hk : k ∈ p) (h : k.id ∉ st.toDelete) : k.id ∉ (purgeRow st r).toDelete := by
  intro hid
  rcases mem_toDelete_step.1 hid with hid | ⟨-, hid⟩
  · exact h hid
  · exact absurd (hlt k hk) (hid ▸ Nat.lt_irrefl _)

theorem Walked.step (h : Walked p st) : Walked (p ++ [r]) (purgeRow st r) := by
  have hnew : r ∈ p ++ [r] := List.mem_append_right _ (List.mem_singleton_self r)
  have hold {x : Row Sms} (hx : x ∈ p) : x ∈ p ++ [r] := List.mem_append_left _ hx
  have hundeleted : r.id ∉ st.toDelete := by
    intro hid
    obtain ⟨x, hx, hxid, -⟩ := h.deleted _ hid
    exact absurd (hlt x hx) (hxid ▸ Nat.lt_irrefl _)
  -- a row that is not near the new one is forgotten when that one is the last
  have hremembered : ∀ a ∈ p, a.id ∉ st.toDelete → Repeats a.val r.val → ¬Forgotten (p ++ [r]) a r →
      isDup st r := by
    intro a ha hstays hrepeats hnot
    refine ⟨a, ?_, hrepeats.2⟩
    rw [hrepeats.1]
    refine h.remembered a ha hstays fun x hx hax hbody => ?_
    by_contra hfar
    exact hnot ⟨x, hold hx, hax, hlt x hx, hbody, Bool.eq_false_iff.2 hfar⟩
  constructor
  · intro body k hk
    rcases mem_of_mem_keptByBody hk with hk | ⟨hdup, rfl, rfl⟩
    · obtain ⟨hkp, hbody, hstays⟩ := h.kept body k hk
      exact ⟨hold hkp, hbody, stays_step hlt hkp hstays⟩
    · refine ⟨hnew, rfl, fun hid => ?_⟩
      exact (mem_toDelete_step.1 hid).elim hundeleted fun hr => hdup hr.1
  · intro body k hk x hx hnovel hkx hbody
    rcases List.mem_append.1 hx with hx | hx
    · rcases mem_of_mem_keptByBody hk with hk | ⟨-, hkr, -⟩
      · exact h.filtered body k hk x hx hnovel.old hkx hbody
      · rw [hkr] at hkx
        exact absurd (Nat.lt_trans hkx (hlt x hx)) (Nat.lt_irrefl _)
    · -- a row that repeats nothing is kept, and then the filter has been stored
      obtain rfl := List.mem_singleton.1 hx
      have hno : ¬isDup st x := by
        rintro ⟨k', hk', hmatch⟩
        obtain ⟨hkp, hbody', -⟩ := h.kept _ k' hk'
        exact hnovel k' (hold hkp) (hlt k' hkp) ⟨hbody'.symm, hmatch⟩
      rw [mem_keptByBody hno, if_pos hbody.symm] at hk
      rcases hk with hk | rfl
      · exact hk.2
      · exact absurd hkx (Nat.lt_irrefl _)
  · intro id hid
    rcases mem_toDelete_step.1 hid with hid | ⟨⟨k, hk, hmatch⟩, rfl⟩
    · obtain ⟨x, hx, hxid, k, hk, hstays, hkx, hrepeats, hnot⟩ := h.deleted id hid
      have hnot' : ¬Dropped (p ++ [r]) k x := fun hd => hnot (dropped_snoc (Nat.le_of_lt (hlt x hx)) hd)
      exact ⟨x, hold hx, hxid, k, hold hk, stays_step hlt hk hstays, hkx, hrepeats, hnot'⟩
    · obtain ⟨hkp, hbody, hstays⟩ := h.kept _ k hk
      refine ⟨r, hnew, rfl, k, hold hkp, stays_step hlt hkp hstays, hlt k hkp, ⟨hbody.symm, hmatch⟩, fun hd => ?_⟩
      obtain ⟨x, hx, hnovel, hkx, -, hxbody, hfar⟩ := dropped_snoc (Nat.le_refl _) hd
      have hnear := h.filtered _ k hk x hx hnovel hkx (hxbody.trans hbody)
      exact absurd (hnear.symm.trans hfar) (by decide)
  · intro a ha hstays hnear
    rcases List.mem_append.1 ha with ha | ha
    · refine remembered_of_near (h.remembered a ha (fun hid => hstays (mem_toDelete_step.2 (.inl hid))) ?_) ?_
      · exact fun x hx => hnear x (hold hx)
      · exact fun hbody => hnear r hnew (hlt a ha) hbody
    · obtain rfl := List.mem_singleton.1 ha
      have hno : ¬isDup st a := fun hdup => hstays (mem_toDelete_step.2 (.inr ⟨hdup, rfl⟩))
      rw [mem_keptByBody hno, if_pos rfl]
      exact .inr rfl
  · intro a ha b hb hab hrepeats hnot
    rcases List.mem_append.1 hb with hb | hb
    · rcases List.mem_append.1 ha with ha | ha
      · have hnot' : ¬Forgotten p a b := fun ⟨x, hx, hrest⟩ => hnot ⟨x, hold hx, hrest⟩
        exact (h.compared a ha b hb hab hrepeats hnot').imp (fun hid => mem_toDelete_step.2 (.inl hid))
          fun hid => mem_toDelete_step.2 (.inl hid)
      · have hbr := hlt b hb
        rw [List.mem_singleton.1 ha] at hab
        omega
    · obtain rfl := List.mem_singleton.1 hb
      rcases List.mem_append.1 ha with ha | ha
      · by_cases hstays : a.id ∈ st.toDelete
        · exact .inl (mem_toDelete_step.2 (.inl hstays))
        · exact .inr (mem_toDelete_step.2 (.inr ⟨hremembered a ha hstays hrepeats hnot, rfl⟩))
      · rw [List.mem_singleton.1 ha] at hab
        exact absurd hab (Nat.lt_irrefl _)

end Step

theorem walked_batch {l : List (Row Sms)} (hl : l.Pairwise fun a b : Row Sms => a.id < b.id) :
    Walked l (l.foldl purgeRow .init) := by
  induction l using List.reverseRecOn with
  | nil => exact walked_init
  | append_singleton l r ih =>
    obtain ⟨hsorted, -, hlast⟩ := List.pairwise_append.1 hl
    rw [List.foldl_append, List.foldl_cons, List.foldl_nil]
    exact (ih hsorted).step fun x hx => hlast x hx r (List.mem_singleton_self r)

/-! ### The table -/

section Table

variable {t : SmsTable}

theorem mem_rows_of_batch {batch : List (Row Sms)} (h : batch ∈ t.rows.toChunks purgeBatchSize) {r : Row Sms}
    (hr : r ∈ batch) : r ∈ t.rows := by
  rw [← flatten_toChunks purgeBatchSize t.rows]
  exact List.mem_flatten.2 ⟨batch, h, hr⟩

theorem exists_batch {r : Row Sms} (h : r ∈ t.rows) : ∃ batch ∈ t.rows.toChunks purgeBatchSize, r ∈ batch := by
  rw [← flatten_toChunks purgeBatchSize t.rows] at h
  exact List.mem_flatten.1 h

theorem sorted_batch {batch : List (Row Sms)} (h : batch ∈ t.rows.toChunks purgeBatchSize) :
    batch.Pairwise fun a b : Row Sms => a.id < b.id := by
  refine t.sorted.sublist ?_
  rw [← flatten_toChunks purgeBatchSize t.rows]
  exact List.sublist_flatten_of_mem h

/-- What holds of the rows in their order holds in the order of the ids. -/
theorem rel_of_id_lt {l : List (Row Sms)} (hl : l.Pairwise fun a b : Row Sms => a.id < b.id)
    {R : Row Sms → Row Sms → Prop} (h : l.Pairwise R) {a b : Row Sms} (ha : a ∈ l) (hb : b ∈ l) (hab : a.id < b.id) :
    R a b := by
  obtain ⟨i, hi, rfl⟩ := List.getElem_of_mem ha
  obtain ⟨j, hj, rfl⟩ := List.getElem_of_mem hb
  rcases Nat.lt_trichotomy i j with hij | rfl | hij
  · exact List.pairwise_iff_getElem.1 h i j hi hj hij
  · exact absurd hab (Nat.lt_irrefl _)
  · exact absurd (List.pairwise_iff_getElem.1 hl j i hj hi hij) (Nat.lt_asymm hab)

/-- No id stands in two batches. -/
theorem batch_unique {batch batch' : List (Row Sms)} (h : batch ∈ t.rows.toChunks purgeBatchSize)
    (h' : batch' ∈ t.rows.toChunks purgeBatchSize) {r r' : Row Sms} (hr : r ∈ batch) (hr' : r' ∈ batch')
    (hid : r.id = r'.id) : batch = batch' := by
  have hsorted := t.sorted
  rw [← flatten_toChunks purgeBatchSize t.rows, List.pairwise_flatten] at hsorted
  obtain ⟨i, hi, rfl⟩ := List.getElem_of_mem h
  obtain ⟨j, hj, rfl⟩ := List.getElem_of_mem h'
  have hbetween := List.pairwise_iff_getElem.1 hsorted.2
  rcases Nat.lt_trichotomy i j with hij | rfl | hij
  · exact absurd (hbetween i j hi hj hij r hr r' hr') (hid ▸ Nat.lt_irrefl _)
  · rfl
  · exact absurd (hbetween j i hj hi hij r' hr' r hr) (hid ▸ Nat.lt_irrefl _)

/-- What becomes of a row is decided in its batch. -/
theorem mem_purge_iff {batch : List (Row Sms)} (h : batch ∈ t.rows.toChunks purgeBatchSize) {r : Row Sms}
    (hr : r ∈ batch) : r ∈ (purgeNearDuplicateSms t).rows ↔ r.id ∉ purgeBatch batch := by
  have hpurged : r.id ∈ purgedIds t ↔ r.id ∈ purgeBatch batch := by
    refine ⟨fun hid => ?_, fun hid => List.mem_flatMap.2 ⟨batch, h, hid⟩⟩
    obtain ⟨batch', h', hid⟩ := List.mem_flatMap.1 hid
    obtain ⟨r', hr', hid'⟩ := mem_of_mem_purgeBatch hid
    rwa [batch_unique h h' hr hr' hid'.symm]
  show r ∈ t.rows.filter (fun r => !decide (r.id ∈ purgedIds t)) ↔ _
  rw [List.mem_filter, Bool.not_eq_true', decide_eq_false_iff_not, hpurged]
  exact ⟨And.right, fun hid => ⟨mem_rows_of_batch h hr, hid⟩⟩

/-- Times inside the window are so for the difference of two `int64` too. -/
theorem isNear64_of_inWindow {a b : Int} (h : inWindow a b = true) : isNear64 smsDedupWindowMs a b = true := by
  have hlt : (a - b).natAbs < 180000 := of_decide_eq_true h
  have hmod : (a - b).bmod (2 ^ 64) = a - b := Int.bmod_eq_of_le (by omega) (by omega)
  have habs : abs64 (a - b) < 180000 := by
    unfold abs64
    split_ifs
    · rw [Int.bmod_eq_of_le (by omega) (by omega)]
      omega
    · omega
  unfold isNear64
  rw [hmod]
  exact decide_eq_true habs

theorem Copies.repeats {a b : Sms} (h : Copies a b) : Repeats a b := ⟨h.1, h.2.1, isNear64_of_inWindow h.2.2⟩

/-- A row that is deleted has been compared with one before it in its batch, which stays. -/
theorem compared_of_deleted {batch : List (Row Sms)} (hbatch : batch ∈ t.rows.toChunks purgeBatchSize) {r : Row Sms}
    (hr : r ∈ batch) (hgone : r ∉ (purgeNearDuplicateSms t).rows) :
    ∃ k ∈ batch, k ∈ (purgeNearDuplicateSms t).rows ∧ k.id < r.id ∧ Repeats k.val r.val ∧ ¬Dropped batch k r := by
  have hid : r.id ∈ purgeBatch batch := by
    by_contra hno
    exact hgone ((mem_purge_iff hbatch hr).2 hno)
  obtain ⟨r', hr', hsame, k, hk, hstays, hlt, hrepeats, hnot⟩ := (walked_batch (sorted_batch hbatch)).deleted _ hid
  obtain rfl : r' = r := t.toTable.row_unique (mem_rows_of_batch hbatch hr') (mem_rows_of_batch hbatch hr) hsame
  exact ⟨k, hk, (mem_purge_iff hbatch hk).2 hstays, hlt, hrepeats, hnot⟩

theorem stays_of_unmatched {batch : List (Row Sms)} (hbatch : batch ∈ t.rows.toChunks purgeBatchSize) {r : Row Sms}
    (hr : r ∈ batch) (h : Unmatched batch r) : r ∈ (purgeNearDuplicateSms t).rows := by
  by_contra hgone
  obtain ⟨k, hk, -, hlt, hrepeats, hnot⟩ := compared_of_deleted hbatch hr hgone
  exact hnot (h k hk hlt hrepeats)

/-- Of two rows that the purge compares one is deleted. -/
theorem deleted_of_compared {batch : List (Row Sms)} (hbatch : batch ∈ t.rows.toChunks purgeBatchSize) {a b : Row Sms}
    (ha : a ∈ batch) (hb : b ∈ batch) (hab : a.id < b.id) (hrepeats : Repeats a.val b.val)
    (hnot : ¬Forgotten batch a b) (hstays : a ∈ (purgeNearDuplicateSms t).rows) :
    b ∉ (purgeNearDuplicateSms t).rows := by
  intro hstaysB
  rcases (walked_batch (sorted_batch hbatch)).compared a ha b hb hab hrepeats hnot with hid | hid
  · exact (mem_purge_iff hbatch ha).1 hstays hid
  · exact (mem_purge_iff hbatch hb).1 hstaysB hid

/-- A deletion that fails leaves a row more. -/
theorem mem_purgeWhere_iff {succeeds : Nat → Bool} {r : Row Sms} (hr : r ∈ t.rows) :
    r ∈ (purgeWhere succeeds t).rows ↔ r ∈ (purgeNearDuplicateSms t).rows ∨ succeeds r.id = false := by
  have hpurge : r ∈ (purgeNearDuplicateSms t).rows ↔ (!decide (r.id ∈ purgedIds t)) = true :=
    List.mem_filter.trans (and_iff_right hr)
  have hwhere : r ∈ (purgeWhere succeeds t).rows ↔ (!(decide (r.id ∈ purgedIds t) && succeeds r.id)) = true :=
    List.mem_filter.trans (and_iff_right hr)
  rw [hpurge, hwhere, Bool.not_and, Bool.or_eq_true, Bool.not_eq_true' (succeeds r.id)]

theorem sound_of_neverWraps (h : NeverWraps t) : PurgeSound t := by
  intro succeeds r hr hgone
  rw [mem_purgeWhere_iff hr, not_or] at hgone
  obtain ⟨batch, hbatch, hrb⟩ := exists_batch hr
  obtain ⟨k, hk, hstays, hlt, hrepeats, -⟩ := compared_of_deleted hbatch hrb hgone.1
  exact ⟨k, (mem_purgeWhere_iff (mem_rows_of_batch hbatch hk)).2 (.inl hstays), hlt,
    h batch hbatch k hk r hrb hlt hrepeats⟩

theorem not_sound_of_wrapsAround (h : WrapsAround t) : ¬PurgeSound t := by
  obtain ⟨batch, hbatch, a, ha, b, hb, hab, hrepeats, hunmatched, hnot, hno⟩ := h
  intro hsound
  have hstays := stays_of_unmatched hbatch ha hunmatched
  have hgone := deleted_of_compared hbatch ha hb hab hrepeats hnot hstays
  have hb := mem_rows_of_batch hbatch hb
  have hgone : b ∉ (purgeWhere (fun _ => true) t).rows := by
    rw [mem_purgeWhere_iff hb]
    exact fun hor => hor.elim hgone Bool.noConfusion
  obtain ⟨k, hk, hlt, hcopies⟩ := hsound _ b hb hgone
  have hsub : (purgeWhere (fun _ => true) t).rows.Sublist t.rows := List.filter_sublist
  exact hno k (hsub.subset hk) hlt hcopies

theorem complete_of_allCompared (h : AllCompared t) : PurgeComplete t := by
  have hsub : (purgeNearDuplicateSms t).rows.Sublist t.rows := List.filter_sublist
  refine List.Pairwise.imp_of_mem ?_ (t.sorted.sublist hsub)
  intro a b ha hb hab hcopies
  obtain ⟨batch, hbatch, hab', hbb, hnot⟩ := h a (hsub.subset ha) b (hsub.subset hb) hab hcopies
  exact deleted_of_compared hbatch hab' hbb hab hcopies.repeats hnot ha hb

theorem not_complete_of_unmatchedCopies (h : UnmatchedCopies t) : ¬PurgeComplete t := by
  obtain ⟨a, ha, b, hb, hab, hcopies, hunmatched⟩ := h
  intro hcomplete
  have hsub : (purgeNearDuplicateSms t).rows.Sublist t.rows := List.filter_sublist
  obtain ⟨batchA, hbatchA, haA⟩ := exists_batch ha
  obtain ⟨batchB, hbatchB, hbB⟩ := exists_batch hb
  have hstaysA := stays_of_unmatched hbatchA haA ((hunmatched batchA hbatchA).1 haA)
  have hstaysB := stays_of_unmatched hbatchB hbB ((hunmatched batchB hbatchB).2 hbB)
  exact rel_of_id_lt (t.sorted.sublist hsub) hcomplete hstaysA hstaysB hab hcopies

end Table

/-- A message of one number, with its time. -/
def copyAt (id : Nat) (timestamp : Int) : Row Sms := ⟨id, ⟨"+33612345678", "Bonjour", timestamp, .inbox⟩⟩

/-- Two messages, dated with the last and with the first `int64`. -/
def endsOfTime : SmsTable where
  rows := [copyAt 1 9223372036854775807, copyAt 2 (-9223372036854775808)]
  seq := 2
  sorted := by decide
  le_seq := by decide
  unique := by decide

/-- Three messages: the second one is dated six minutes after the first, the third one a second after it. -/
def outOfOrder : SmsTable where
  rows := [copyAt 1 1700000000000, copyAt 2 1700000400000, copyAt 3 1700000001000]
  seq := 3
  sorted := by decide
  le_seq := by decide
  unique := by decide

/-- In the order of their times. -/
def inOrder : SmsTable where
  rows := [copyAt 1 1700000000000, copyAt 2 1700000001000, copyAt 3 1700000400000]
  seq := 3
  sorted := by decide
  le_seq := by decide
  unique := by decide

end Gafam.Relay
