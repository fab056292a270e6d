import Gafam.Go.Proofs.MarshalProofs
import Gafam.Go.Proofs.TextProofs
import Gafam.Go.Proofs.TimeProofs
import Gafam.Relay.Logs
import Gafam.Go.Proofs.TrimProofs
import Gafam.Relay.Proofs.SigningProofs
import Mathlib.Algebra.Order.BigOperators.Group.List
import Mathlib.Algebra.Order.Group.Nat
import Mathlib.Data.List.TakeWhile

/-!
# The accounting of the logs

The rows of `log_days` always say how large the files are, and the quota is kept. Days are erased in the order of their
names; as long as this is the order of time, the oldest ones go first.
-/

namespace Gafam.Relay

open Gafam.Go Gafam.Lib

/-! ## Lines -/

theorem itoa_printable (n : Int) : ∀ b ∈ itoa n, 0x20 ≤ b.toNat := by
  intro b hb
  cases n with
  | ofNat n =>
    have := (mem_itoa (n := n) hb).1
    omega
  | negSucc n =>
    rw [itoa_negSucc] at hb
    rcases List.mem_cons.1 hb with rfl | hb
    · decide
    · have := (mem_itoa hb).1
      omega

theorem LogEntry.marshal_printable (e : LogEntry) : ∀ b ∈ marshalObject e.members, 0x20 ≤ b.toNat := by
  refine marshalObject_printable ?_
  intro m hm
  simp only [members, List.mem_cons, List.not_mem_nil, or_false] at hm
  rcases hm with rfl | rfl | rfl | rfl | rfl
  · exact itoa_printable _
  · exact marshalString_printable _
  · exact marshalString_printable _
  · exact marshalString_printable _
  · exact marshalString_printable _

theorem LogEntry.notMem_marshal (e : LogEntry) : 0x0A ∉ marshalObject e.members := by
  intro h
  exact absurd (e.marshal_printable _ h) (by decide)

/-- Every entry is one line. -/
theorem count_lines (es : List LogEntry) : (es.flatMap LogEntry.line).count 0x0A = es.length := by
  induction es with
  | nil => rfl
  | cons e es ih =>
    have hline : e.line.count 0x0A = 1 := by
      unfold LogEntry.line
      rw [List.count_append, List.count_eq_zero.2 e.notMem_marshal]
      rfl
    rw [List.flatMap_cons, List.count_append, ih, hline, List.length_cons, Nat.add_comm]

namespace LogStore

/-! ## The rows -/

theorem day_countDay (days : List LogDay) (day : GoString) (bytes lines : Nat) :
    (countDay days day bytes lines).map (·.day) =
      if day ∈ days.map (·.day) then days.map (·.day) else days.map (·.day) ++ [day] := by
  unfold countDay
  split_ifs with hmem
  · rw [List.map_map]
    refine List.map_congr_left fun d _ => ?_
    simp only [Function.comp_apply]
    split_ifs <;> rfl
  · rw [List.map_append]
    rfl

theorem nodup_countDay {days : List LogDay} (h : (days.map (·.day)).Nodup) (day : GoString) (bytes lines : Nat) :
    ((countDay days day bytes lines).map (·.day)).Nodup := by
  rw [day_countDay]
  split_ifs with hmem
  · exact h
  · exact List.nodup_append.2 ⟨h, List.nodup_singleton _, by rintro a ha b hb rfl; exact hmem (List.mem_singleton.1 hb ▸ ha)⟩

/-- A row is the old one, or that of the day that is counted. -/
theorem mem_countDay {days : List LogDay} {day : GoString} {bytes lines : Nat} {r : LogDay}
    (hr : r ∈ countDay days day bytes lines) :
    r ∈ days ∧ r.day ≠ day ∨ r.day = day ∧
      ((∃ d ∈ days, d.day = day ∧ r.bytes = d.bytes + bytes ∧ r.lines = d.lines + lines) ∨
        day ∉ days.map (·.day) ∧ r.bytes = bytes ∧ r.lines = lines) := by
  unfold countDay at hr
  split_ifs at hr with hmem
  · obtain ⟨d, hd, rfl⟩ := List.mem_map.1 hr
    split_ifs with hday
    · exact .inr ⟨hday, .inl ⟨d, hd, hday, rfl, rfl⟩⟩
    · exact .inl ⟨hd, hday⟩
  · rcases List.mem_append.1 hr with hr | hr
    · exact .inl ⟨hr, fun hday => hmem (List.mem_map.2 ⟨r, hr, hday⟩)⟩
    · rw [List.mem_singleton.1 hr]
      exact .inr ⟨rfl, .inr ⟨hmem, rfl, rfl⟩⟩

/-! ## Accounting -/

theorem accounted_empty : Accounted empty where
  nodup := List.nodup_nil
  sizes := by simp [empty]
  known := by simp [empty]

theorem accounted_removeDay {s : LogStore} (h : Accounted s) (day : GoString) : Accounted (s.removeDay day) where
  nodup := h.nodup.sublist (List.filter_sublist.map _)
  sizes := by
    intro d hd
    obtain ⟨hd, hne⟩ := List.mem_filter.1 hd
    obtain ⟨text, htext, hsizes⟩ := h.sizes d hd
    refine ⟨text, ?_, hsizes⟩
    show (if d.day = day then none else s.files d.day) = some text
    rw [if_neg (by simpa using hne)]
    exact htext
  known := by
    intro d text htext
    change (if d = day then none else s.files d) = some text at htext
    split_ifs at htext with hday
    obtain ⟨r, hr, rfl⟩ := h.known d text htext
    exact ⟨r, List.mem_filter.2 ⟨hr, by simpa using hday⟩, rfl⟩

/-- The new lines are counted in bytes and in newlines. -/
theorem accounted_appendDay {s : LogStore} (h : Accounted s) (es : List LogEntry) (day : GoString) :
    Accounted (appendDay es s day) := by
  constructor
  · exact nodup_countDay h.nodup ..
  · intro r hr
    show ∃ text, (if r.day = day then some ((s.files r.day).getD [] ++ _) else s.files r.day) = some text ∧ _
    rcases mem_countDay hr with ⟨hr, hne⟩ | ⟨hday, hrow⟩
    · rw [if_neg hne]
      exact h.sizes r hr
    · rw [if_pos hday, hday]
      refine ⟨_, rfl, ?_⟩
      rw [List.length_append, List.count_append, count_lines]
      rcases hrow with ⟨d, hd, rfl, hbytes, hlen⟩ | ⟨hnew, hbytes, hlen⟩
      · obtain ⟨text, htext, hb, hl⟩ := h.sizes d hd
        rw [hbytes, hlen, htext, hb, hl]
        exact ⟨rfl, rfl⟩
      · have hnone : s.files day = none := by
          cases hfile : s.files day with
          | none => rfl
          | some text =>
            obtain ⟨d, hd, hday'⟩ := h.known day text hfile
            exact absurd (List.mem_map.2 ⟨d, hd, hday'⟩) hnew
        rw [hnone, hbytes, hlen]
        simp
  · intro d text htext
    change (if d = day then some ((s.files d).getD [] ++ _) else s.files d) = some text at htext
    have hdays : d ∈ (countDay s.days day ((es.filter (·.day = day)).flatMap LogEntry.line).length
        (es.filter (·.day = day)).length).map (·.day) := by
      rw [day_countDay]
      split_ifs at htext with hday
      · subst hday
        split_ifs with hmem
        · exact hmem
        · exact List.mem_append_right _ (List.mem_singleton.2 rfl)
      · obtain ⟨r, hr, rfl⟩ := h.known d text htext
        have hold : r.day ∈ s.days.map (·.day) := List.mem_map.2 ⟨r, hr, rfl⟩
        split_ifs
        · exact hold
        · exact List.mem_append_left _ hold
    obtain ⟨r, hr, hday⟩ := List.mem_map.1 hdays
    exact ⟨r, hr, hday⟩

theorem accounted_writeBatch {s : LogStore} (h : Accounted s) (batch : LogBatch) (order : List GoString) :
    Accounted (s.writeBatch batch order) := by
  unfold writeBatch
  induction order generalizing s with
  | nil => exact h
  | cons day order ih => exact ih (accounted_appendDay h _ day)

/-! ## The quota -/

theorem perm_sortedDays (days : List LogDay) : (sortedDays days).Perm days := List.perm_insertionSort ..

/-- The days that are erased come first, and with them gone the total is within the quota. -/
theorem erasedDays_split (quota total : Int) (days : List LogDay) :
    ∃ kept, days = erasedDays quota total days ++ kept ∧
      (kept = [] ∨ total - totalBytes (erasedDays quota total days) ≤ quota) := by
  induction days generalizing total with
  | nil => exact ⟨[], rfl, .inl rfl⟩
  | cons d days ih =>
    unfold erasedDays
    split_ifs with hle
    · exact ⟨d :: days, rfl, .inr (by simpa [totalBytes] using hle)⟩
    · obtain ⟨kept, hsplit, hquota⟩ := ih (total - d.bytes)
      refine ⟨kept, congrArg (d :: ·) hsplit, hquota.imp_right fun h => ?_⟩
      have hsum : totalBytes (d :: erasedDays quota (total - d.bytes) days) =
          d.bytes + totalBytes (erasedDays quota (total - d.bytes) days) := rfl
      rw [hsum]
      push_cast
      omega

/-- The rows that an enforcement leaves are those that it does not erase. -/
theorem enforceLogQuota_days (s : LogStore) :
    s.enforceLogQuota.days = s.days.filter fun r => r.day ∉ s.erased.map (·.day) := by
  have hfold : ∀ (gone : List LogDay) (t : LogStore), (gone.foldl (fun s d => s.removeDay d.day) t).days =
      t.days.filter fun r => r.day ∉ gone.map (·.day) := by
    intro gone
    induction gone with
    | nil => intro t; simp
    | cons d gone ih =>
      intro t
      rw [List.foldl_cons, ih]
      show (t.days.filter _).filter _ = _
      rw [List.filter_filter]
      refine List.filter_congr fun r _ => ?_
      by_cases hd : r.day = d.day <;> by_cases hgone : r.day ∈ gone.map (·.day) <;> simp [hd, hgone]
  exact hfold _ _

theorem totalBytes_perm {days days' : List LogDay} (h : days.Perm days') : totalBytes days = totalBytes days' :=
  (h.map _).sum_eq

theorem totalBytes_append (days days' : List LogDay) : totalBytes (days ++ days') = totalBytes days + totalBytes days' := by
  unfold totalBytes
  rw [List.map_append, List.sum_append]

/-- The names of different rows are different, so their order is strict. -/
theorem pairwise_sortedDays {s : LogStore} (h : Accounted s) : (sortedDays s.days).Pairwise fun d e => d.day < e.day := by
  have htotal : Std.Total fun d e : LogDay => d.day ≤ e.day := ⟨fun d e => List.le_total d.day e.day⟩
  have htrans : IsTrans LogDay fun d e => d.day ≤ e.day := ⟨fun _ _ _ => List.le_trans⟩
  have hle := List.pairwise_insertionSort (fun d e : LogDay => d.day ≤ e.day) s.days
  have hne : (sortedDays s.days).Pairwise fun d e => d.day ≠ e.day := by
    have hnodup := ((perm_sortedDays s.days).map (·.day)).nodup_iff.2 h.nodup
    exact List.pairwise_map.1 hnodup
  refine (hle.and hne).imp ?_
  rintro d e ⟨hle, hne⟩
  exact List.not_le.1 fun hge => hne (List.le_antisymm hle hge)

/-- What is erased and what is kept, in the order of the names. -/
theorem erased_split {s : LogStore} :
    ∃ kept, sortedDays s.days = s.erased ++ kept ∧ (kept = [] ∨ totalBytes kept ≤ maxLogsBytes) := by
  have htotal := totalBytes_perm (perm_sortedDays s.days)
  unfold erased
  split_ifs with hle
  · exact ⟨sortedDays s.days, rfl, .inr (by omega)⟩
  · obtain ⟨kept, hsplit, hquota⟩ := erasedDays_split maxLogsBytes (totalBytes s.days) (sortedDays s.days)
    refine ⟨kept, hsplit, hquota.imp_right fun h => ?_⟩
    rw [hsplit, totalBytes_append] at htotal
    omega

/-- The rows that are left are those behind the erased ones. -/
theorem enforceLogQuota_perm {s : LogStore} (h : Accounted s) {kept : List LogDay}
    (hsplit : sortedDays s.days = s.erased ++ kept) : s.enforceLogQuota.days.Perm kept := by
  have hsorted := pairwise_sortedDays h
  rw [hsplit, List.pairwise_append] at hsorted
  have hgone : s.erased.filter (fun r => r.day ∉ s.erased.map (·.day)) = [] := by
    refine List.filter_eq_nil_iff.2 fun r hr => ?_
    simpa using ⟨r, hr, rfl⟩
  have hkept : kept.filter (fun r => r.day ∉ s.erased.map (·.day)) = kept := by
    refine List.filter_eq_self.2 fun r hr => ?_
    rw [decide_eq_true_eq]
    intro hmem
    obtain ⟨d, hd, hday⟩ := List.mem_map.1 hmem
    have hlt := hsorted.2.2 d hd r hr
    rw [hday] at hlt
    exact List.lt_irrefl _ hlt
  rw [enforceLogQuota_days]
  have hperm := ((perm_sortedDays s.days).symm.filter (fun r => r.day ∉ s.erased.map (·.day)))
  rw [hsplit, List.filter_append, hgone, hkept] at hperm
  exact hperm

theorem accounted_enforceLogQuota {s : LogStore} (h : Accounted s) : Accounted s.enforceLogQuota := by
  unfold enforceLogQuota
  generalize s.erased = gone
  induction gone generalizing s with
  | nil => exact h
  | cons d gone ih => exact ih (accounted_removeDay h d.day)

/-- After an enforcement the total is within the quota. -/
theorem quota_enforceLogQuota {s : LogStore} (h : Accounted s) :
    totalBytes s.enforceLogQuota.days ≤ maxLogsBytes ∨ s.enforceLogQuota.days = [] := by
  obtain ⟨kept, hsplit, hquota⟩ := erased_split (s := s)
  have hperm := enforceLogQuota_perm h hsplit
  rw [totalBytes_perm hperm]
  refine hquota.symm.imp_right fun hnil => ?_
  rw [hnil] at hperm
  exact hperm.eq_nil

/-- What is erased is older than what comes behind it, and than what is kept. -/
theorem oldestFirst_of_inOrder {s : LogStore} (h : Accounted s)
    (horder : maxLogsBytes < totalBytes s.days → ∀ d ∈ s.days, ∀ d' ∈ s.days, d.day < d'.day → Older d.day d'.day) :
    s.erased.Pairwise (fun d d' => Older d.day d'.day) ∧
      ∀ d ∈ s.erased, ∀ r ∈ s.enforceLogQuota.days, Older d.day r.day := by
  obtain ⟨kept, hsplit, -⟩ := erased_split (s := s)
  have hperm := enforceLogQuota_perm h hsplit
  have hsorted := pairwise_sortedDays h
  have hmem : ∀ d, d ∈ s.erased ++ kept → d ∈ s.days := fun d hd =>
    (perm_sortedDays s.days).mem_iff.1 (hsplit ▸ hd)
  -- something is erased only above the quota
  have hover : ∀ d ∈ s.erased, maxLogsBytes < totalBytes s.days := by
    intro d hd
    by_contra hle
    unfold erased at hd
    rw [if_pos (Nat.not_lt.1 hle)] at hd
    cases hd
  rw [hsplit, List.pairwise_append] at hsorted
  constructor
  · refine hsorted.1.imp_of_mem ?_
    intro d d' hd hd' hlt
    exact horder (hover d hd) d (hmem d (List.mem_append_left _ hd)) d' (hmem d' (List.mem_append_left _ hd')) hlt
  · intro d hd r hr
    have hr := hperm.mem_iff.1 hr
    exact horder (hover d hd) d (hmem d (List.mem_append_left _ hd)) r (hmem r (List.mem_append_right _ hr))
      (hsorted.2.2 d hd r hr)

/-! ## Runs -/

/-- What every state keeps. -/
structure WithinQuota (s : LogStore) : Prop where
  accounted : Accounted s
  quota : totalBytes s.days ≤ maxLogsBytes ∨ s.days = []

theorem withinQuota_enforceLogQuota {s : LogStore} (h : Accounted s) : WithinQuota s.enforceLogQuota :=
  ⟨accounted_enforceLogQuota h, quota_enforceLogQuota h⟩

theorem withinQuota_removeDay {s : LogStore} (h : WithinQuota s) (day : GoString) : WithinQuota (s.removeDay day) := by
  refine ⟨accounted_removeDay h.accounted day, ?_⟩
  rcases h.quota with hle | hnil
  · left
    have hsub : ((s.removeDay day).days.map (·.bytes)).Sublist (s.days.map (·.bytes)) := List.filter_sublist.map _
    exact hsub.sum_le_sum (fun _ _ => Nat.zero_le _) |>.trans hle
  · right
    show s.days.filter _ = []
    rw [hnil]
    rfl

/-- Every enforcement is that of an accounted store, and what it leaves is the next state. -/
theorem step_enforced {s s' t : LogStore} {e : LogEvent} (h : Accounted s) (ht : s.enforced e = some t)
    (hstep : step s e = some s') : Accounted t ∧ s' = t.enforceLogQuota := by
  cases e with
  | append batch order =>
    obtain ⟨-, hs'⟩ := Option.ite_none_right_eq_some.1 hstep
    simp only [enforced] at ht
    split_ifs at ht with hbatch
    cases ht
    cases hs'
    exact ⟨accounted_writeBatch h batch order, if_neg hbatch⟩
  | enforce =>
    cases ht
    cases hstep
    exact ⟨h, rfl⟩
  | deleteDay day => cases ht
  | deleteAll => cases ht

theorem withinQuota_step {s s' : LogStore} {e : LogEvent} (h : WithinQuota s) (hstep : step s e = some s') :
    WithinQuota s' := by
  cases ht : s.enforced e with
  | some t =>
    obtain ⟨hacc, rfl⟩ := step_enforced h.accounted ht hstep
    exact withinQuota_enforceLogQuota hacc
  | none =>
    cases e with
    | append batch order =>
      obtain ⟨-, hs'⟩ := Option.ite_none_right_eq_some.1 hstep
      cases hs'
      simp only [enforced] at ht
      split_ifs at ht with hbatch
      unfold appendLogEntries
      rw [if_pos hbatch]
      exact h
    | enforce => cases ht
    | deleteDay day =>
      cases hstep
      unfold deleteDay
      split_ifs
      · exact withinQuota_removeDay h day
      · exact h
    | deleteAll =>
      cases hstep
      exact ⟨accounted_empty, .inr rfl⟩

theorem accounts_step {s s' : LogStore} {e : LogEvent} (h : WithinQuota s) (hC : InOrder s e)
    (hstep : step s e = some s') : Accounts s e s' where
  accounted := (withinQuota_step h hstep).accounted
  quota := (withinQuota_step h hstep).quota
  oldestFirst := by
    intro t ht
    obtain ⟨hacc, rfl⟩ := step_enforced h.accounted ht hstep
    exact oldestFirst_of_inOrder hacc (hC t ht)

/-! ## The order of the days -/

/-- The order of the names is that of time for years of four digits. -/
theorem older_of_lt {n n' : Int} (h4 : (dateOf n).FourDigits) (h4' : (dateOf n').FourDigits)
    (h : formatDate (dateOf n) < formatDate (dateOf n')) : Older (formatDate (dateOf n)) (formatDate (dateOf n')) := by
  refine ⟨n, n', rfl, rfl, ?_⟩
  rcases Int.lt_trichotomy n n' with hlt | rfl | hgt
  · exact hlt
  · exact absurd h (List.lt_irrefl _)
  · have hback := formatDate_lt (valid_dateOf n') (valid_dateOf n) h4' h4 (dateOf_before hgt)
    exact absurd (List.lt_trans h hback) (List.lt_irrefl _)

/-- A day is not older than a day that is older than it. -/
theorem Older.asymm {day day' : GoString} (h : Older day day') : ¬ Older day' day := by
  rintro ⟨m, m', hm, hm', hlt'⟩
  obtain ⟨n, n', hn, hn', hlt⟩ := h
  have hfst := dateOf_inj (formatDate_inj (valid_dateOf n) (valid_dateOf m') (hn.trans hm'.symm))
  have hsnd := dateOf_inj (formatDate_inj (valid_dateOf n') (valid_dateOf m) (hn'.trans hm.symm))
  omega

/-- The names of days whose years have four digits. -/
def Plain (day : GoString) : Prop := ∃ n, (dateOf n).FourDigits ∧ formatDate (dateOf n) = day

theorem plain_writeBatch {s : LogStore} {batch : LogBatch} {order : List GoString} (h : ∀ d ∈ s.days, Plain d.day)
    (horder : ∀ day ∈ order, Plain day) : ∀ d ∈ (s.writeBatch batch order).days, Plain d.day := by
  unfold writeBatch
  induction order generalizing s with
  | nil => exact h
  | cons day order ih =>
    refine ih ?_ fun d hd => horder d (List.mem_cons_of_mem _ hd)
    intro d hd
    rcases mem_countDay hd with ⟨hd, -⟩ | ⟨hday, -⟩
    · exact h d hd
    · rw [hday]
      exact horder day (List.mem_cons_self ..)

theorem mem_enforceLogQuota {s : LogStore} {d : LogDay} (h : d ∈ s.enforceLogQuota.days) : d ∈ s.days := by
  rw [enforceLogQuota_days] at h
  exact (List.mem_filter.1 h).1

/-- The days that the event writes to are plain. -/
def PlainEvent : LogEvent → Prop
  | .append _ order => ∀ day ∈ order, Plain day
  | _ => True

theorem plain_enforced {s t : LogStore} {e : LogEvent} (h : ∀ d ∈ s.days, Plain d.day) (he : PlainEvent e)
    (ht : s.enforced e = some t) : ∀ d ∈ t.days, Plain d.day := by
  cases e with
  | append batch order =>
    simp only [enforced] at ht
    split_ifs at ht
    cases ht
    exact plain_writeBatch h he
  | enforce =>
    cases ht
    exact h
  | deleteDay day => cases ht
  | deleteAll => cases ht

theorem plain_step {s s' : LogStore} {e : LogEvent} (h : ∀ d ∈ s.days, Plain d.day) (he : PlainEvent e)
    (hstep : step s e = some s') : ∀ d ∈ s'.days, Plain d.day := by
  cases e with
  | append batch order =>
    obtain ⟨-, hs'⟩ := Option.ite_none_right_eq_some.1 hstep
    cases hs'
    unfold appendLogEntries
    split_ifs
    · exact h
    · exact fun d hd => plain_writeBatch h he d (mem_enforceLogQuota hd)
  | enforce =>
    cases hstep
    exact fun d hd => h d (mem_enforceLogQuota hd)
  | deleteDay day =>
    cases hstep
    unfold deleteDay
    split_ifs
    · exact fun d hd => h d (List.mem_filter.1 hd).1
    · exact h
  | deleteAll =>
    cases hstep
    intro d hd
    cases hd

/-- Days of four-digit years are always erased in the order of time. -/
theorem stepsMeet_inOrder {es : List LogEvent} (hes : ∀ e ∈ es, PlainEvent e) {s : LogStore}
    (h : ∀ d ∈ s.days, Plain d.day) : StepsMeet step InOrder s es := by
  induction es generalizing s with
  | nil => trivial
  | cons e es ih =>
    have he := hes e (List.mem_cons_self ..)
    constructor
    · intro t ht hover d hd d' hd' hlt
      obtain ⟨n, hn, hday⟩ := plain_enforced h he ht d hd
      obtain ⟨n', hn', hday'⟩ := plain_enforced h he ht d' hd'
      rw [← hday, ← hday'] at hlt ⊢
      exact older_of_lt hn hn' hlt
    · exact fun s' hstep => ih (fun e he => hes e (List.mem_cons_of_mem _ he)) (plain_step h he hstep)


/-! ## A full store -/

theorem length_marshalString_letters (k : Nat) : (marshalString (List.replicate k 0x61)).length = k + 2 := by
  have hletters : ((segments (List.replicate k 0x61)).flatMap marshalRune).length = k := by
    induction k with
    | zero => rfl
    | succ k ih =>
      rw [List.replicate_succ, segments_cons (by decide), List.flatMap_cons, List.length_append, ih]
      exact Nat.add_comm 1 k
  unfold marshalString
  rw [List.length_cons, List.length_append, hletters]
  rfl

/-- An entry whose tag has `k + 1` letters. -/
def tagged (ts : Int64) (k : Nat) : LogEntry := ⟨ts, "apk", "I", List.replicate (k + 1) 0x61, "m"⟩

theorem length_line_tagged (ts : Int64) (k : Nat) : (tagged ts k).line.length = (itoa ts.toInt).length + k + 59 := by
  unfold tagged LogEntry.line LogEntry.members marshalObject
  simp only [List.map, joinComma, marshalMember, List.length_append, List.length_cons, List.length_nil,
    length_marshalString_letters]
  have : (marshalString (str "ts")).length = 4 := by decide
  have : (marshalString (str "source")).length = 8 := by decide
  have : (marshalString (str "level")).length = 7 := by decide
  have : (marshalString (str "tag")).length = 5 := by decide
  have : (marshalString (str "message")).length = 9 := by decide
  have : (marshalString "apk").length = 5 := by decide
  have : (marshalString "I").length = 3 := by decide
  have : (marshalString "m").length = 3 := by decide
  omega


/-- A batch of one such entry. -/
def tagEvent (ts : Int64) (k : Nat) : LogEvent := .append [(0, tagged ts k)] [(tagged ts k).day]

theorem filled_tagged {ts : Int64} (hts : ts ≠ 0) (k : Nat) : filled [(0, tagged ts k)] = [tagged ts k] := by
  have hfill : (tagged ts k).fill 0 = tagged ts k := by
    unfold tagged LogEntry.fill
    rw [LogEntry.mk.injEq]
    exact ⟨if_neg hts, rfl, rfl, rfl, rfl⟩
  exact congrArg ([·]) hfill

theorem writeBatch_tagged {ts : Int64} (hts : ts ≠ 0) (k : Nat) (s : LogStore) :
    (s.writeBatch [(0, tagged ts k)] [(tagged ts k).day]).days =
      countDay s.days (tagged ts k).day (tagged ts k).line.length 1 := by
  unfold writeBatch
  rw [filled_tagged hts, List.foldl_cons, List.foldl_nil]
  unfold appendDay
  simp only [List.filter_cons_of_pos, decide_true, List.filter_nil, List.flatMap_cons, List.flatMap_nil, List.append_nil,
    List.length_cons, List.length_nil]

theorem step_tagged {ts : Int64} (hts : ts ≠ 0) (k : Nat) (s : LogStore) :
    step s (tagEvent ts k) = some (s.writeBatch [(0, tagged ts k)] [(tagged ts k).day]).enforceLogQuota := by
  unfold tagEvent step appendLogEntries
  simp only
  rw [filled_tagged hts, if_pos (by simp), if_neg (by simp)]

theorem enforceLogQuota_under {s : LogStore} (h : totalBytes s.days ≤ maxLogsBytes) : s.enforceLogQuota = s := by
  unfold enforceLogQuota erased
  rw [if_pos h]
  rfl

/-- The same entry again and again, below the quota. -/
theorem run_tagged (k n : Nat) (h : (n + 1) * (tagged 1 k).line.length ≤ maxLogsBytes) :
    ∃ s, runSteps step empty (List.replicate (n + 1) (tagEvent 1 k)) = some s ∧
      s.days = [⟨(tagged 1 k).day, (n + 1) * (tagged 1 k).line.length, n + 1⟩] := by
  induction n with
  | zero =>
    have hdays := writeBatch_tagged (show (1 : Int64) ≠ 0 by decide) k empty
    refine ⟨_, runSteps_cons_eq_some.2 ⟨_, step_tagged (by decide) k empty, rfl⟩, ?_⟩
    rw [enforceLogQuota_under]
    · rw [hdays, Nat.one_mul]
      rfl
    · rw [hdays]
      simpa [totalBytes, countDay, empty] using h
  | succ n ih =>
    have hless : (n + 1) * (tagged 1 k).line.length ≤ maxLogsBytes :=
      Nat.le_trans (Nat.mul_le_mul_right _ (Nat.le_succ _)) h
    obtain ⟨s, hrun, hs⟩ := ih hless
    have hdays := writeBatch_tagged (show (1 : Int64) ≠ 0 by decide) k s
    rw [hs] at hdays
    rw [List.replicate_succ']
    refine ⟨_, runSteps_append_eq_some.2 ⟨s, hrun, runSteps_cons_eq_some.2 ⟨_, step_tagged (by decide) k s, rfl⟩⟩, ?_⟩
    have hcount : countDay [⟨(tagged 1 k).day, (n + 1) * (tagged 1 k).line.length, n + 1⟩] (tagged 1 k).day
        (tagged 1 k).line.length 1 = [⟨(tagged 1 k).day, (n + 1 + 1) * (tagged 1 k).line.length, n + 1 + 1⟩] := by
      simp [countDay, Nat.add_mul]
    rw [hcount] at hdays
    rw [enforceLogQuota_under]
    · exact hdays
    · rw [hdays]
      simpa [totalBytes] using h


set_option maxRecDepth 8000 in
theorem day_first (k : Nat) : (tagged 1 k).day = "1970-01-01" := by
  show formatDay 1 = _
  decide

theorem day_late (k : Nat) : (tagged 253402300800000 k).day = "10000-01-01" := by
  show formatDay 253402300800000 = _
  decide

/-- Two days, of which the later one comes first in the order of the names: it is the one that is erased. -/
theorem erased_two {s : LogStore} {m m' l l' : Nat}
    (hdays : s.days = [⟨"1970-01-01", m, l⟩, ⟨"10000-01-01", m', l'⟩])
    (hm : m ≤ maxLogsBytes) (hover : maxLogsBytes < m + m') : s.erased = [⟨"10000-01-01", m', l'⟩] := by
  have hsorted : sortedDays s.days = [⟨"10000-01-01", m', l'⟩, ⟨"1970-01-01", m, l⟩] := by
    have hle : ¬ str "1970-01-01" ≤ str "10000-01-01" := by decide
    rw [hdays]
    simp [sortedDays, List.insertionSort, List.orderedInsert, hle]
  have htotal : totalBytes s.days = m + m' := by
    rw [hdays]
    rfl
  unfold erased
  rw [if_neg (by omega), hsorted, htotal, erasedDays, if_neg (by omega), erasedDays, if_pos (by push_cast; omega)]

set_option maxRecDepth 8000 in
theorem late_erased {k n : Nat} (hle : (n + 1) * (tagged 1 k).line.length ≤ maxLogsBytes)
    (hover : maxLogsBytes < (n + 1) * (tagged 1 k).line.length + (tagged 253402300800000 k).line.length) :
    ∃ (es : List LogEvent) (s s' : LogStore) (e : LogEvent),
      runSteps step empty es = some s ∧ step s e = some s' ∧ ¬ Accounts s e s' := by
  obtain ⟨s, hrun, hs⟩ := run_tagged k n hle
  refine ⟨_, s, _, _, hrun, step_tagged (show (253402300800000 : Int64) ≠ 0 by decide) k s, ?_⟩
  intro hacc
  have hne : str "1970-01-01" ≠ str "10000-01-01" := by decide
  obtain ⟨-, hold⟩ := hacc.oldestFirst _ rfl
  have hdays := writeBatch_tagged (show (253402300800000 : Int64) ≠ 0 by decide) k s
  generalize s.writeBatch [(0, tagged 253402300800000 k)] [(tagged 253402300800000 k).day] = t at hold hdays
  have hcount : t.days = [⟨"1970-01-01", (n + 1) * (tagged 1 k).line.length, n + 1⟩,
      ⟨"10000-01-01", (tagged 253402300800000 k).line.length, 1⟩] := by
    rw [hdays, hs, day_first, day_late]
    simp [countDay, hne.symm]
  have herased := erased_two hcount hle hover
  have hlate : Older "1970-01-01" "10000-01-01" := ⟨0, 2932897, by decide, by decide, by decide⟩
  refine hlate.asymm (hold ⟨"10000-01-01", (tagged 253402300800000 k).line.length, 1⟩ ?_
    ⟨"1970-01-01", (n + 1) * (tagged 1 k).line.length, n + 1⟩ ?_)
  · rw [herased]
    exact List.mem_singleton.2 rfl
  · rw [enforceLogQuota_days, herased, hcount]
    exact List.mem_filter.2 ⟨List.mem_cons_self .., by simpa using hne⟩

/-- The rows are right and the quota is kept after every step, and the oldest days are erased first, as long as the
names of the days are in the order of time where days have to be erased. -/
theorem accounts_of_inOrder {es : List LogEvent} (hmeet : StepsMeet step InOrder empty es) :
    StepsMeet step (fun s e => ∀ s', step s e = some s' → Accounts s e s') empty es := by
  have hstart : WithinQuota empty := ⟨accounted_empty, .inr rfl⟩
  refine stepsMeet_imp_of_invariant (fun s e s' h _ hstep => withinQuota_step h hstep) ?_ hstart hmeet
  exact fun s e _ h hC s' hstep => accounts_step h hC hstep

set_option maxRecDepth 8000 in
/-- A day is filled and deleted. -/
theorem accounts_deleted :
    (∃ s, runSteps step empty [tagEvent 1 0, .enforce, .deleteDay "1970-01-01", tagEvent 86400000 0] = some s ∧
      s.days = [⟨"1970-01-02", 67, 1⟩]) ∧
      StepsMeet step (fun s e => ∀ s', step s e = some s' → Accounts s e s') empty
        [tagEvent 1 0, .enforce, .deleteDay "1970-01-01", tagEvent 86400000 0] := by
  have hdays : (runSteps step empty [tagEvent 1 0, .enforce, .deleteDay "1970-01-01", tagEvent 86400000 0]).map (·.days) =
      some [⟨"1970-01-02", 67, 1⟩] := by decide
  refine ⟨Option.map_eq_some_iff.1 hdays, accounts_of_inOrder (stepsMeet_inOrder ?_ ?_)⟩
  · rintro e he
    simp only [List.mem_cons, List.not_mem_nil, or_false] at he
    rcases he with rfl | rfl | rfl | rfl
    · intro day hday
      rw [List.mem_singleton.1 hday, day_first]
      exact ⟨0, ⟨by decide, by decide⟩, by decide⟩
    · trivial
    · trivial
    · intro day hday
      rw [List.mem_singleton.1 hday]
      exact ⟨1, ⟨by decide, by decide⟩, by decide⟩
  · intro d hd
    cases hd

/-- After 1023 entries of 1970 the store is almost full; one of the year 10000 is then erased before them. -/
theorem tenThousand_erased : ∃ (es : List LogEvent) (s s' : LogStore) (e : LogEvent),
    runSteps step empty es = some s ∧ step s e = some s' ∧ ¬ Accounts s e s' := by
  have hlen : (tagged 1 (2 ^ 20 - 1)).line.length = 2 ^ 20 + 59 := by
    rw [length_line_tagged]
    rfl
  have hlen' : (tagged 253402300800000 (2 ^ 20 - 1)).line.length = 2 ^ 20 + 73 := by
    have hdigits : (itoa (253402300800000 : Int64).toInt).length = 15 := by decide
    rw [length_line_tagged, hdigits]
    rfl
  refine late_erased (k := 2 ^ 20 - 1) (n := 1022) ?_ ?_
  · rw [hlen]
    decide
  · rw [hlen, hlen']
    decide

end LogStore

/-!
## Reading the logs back

A file holds the lines of its entries in the order in which they came in. All of them come back, the newest first,
when every line can be read and the entries have come in the order of their times.
-/

namespace LogEntry

/-! ### One line -/

/-- The members with their values. -/
def values (e : LogEntry) : List (GoString × GoString × JsonTree) :=
  [(str "ts", itoa e.ts.toInt, .num (itoa e.ts.toInt)),
    (str "source", marshalString e.source, .str (reencode e.source)),
    (str "level", marshalString e.level, .str (reencode e.level)),
    (str "tag", marshalString e.tag, .str (reencode e.tag)),
    (str "message", marshalString e.message, .str (reencode e.message))]

theorem written_values (e : LogEntry) : written e.values = e.members := rfl

theorem parses_values (e : LogEntry) : ∀ m ∈ e.values, Parses 0 m.2.1 m.2.2 := by
  intro m hm
  simp only [values, List.mem_cons, List.not_mem_nil, or_false] at hm
  rcases hm with rfl | rfl | rfl | rfl | rfl
  · exact parses_int 0 _
  · exact parses_string 0 _
  · exact parses_string 0 _
  · exact parses_string 0 _
  · exact parses_string 0 _

/-- What comes back of an entry. -/
def received (e : LogEntry) : LogEntry where
  ts := e.ts
  source := reencode e.source
  level := reencode e.level
  tag := reencode e.tag
  message := reencode e.message

theorem parseJson_marshal (e : LogEntry) : parseJson (marshalObject e.members) = some (.obj (readBack e.values)) := by
  have hdepth : 0 + (0 + 1) ≤ maxNestingDepth := by decide
  have hparse := parseValue_object e.parses_values hdepth (Nat.lt_succ_self _) []
  rw [List.append_nil, written_values] at hparse
  unfold parseJson
  rw [hparse]
  rfl

theorem unmarshal_marshal (e : LogEntry) : unmarshal (marshalObject e.members) = some e.received := by
  have hts : readInt64 0 (.num (itoa e.ts.toInt)) = some e.ts := by
    unfold readInt64
    dsimp only
    rw [atoi_toInt]
    exact congrArg some (Int64.ofInt_toInt _)
  unfold unmarshal
  rw [parseJson_marshal]
  show ((readInt64 0 (.num (itoa e.ts.toInt))).map _).bind _ = _
  rw [hts]
  rfl

/-- A string comes back longer, or it comes back as it was. -/
def size (e : LogEntry) : Nat := e.source.length + e.level.length + e.tag.length + e.message.length

theorem size_le_received (e : LogEntry) : e.size ≤ e.received.size := by
  have hsource := (length_reencode e.source).1
  have hlevel := (length_reencode e.level).1
  have htag := (length_reencode e.tag).1
  have hmessage := (length_reencode e.message).1
  simp only [size, received]
  omega

/-- The strings of the entry are UTF-8. -/
structure Valid (e : LogEntry) : Prop where
  source : validString e.source = true
  level : validString e.level = true
  tag : validString e.tag = true
  message : validString e.message = true

theorem valid_of_size {e : LogEntry} (h : e.received.size = e.size) : e.Valid := by
  have hsource := (length_reencode e.source).1
  have hlevel := (length_reencode e.level).1
  have htag := (length_reencode e.tag).1
  have hmessage := (length_reencode e.message).1
  simp only [size, received] at h
  exact ⟨(length_reencode e.source).2 (by omega), (length_reencode e.level).2 (by omega),
    (length_reencode e.tag).2 (by omega), (length_reencode e.message).2 (by omega)⟩

theorem Valid.received {e : LogEntry} (h : e.Valid) : e.received = e := by
  unfold LogEntry.received
  rw [reencode_valid h.source, reencode_valid h.level, reencode_valid h.tag, reencode_valid h.message]

end LogEntry

namespace LogStore

/-! ### The lines of a file -/

theorem splitByte_lines (es : List LogEntry) :
    splitByte 0x0A (es.flatMap LogEntry.line) = es.map (fun e => marshalObject e.members) ++ [[]] := by
  induction es with
  | nil => rfl
  | cons e es ih =>
    have hline : (e :: es).flatMap LogEntry.line = marshalObject e.members ++ 0x0A :: es.flatMap LogEntry.line := by
      simp [LogEntry.line]
    rw [hline, splitByte_append e.notMem_marshal, ih]
    rfl

/-- No line ends in a carriage return. -/
theorem getLast_marshal (e : LogEntry) : (marshalObject e.members).getLast? = some 0x7D := by
  unfold marshalObject
  rw [← List.cons_append, List.getLast?_concat]

theorem scanLines_lines (max : Nat) (es : List LogEntry) :
    scanLines max (es.flatMap LogEntry.line) =
      (es.takeWhile fun e => (marshalObject e.members).length < max).map fun e => marshalObject e.members := by
  have hstrip : ∀ l ∈ es.map (fun e => marshalObject e.members),
      (if l.getLast? = some 0x0D then l.dropLast else l) = l := by
    intro l hl
    obtain ⟨e, -, rfl⟩ := List.mem_map.1 hl
    rw [getLast_marshal]
    rfl
  unfold scanLines
  dsimp only
  rw [splitByte_lines, List.getLast?_concat, if_pos rfl, List.dropLast_concat]
  rw [List.map_congr_left (g := id) fun l hl => hstrip l (List.takeWhile_subset _ hl), List.map_id, List.takeWhile_map]
  rfl

/-- The entries of a file that come back, in the order of the file. -/
def shown (es : List LogEntry) : List LogEntry :=
  (es.takeWhile fun e => (marshalObject e.members).length < 1024 * 1024).map LogEntry.received

theorem unmarshal_lines (es : List LogEntry) :
    (scanLines (1024 * 1024) (es.flatMap LogEntry.line)).filterMap LogEntry.unmarshal = shown es := by
  rw [scanLines_lines, List.filterMap_map, shown, ← List.filterMap_eq_map]
  exact List.filterMap_congr fun e _ => e.unmarshal_marshal

/-! ### The files of a run -/

/-- The files hold these entries. -/
def Holds (s : LogStore) (log : List LogEntry) : Prop :=
  ∀ day, s.files day =
    if day ∈ log.map (·.day) then some ((log.filter (·.day = day)).flatMap LogEntry.line) else none

theorem files_writeBatch (s : LogStore) (batch : LogBatch) {order : List GoString} (hnodup : order.Nodup)
    (day : GoString) :
    (s.writeBatch batch order).files day =
      if day ∈ order then some ((s.files day).getD [] ++ ((filled batch).filter (·.day = day)).flatMap LogEntry.line)
      else s.files day := by
  unfold writeBatch
  induction order generalizing s with
  | nil => rfl
  | cons d order ih =>
    obtain ⟨hd, hnodup⟩ := List.nodup_cons.1 hnodup
    rw [List.foldl_cons, ih _ hnodup]
    by_cases hday : day = d
    · subst hday
      rw [if_neg hd, if_pos (List.mem_cons_self ..)]
      exact if_pos rfl
    · have hfile : (appendDay (filled batch) s d).files day = s.files day := if_neg hday
      simp [hfile, hday]

/-- A batch comes behind what the files hold. -/
theorem holds_writeBatch {s : LogStore} {log : List LogEntry} (h : Holds s log) {batch : LogBatch}
    {order : List GoString} (hperm : order.Perm ((filled batch).map (·.day)).dedup) :
    Holds (s.writeBatch batch order) (log ++ filled batch) := by
  intro day
  have hnodup : order.Nodup := hperm.nodup_iff.2 (List.nodup_dedup _)
  have hmem : day ∈ order ↔ day ∈ (filled batch).map (·.day) := hperm.mem_iff.trans List.mem_dedup
  rw [files_writeBatch s batch hnodup, h day, List.map_append, List.filter_append, List.flatMap_append]
  by_cases hnew : day ∈ (filled batch).map (·.day)
  · rw [if_pos (hmem.2 hnew), if_pos (List.mem_append_right _ hnew)]
    split_ifs with hold
    · rfl
    · have hnone : log.filter (·.day = day) = [] := by
        refine List.filter_eq_nil_iff.2 fun e he hday => hold (List.mem_map.2 ⟨e, he, ?_⟩)
        exact of_decide_eq_true hday
      rw [hnone]
      rfl
  · have hnone : (filled batch).filter (·.day = day) = [] := by
      refine List.filter_eq_nil_iff.2 fun e he hday => hnew (List.mem_map.2 ⟨e, he, ?_⟩)
      exact of_decide_eq_true hday
    rw [if_neg (mt hmem.1 hnew), hnone]
    simp only [List.mem_append, hnew, or_false, List.flatMap_nil, List.append_nil]

theorem step_append (s : LogStore) {batch : LogBatch} {order : List GoString}
    (hperm : order.Perm ((filled batch).map (·.day)).dedup) :
    step s (.append batch order) = some (s.appendLogEntries batch order) := if_pos hperm

/-- A run of batches under the quota: the files hold all of their entries. -/
theorem holds_run {batches : List (LogBatch × List GoString)} {s s' : LogStore} {log : List LogEntry}
    (h : Holds s log) (hrun : runSteps step s (appends batches) = some s')
    (hquota : StepsMeet step UnderQuota s (appends batches)) : Holds s' (log ++ stored batches) := by
  induction batches generalizing s log with
  | nil =>
    cases hrun
    simpa [stored] using h
  | cons b batches ih =>
    obtain ⟨t, hstep, hrun⟩ := runSteps_cons_eq_some.1 hrun
    have hstored : stored (b :: batches) = filled b.1 ++ stored batches := List.flatMap_cons
    rw [hstored, ← List.append_assoc]
    refine ih ?_ hrun (hquota.2 t hstep)
    obtain ⟨hperm, ht⟩ := Option.ite_none_right_eq_some.1 hstep
    cases ht
    unfold appendLogEntries
    split_ifs with hbatch
    · rw [hbatch]
      simpa [filled] using h
    · have hunder : UnderQuota s (.append b.1 b.2) := hquota.1
      rw [enforceLogQuota_under (hunder _ (if_neg hbatch))]
      exact holds_writeBatch h hperm

theorem holds_empty : Holds empty [] := fun _ => rfl

/-! ### What is read -/

theorem readLogDay_eq {s : LogStore} {log : List LogEntry} (h : Holds s log) {day : GoString}
    (hday : day ∈ log.map (·.day)) (offset limit : Nat) :
    s.readLogDay day offset limit =
      if parsesDate day then
        some (((shown (log.filter (·.day = day))).reverse.drop offset).take limit, (shown (log.filter (·.day = day))).length)
      else none := by
  have hfile := h day
  rw [if_pos hday] at hfile
  unfold readLogDay
  split_ifs with hparses
  · rw [hfile]
    dsimp only
    rw [unmarshal_lines]
    split_ifs with hle
    · rw [List.drop_eq_nil_of_le (by simpa using hle), List.take_nil]
    · rfl
  · rfl

/-- The pages tell the whole list. -/
theorem readsBack_iff_shown {s : LogStore} {log : List LogEntry} (h : Holds s log) {day : GoString}
    (hday : day ∈ log.map (·.day)) :
    ReadsBack s log day ↔
      parsesDate day = true ∧ (shown (log.filter (·.day = day))).Perm (log.filter (·.day = day)) ∧
        (shown (log.filter (·.day = day))).Pairwise fun e e' => e.ts ≤ e'.ts := by
  unfold ReadsBack
  simp only [readLogDay_eq h hday]
  generalize shown (log.filter (·.day = day)) = es
  constructor
  · rintro ⟨l, hperm, hsorted, hpages⟩
    have hparses : parsesDate day = true := by
      by_contra hno
      have := hpages 0 0
      rw [if_neg hno] at this
      cases this
    have hpage := Option.some.inj ((if_pos hparses).symm.trans (hpages 0 (es.length + l.length)))
    obtain ⟨hlist, -⟩ := Prod.mk.inj hpage
    rw [List.drop_zero, List.drop_zero, List.take_of_length_le (by simp), List.take_of_length_le (by simp)] at hlist
    subst hlist
    exact ⟨hparses, (List.reverse_perm es).symm.trans hperm, List.pairwise_reverse.1 hsorted⟩
  · rintro ⟨hparses, hperm, hsorted⟩
    refine ⟨es.reverse, (List.reverse_perm es).trans hperm, List.pairwise_reverse.2 hsorted, fun offset limit => ?_⟩
    rw [if_pos hparses, List.length_reverse]

theorem shown_of_readable {es : List LogEntry}
    (h : ∀ e ∈ es, (marshalObject e.members).length < 1024 * 1024 ∧ e.Valid) : shown es = es := by
  have hall : es.takeWhile (fun e => (marshalObject e.members).length < 1024 * 1024) = es :=
    List.takeWhile_eq_self_iff.2 fun e he => decide_eq_true (h e he).1
  rw [shown, hall, List.map_congr_left (g := id) fun e he => (h e he).2.received, List.map_id]

/-- Nothing of a file is lost or changed. -/
theorem perm_shown_iff (es : List LogEntry) :
    (shown es).Perm es ↔ ∀ e ∈ es, (marshalObject e.members).length < 1024 * 1024 ∧ e.Valid := by
  constructor
  · intro hperm
    have hlen := hperm.length_eq
    rw [shown, List.length_map] at hlen
    have hall := (List.takeWhile_prefix _).eq_of_length hlen
    have hshort : ∀ e ∈ es, (marshalObject e.members).length < 1024 * 1024 := by
      simpa using List.takeWhile_eq_self_iff.1 hall
    -- the strings that come back are as long as those that were written only if they are the same
    have hsize := (hperm.map LogEntry.size).sum_eq
    rw [shown, hall, List.map_map] at hsize
    intro e he
    refine ⟨hshort e he, LogEntry.valid_of_size (Nat.le_antisymm ?_ e.size_le_received)⟩
    by_contra hlonger
    have hlt := List.sum_lt_sum LogEntry.size (LogEntry.size ∘ LogEntry.received)
      (fun e _ => e.size_le_received) ⟨e, he, Nat.not_le.1 hlonger⟩
    omega
  · intro h
    rw [shown_of_readable h]

/-- The order within every day. -/
theorem chronological_iff (log : List LogEntry) :
    Chronological log ↔ ∀ e ∈ log, (log.filter (·.day = e.day)).Pairwise fun a b => a.ts ≤ b.ts := by
  constructor
  · intro h e _
    rw [List.pairwise_filter]
    refine h.imp ?_
    intro a b hab ha hb
    rw [decide_eq_true_eq] at ha hb
    exact hab (ha.trans hb.symm)
  · intro h
    unfold Chronological
    rw [List.pairwise_iff_forall_sublist]
    intro a b hsub hday
    have hpair : [a, b].Sublist (log.filter (·.day = a.day)) := by
      have := hsub.filter fun e => decide (e.day = a.day)
      rwa [List.filter_cons_of_pos (by simp), List.filter_cons_of_pos (by simp [hday]), List.filter_nil] at this
    have hmem : a ∈ log := hsub.subset (List.mem_cons_self ..)
    exact List.pairwise_iff_forall_sublist.1 (h a hmem) hpair

/-- An entry can be read if its year has four digits, its line is short and its strings are UTF-8. -/
theorem readable_iff (e : LogEntry) :
    e.Readable ↔ parsesDate e.day = true ∧ (marshalObject e.members).length < 1024 * 1024 ∧ e.Valid := by
  have hday : parsesDate e.day = true ↔ (dateOf (e.ts.toInt / 86400000)).FourDigits :=
    parsesDate_formatDate (valid_dateOf _)
  have hline : e.line.length = (marshalObject e.members).length + 1 := List.length_append
  constructor
  · rintro ⟨hsource, hlevel, htag, hmessage, hshort, hyear⟩
    exact ⟨hday.2 hyear, by omega, hsource, hlevel, htag, hmessage⟩
  · rintro ⟨hyear, hshort, hsource, hlevel, htag, hmessage⟩
    exact ⟨hsource, hlevel, htag, hmessage, by omega, hday.1 hyear⟩

/-- All entries of a run come back, the newest first, exactly when every one can be read and those of a day have come
in the order of their times. -/
theorem readsBack_iff {batches : List (LogBatch × List GoString)} {s : LogStore}
    (hrun : runSteps step empty (appends batches) = some s)
    (hquota : StepsMeet step UnderQuota empty (appends batches)) :
    (∀ e ∈ stored batches, ReadsBack s (stored batches) e.day) ↔
      (∀ e ∈ stored batches, e.Readable) ∧ Chronological (stored batches) := by
  have hholds : Holds s (stored batches) := holds_run holds_empty hrun hquota
  generalize stored batches = log at hholds
  have hiff : ∀ e ∈ log, (ReadsBack s log e.day ↔ _) := fun e he =>
    readsBack_iff_shown hholds (List.mem_map_of_mem he)
  have hday : ∀ e ∈ log, e ∈ log.filter (·.day = e.day) := fun e he => List.mem_filter.2 ⟨he, decide_eq_true rfl⟩
  constructor
  · intro h
    have hread : ∀ e ∈ log, ∀ a ∈ log.filter (·.day = e.day),
        (marshalObject a.members).length < 1024 * 1024 ∧ a.Valid := fun e he =>
      (perm_shown_iff _).1 ((hiff e he).1 (h e he)).2.1
    refine ⟨fun e he => ?_, (chronological_iff log).2 fun e he => ?_⟩
    · exact (readable_iff e).2 ⟨((hiff e he).1 (h e he)).1, hread e he e (hday e he)⟩
    · have hsorted := ((hiff e he).1 (h e he)).2.2
      rwa [shown_of_readable (hread e he)] at hsorted
  · rintro ⟨hreadable, hsorted⟩ e he
    have hread : ∀ a ∈ log.filter (·.day = e.day), (marshalObject a.members).length < 1024 * 1024 ∧ a.Valid :=
      fun a ha => ((readable_iff a).1 (hreadable a (List.mem_filter.1 ha).1)).2
    refine (hiff e he).2 ⟨((readable_iff e).1 (hreadable e he)).1, (perm_shown_iff _).2 hread, ?_⟩
    rw [shown_of_readable hread]
    exact (chronological_iff log).1 hsorted e he

set_option maxRecDepth 8000 in
/-- Two entries of a day. -/
theorem readsBack_two :
    ∃ s, runSteps step empty (appends [([(0, tagged 1 0), (0, tagged 2 1)], ["1970-01-01"])]) = some s ∧
      ∀ e ∈ [tagged 1 0, tagged 2 1], ReadsBack s [tagged 1 0, tagged 2 1] e.day := by
  have hperm : [str "1970-01-01"].Perm ((filled [(0, tagged 1 0), (0, tagged 2 1)]).map (·.day)).dedup := by
    decide
  have hstep := step_append empty hperm
  have hrun : runSteps step empty (appends [([(0, tagged 1 0), (0, tagged 2 1)], ["1970-01-01"])]) = some _ :=
    runSteps_cons_eq_some.2 ⟨_, hstep, rfl⟩
  refine ⟨_, hrun, (readsBack_iff hrun ?_).2 ⟨?_, ?_⟩⟩
  · refine stepsMeet_cons ?_ hstep trivial
    rintro t ⟨⟩
    decide
  · intro e he
    have he : e ∈ [tagged 1 0, tagged 2 1] := he
    simp only [List.mem_cons, List.not_mem_nil, or_false] at he
    rcases he with rfl | rfl
    · exact ⟨by decide, by decide, by decide, by decide, by decide, by decide⟩
    · exact ⟨by decide, by decide, by decide, by decide, by decide, by decide⟩
  · show [tagged 1 0, tagged 2 1].Pairwise _
    decide

theorem long_lost {k : Nat} (hlong : 1024 * 1024 < (tagged 1 k).line.length)
    (hsmall : (tagged 1 k).line.length ≤ maxLogsBytes) :
    ∃ (batches : List (LogBatch × List GoString)) (s : LogStore),
      runSteps step empty (appends batches) = some s ∧ StepsMeet step UnderQuota empty (appends batches) ∧
        ¬ ∀ e ∈ stored batches, ReadsBack s (stored batches) e.day := by
  have hstep := step_tagged (show (1 : Int64) ≠ 0 by decide) k empty
  have hquota : StepsMeet step UnderQuota empty (appends [([(0, tagged 1 k)], [(tagged 1 k).day])]) := by
    refine stepsMeet_cons ?_ hstep trivial
    rintro t ⟨⟩
    rw [writeBatch_tagged (by decide)]
    simpa [countDay, empty, totalBytes] using hsmall
  have hrun : runSteps step empty (appends [([(0, tagged 1 k)], [(tagged 1 k).day])]) = some _ :=
    runSteps_cons_eq_some.2 ⟨_, hstep, rfl⟩
  refine ⟨_, _, hrun, hquota, fun h => ?_⟩
  have hshort := (((readsBack_iff hrun hquota).1 h).1 (tagged 1 k) ?_).short
  · omega
  · have hstored : stored [([(0, tagged 1 k)], [(tagged 1 k).day])] = [tagged 1 k] := by
      simp [stored, filled_tagged]
    rw [hstored]
    exact List.mem_singleton.2 rfl

/-- An entry with a tag of a mebibyte does not come back. -/
theorem longTag_lost : ∃ (batches : List (LogBatch × List GoString)) (s : LogStore),
    runSteps step empty (appends batches) = some s ∧ StepsMeet step UnderQuota empty (appends batches) ∧
      ¬ ∀ e ∈ stored batches, ReadsBack s (stored batches) e.day := by
  have hlen : (tagged 1 (2 ^ 20 - 1)).line.length = 2 ^ 20 + 59 := by
    rw [length_line_tagged]
    rfl
  refine long_lost (k := 2 ^ 20 - 1) ?_ ?_
  · rw [hlen]
    decide
  · rw [hlen]
    decide

end LogStore

end Gafam.Relay
