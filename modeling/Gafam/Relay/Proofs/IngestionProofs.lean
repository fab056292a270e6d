import Gafam.Relay.Mailbox
import Gafam.Relay.Proofs.MailboxProofs
import Gafam.Relay.Proofs.DedupProofs

/-!
# An SMS that comes both ways

The first arrival stores the row, and every later one finds it, if it stands among the candidates of the query. The
row keeps the status of the first arrival, which is the same for both only if the sender is a contact.
-/

namespace Gafam.Relay

open Gafam.Go Gafam.Lib

/-! ## What an operation does to the rows -/

/-- What never changes about a row. -/
def entry (r : Row Sms) : Nat × GoString × GoString × Int := (r.id, r.val.key)

/-- A push stores its row and cuts the table to the rolling window. -/
theorem execSms_push {t : SmsTable} {op : MailOp} {now : Int} {sender body : GoString} {timestamp : Int} {contact : Bool}
    {c : DedupCall} (hop : op = .push now sender body timestamp contact) (hc : op.call = some c) :
    op.execSms t = if (c.result t).inserted then (c.exec t).keepLast maxStoredSms else c.exec t := by
  subst hop
  cases hc
  rfl

/-- Another operation with a call stores its row. -/
theorem execSms_call {t : SmsTable} {op : MailOp} {c : DedupCall} (hc : op.call = some c)
    (hop : ∀ now sender body timestamp contact, op ≠ .push now sender body timestamp contact) :
    op.execSms t = c.exec t := by
  cases op with
  | push now sender body timestamp contact => exact absurd rfl (hop now sender body timestamp contact)
  | sync now m =>
    simp only [MailOp.execSms, hc]
  | send now recipient body =>
    simp only [MailOp.execSms, hc]
  | reply now recipient body =>
    cases hc
    rfl
  | report outboxID smsID sent => cases hc
  | deleteOutbox id => cases hc
  | deleteSms ids => cases hc
  | deleteConversation peer => cases hc
  | purge => cases hc

theorem result_of_refused {t : SmsTable} {c : DedupCall} (h : Refused t c) : (c.result t).inserted = false := by
  rcases insertSmsDeduped_cases t c with ⟨-, hcase⟩ | ⟨hno, -⟩
  · exact congrArg (·.1.inserted) hcase
  · exact absurd h hno

theorem execSms_of_refused {t : SmsTable} {op : MailOp} {c : DedupCall} (hc : op.call = some c) (h : Refused t c) :
    op.execSms t = t := by
  by_cases hop : ∃ now sender body timestamp contact, op = .push now sender body timestamp contact
  · obtain ⟨now, sender, body, timestamp, contact, hop⟩ := hop
    rw [execSms_push hop hc, result_of_refused h]
    exact exec_of_refused h
  · push Not at hop
    rw [execSms_call hc hop]
    exact exec_of_refused h

/-- The rows of a table come from those of another one, perhaps with a few new ones behind them. -/
structure Follows (t t' : SmsTable) (added : List (Row Sms)) : Prop where
  entries : (t'.rows.map entry).Sublist ((t.rows ++ added).map entry)
  seq : t.seq ≤ t'.seq

theorem follows_of_sublist {t t' : SmsTable} (h : t'.rows.Sublist t.rows) (hseq : t.seq ≤ t'.seq) :
    Follows t t' [] := by
  refine ⟨?_, hseq⟩
  rw [List.append_nil]
  exact h.map entry

theorem Follows.keepLast {t t' : SmsTable} {added : List (Row Sms)} (h : Follows t t' added) (n : Nat) :
    Follows t (t'.keepLast n) added := by
  have hsub : (t'.keepLast n).rows.Sublist t'.rows := List.drop_sublist _ _
  exact ⟨(hsub.map entry).trans h.entries, h.seq⟩

theorem follows_setStatus (t : SmsTable) (k : Nat) (status : SmsStatus) : Follows t (t.setStatus k status) [] := by
  refine ⟨?_, Nat.le_refl _⟩
  have hsame : (t.setStatus k status).rows.map entry = t.rows.map entry := by
    show (t.rows.map _).map entry = _
    rw [List.map_map]
    refine List.map_congr_left fun r _ => ?_
    simp only [Function.comp_apply]
    split_ifs <;> rfl
  rw [hsame, List.append_nil]

theorem follows_exec (t : SmsTable) (c : DedupCall) :
    ∃ added, Follows t (c.exec t) added ∧ ∀ a ∈ added, a.id = t.nextId ∧ a.val = c.sms := by
  rcases insertSmsDeduped_cases t c with ⟨href, -⟩ | ⟨-, -, hrows, hseq⟩
  · rw [exec_of_refused href]
    exact ⟨[], follows_of_sublist (.refl _) (Nat.le_refl _), by simp⟩
  · refine ⟨[⟨t.nextId, c.sms⟩], ⟨?_, ?_⟩, ?_⟩
    · rw [hrows]
    · rw [hseq]
      exact Nat.le_succ _
    · intro a ha
      rw [List.mem_singleton.1 ha]
      exact ⟨rfl, rfl⟩

/-- Every row after an operation is an old one, up to its status, or that of the call. -/
theorem follows_execSms (t : SmsTable) (op : MailOp) :
    ∃ added, Follows t (op.execSms t) added ∧ ∀ a ∈ added, a.id = t.nextId ∧ ∃ c, op.call = some c ∧ a.val = c.sms := by
  cases hc : op.call with
  | some c =>
    obtain ⟨added, hfollows, hadded⟩ := follows_exec t c
    refine ⟨added, ?_, fun a ha => ⟨(hadded a ha).1, c, rfl, (hadded a ha).2⟩⟩
    by_cases hop : ∃ now sender body timestamp contact, op = .push now sender body timestamp contact
    · obtain ⟨now, sender, body, timestamp, contact, hop⟩ := hop
      rw [execSms_push hop hc]
      split_ifs
      · exact hfollows.keepLast maxStoredSms
      · exact hfollows
    · push Not at hop
      rw [execSms_call hc hop]
      exact hfollows
  | none =>
    refine ⟨[], ?_, by simp⟩
    have hsame : Follows t t [] := follows_of_sublist (.refl _) (Nat.le_refl _)
    have hdelete (p : Row Sms → Bool) : Follows t (t.delete p) [] :=
      follows_of_sublist List.filter_sublist (Nat.le_refl _)
    cases op with
    | push now sender body timestamp contact => cases hc
    | sync now m =>
      simp only [MailOp.execSms, hc]
      exact hsame
    | send now recipient body =>
      simp only [MailOp.execSms, hc]
      exact hsame
    | reply now recipient body => cases hc
    | report outboxID smsID sent =>
      simp only [MailOp.execSms]
      split_ifs
      · exact follows_setStatus ..
      · exact follows_setStatus ..
      · exact hsame
    | deleteOutbox id => exact hsame
    | deleteSms ids => exact hdelete _
    | deleteConversation peer => exact hdelete _
    | purge => exact hdelete _

/-! ## Places in the query -/

/-- A candidate that the query answers stands behind fewer than its limit. -/
theorem lt_limit_of_mem {l : List (Row Sms)} (hl : l.Pairwise fun a b : Row Sms => a.id < b.id) {a : Row Sms} {n : Nat}
    (ha : a ∈ l.take n) : (l.filter fun r => r.id < a.id).length < n := by
  rw [← List.take_append_drop n l, List.pairwise_append] at hl
  have hdrop : (l.drop n).filter (fun r => r.id < a.id) = [] := by
    refine List.filter_eq_nil_iff.2 fun r hr => ?_
    have := hl.2.2 a ha r hr
    simpa using Nat.le_of_lt this
  have hless : ((l.take n).filter fun r => r.id < a.id).length < (l.take n).length :=
    List.length_filter_lt_length_iff_exists.2 ⟨a, ha, by simp⟩
  have hsplit : l.filter (fun r => r.id < a.id) = (l.take n).filter fun r => r.id < a.id := by
    conv_lhs => rw [← List.take_append_drop n l, List.filter_append, hdrop, List.append_nil]
  rw [hsplit]
  exact Nat.lt_of_lt_of_le hless (List.length_take_le n l)

/-- The rows of this text near a time that stand before a row. -/
def before (t : SmsTable) (body : GoString) (timestamp : Int) (k : Nat) : Nat :=
  ((near t body timestamp).filter fun r => r.id < k).length

theorem mem_near {t : SmsTable} {body : GoString} {timestamp : Int} {r : Row Sms} :
    r ∈ near t body timestamp ↔ r ∈ t.rows ∧ r.val.body = body ∧ inWindow r.val.timestamp timestamp = true := by
  unfold near
  rw [List.mem_filter, Bool.and_eq_true, beq_iff_eq]

/-- Nothing comes to stand before an old row. -/
theorem before_le_of_follows {t t' : SmsTable} {added : List (Row Sms)} (h : Follows t t' added) {k : Nat}
    (hadded : ∀ a ∈ added, k ≤ a.id) (body : GoString) (timestamp : Int) :
    before t' body timestamp k ≤ before t body timestamp k := by
  let q : Nat × GoString × GoString × Int → Bool := fun e =>
    decide (e.1 < k) && (e.2.2.1 == body && inWindow e.2.2.2 timestamp)
  have hcount (l : List (Row Sms)) : ((l.map entry).filter q).length =
      ((l.filter fun r => r.val.body == body && inWindow r.val.timestamp timestamp).filter fun r => r.id < k).length := by
    rw [List.filter_map, List.length_map, List.filter_filter]
    rfl
  have hnone : ((added.map entry).filter q).length = 0 := by
    rw [List.length_eq_zero_iff, List.filter_eq_nil_iff]
    intro e he
    obtain ⟨a, ha, rfl⟩ := List.mem_map.1 he
    have := hadded a ha
    simp only [q, entry, Bool.and_eq_true, decide_eq_true_eq, not_and]
    omega
  have hle := (h.entries.filter q).length_le
  rw [List.map_append, List.filter_append, List.length_append, hnone, hcount, hcount] at hle
  exact hle

namespace TwiceSent

variable {x : TwiceSent} {contacts : List Contact}

/-! ## The calls of the SMS -/

theorem Is.congr {m m' : Sms} (h : m.key = m'.key) (hm : x.Is m) : x.Is m' := by
  obtain ⟨hsender, hrest⟩ := Prod.mk.inj h
  obtain ⟨hbody, htime⟩ := Prod.mk.inj hrest
  unfold Is SameMessage at hm ⊢
  rwa [← hsender, ← hbody, ← htime]

/-- The call that an arrival makes. -/
structure Copy (x : TwiceSent) (c : DedupCall) : Prop where
  sender : c.sender = x.sender
  body : c.body = x.body
  time : c.time = x.time ∨ c.time = x.synced

def pushCall (x : TwiceSent) (contacts : List Contact) : DedupCall :=
  ⟨x.now, x.sender, x.body, x.pushed, if isContact contacts x.sender then .inbox else .purgatory⟩

def syncCall (x : TwiceSent) (now : Int) : DedupCall := ⟨now, x.sender, x.body, x.synced, .inbox⟩

theorem call_push : (x.push contacts).call = some (x.pushCall contacts) := rfl

theorem call_sync (now : Int) : (x.sync now).call = some (x.syncCall now) := by
  have hcall : ¬ (x.sender = [] ∨ x.body = [] ∨ x.synced = 0) := by
    rintro (h | h | h)
    · exact x.sender_ne h
    · exact x.body_ne h
    · exact x.synced_ne h
  show (if _ then none else some _) = _
  rw [if_neg hcall, if_neg x.inbound]
  rfl

theorem time_syncCall (now : Int) : (x.syncCall now).time = x.synced := if_neg x.synced_ne

theorem copy_push : x.Copy (x.pushCall contacts) := ⟨rfl, rfl, .inl rfl⟩

theorem copy_sync (now : Int) : x.Copy (x.syncCall now) := ⟨rfl, rfl, .inr (time_syncCall now)⟩

theorem Arrival.copy {op : MailOp} (h : x.Arrival contacts op) : ∃ c, op.call = some c ∧ x.Copy c := by
  cases h with
  | push => exact ⟨_, call_push, copy_push⟩
  | sync now => exact ⟨_, call_sync now, copy_sync now⟩

theorem inWindow_self (s : Int) : inWindow s s = true := by
  unfold inWindow
  rw [Int.sub_self]
  decide

/-- The two times are close to each other. -/
theorem inWindow_times {s s' : Int} (hs : s = x.time ∨ s = x.synced) (hs' : s' = x.time ∨ s' = x.synced) :
    inWindow s s' = true := by
  rcases hs with rfl | rfl <;> rcases hs' with rfl | rfl
  · exact inWindow_self _
  · exact x.close
  · rw [inWindow_symm]
    exact x.close
  · exact inWindow_self _

theorem Copy.is_of_match {c : DedupCall} (hc : x.Copy c) {m : Sms} (hbody : m.body = c.body)
    (hphones : phonesMatch c.sender m.sender = true) (hwindow : inWindow m.timestamp c.time = true) : x.Is m := by
  rw [hc.sender] at hphones
  rw [hc.body] at hbody
  have hbody_ne : m.body ≠ [] := hbody ▸ x.body_ne
  rcases hc.time with htime | htime
  · rw [htime] at hwindow
    exact .inl ⟨hbody, hbody_ne, .inr (phonesMatch_symm hphones), hwindow⟩
  · rw [htime] at hwindow
    exact .inr ⟨hbody, hbody_ne, .inr (phonesMatch_symm hphones), hwindow⟩

theorem Copy.is_sms {c : DedupCall} (hc : x.Copy c) : x.Is c.sms := by
  have hbody : c.sms.body = x.body := hc.body
  have hbody_ne : c.sms.body ≠ [] := hbody ▸ x.body_ne
  rcases hc.time with htime | htime
  · refine .inl ⟨hbody, hbody_ne, .inl hc.sender, ?_⟩
    show inWindow c.time x.time = true
    rw [htime]
    exact inWindow_self _
  · refine .inr ⟨hbody, hbody_ne, .inl hc.sender, ?_⟩
    show inWindow c.time x.synced = true
    rw [htime]
    exact inWindow_self _

theorem Copy.key {c : DedupCall} (hc : x.Copy c) : c.sms.key = (x.sender, x.body, c.time) := by
  show (c.sender, c.body, c.time) = _
  rw [hc.sender, hc.body]

/-- A table without rows of the SMS takes it in. -/
theorem not_refused_of_new {t : SmsTable} (hnew : x.rowsOf t = []) {c : DedupCall} (hc : x.Copy c) : ¬ Refused t c := by
  have hno : ∀ a ∈ t.rows, ¬ x.Is a.val := fun a ha his =>
    List.filter_eq_nil_iff.1 hnew a ha (decide_eq_true his)
  rintro (hnear | ⟨a, ha, hkey⟩)
  · obtain ⟨-, -, a, ha, hphones⟩ := smsNearDuplicateID_isSome.1 hnear
    obtain ⟨hmem, hbody, hwindow⟩ := mem_of_mem_nearCandidates ha
    exact hno a hmem (hc.is_of_match hbody hphones hwindow)
  · exact hno a ha (hc.is_sms.congr hkey.symm)

/-! ## One row -/

/-- The SMS has this row and no other one, up to its status. -/
structure OnlyRow (x : TwiceSent) (t : SmsTable) (r : Row Sms) : Prop where
  only : ∀ a ∈ t.rows, x.Is a.val → a.id = r.id
  key : ∀ a ∈ t.rows, a.id = r.id → a.val.key = r.val.key
  seq : r.id ≤ t.seq

/-- When a later arrival is refused. -/
theorem refused_iff {t : SmsTable} {r : Row Sms} (h : x.OnlyRow t r) (hr : ∃ a ∈ t.rows, a.id = r.id) {s : Int}
    (hkey : r.val.key = (x.sender, x.body, s)) (hs : s = x.time ∨ s = x.synced) {c : DedupCall} (hc : x.Copy c) :
    Refused t c ↔
      c.time = s ∨ lastNine x.sender ≠ [] ∧ c.time ≠ 0 ∧ before t x.body c.time r.id < candidateLimit := by
  have hsorted : (near t x.body c.time).Pairwise fun a b : Row Sms => a.id < b.id := t.sorted.filter _
  constructor
  · rintro (hnear | ⟨a, ha, hsame⟩)
    · right
      obtain ⟨-, htime, a, ha, hphones⟩ := smsNearDuplicateID_isSome.1 hnear
      obtain ⟨hmem, hbody, hwindow⟩ := mem_of_mem_nearCandidates ha
      have hid := h.only a hmem (hc.is_of_match hbody hphones hwindow)
      have hdigits := (phonesMatch_iff.1 hphones).1
      rw [hc.sender] at hdigits
      unfold nearCandidates at ha
      rw [hc.body] at ha
      have hlt := lt_limit_of_mem hsorted ha
      rw [hid] at hlt
      exact ⟨hdigits, htime, hlt⟩
    · left
      have hid := h.only a ha (hc.is_sms.congr hsame.symm)
      have hkeys := (h.key a ha hid).symm.trans hsame
      rw [hkey, hc.key] at hkeys
      exact (Prod.mk.inj (Prod.mk.inj hkeys).2).2.symm
  · obtain ⟨a, ha, hid⟩ := hr
    have hakey := (h.key a ha hid).trans hkey
    rintro (htime | ⟨hdigits, htime, hlimit⟩)
    · refine .inr ⟨a, ha, ?_⟩
      rw [hakey, hc.key, htime]
    · obtain ⟨hsender, hrest⟩ := Prod.mk.inj hakey
      obtain ⟨hbody, hstamp⟩ := Prod.mk.inj hrest
      have hnear : a ∈ near t x.body c.time := by
        refine mem_near.2 ⟨ha, hbody, ?_⟩
        rw [hstamp]
        exact inWindow_times hs hc.time
      have hcand : a ∈ nearCandidates t c.body c.time := by
        unfold nearCandidates
        rw [hc.body]
        by_contra hnot
        have := limit_of_notMem hsorted hnear hnot
        rw [hid] at this
        exact absurd hlimit (Nat.not_lt.2 this)
      refine .inl (smsNearDuplicateID_isSome.2 ⟨hc.body ▸ x.body_ne, htime, a, hcand, ?_⟩)
      rw [hc.sender, hsender]
      exact phonesMatch_self hdigits

/-- An old id is not used again. -/
theorem old_id {t : SmsTable} {op : MailOp} {k : Nat} (hk : k ≤ t.seq) (h : ∃ a ∈ (op.execSms t).rows, a.id = k) :
    ∃ a ∈ t.rows, a.id = k := by
  obtain ⟨added, hfollows, hadded⟩ := follows_execSms t op
  obtain ⟨a, ha, rfl⟩ := h
  obtain ⟨b, hb, hentry⟩ := List.mem_map.1 (hfollows.entries.subset (List.mem_map_of_mem ha))
  have hid : b.id = a.id := (Prod.mk.inj hentry).1
  rcases List.mem_append.1 hb with hb | hb
  · exact ⟨b, hb, hid⟩
  · have hnext : t.seq < b.id := by
      rw [(hadded b hb).1]
      exact Nat.lt_succ_self _
    omega

theorem old_id_run {t : SmsTable} {ops : List MailOp} {k : Nat} (hk : k ≤ t.seq)
    (h : ∃ a ∈ (runSms t ops).rows, a.id = k) : ∃ a ∈ t.rows, a.id = k := by
  induction ops generalizing t with
  | nil => exact h
  | cons op ops ih =>
    obtain ⟨added, hfollows, -⟩ := follows_execSms t op
    exact old_id hk (ih (Nat.le_trans hk hfollows.seq) h)

/-- Other operations leave the row the only one, and let nothing pass in front of it. -/
theorem onlyRow_other {t : SmsTable} {r : Row Sms} (h : x.OnlyRow t r) {op : MailOp} (hop : x.Other op) :
    x.OnlyRow (op.execSms t) r ∧
      ∀ body s, before (op.execSms t) body s r.id ≤ before t body s r.id := by
  obtain ⟨added, hfollows, hadded⟩ := follows_execSms t op
  have hnext : ∀ a ∈ added, r.id < a.id := by
    intro a ha
    rw [(hadded a ha).1]
    exact Nat.lt_succ_of_le h.seq
  have hold : ∀ a ∈ (op.execSms t).rows, (∃ b ∈ t.rows, b.id = a.id ∧ b.val.key = a.val.key) ∨
      r.id < a.id ∧ ¬ x.Is a.val := by
    intro a ha
    obtain ⟨b, hb, hentry⟩ := List.mem_map.1 (hfollows.entries.subset (List.mem_map_of_mem ha))
    obtain ⟨hid, hkey⟩ := Prod.mk.inj hentry
    rcases List.mem_append.1 hb with hb | hb
    · exact .inl ⟨b, hb, hid, hkey⟩
    · obtain ⟨-, c, hc, hval⟩ := hadded b hb
      refine .inr ⟨hid ▸ hnext b hb, fun his => hop c hc ?_⟩
      rw [← hval]
      exact his.congr hkey.symm
  refine ⟨⟨?_, ?_, Nat.le_trans h.seq hfollows.seq⟩, ?_⟩
  · intro a ha his
    rcases hold a ha with ⟨b, hb, hid, hkey⟩ | ⟨-, hno⟩
    · exact hid ▸ h.only b hb (his.congr hkey.symm)
    · exact absurd his hno
  · intro a ha hid
    rcases hold a ha with ⟨b, hb, hid', hkey⟩ | ⟨hlt, -⟩
    · exact hkey ▸ h.key b hb (hid'.trans hid)
    · omega
  · intro body s
    exact before_le_of_follows hfollows (fun a ha => Nat.le_of_lt (hnext a ha)) body s

/-- The row can be found again at each of the two times. -/
def Findable (x : TwiceSent) (t : SmsTable) (k : Nat) (s : Int) : Prop :=
  ∀ s', s' = x.time ∨ s' = x.synced →
    s' = s ∨ lastNine x.sender ≠ [] ∧ s' ≠ 0 ∧ before t x.body s' k < candidateLimit

/-- As long as the row is there, it stays the only one. -/
theorem onlyRow_run {ops : List MailOp} (hops : ∀ op ∈ ops, x.Arrival contacts op ∨ x.Other op) {t : SmsTable}
    {r : Row Sms} (h : x.OnlyRow t r) {s : Int} (hkey : r.val.key = (x.sender, x.body, s))
    (hs : s = x.time ∨ s = x.synced) (hfound : x.Findable t r.id s) (hlast : ∃ a ∈ (runSms t ops).rows, a.id = r.id) :
    x.OnlyRow (runSms t ops) r := by
  induction ops generalizing t with
  | nil => exact h
  | cons op ops ih =>
    have hops' : ∀ op ∈ ops, x.Arrival contacts op ∨ x.Other op := fun op hop => hops op (List.mem_cons_of_mem _ hop)
    rcases hops op (List.mem_cons_self ..) with harrival | hother
    · obtain ⟨c, hc, hcopy⟩ := harrival.copy
      have hrefused : Refused t c := (refused_iff h (old_id_run h.seq hlast) hkey hs hcopy).2 (hfound c.time hcopy.time)
      have hsame : runSms t (op :: ops) = runSms t ops := congrArg (runSms · ops) (execSms_of_refused hc hrefused)
      rw [hsame] at hlast ⊢
      exact ih hops' h hfound hlast
    · obtain ⟨honly, hbefore⟩ := onlyRow_other h hother
      refine ih hops' honly (fun s' hs' => (hfound s' hs').imp_right ?_) hlast
      rintro ⟨hdigits, hzero, hlimit⟩
      exact ⟨hdigits, hzero, Nat.lt_of_le_of_lt (hbefore x.body s') hlimit⟩

theorem rowsOf_onlyRow {t : SmsTable} {r : Row Sms} (h : x.OnlyRow t r) (hr : r ∈ t.rows) (his : x.Is r.val) :
    x.rowsOf t = [r] := by
  have hmem : r ∈ x.rowsOf t := List.mem_filter.2 ⟨hr, decide_eq_true his⟩
  have hsorted : (x.rowsOf t).Pairwise fun a b : Row Sms => a.id < b.id := t.sorted.filter _
  have hid : ∀ a ∈ x.rowsOf t, a.id = r.id := by
    intro a ha
    obtain ⟨ha, his⟩ := List.mem_filter.1 ha
    exact h.only a ha (of_decide_eq_true his)
  cases hrows : x.rowsOf t with
  | nil =>
    rw [hrows] at hmem
    cases hmem
  | cons a l =>
    rw [hrows] at hmem hsorted hid
    have hlt := (List.pairwise_cons.1 hsorted).1
    have ha := hid a (List.mem_cons_self ..)
    have hnil : l = [] := by
      refine List.eq_nil_iff_forall_not_mem.2 fun b hb => ?_
      have := hlt b hb
      have := hid b (List.mem_cons_of_mem _ hb)
      omega
    subst hnil
    rw [List.mem_singleton.1 hmem]

/-! ## The first arrival -/

/-- The row of the call stands behind the rows of a table that are left. -/
structure StoresFirst (t base t' : SmsTable) (r : Row Sms) : Prop where
  subset : ∀ a ∈ base.rows, a ∈ t.rows
  rows : t'.rows = base.rows ++ [r]
  id : r.id = t.nextId
  seq : t'.seq = t.nextId

theorem StoresFirst.onlyRow {t base t' : SmsTable} {r : Row Sms} (h : StoresFirst t base t' r)
    (hnew : x.rowsOf t = []) (his : x.Is r.val) : x.OnlyRow t' r ∧ x.rowsOf t' = [r] := by
  have honly : x.OnlyRow t' r := by
    refine ⟨?_, ?_, ?_⟩
    · intro a ha hais
      rw [h.rows] at ha
      rcases List.mem_append.1 ha with ha | ha
      · exact absurd (decide_eq_true hais) (List.filter_eq_nil_iff.1 hnew a (h.subset a ha))
      · rw [List.mem_singleton.1 ha]
    · intro a ha hid
      rw [h.rows] at ha
      rcases List.mem_append.1 ha with ha | ha
      · have hle := t.le_seq a (h.subset a ha)
        have hnext : t.nextId = t.seq + 1 := rfl
        rw [h.id] at hid
        omega
      · rw [List.mem_singleton.1 ha]
    · rw [h.id, h.seq]
  refine ⟨honly, rowsOf_onlyRow honly ?_ his⟩
  rw [h.rows]
  exact List.mem_append_right _ (List.mem_singleton.2 rfl)

/-- Before the row stand the rows that are left. -/
theorem StoresFirst.before {t base t' : SmsTable} {r : Row Sms} (h : StoresFirst t base t' r) (body : GoString) (s : Int) :
    before t' body s r.id = (near base body s).length := by
  have hold : (near base body s).filter (fun a => a.id < r.id) = near base body s := by
    refine List.filter_eq_self.2 fun a ha => decide_eq_true ?_
    have hle := t.le_seq a (h.subset a (List.mem_filter.1 ha).1)
    have hnext : t.nextId = t.seq + 1 := rfl
    rw [h.id]
    omega
  have hself : ([r].filter fun a => a.val.body == body && inWindow a.val.timestamp s).filter (fun a => a.id < r.id) = [] := by
    refine List.filter_eq_nil_iff.2 fun a ha => ?_
    rw [List.mem_singleton.1 (List.mem_filter.1 ha).1]
    simp
  unfold Gafam.Relay.before near
  rw [h.rows, List.filter_append, List.filter_append, hself, List.append_nil]
  exact congrArg List.length hold

theorem rows_keepLast_concat {t t' : SmsTable} {r : Row Sms} (h : t'.rows = t.rows ++ [r]) {n : Nat} (hn : 0 < n) :
    (t'.keepLast n).rows = (t.keepLast (n - 1)).rows ++ [r] := by
  show t'.rows.drop (t'.rows.length - n) = t.rows.drop (t.rows.length - (n - 1)) ++ [r]
  have hdrop : t.rows.length + 1 - n = t.rows.length - (n - 1) := by omega
  rw [h, List.length_append, List.length_singleton, hdrop, List.drop_append_of_le_length (Nat.sub_le _ _)]

theorem storesFirst_sync {t : SmsTable} (hnew : x.rowsOf t = []) (now : Int) :
    StoresFirst t t ((x.sync now).execSms t) ⟨t.nextId, (x.syncCall now).sms⟩ := by
  have hno := not_refused_of_new hnew (copy_sync (x := x) now)
  have hexec : (x.sync now).execSms t = (x.syncCall now).exec t := execSms_call (call_sync now) (by rintro _ _ _ _ _ ⟨⟩)
  rcases insertSmsDeduped_cases t (x.syncCall now) with ⟨href, -⟩ | ⟨-, -, hrows, hseq⟩
  · exact absurd href hno
  · rw [hexec]
    exact ⟨fun _ ha => ha, hrows, rfl, hseq⟩

theorem storesFirst_keepLast {t t' : SmsTable} {m : Sms} (hrows : t'.rows = t.rows ++ [⟨t.nextId, m⟩])
    (hseq : t'.seq = t.nextId) {n : Nat} (hn : 0 < n) :
    StoresFirst t (t.keepLast (n - 1)) (t'.keepLast n) ⟨t.nextId, m⟩ :=
  ⟨fun _ ha => mem_of_mem_keepLast ha, rows_keepLast_concat hrows hn, rfl, hseq⟩

theorem maxStoredSms_pos : 0 < maxStoredSms := by
  unfold maxStoredSms
  omega

theorem storesFirst_push {t : SmsTable} (hnew : x.rowsOf t = []) :
    StoresFirst t (t.keepLast (maxStoredSms - 1)) ((x.push contacts).execSms t) ⟨t.nextId, (x.pushCall contacts).sms⟩ := by
  have hno : ¬ Refused t (x.pushCall contacts) := not_refused_of_new hnew copy_push
  rcases insertSmsDeduped_cases t (x.pushCall contacts) with ⟨href, -⟩ | ⟨-, hresult, hrows, hseq⟩
  · exact absurd href hno
  · have hinserted : ((x.pushCall contacts).result t).inserted = true := congrArg (·.inserted) hresult
    have hpush : x.push contacts = .push x.now x.sender x.body x.pushed (isContact contacts x.sender) := rfl
    have hexec : (x.push contacts).execSms t = ((x.pushCall contacts).exec t).keepLast maxStoredSms := by
      rw [execSms_push hpush call_push, if_pos hinserted]
    rw [hexec]
    exact storesFirst_keepLast hrows hseq maxStoredSms_pos

/-- The first arrival in a table that is new to the SMS: its row is the only one, and its status is that of its call. -/
theorem Arrival.first {first : MailOp} (h : x.Arrival contacts first) {t : SmsTable} (hnew : x.rowsOf t = []) :
    ∃ base r c, StoresFirst t base (first.execSms t) r ∧ x.Copy c ∧ r.val = c.sms ∧
      (first = x.push contacts ∧ base = t.keepLast (maxStoredSms - 1) ∧ c = x.pushCall contacts ∨
        ∃ now, first = x.sync now ∧ base = t ∧ c = x.syncCall now) := by
  cases h with
  | push => exact ⟨_, _, _, storesFirst_push hnew, copy_push, rfl, .inl ⟨rfl, rfl, rfl⟩⟩
  | sync now => exact ⟨_, _, _, storesFirst_sync hnew now, copy_sync now, rfl, .inr ⟨now, rfl, rfl, rfl⟩⟩

/-- What the two times need is what each of the two rows needs. -/
theorem findable_of_foundAgain {t base t' : SmsTable} {r : Row Sms} (h : StoresFirst t base t' r) {s : Int}
    (hbase : s = x.time ∧ base = t.keepLast (maxStoredSms - 1) ∨ s = x.synced ∧ base = t) (hfound : x.FoundAgain t) :
    x.Findable t' r.id s := by
  intro s' hs'
  by_cases hsame : s' = s
  · exact .inl hsame
  right
  rw [h.before]
  rcases hfound with htimes | ⟨hdigits, hzero, hsynced, htime⟩
  · refine absurd ?_ hsame
    rcases hbase with ⟨rfl, -⟩ | ⟨rfl, -⟩ <;> rcases hs' with rfl | rfl
    · rfl
    · exact htimes.symm
    · exact htimes
    · rfl
  · rcases hbase with ⟨rfl, rfl⟩ | ⟨rfl, rfl⟩
    · obtain rfl := hs'.resolve_left hsame
      exact ⟨hdigits, x.synced_ne, hsynced⟩
    · obtain rfl := hs'.resolve_right hsame
      exact ⟨hdigits, hzero, htime⟩

/-! ## Both ways -/

theorem sameEitherWay_of_contact {t : SmsTable} (hnew : x.rowsOf t = []) (hcontact : isContact contacts x.sender = true)
    (hfound : x.FoundAgain t) : x.SameEitherWay contacts t := by
  refine ⟨.inbox, fun first hfirst ops hops hkept => ?_⟩
  obtain ⟨base, r, c, hstores, hcopy, hval, hcase⟩ := hfirst.first hnew
  have his : x.Is r.val := hval ▸ hcopy.is_sms
  obtain ⟨honly, hrows⟩ := hstores.onlyRow hnew his
  have hr : r ∈ (runSms (first.execSms t) ops).rows := hkept r (hrows ▸ List.mem_singleton.2 rfl)
  have hkey : r.val.key = (x.sender, x.body, c.time) := hval ▸ hcopy.key
  have hbase : c.time = x.time ∧ base = t.keepLast (maxStoredSms - 1) ∨ c.time = x.synced ∧ base = t := by
    rcases hcase with ⟨-, hbase, rfl⟩ | ⟨now, -, hbase, rfl⟩
    · exact .inl ⟨rfl, hbase⟩
    · exact .inr ⟨time_syncCall now, hbase⟩
  have hlast := onlyRow_run hops honly hkey hcopy.time (findable_of_foundAgain hstores hbase hfound) ⟨r, hr, rfl⟩
  rw [rowsOf_onlyRow hlast hr his, List.map_singleton, hval]
  rcases hcase with ⟨-, -, rfl⟩ | ⟨now, -, -, rfl⟩
  · show [if isContact contacts x.sender then SmsStatus.inbox else .purgatory] = _
    rw [if_pos hcontact]
  · rfl

/-- A second row is one too many. -/
theorem refused_of_single {t t' : SmsTable} {c : DedupCall} {r : Row Sms} {status : SmsStatus} (his : x.Is r.val)
    (hrows : x.rowsOf t = [r])
    (hstored : ¬ Refused t c → ∃ l r', t'.rows = l ++ [r, r'] ∧ x.Is r'.val)
    (h : (∀ a ∈ x.rowsOf t, a ∈ t'.rows) → (x.rowsOf t').map (·.val.status) = [status]) : Refused t c := by
  by_contra hno
  obtain ⟨l, r', ht', his'⟩ := hstored hno
  have hkept : ∀ a ∈ x.rowsOf t, a ∈ t'.rows := by
    intro a ha
    rw [hrows] at ha
    rw [List.mem_singleton.1 ha, ht']
    exact List.mem_append_right _ (List.mem_cons_self ..)
  have htwo : [r, r'].filter (fun a => x.Is a.val) = [r, r'] := by simp [his, his']
  have hlen := congrArg List.length (h hkept)
  unfold rowsOf at hlen
  rw [ht', List.filter_append, htwo] at hlen
  simp at hlen

theorem stored_sync {t : SmsTable} {l : List (Row Sms)} {r : Row Sms} (ht : t.rows = l ++ [r]) (now : Int)
    (hno : ¬ Refused t (x.syncCall now)) :
    ∃ l r', ((x.sync now).execSms t).rows = l ++ [r, r'] ∧ x.Is r'.val := by
  have hexec : (x.sync now).execSms t = (x.syncCall now).exec t := execSms_call (call_sync now) (by rintro _ _ _ _ _ ⟨⟩)
  refine ⟨l, ⟨t.nextId, (x.syncCall now).sms⟩, ?_, (copy_sync now).is_sms⟩
  rw [hexec, rows_exec_of_not_refused hno, ht, List.append_assoc]
  rfl

theorem stored_push {t base : SmsTable} {r : Row Sms} (ht : t.rows = base.rows ++ [r])
    (hno : ¬ Refused t (x.pushCall contacts)) :
    ∃ l r', ((x.push contacts).execSms t).rows = l ++ [r, r'] ∧ x.Is r'.val := by
  rcases insertSmsDeduped_cases t (x.pushCall contacts) with ⟨href, -⟩ | ⟨-, hresult, hrows, -⟩
  · exact absurd href hno
  · have hinserted : ((x.pushCall contacts).result t).inserted = true := congrArg (·.inserted) hresult
    have hpush : x.push contacts = .push x.now x.sender x.body x.pushed (isContact contacts x.sender) := rfl
    have hwindow : 0 < maxStoredSms - 1 := by
      unfold maxStoredSms
      omega
    refine ⟨(base.keepLast (maxStoredSms - 1 - 1)).rows, ⟨t.nextId, (x.pushCall contacts).sms⟩, ?_, copy_push.is_sms⟩
    rw [execSms_push hpush call_push, if_pos hinserted, rows_keepLast_concat hrows maxStoredSms_pos,
      rows_keepLast_concat ht hwindow, List.append_assoc]
    rfl

theorem contact_of_sameEitherWay {t : SmsTable} (hnew : x.rowsOf t = []) (h : x.SameEitherWay contacts t) :
    isContact contacts x.sender = true ∧ x.FoundAgain t := by
  obtain ⟨status, h⟩ := h
  -- the push first, then the sync
  have hpush : StoresFirst t _ ((x.push contacts).execSms t) _ := storesFirst_push hnew
  have hpushIs : x.Is (x.pushCall contacts).sms := copy_push.is_sms
  obtain ⟨hpushOnly, hpushRows⟩ := hpush.onlyRow hnew hpushIs
  have hsynced : Refused ((x.push contacts).execSms t) (x.syncCall 0) := by
    refine refused_of_single hpushIs hpushRows (stored_sync hpush.rows 0) (h _ .push [x.sync 0] ?_)
    intro op hop
    rw [List.mem_singleton.1 hop]
    exact .inl (.sync 0)
  -- the sync first, then the push
  have hsync := storesFirst_sync hnew 0
  have hsyncIs : x.Is (x.syncCall 0).sms := (copy_sync 0).is_sms
  obtain ⟨hsyncOnly, hsyncRows⟩ := hsync.onlyRow hnew hsyncIs
  have hpushed : Refused ((x.sync 0).execSms t) (x.pushCall contacts) := by
    refine refused_of_single hsyncIs hsyncRows (stored_push hsync.rows) (h _ (.sync 0) [x.push contacts] ?_)
    intro op hop
    rw [List.mem_singleton.1 hop]
    exact .inl .push
  constructor
  · have hinbox := h _ (.sync 0) [] (by simp) fun r hr => (List.mem_filter.1 hr).1
    have hstatus := h _ .push [] (by simp) fun r hr => (List.mem_filter.1 hr).1
    have hsame := hstatus.trans hinbox.symm
    change (x.rowsOf ((x.push contacts).execSms t)).map _ = (x.rowsOf ((x.sync 0).execSms t)).map _ at hsame
    rw [hpushRows, hsyncRows] at hsame
    have hsame : (if isContact contacts x.sender then SmsStatus.inbox else .purgatory) = .inbox :=
      (List.cons.inj hsame).1
    by_contra hno
    rw [if_neg hno] at hsame
    cases hsame
  · have hpushMem : ∃ a ∈ ((x.push contacts).execSms t).rows, a.id = t.nextId :=
      ⟨_, hpush.rows ▸ List.mem_append_right _ (List.mem_singleton.2 rfl), rfl⟩
    have hsyncMem : ∃ a ∈ ((x.sync 0).execSms t).rows, a.id = t.nextId :=
      ⟨_, hsync.rows ▸ List.mem_append_right _ (List.mem_singleton.2 rfl), rfl⟩
    have hseen := (refused_iff hpushOnly hpushMem copy_push.key (.inl rfl) (copy_sync 0)).1 hsynced
    have hseen' := (refused_iff hsyncOnly hsyncMem (copy_sync 0).key (.inr (time_syncCall 0)) copy_push).1 hpushed
    rw [hpush.before, time_syncCall] at hseen
    rw [hsync.before, time_syncCall] at hseen'
    rcases hseen with htimes | ⟨hdigits, -, hlimit⟩
    · exact .inl htimes.symm
    · rcases hseen' with htimes | ⟨-, hzero, hlimit'⟩
      · exact .inl htimes
      · exact .inr ⟨hdigits, hzero, hlimit, hlimit'⟩

/-- An SMS that is pushed a second and a half after the date of the provider. -/
def hello : TwiceSent where
  sender := "+33612345678"
  body := "hello"
  now := 1700000002000
  pushed := 1700000001500
  synced := 1700000000000
  type := 1
  sender_ne := by decide
  body_ne := by decide
  synced_ne := by decide
  inbound := by decide
  close := by decide

end TwiceSent

/-!
## Received or sent

The direction of a row follows its status, and only a report changes the status of a row.
-/

/-! ### The status of a row -/

/-- The status of a row after an operation that leaves it stored. -/
def MailOp.statusAfter (k : Nat) (status : SmsStatus) : MailOp → SmsStatus
  | .report _ smsID sent => if 0 < smsID ∧ smsID = k then (if sent then .sent else .failed) else status
  | _ => status

/-- A row with an old id was there before the operation. -/
theorem old_row {t : SmsTable} {op : MailOp} {r' : Row Sms} (hr' : r' ∈ (op.execSms t).rows) (hid : r'.id ≤ t.seq) :
    ∃ r ∈ t.rows, r.id = r'.id := by
  obtain ⟨added, hfollows, hadded⟩ := follows_execSms t op
  obtain ⟨r, hr, heq⟩ := List.mem_map.1 (hfollows.entries.subset (List.mem_map_of_mem hr'))
  have hsame : r.id = r'.id := congrArg Prod.fst heq
  rcases List.mem_append.1 hr with hr | hr
  · exact ⟨r, hr, hsame⟩
  · have hnew := (hadded r hr).1
    unfold Table.nextId at hnew
    omega

theorem seq_le_execSms (t : SmsTable) (op : MailOp) : t.seq ≤ (op.execSms t).seq :=
  (follows_execSms t op).elim fun _ h => h.1.seq

theorem status_setStatus {t : SmsTable} {k : Nat} {status : SmsStatus} {r r' : Row Sms} (hr : r ∈ t.rows)
    (hr' : r' ∈ (t.setStatus k status).rows) (hid : r'.id = r.id) :
    r'.val.status = if r.id = k then status else r.val.status := by
  obtain ⟨x, hx, rfl⟩ := List.mem_map.1 hr'
  by_cases hk : x.id = k
  · rw [if_pos hk] at hid ⊢
    exact (if_pos (hid ▸ hk)).symm
  · rw [if_neg hk] at hid ⊢
    obtain rfl := t.toTable.row_unique hx hr hid
    exact (if_neg hk).symm

/-- A report leaves the row stored. -/
theorem stored_after_report {t : SmsTable} {r : Row Sms} (hr : r ∈ t.rows) (outboxID smsID : Int) (sent : Bool) :
    ∃ r' ∈ ((MailOp.report outboxID smsID sent).execSms t).rows, r'.id = r.id := by
  unfold MailOp.execSms
  dsimp only
  split_ifs
  · refine ⟨_, List.mem_map_of_mem hr, ?_⟩
    split_ifs <;> rfl
  · refine ⟨_, List.mem_map_of_mem hr, ?_⟩
    split_ifs <;> rfl
  · exact ⟨r, hr, rfl⟩

/-- Only a report changes the status of a row. -/
theorem status_execSms {t : SmsTable} {op : MailOp} {r r' : Row Sms} (hr : r ∈ t.rows)
    (hr' : r' ∈ (op.execSms t).rows) (hid : r'.id = r.id) :
    r'.val.status = op.statusAfter r.id r.val.status := by
  have hle := t.le_seq r hr
  have hsub {t' : SmsTable} (h : t'.rows.Sublist t.rows) (hr' : r' ∈ t'.rows) : r'.val.status = r.val.status := by
    rw [t.toTable.row_unique (h.subset hr') hr hid]
  have hcall {c : DedupCall} (hr' : r' ∈ (c.exec t).rows) : r'.val.status = r.val.status := by
    by_cases href : Refused t c
    · rw [exec_of_refused href] at hr'
      exact hsub (.refl _) hr'
    · rw [rows_exec_of_not_refused href] at hr'
      rcases List.mem_append.1 hr' with hr' | hr'
      · exact hsub (.refl _) hr'
      · rw [List.mem_singleton.1 hr'] at hid
        have : t.seq + 1 = r.id := hid
        omega
  cases op with
  | push now sender body timestamp contact =>
    exact hcall (mem_rows_push (b := ⟨t, .empty⟩) rfl hr')
  | sync now m =>
    unfold MailOp.execSms at hr'
    dsimp only at hr'
    cases hc : (MailOp.sync now m).call with
    | none =>
      rw [hc] at hr'
      exact hsub (.refl _) hr'
    | some c =>
      rw [hc] at hr'
      exact hcall hr'
  | send now recipient body =>
    unfold MailOp.execSms at hr'
    dsimp only at hr'
    cases hc : (MailOp.send now recipient body).call with
    | none =>
      rw [hc] at hr'
      exact hsub (.refl _) hr'
    | some c =>
      rw [hc] at hr'
      exact hcall hr'
  | reply now recipient body => exact hcall (c := ⟨now, recipient, body, now, .outbound⟩) hr'
  | report outboxID smsID sent =>
    unfold MailOp.execSms at hr'
    unfold MailOp.statusAfter
    dsimp only at hr' ⊢
    by_cases hpos : smsID > 0
    · rw [if_pos hpos] at hr'
      have hnamed : (r.id = smsID.toNat) = (0 < smsID ∧ smsID = r.id) := propext (by omega)
      rw [status_setStatus hr hr' hid]
      simp only [hnamed]
    · rw [if_neg hpos] at hr'
      rw [if_neg fun h => hpos h.1]
      exact hsub (.refl _) hr'
  | deleteOutbox id => exact hsub (.refl _) hr'
  | deleteSms ids => exact hsub List.filter_sublist hr'
  | deleteConversation peer => exact hsub List.filter_sublist hr'
  | purge => exact hsub List.filter_sublist hr'

theorem runSms_snoc (t : SmsTable) (ops : List MailOp) (op : MailOp) :
    runSms t (ops ++ [op]) = op.execSms (runSms t ops) := by
  unfold runSms
  rw [List.foldl_append, List.foldl_cons, List.foldl_nil]

theorem seq_le_runSms (t : SmsTable) (ops : List MailOp) : t.seq ≤ (runSms t ops).seq := by
  induction ops using List.reverseRecOn with
  | nil => exact Nat.le_refl _
  | append_singleton ops op ih =>
    rw [runSms_snoc]
    exact Nat.le_trans ih (seq_le_execSms _ _)

/-! ### The direction -/

/-- What a report makes of the direction. -/
theorem direction_report {sent : Bool} {d : Direction} :
    direction (if sent then .sent else .failed) = d ↔ (sent = true ↔ d = .outbound) := by
  cases sent <;> cases d <;> decide

theorem directionKept_snoc {t : SmsTable} {r : Row Sms} {ops : List MailOp} {op : MailOp} :
    DirectionKept t r (ops ++ [op]) ↔
      DirectionKept t r ops ∧ ∀ r' ∈ (op.execSms (runSms t ops)).rows, r'.id = r.id →
        direction r'.val.status = direction r.val.status := by
  constructor
  · intro h
    refine ⟨fun done hdone => h done (hdone.trans (List.prefix_append ops [op])), fun r' hr' hid => ?_⟩
    exact h (ops ++ [op]) (List.prefix_refl _) r' (runSms_snoc t ops op ▸ hr') hid fun _ => []
  · rintro ⟨hops, hlast⟩ done hdone r' hr' hid detectSmsCodes
    rcases List.prefix_concat_iff.1 hdone with rfl | hdone
    · rw [runSms_snoc] at hr'
      exact hlast r' hr' hid
    · exact hops done hdone r' hr' hid detectSmsCodes

theorem reportsAgree_snoc {t : SmsTable} {r : Row Sms} {ops : List MailOp} {op : MailOp} :
    ReportsAgree t r (ops ++ [op]) ↔
      ReportsAgree t r ops ∧ ∀ (outboxID smsID : Int) sent, op = .report outboxID smsID sent → 0 < smsID → smsID = r.id →
        (∃ r' ∈ (runSms t ops).rows, r'.id = r.id) → (sent = true ↔ direction r.val.status = .outbound) := by
  constructor
  · intro h
    constructor
    · intro done outboxID smsID sent later heq
      exact h done outboxID smsID sent (later ++ [op]) (by rw [heq, List.append_assoc, List.cons_append])
    · rintro outboxID smsID sent rfl
      exact h ops outboxID smsID sent [] rfl
  · rintro ⟨hops, hlast⟩ done outboxID smsID sent later heq
    rcases List.eq_nil_or_concat later with rfl | ⟨later, op', rfl⟩
    · obtain ⟨rfl, hop⟩ := List.append_inj' heq rfl
      exact hlast outboxID smsID sent (List.cons.inj hop).1
    · rw [List.concat_eq_append, ← List.cons_append, ← List.append_assoc] at heq
      obtain ⟨hfront, -⟩ := List.append_inj' heq rfl
      exact hops done outboxID smsID sent later hfront

/-- A row is listed with one direction exactly if every report about it agrees with that direction. -/
theorem directionKept_iff {t : SmsTable} {r : Row Sms} (hr : r ∈ t.rows) (ops : List MailOp) :
    DirectionKept t r ops ↔ ReportsAgree t r ops := by
  induction ops using List.reverseRecOn with
  | nil =>
    refine iff_of_true (fun done hdone r' hr' hid _ => ?_) fun done outboxID smsID sent later heq => ?_
    · rw [List.prefix_nil.1 hdone] at hr'
      rw [t.toTable.row_unique hr' hr hid]
    · exact absurd heq.symm (List.append_ne_nil_of_right_ne_nil _ (List.cons_ne_nil _ _))
  | append_singleton ops op ih =>
    rw [directionKept_snoc, reportsAgree_snoc, ← ih]
    refine and_congr_right fun hkept => ?_
    have hle : r.id ≤ (runSms t ops).seq := Nat.le_trans (t.le_seq r hr) (seq_le_runSms t ops)
    -- the row before the operation, and its direction
    have hbefore {x : Row Sms} (hx : x ∈ (runSms t ops).rows) (hid : x.id = r.id) :
        direction x.val.status = direction r.val.status := hkept ops (List.prefix_refl _) x hx hid fun _ => []
    constructor
    · rintro h outboxID smsID sent rfl hpos hnamed ⟨x, hx, hid⟩
      obtain ⟨r', hr', hid'⟩ := stored_after_report hx outboxID smsID sent
      have hsame := h r' hr' (hid'.trans hid)
      rw [status_execSms hx hr' hid'] at hsame
      unfold MailOp.statusAfter at hsame
      dsimp only at hsame
      rw [if_pos ⟨hpos, hnamed.trans (congrArg Nat.cast hid.symm)⟩] at hsame
      exact direction_report.1 hsame
    · intro h r' hr' hid
      obtain ⟨x, hx, hxid⟩ := old_row hr' (hid ▸ hle)
      rw [status_execSms hx hr' hxid.symm]
      have hsame := hbefore hx (hxid.trans hid)
      cases op with
      | report outboxID smsID sent =>
        unfold MailOp.statusAfter
        dsimp only
        by_cases hnamed : 0 < smsID ∧ smsID = x.id
        · rw [if_pos hnamed]
          have hid' : smsID = r.id := hnamed.2.trans (congrArg Nat.cast (hxid.trans hid))
          exact direction_report.2 (h outboxID smsID sent rfl hnamed.1 hid' ⟨x, hx, hxid.trans hid⟩)
        · rw [if_neg hnamed]
          exact hsame
      | _ => exact hsame

/-- A message that has been queued from the web client. -/
def queuedOk : SmsTable := runSms .empty [.send 1700000000000 "0612345678" "ok"]

/-- The phone could not send it: from now on it is listed as received. -/
theorem failed_inbound :
    ¬DirectionKept queuedOk ⟨1, ⟨"0612345678", "ok", 1700000000000, .outbound⟩⟩ [.report 1 1 false] := by
  intro h
  have hsame := h [.report 1 1 false] (List.prefix_refl _) ⟨1, ⟨"0612345678", "ok", 1700000000000, .failed⟩⟩
    (by decide) rfl fun _ => []
  exact absurd hsame (by decide)

theorem sent_outbound :
    DirectionKept queuedOk ⟨1, ⟨"0612345678", "ok", 1700000000000, .outbound⟩⟩ [.report 1 1 true] := by
  refine (directionKept_iff (by decide) _).2 fun done outboxID smsID sent later heq _ _ _ => ?_
  have hmem : MailOp.report outboxID smsID sent ∈ [MailOp.report 1 1 true] := by
    rw [heq]
    exact List.mem_append_right _ (List.mem_cons_self ..)
  obtain ⟨-, -, rfl⟩ := MailOp.report.inj (List.mem_singleton.1 hmem)
  decide

end Gafam.Relay
