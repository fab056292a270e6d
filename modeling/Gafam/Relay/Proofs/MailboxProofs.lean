import Gafam.Lib.Steps
import Gafam.Relay.Mailbox
import Gafam.Relay.Proofs.DedupProofs
import Gafam.Relay.Proofs.EmergencyProofs

/-!
# History and outbox over whole runs

Which stored row a refused message has met, and where the links from the outbox to the history lead.
Both depend on one table holding the messages of both directions.
-/

namespace Gafam.Relay

open Gafam.Go Gafam.Lib

/-! ## The endpoints are made of the operations -/

theorem runMail_append (b : Mailbox) (ops ops' : List MailOp) :
    runMail b (ops ++ ops') = runMail (runMail b ops) ops' := by
  simp [runMail]

theorem queueOutboxHandler_mail (now : Nat) (params : OutboxParams) (n : Node) :
    (queueOutboxHandler now params n).2.mail =
      (MailOp.send now params.recipient params.body).exec n.mail := by
  unfold queueOutboxHandler
  by_cases hb : params.body = []
  · simp [hb, MailOp.exec, MailOp.execSms, MailOp.execOutbox, MailOp.call, Node.mail]
  · simp only [if_neg hb, MailOp.exec, MailOp.execSms, MailOp.execOutbox, MailOp.call]
    rfl

theorem deleteOutboxHandler_mail (id : Nat) (n : Node) :
    (deleteOutboxHandler (some id) n).2.mail = (MailOp.deleteOutbox id).exec n.mail := rfl

/-- A report with a known outcome is recorded, any other one is refused. -/
theorem updateSmsStatusHandler_mail (params : SmsStatusParams) (n : Node) :
    (updateSmsStatusHandler params n).2.mail = n.mail ∨
      ∃ sent, (updateSmsStatusHandler params n).2.mail =
        (MailOp.report params.outboxID params.smsID sent).exec n.mail := by
  unfold updateSmsStatusHandler
  by_cases hs : params.status = str "sent"
  · have hst : reportedStatus params.status = some .sent := if_pos hs
    rw [hst]
    exact .inr ⟨true, rfl⟩
  · by_cases hf : params.status = str "failed"
    · have hst : reportedStatus params.status = some .failed := (if_neg hs).trans (if_pos hf)
      rw [hst]
      exact .inr ⟨false, rfl⟩
    · have hst : reportedStatus params.status = none := (if_neg hs).trans (if_neg hf)
      rw [hst]
      exact .inl rfl

theorem deleteSmsBulkHandler_mail (ids : List Int) (n : Node) :
    (deleteSmsBulkHandler ids n).2.mail = n.mail ∨
      (deleteSmsBulkHandler ids n).2.mail = (MailOp.deleteSms ids).exec n.mail := by
  unfold deleteSmsBulkHandler
  split_ifs
  · exact .inl rfl
  · exact .inl rfl
  · exact .inr rfl

theorem deleteSmsConversationHandler_mail (peer : GoString) (n : Node) :
    (deleteSmsConversationHandler peer n).2.mail = n.mail ∨
      (deleteSmsConversationHandler peer n).2.mail =
        (MailOp.deleteConversation (trimSpace peer)).exec n.mail := by
  unfold deleteSmsConversationHandler
  dsimp only
  split_ifs
  · exact .inl rfl
  · exact .inr rfl

theorem syncLoop_mail (now : Nat) (ms : List HistSmsMsg) (k : Nat) (b : Mailbox) :
    (⟨(syncLoop now ms k b.sms).2, b.outbox⟩ : Mailbox) = runMail b (ms.map (.sync now)) := by
  induction ms generalizing k b with
  | nil => rfl
  | cons m ms ih =>
    rw [List.map_cons, runMail, List.foldl_cons, syncLoop]
    cases hc : m.call now with
    | none =>
      have hstep : (MailOp.sync now m).exec b = b := by
        simp only [MailOp.exec, MailOp.execSms, MailOp.call, MailOp.execOutbox, hc]
      rw [hstep]
      exact ih k b
    | some c =>
      have hstep : (MailOp.sync now m).exec b = ⟨c.exec b.sms, b.outbox⟩ := by
        simp only [MailOp.exec, MailOp.execSms, MailOp.call, MailOp.execOutbox, hc]
      rw [hstep]
      exact ih _ ⟨c.exec b.sms, b.outbox⟩

theorem syncSmsHistoryHandler_mail (now : Nat) (ms : List HistSmsMsg) (n : Node) :
    (syncSmsHistoryHandler now ms n).2.mail = n.mail ∨
      (syncSmsHistoryHandler now ms n).2.mail = runMail n.mail (ms.map (.sync now)) := by
  unfold syncSmsHistoryHandler
  split_ifs
  · exact .inl rfl
  · exact .inr (syncLoop_mail now ms 0 n.mail)

/-- The mailbox after some replies of the relay. -/
def Replied (b b' : Mailbox) : Prop :=
  ∃ rs : List (Nat × GoString × GoString),
    b' = runMail b (rs.map fun r => .reply r.1 r.2.1 r.2.2)

theorem Replied.refl (b : Mailbox) : Replied b b := ⟨[], rfl⟩

theorem Replied.trans {b b' b'' : Mailbox} (h : Replied b b') (h' : Replied b' b'') :
    Replied b b'' := by
  obtain ⟨rs, rfl⟩ := h
  obtain ⟨rs', rfl⟩ := h'
  exact ⟨rs ++ rs', by rw [List.map_append, runMail_append]⟩

theorem replied_queueAndMirror (now : Nat) (recipient body : GoString) (n : Node) :
    Replied n.mail (n.queueAndMirror now recipient body).mail :=
  ⟨[(now, recipient, body)], rfl⟩

theorem replied_trigger911Cascade (now : Nat) (newID sender alertID : GoString) (hop : Int)
    (orig name msg : GoString) (n : Node) :
    Replied n.mail (trigger911Cascade now newID sender alertID hop orig name msg n).2.mail := by
  have hfold (body : GoString) (targets : List Guardian) (n : Node) : Replied n.mail
      (targets.foldl (fun s g => queue911Sms now g.phoneNumber body s) n).mail := by
    induction targets generalizing n with
    | nil => exact .refl _
    | cons g gs ih => exact (replied_queueAndMirror now g.phoneNumber body n).trans (ih _)
  unfold trigger911Cascade
  dsimp only
  generalize (if alertID = [] then newID else alertID) = id
  generalize mark911Seen now id n.seen = m
  split_ifs
  · exact .refl _
  · exact .refl _
  · exact hfold _ _ { n with seen := m.2 }

theorem replied_runSelfQuest (env : SmsEnv) (sender body : GoString) (n : Node) :
    Replied n.mail (runSelfQuest env sender body n).mail := by
  unfold runSelfQuest triggerSelfQuest
  dsimp only
  split
  · split
    · exact replied_queueAndMirror env.now sender questBusy { n with board := _ }
    · exact replied_queueAndMirror env.now sender _ { n with board := _, running := _ }
  · exact .refl _

theorem replied_runTriggers (env : SmsEnv) (sender body : GoString) (n : Node) :
    Replied n.mail (runTriggers env sender body n).node.mail := by
  have hrelay : Replied n.mail
      (relay911Alert env.now env.relayID sender body (runSelfQuest env sender body n)).2.mail := by
    obtain ⟨seen, hseen⟩ := relay911Alert_node env.now env.relayID sender body
      (runSelfQuest env sender body n)
    rw [hseen]
    exact replied_runSelfQuest env sender body n
  have ha (n : Node) : Replied n.mail (runGuardianDistress env sender body n).node.mail := by
    unfold runGuardianDistress
    split
    · exact .refl _
    · split
      · exact .refl _
      · exact replied_trigger911Cascade _ _ _ _ _ _ _ _ n
  have hb (n : Node) : Replied n.mail (runSelfDistress env sender body n).node.mail := by
    unfold runSelfDistress
    split_ifs
    · split
      · exact .refl _
      · exact replied_trigger911Cascade _ _ _ _ _ _ _ _ n
    · exact .refl _
  have hc (n : Node) : Replied n.mail (runRecovery env sender body n).mail := by
    unfold runRecovery
    split_ifs
    · split
      · exact replied_queueAndMirror env.now sender _ (generateEmergencyChallenge env _ n)
      · exact .refl _
    · exact .refl _
  unfold runTriggers
  dsimp only
  split_ifs
  · exact hrelay
  · exact hrelay.trans (ha _)
  · exact (hrelay.trans (ha _)).trans (hb _)
  · exact ((hrelay.trans (ha _)).trans (hb _)).trans (hc _)

/-- The end of `smsHandler` is a push. -/
theorem storeSms_mail (env : SmsEnv) (sender body : GoString) (timestamp : Int) (n : Node) :
    (storeSms env sender body timestamp n).2.mail =
      (MailOp.push env.now sender body timestamp
        (n.contacts.any fun c => (lastNine sender).isSuffixOf c.phone)).exec n.mail := by
  rcases hx : insertSmsDeduped env.now n.sms sender body timestamp (spamStatus sender n) with ⟨⟨id, inserted⟩, sms⟩
  have hx' := hx
  unfold spamStatus at hx'
  unfold storeSms MailOp.exec MailOp.execSms DedupCall.result DedupCall.exec
  simp only [hx, hx', Node.mail]
  cases inserted <;> rfl

/-- A delivery makes some replies and then, unless it fails, the insertion of the message. -/
theorem smsHandler_mail (env : SmsEnv) (req : SmsRequest) (n : Node) :
    ∃ b, Replied n.mail b ∧ ((smsHandler env req n).node.mail = b ∨
      ∃ p contact, req = .params p ∧ (smsHandler env req n).node.mail =
        (MailOp.push env.now (p.sender.getD []) (p.body.getD []) (p.timestamp.getD 0)
          contact).exec b) := by
  cases req with
  | badPayload => exact ⟨n.mail, .refl _, .inl rfl⟩
  | badCipher => exact ⟨n.mail, .refl _, .inl rfl⟩
  | badPlaintext => exact ⟨n.mail, .refl _, .inl rfl⟩
  | params p =>
    refine ⟨_, replied_runTriggers env (p.sender.getD []) (p.body.getD []) n, ?_⟩
    unfold smsHandler
    dsimp only
    generalize runTriggers env (p.sender.getD []) (p.body.getD []) n = t
    split_ifs
    · exact .inl rfl
    · exact .inr ⟨p, _, rfl, storeSms_mail env (p.sender.getD []) (p.body.getD []) (p.timestamp.getD 0) t.node⟩

/-- What a request does to the two tables is a run of operations that it allows. -/
theorem MailRequest.serve_mail (req : MailRequest) (n : Node) :
    ∃ ops, (req.serve n).mail = runMail n.mail ops ∧ ∀ op ∈ ops, req.Allows op := by
  have hnone : ∃ ops, n.mail = runMail n.mail ops ∧ ∀ op ∈ ops, req.Allows op := ⟨[], rfl, nofun⟩
  have hone {m : Mailbox} (op : MailOp) (hm : m = op.exec n.mail) (hop : req.Allows op) :
      ∃ ops, m = runMail n.mail ops ∧ ∀ op ∈ ops, req.Allows op :=
    ⟨[op], hm, fun _ h => List.mem_singleton.1 h ▸ hop⟩
  cases req with
  | sms env req =>
    cases req with
    | badPayload => exact hnone
    | badCipher => exact hnone
    | badPlaintext => exact hnone
    | params p =>
      obtain ⟨_, ⟨rs, rfl⟩, hend⟩ := smsHandler_mail env (.params p) n
      have hreplies : ∀ op ∈ rs.map (fun r => MailOp.reply r.1 r.2.1 r.2.2),
          (MailRequest.sms env (.params p)).Allows op := by
        intro op hop
        obtain ⟨r, -, rfl⟩ := List.mem_map.1 hop
        trivial
      obtain hstop | ⟨_, contact, ⟨⟩, hpush⟩ := hend
      · exact ⟨_, hstop, hreplies⟩
      · refine ⟨_ ++ [.push env.now _ _ _ contact], by rw [runMail_append]; exact hpush, fun op hop => ?_⟩
        rcases List.mem_append.1 hop with h | h
        · exact hreplies op h
        · cases List.mem_singleton.1 h
          exact ⟨rfl, rfl, rfl, rfl⟩
  | queue now params => exact hone _ (queueOutboxHandler_mail now params n) rfl
  | deleteOutbox id =>
    cases id with
    | none => exact hnone
    | some id => exact hone _ (deleteOutboxHandler_mail id n) rfl
  | status params =>
    obtain h | ⟨sent, h⟩ := updateSmsStatusHandler_mail params n
    · exact ⟨[], h, nofun⟩
    · exact hone _ h ⟨rfl, rfl⟩
  | deleteBulk ids =>
    obtain h | h := deleteSmsBulkHandler_mail ids n
    · exact ⟨[], h, nofun⟩
    · exact hone _ h rfl
  | deleteConversation peer =>
    obtain h | h := deleteSmsConversationHandler_mail peer n
    · exact ⟨[], h, nofun⟩
    · exact hone _ h rfl
  | sync now messages =>
    obtain h | h := syncSmsHistoryHandler_mail now messages n
    · exact ⟨[], h, nofun⟩
    · exact ⟨_, h, fun _ => id⟩

/-- The endpoints refine the operations: what any requests in any order leave in the two tables is left
by a run of operations, each one allowed by one of the requests. -/
theorem served_mail (reqs : List MailRequest) (n : Node) :
    ∃ ops, (reqs.foldl MailRequest.serve n).mail = runMail n.mail ops ∧
      ∀ op ∈ ops, ∃ req ∈ reqs, req.Allows op := by
  induction reqs generalizing n with
  | nil => exact ⟨[], rfl, nofun⟩
  | cons req reqs ih =>
    obtain ⟨ops, hops, hallowed⟩ := req.serve_mail n
    obtain ⟨ops', hops', hallowed'⟩ := ih (req.serve n)
    refine ⟨ops ++ ops', by rw [List.foldl_cons, hops', hops, runMail_append], fun op hop => ?_⟩
    rcases List.mem_append.1 hop with h | h
    · exact ⟨req, List.mem_cons_self .., hallowed op h⟩
    · obtain ⟨r, hr, hallows⟩ := hallowed' op h
      exact ⟨r, List.mem_cons_of_mem _ hr, hallows⟩

/-! ## Refused messages -/

theorem smsNearDuplicateID_eq_find {t : SmsTable} {sender body : GoString} {ts : Int}
    (hb : body ≠ []) (h0 : ts ≠ 0) :
    smsNearDuplicateID t sender body ts =
      ((nearCandidates t body ts).find? fun r => phonesMatch sender r.val.sender).map (·.id) := by
  unfold smsNearDuplicateID
  rw [if_neg (by simp [hb, h0])]

theorem nearCandidates_sorted (t : SmsTable) (body : GoString) (ts : Int) :
    (nearCandidates t body ts).Pairwise fun a b => a.id < b.id :=
  (t.sorted.filter _).sublist (List.take_sublist _ _)

/-- The first row of a list that satisfies a test comes before every other one that does. -/
theorem find?_le_of_sorted {α : Type} {l : List (Row α)} {p : Row α → Bool} {r r' : Row α}
    (hs : l.Pairwise fun a b => a.id < b.id) (hf : l.find? p = some r) (hr' : r' ∈ l)
    (hp : p r' = true) : r.id ≤ r'.id := by
  obtain ⟨-, as, bs, rfl, has⟩ := List.find?_eq_some_iff_append.1 hf
  rcases List.mem_append.1 hr' with h | h
  · have := has r' h
    simp [hp] at this
  · rcases List.mem_cons.1 h with rfl | h
    · exact Nat.le_refl _
    · have hs' := (List.pairwise_append.1 hs).2.1
      exact Nat.le_of_lt ((List.pairwise_cons.1 hs').1 r' h)

/-- A refused message has met a received one exactly when no message to its peer shadows those. -/
theorem refusedByInbound_iff (t : SmsTable) (c : DedupCall) :
    RefusedByInbound t c ↔ Unshadowed t c := by
  constructor
  · intro h hb h0 r hr hp hout
    cases hf : (nearCandidates t c.body c.time).find? fun r => phonesMatch c.sender r.val.sender with
    | none =>
      have := List.find?_eq_none.1 hf r hr
      simp [hp] at this
    | some q =>
      have hid : smsNearDuplicateID t c.sender c.body c.time = some q.id := by
        rw [smsNearDuplicateID_eq_find hb h0, hf]
        rfl
      have hq := List.mem_of_find?_eq_some hf
      obtain ⟨m, hm, hmid, hin, -⟩ := h q.id hid
      obtain rfl : m = q := Table.row_unique hm (mem_of_mem_nearCandidates hq).1 hmid
      have hle := find?_le_of_sorted (nearCandidates_sorted t c.body c.time) hf hr hp
      have hne : m.id ≠ r.id := by
        intro heq
        rw [Table.row_unique hm (mem_of_mem_nearCandidates hr).1 heq, hout] at hin
        cases hin
      exact ⟨m, hq, Nat.lt_of_le_of_ne hle hne, by simpa using List.find?_some hf, hin⟩
  · intro h k hk
    obtain ⟨hb, h0, -⟩ := smsNearDuplicateID_eq_some hk
    rw [smsNearDuplicateID_eq_find hb h0] at hk
    obtain ⟨q, hq, rfl⟩ := Option.map_eq_some_iff.1 hk
    have hmem := List.mem_of_find?_eq_some hq
    have hp : phonesMatch c.sender q.val.sender = true := by simpa using List.find?_some hq
    refine ⟨q, (mem_of_mem_nearCandidates hmem).1, rfl, ?_, hp⟩
    by_contra hout
    rw [Bool.not_eq_true] at hout
    obtain ⟨r', hr', hlt, hp', -⟩ := h hb h0 q hmem hp hout
    have hle := find?_le_of_sorted (nearCandidates_sorted t c.body c.time) hq hr' hp'
    omega

/-- Over a run from the empty tables, the deduplication refuses received messages only for the sake of
received ones exactly when no received message finds its peer's copies shadowed. -/
theorem inbound_refused_by_inbound_iff (ops : List MailOp) :
    (∀ before op after c, ops = before ++ op :: after → op.call = some c →
      c.status.isInbound = true → RefusedByInbound (runMail .empty before).sms c) ↔
    (∀ before op after c, ops = before ++ op :: after → op.call = some c →
      c.status.isInbound = true → Unshadowed (runMail .empty before).sms c) := by
  constructor
  · intro h before op after c hops hcall hin
    exact (refusedByInbound_iff _ c).1 (h before op after c hops hcall hin)
  · intro h before op after c hops hcall hin
    exact (refusedByInbound_iff _ c).2 (h before op after c hops hcall hin)

/-- A contact answers `ok` within three minutes of the `ok` that was sent to it. -/
theorem answer_lost :
    ¬ ∀ ops : List MailOp, ∀ before op after c, ops = before ++ op :: after → op.call = some c →
      c.status.isInbound = true → RefusedByInbound (runMail .empty before).sms c := by
  intro h
  have hlost := h
    [.send 1000 "0612345678" "ok", .push 0 "+33612345678" "ok" 31000 true]
    [.send 1000 "0612345678" "ok"] (.push 0 "+33612345678" "ok" 31000 true) []
    ⟨0, "+33612345678", "ok", 31000, .inbox⟩ rfl rfl rfl 1 (by decide)
  revert hlost
  decide

/-- The rows after an insertion are the old ones and perhaps the new one. -/
theorem mem_rows_exec {t : SmsTable} {c : DedupCall} {r : Row Sms} (h : r ∈ (c.exec t).rows) :
    r ∈ t.rows ∨ r.val = c.sms := by
  by_cases hr : Refused t c
  · rw [exec_of_refused hr] at h
    exact .inl h
  · rw [rows_exec_of_not_refused hr] at h
    rcases List.mem_append.1 h with h | h
    · exact .inl h
    · simp only [List.mem_singleton] at h
      exact .inr (by rw [h])

theorem mem_of_mem_keepLast {t : SmsTable} {n : Nat} {r : Row Sms} (h : r ∈ (t.keepLast n).rows) :
    r ∈ t.rows :=
  List.mem_of_mem_drop h

theorem mem_rows_push {b : Mailbox} {now : Int} {sender body : GoString} {timestamp : Int}
    {contact : Bool} {c : DedupCall} {r : Row Sms}
    (hc : (MailOp.push now sender body timestamp contact).call = some c)
    (hr : r ∈ ((MailOp.push now sender body timestamp contact).exec b).sms.rows) :
    r ∈ (c.exec b.sms).rows := by
  obtain rfl := Option.some.inj hc
  have heq : ((MailOp.push now sender body timestamp contact).exec b).sms =
      let c : DedupCall := ⟨now, sender, body, timestamp, if contact then .inbox else .purgatory⟩
      if (c.result b.sms).inserted then (c.exec b.sms).keepLast maxStoredSms else c.exec b.sms :=
    rfl
  rw [heq] at hr
  dsimp only at hr
  generalize (⟨now, sender, body, timestamp, if contact then .inbox else .purgatory⟩ :
    DedupCall) = c at hr ⊢
  split_ifs at hr
  · exact mem_of_mem_keepLast hr
  · exact hr

/-- An outgoing row after one operation was there before, or the operation inserted it. -/
theorem outgoing_row_step {b : Mailbox} {op : MailOp} {r : Row Sms}
    (hrep : ∀ outboxID smsID sent, op = .report outboxID smsID sent →
      ∀ m ∈ b.sms.rows, (m.id : Int) = smsID → m.val.status.isInbound = false)
    (hr : r ∈ (op.exec b).sms.rows) (hout : r.val.status.isInbound = false) :
    (∃ m ∈ b.sms.rows, m.val.status.isInbound = false ∧ m.val.key = r.val.key) ∨
      ∃ c, op.call = some c ∧ c.status.isInbound = false ∧ c.sms.key = r.val.key := by
  have hcall (c : DedupCall) (hc : op.call = some c) (h : r ∈ (c.exec b.sms).rows) :
      (∃ m ∈ b.sms.rows, m.val.status.isInbound = false ∧ m.val.key = r.val.key) ∨
        ∃ c, op.call = some c ∧ c.status.isInbound = false ∧ c.sms.key = r.val.key := by
    rcases mem_rows_exec h with h | h
    · exact .inl ⟨r, h, hout, rfl⟩
    · refine .inr ⟨c, hc, ?_, by rw [h]⟩
      rw [h] at hout
      exact hout
  have hold (h : r ∈ b.sms.rows) :
      (∃ m ∈ b.sms.rows, m.val.status.isInbound = false ∧ m.val.key = r.val.key) ∨
        ∃ c, op.call = some c ∧ c.status.isInbound = false ∧ c.sms.key = r.val.key :=
    .inl ⟨r, h, hout, rfl⟩
  cases op with
  | push now sender body timestamp contact =>
    exact hcall _ rfl (mem_rows_push rfl hr)
  | sync now m =>
    cases hm : m.call now with
    | none =>
      simp only [MailOp.exec, MailOp.execSms, MailOp.call, hm] at hr
      exact hold hr
    | some c =>
      simp only [MailOp.exec, MailOp.execSms, MailOp.call, hm] at hr
      exact hcall c hm hr
  | send now recipient body =>
    by_cases hb : body = []
    · simp only [MailOp.exec, MailOp.execSms, MailOp.call, if_pos hb] at hr
      exact hold hr
    · simp only [MailOp.exec, MailOp.execSms, MailOp.call, if_neg hb] at hr
      exact hcall _ (if_neg hb) hr
  | reply now recipient body => exact hcall _ rfl hr
  | report outboxID smsID sent =>
    simp only [MailOp.exec, MailOp.execSms] at hr
    by_cases hpos : smsID > 0
    · rw [if_pos hpos] at hr
      rcases Table.mem_update.1 hr with ⟨hr, -⟩ | ⟨v, hv, rfl⟩
      · exact hold hr
      · exact .inl ⟨_, hv, hrep outboxID smsID sent rfl _ hv (Int.toNat_of_nonneg (by omega)), rfl⟩
    · rw [if_neg hpos] at hr
      exact hold hr
  | deleteOutbox id => exact hold hr
  | deleteSms ids => exact hold (List.mem_filter.1 hr).1
  | deleteConversation peer => exact hold (List.mem_filter.1 hr).1
  | purge => exact hold (List.mem_filter.1 hr).1

/-- Every outgoing row of a run was inserted by it as an outgoing message. -/
theorem outgoing_row_origin (ops : List MailOp) (h : ReportsOutgoing ops) :
    ∀ r ∈ (runMail .empty ops).sms.rows, r.val.status.isInbound = false →
      ∃ op ∈ ops, ∃ c, op.call = some c ∧ c.status.isInbound = false ∧ c.sms.key = r.val.key := by
  induction ops using List.reverseRecOn with
  | nil => intro r hr; cases hr
  | append_singleton ops op ih =>
    intro r hr hout
    have hih := ih fun before o k sent after heq =>
      h before o k sent (after ++ [op]) (by simp [heq])
    rw [runMail_append] at hr
    have hrep : ∀ o k sent, op = .report o k sent → ∀ m ∈ (runMail .empty ops).sms.rows,
        (m.id : Int) = k → m.val.status.isInbound = false := by
      rintro o k sent rfl
      exact h ops o k sent [] rfl
    rcases outgoing_row_step hrep hr hout with ⟨m, hm, hmo, hkey⟩ | ⟨c, hc, hco, hkey⟩
    · obtain ⟨o, ho, c, hc, hco, hk⟩ := hih m hm hmo
      exact ⟨o, List.mem_append_left _ ho, c, hc, hco, hk.trans hkey⟩
    · exact ⟨op, by simp, c, hc, hco, hkey⟩

/-- A run in which nobody is told back what he was sent loses no received message to an outgoing
one. -/
theorem refusedByInbound_of_neverRepeated (ops : List MailOp) (hr : ReportsOutgoing ops)
    (hn : NeverRepeated ops) (before : List MailOp) (op : MailOp) (after : List MailOp)
    (c : DedupCall) (hops : ops = before ++ op :: after) (hcall : op.call = some c)
    (hin : c.status.isInbound = true) : RefusedByInbound (runMail .empty before).sms c := by
  refine (refusedByInbound_iff _ c).2 fun _ _ r hcand hp hout => ?_
  obtain ⟨hmem, hb, hw⟩ := mem_of_mem_nearCandidates hcand
  have hbefore : ReportsOutgoing before := fun b o k sent a heq =>
    hr b o k sent (a ++ op :: after) (by rw [hops, heq]; simp)
  obtain ⟨o, ho, c', hc', hco, hkey⟩ := outgoing_row_origin before hbefore r hmem hout
  simp only [Sms.key, DedupCall.sms, Prod.mk.injEq] at hkey
  obtain ⟨hs, hbody, ht⟩ := hkey
  have := hn before op after c hops hcall hin o ho c' hc' hco (hbody.trans hb) (hs ▸ hp)
  rw [ht, hw] at this
  cases this

/-! ## Operations that leave the linked rows alone -/

/-- The rows of a table, old by their ids, are rows of the other one, and the rows of a set of ids
stay. -/
structure Preserves (keep : Nat → Prop) (t t' : SmsTable) : Prop where
  old : ∀ m ∈ t'.rows, m.id ≤ t.seq → m ∈ t.rows
  seq : t.seq ≤ t'.seq
  kept : ∀ m ∈ t.rows, keep m.id → m ∈ t'.rows

theorem Preserves.refl (keep : Nat → Prop) (t : SmsTable) : Preserves keep t t :=
  ⟨fun _ hm _ => hm, Nat.le_refl _, fun _ hm _ => hm⟩

theorem Preserves.trans {keep : Nat → Prop} {t t' t'' : SmsTable} (h : Preserves keep t t')
    (h' : Preserves keep t' t'') : Preserves keep t t'' where
  old m hm hle := h.old m (h'.old m hm (Nat.le_trans hle h.seq)) hle
  seq := Nat.le_trans h.seq h'.seq
  kept m hm hk := h'.kept m (h.kept m hm hk) hk

theorem preserves_exec (keep : Nat → Prop) (t : SmsTable) (c : DedupCall) :
    Preserves keep t (c.exec t) := by
  rcases insertSmsDeduped_cases t c with ⟨hr, -⟩ | ⟨hr, -, hrows, hseq⟩
  · rw [exec_of_refused hr]
    exact .refl keep t
  · refine ⟨fun m hm hle => ?_, by rw [hseq]; exact Nat.le_succ _, fun m hm _ => ?_⟩
    · rw [hrows] at hm
      rcases List.mem_append.1 hm with hm | hm
      · exact hm
      · simp only [List.mem_singleton] at hm
        subst hm
        exact absurd hle (Nat.not_succ_le_self _)
    · rw [hrows]
      exact List.mem_append_left _ hm

theorem preserves_delete {keep : Nat → Prop} (t : SmsTable) {p : Row Sms → Bool}
    (hp : ∀ m ∈ t.rows, keep m.id → p m = false) : Preserves keep t (t.delete p) := by
  refine ⟨fun m hm _ => (List.mem_filter.1 hm).1, Nat.le_refl _, fun m hm hk => ?_⟩
  exact List.mem_filter.2 ⟨hm, by simp [hp m hm hk]⟩

theorem preserves_keepLast {keep : Nat → Prop} (t : SmsTable) (n : Nat)
    (hp : ∀ m ∈ t.rows.take (t.rows.length - n), ¬ keep m.id) : Preserves keep t (t.keepLast n) := by
  refine ⟨fun m hm _ => List.mem_of_mem_drop hm, Nat.le_refl _, fun m hm hk => ?_⟩
  rw [← List.take_append_drop (t.rows.length - n) t.rows] at hm
  rcases List.mem_append.1 hm with hm | hm
  · exact absurd hk (hp m hm)
  · exact hm

/-! ## The links -/

/-- What the queue and the reports rely on: a message with a link was queued under a row of its own,
and as long as that row is stored it is the message, while it waits in the outbox with the status
`outbound`. -/
structure MailInv (s : MailSystem) : Prop where
  pending : ∀ r ∈ s.box.outbox.rows, ∃ k, ⟨r, k⟩ ∈ s.sends
  rowId : ∀ q ∈ s.sends, 0 < q.row.id
  stored : ∀ q ∈ s.sends, 0 < q.row.val.smsId → q.stored = some q.row.val.smsId
  unique : ∀ q ∈ s.sends, ∀ q' ∈ s.sends, 0 < q.row.val.smsId →
    q.row.val.smsId = q'.row.val.smsId → q = q'
  bound : ∀ q ∈ s.sends, q.row.val.smsId ≤ s.box.sms.seq
  own : ∀ q ∈ s.sends, 0 < q.row.val.smsId → ∀ m ∈ s.box.sms.rows, m.id = q.row.val.smsId →
    m.val.sender = q.row.val.recipient ∧ m.val.body = q.row.val.body ∧
      m.val.status.isInbound = false
  linked : ∀ r ∈ s.box.outbox.rows, 0 < r.val.smsId →
    ∃ m ∈ s.box.sms.rows, m.id = r.val.smsId ∧ m.val.status = .outbound

theorem mailInv_init : MailInv .init := by
  constructor <;> intro r hr <;> cases hr

/-- A change of the history that preserves the linked rows. -/
theorem MailInv.sms {s : MailSystem} (h : MailInv s) {t : SmsTable}
    (ht : Preserves s.box.Linked s.box.sms t) : MailInv ⟨⟨t, s.box.outbox⟩, s.sends⟩ where
  pending := h.pending
  rowId := h.rowId
  stored := h.stored
  unique := h.unique
  bound q hq := Nat.le_trans (h.bound q hq) ht.seq
  own q hq hpos m hm hid := h.own q hq hpos m (ht.old m hm (hid ▸ h.bound q hq)) hid
  linked r hr hpos := by
    obtain ⟨m, hm, hid, hst⟩ := h.linked r hr hpos
    exact ⟨m, ht.kept m hm (hid ▸ ⟨hpos, r, hr, rfl⟩), hid, hst⟩

/-- Messages may leave the outbox. -/
theorem MailInv.outbox {s : MailSystem} (h : MailInv s) (p : Row OutboxMsg → Bool) :
    MailInv ⟨⟨s.box.sms, s.box.outbox.delete p⟩, s.sends⟩ where
  pending r hr := h.pending r (List.mem_filter.1 hr).1
  rowId := h.rowId
  stored := h.stored
  unique := h.unique
  bound := h.bound
  own := h.own
  linked r hr := h.linked r (List.mem_filter.1 hr).1

/-- The message to queue is not linked, or linked to a row that was just inserted for it. -/
def FreshLink (s : MailSystem) (msg : OutboxMsg) (stored : Option Nat) : Prop :=
  msg.smsId = 0 ∨
    (stored = some msg.smsId ∧ (∀ q ∈ s.sends, q.row.val.smsId < msg.smsId) ∧
      msg.smsId ≤ s.box.sms.seq ∧
      ∃ m ∈ s.box.sms.rows, m.id = msg.smsId ∧ m.val.sender = msg.recipient ∧
        m.val.body = msg.body ∧ m.val.status = .outbound)

theorem MailInv.queue {s : MailSystem} (h : MailInv s) {msg : OutboxMsg} {stored : Option Nat}
    (hf : FreshLink s msg stored) :
    MailInv ⟨⟨s.box.sms, s.box.outbox.insert msg⟩,
      s.sends ++ [⟨⟨s.box.outbox.nextId, msg⟩, stored⟩]⟩ where
  pending r hr := by
    rcases Table.mem_insert.1 hr with hr | rfl
    · obtain ⟨k, hk⟩ := h.pending r hr
      exact ⟨k, List.mem_append_left _ hk⟩
    · exact ⟨stored, by simp⟩
  rowId q hq := by
    rcases List.mem_append.1 hq with hq | hq
    · exact h.rowId q hq
    · simp only [List.mem_singleton] at hq
      subst hq
      exact Nat.succ_pos _
  stored q hq hpos := by
    rcases List.mem_append.1 hq with hq | hq
    · exact h.stored q hq hpos
    · simp only [List.mem_singleton] at hq
      subst hq
      rcases hf with h0 | ⟨hst, -⟩
      · exact absurd h0 (Nat.pos_iff_ne_zero.1 hpos)
      · exact hst
  unique q hq q' hq' hpos heq := by
    rcases List.mem_append.1 hq with hq | hq <;> rcases List.mem_append.1 hq' with hq' | hq'
    · exact h.unique q hq q' hq' hpos heq
    · simp only [List.mem_singleton] at hq'
      subst hq'
      rcases hf with h0 | ⟨-, hlt, -⟩
      · simp only [h0] at heq
        omega
      · have := hlt q hq
        simp only at heq
        omega
    · simp only [List.mem_singleton] at hq
      subst hq
      rcases hf with h0 | ⟨-, hlt, -⟩
      · simp only [h0] at hpos
        omega
      · have := hlt q' hq'
        simp only at heq
        omega
    · simp only [List.mem_singleton] at hq hq'
      rw [hq, hq']
  bound q hq := by
    rcases List.mem_append.1 hq with hq | hq
    · exact h.bound q hq
    · simp only [List.mem_singleton] at hq
      subst hq
      rcases hf with h0 | ⟨-, -, hle, -⟩
      · simp [h0]
      · exact hle
  own q hq hpos m hm hid := by
    rcases List.mem_append.1 hq with hq | hq
    · exact h.own q hq hpos m hm hid
    · simp only [List.mem_singleton] at hq
      subst hq
      rcases hf with h0 | ⟨-, -, -, m', hm', hid', hs, hb, hst⟩
      · exact absurd h0 (Nat.pos_iff_ne_zero.1 hpos)
      · obtain rfl : m = m' := Table.row_unique hm hm' (hid.trans hid'.symm)
        exact ⟨hs, hb, by rw [hst]; rfl⟩
  linked r hr hpos := by
    rcases Table.mem_insert.1 hr with hr | rfl
    · exact h.linked r hr hpos
    · rcases hf with h0 | ⟨-, -, -, m', hm', hid', -, -, hst⟩
      · exact absurd h0 (Nat.pos_iff_ne_zero.1 hpos)
      · exact ⟨m', hm', hid', hst⟩

theorem mem_setStatus {t : SmsTable} {k : Nat} {status : SmsStatus} {m : Row Sms} :
    m ∈ (t.setStatus k status).rows ↔
      (m ∈ t.rows ∧ m.id ≠ k) ∨ ∃ v, ⟨k, v⟩ ∈ t.rows ∧ m = ⟨k, { v with status := status }⟩ :=
  Table.mem_update

/-- A report on a message: its row of the history gets the outcome, its row of the outbox goes. -/
theorem MailInv.report {s : MailSystem} (h : MailInv s) {q : Send} (hq : q ∈ s.sends)
    {status : SmsStatus} (hst : status.isInbound = false)
    (p : Row OutboxMsg → Bool) (hp : ∀ r, r.id = q.row.id → p r = true) :
    MailInv ⟨⟨s.box.sms.setStatus q.row.val.smsId status, s.box.outbox.delete p⟩, s.sends⟩ where
  pending r hr := h.pending r (List.mem_filter.1 hr).1
  rowId := h.rowId
  stored := h.stored
  unique := h.unique
  bound := h.bound
  own q' hq' hpos' m hm hid := by
    rcases mem_setStatus.1 hm with ⟨hm, -⟩ | ⟨v, hv, rfl⟩
    · exact h.own q' hq' hpos' m hm hid
    · obtain ⟨hs, hb, -⟩ := h.own q' hq' hpos' _ hv hid
      exact ⟨hs, hb, hst⟩
  linked r hr hposr := by
    obtain ⟨hr, hkeep⟩ := List.mem_filter.1 hr
    obtain ⟨m, hm, hid, hout⟩ := h.linked r hr hposr
    have hne : m.id ≠ q.row.val.smsId := by
      -- Another message of the outbox is linked to another row.
      intro heq
      obtain ⟨k, hk⟩ := h.pending r hr
      have hsame := h.unique _ hk q hq hposr (hid.symm.trans heq)
      have : p r = true := hp r (by rw [← hsame])
      simp [this] at hkeep
    exact ⟨m, mem_setStatus.2 (.inl ⟨hm, hne⟩), hid, hout⟩

/-- Queueing a message that the lookup does not know. -/
theorem MailInv.send {s : MailSystem} (h : MailInv s) (now : Nat) (recipient body : GoString)
    (hnear : smsNearDuplicateID s.box.sms recipient body now = none) :
    let c : DedupCall := ⟨now, recipient, body, now, .outbound⟩
    let d := c.result s.box.sms
    MailInv ⟨⟨c.exec s.box.sms, s.box.outbox.insert ⟨recipient, body, d.id⟩⟩,
      s.sends ++ [⟨⟨s.box.outbox.nextId, recipient, body, d.id⟩,
        if d.inserted then some d.id else none⟩]⟩ := by
  intro c d
  have htime : c.time = now := by simp [c, DedupCall.time]
  refine (h.sms (preserves_exec _ s.box.sms c)).queue ?_
  rcases insertSmsDeduped_cases s.box.sms c with ⟨hr, heq⟩ | ⟨hr, heq, hrows, hseq⟩
  · -- The exact key is stored: the message is queued without a link.
    have hd : d = ⟨0, false⟩ := by
      simp only [d, DedupCall.result, heq]
      rw [htime, show c.sender = recipient from rfl, show c.body = body from rfl, hnear]
      rfl
    exact .inl (by simp [hd])
  · have hd : d = ⟨s.box.sms.nextId, true⟩ := heq
    refine .inr ⟨by simp [hd], fun q hq => ?_, ?_, ⟨s.box.sms.nextId, c.sms⟩, ?_, ?_⟩
    · rw [hd]
      exact Nat.lt_succ_of_le (h.bound q hq)
    · rw [hd]
      exact Nat.le_of_eq hseq.symm
    · rw [hrows]
      simp
    · exact ⟨by rw [hd], rfl, rfl, rfl⟩

/-- The rolling window and the insertion before it. -/
theorem preserves_push {keep : Nat → Prop} (t : SmsTable) (c : DedupCall) (n : Nat)
    (hkeep : ∀ k, keep k → k ≤ t.seq)
    (hdrop : ∀ k, keep k → k ∉ (t.rows.take (t.rows.length + 1 - n)).map (·.id)) :
    Preserves keep t (if (c.result t).inserted then (c.exec t).keepLast n else c.exec t) := by
  have happ := preserves_exec keep t c
  split_ifs with hins
  · refine happ.trans (preserves_keepLast _ n ?_)
    rcases insertSmsDeduped_cases t c with ⟨-, heq⟩ | ⟨-, -, hrows, -⟩
    · simp [DedupCall.result, heq] at hins
    · intro m hm hk
      rw [hrows, List.length_append, List.length_singleton, List.take_append] at hm
      rcases List.mem_append.1 hm with hm | hm
      · exact hdrop _ hk (List.mem_map_of_mem hm)
      · have hmem := List.mem_of_mem_take hm
        simp only [List.mem_singleton] at hmem
        subst hmem
        exact absurd (hkeep _ hk) (Nat.not_succ_le_self _)
  · exact happ

/-- Every operation that queues under a new row and keeps the linked rows preserves the invariant. -/
theorem mailInv_step (s : MailSystem) (op : MailOp) (s' : MailSystem) (h : MailInv s)
    (hc : KeepsLinks s op) (hs : s.step op = some s') : MailInv s' := by
  unfold MailSystem.step at hs
  split_ifs at hs with hgen
  obtain rfl := Option.some.inj hs
  have hbound : ∀ k, s.box.Linked k → k ≤ s.box.sms.seq := by
    rintro k ⟨-, r, hr, rfl⟩
    obtain ⟨j, hj⟩ := h.pending r hr
    exact h.bound _ hj
  cases op with
  | push now sender body timestamp contact =>
    simp only [MailOp.exec, MailOp.queued, List.append_nil]
    refine h.sms (preserves_push s.box.sms _ maxStoredSms hbound fun k hk hmem => ?_)
    refine hc.dropped k hk ?_
    obtain ⟨r, hr, rfl⟩ := List.mem_map.1 hmem
    exact List.mem_map_of_mem hr
  | sync now m =>
    simp only [MailOp.exec, MailOp.queued, List.append_nil]
    refine h.sms ?_
    simp only [MailOp.execSms]
    split
    · exact preserves_exec _ _ _
    · exact .refl _ _
  | send now recipient body =>
    by_cases hb : body = []
    · simp only [MailOp.exec, MailOp.execSms, MailOp.execOutbox, MailOp.queued, MailOp.call, hb,
        if_true, List.append_nil]
      exact h
    · have := h.send now recipient body (hc.send now recipient body rfl hb)
      simpa only [MailOp.exec, MailOp.execSms, MailOp.execOutbox, MailOp.queued, MailOp.call,
        if_neg hb] using this
  | reply now recipient body =>
    have hsms := h.sms (preserves_exec s.box.Linked s.box.sms ⟨now, recipient, body, now, .outbound⟩)
    exact hsms.queue (.inl rfl)
  | report outboxID smsID sent =>
    obtain ⟨q, hq, rfl, rfl⟩ := hgen
    have hout : (if sent then SmsStatus.sent else SmsStatus.failed).isInbound = false := by
      split_ifs <;> rfl
    have hrow := h.rowId q hq
    simp only [MailOp.exec, MailOp.execSms, MailOp.execOutbox, MailOp.queued, List.append_nil,
      Int.toNat_natCast]
    rw [if_pos (show (q.row.id : Int) > 0 by omega)]
    by_cases hpos : 0 < q.row.val.smsId
    · rw [if_pos (show (q.row.val.smsId : Int) > 0 by omega)]
      exact h.report hq hout _ (fun r hr => by simp [hr])
    · rw [if_neg (show ¬ (q.row.val.smsId : Int) > 0 by omega)]
      exact h.outbox _
  | deleteOutbox id =>
    simp only [MailOp.exec, MailOp.queued, List.append_nil]
    exact h.outbox _
  | deleteSms ids =>
    simp only [MailOp.exec, MailOp.queued, List.append_nil]
    refine h.sms (preserves_delete _ fun m _ hk => ?_)
    simpa [MailOp.dropped] using hc.dropped m.id hk
  | deleteConversation peer =>
    simp only [MailOp.exec, MailOp.queued, List.append_nil]
    refine (h.outbox fun r => r.val.recipient = peer).sms (preserves_delete _ fun m hm hk => ?_)
    -- A message that stays in the outbox goes to another number, and so does its row.
    obtain ⟨hpos, r, hr, hid⟩ := hk
    obtain ⟨hr, hpeer⟩ := List.mem_filter.1 hr
    obtain ⟨j, hj⟩ := h.pending r hr
    obtain ⟨hsender, -⟩ := h.own _ hj (hid ▸ hpos) m hm hid.symm
    simpa [hsender] using hpeer
  | purge =>
    simp only [MailOp.exec, MailOp.queued, List.append_nil]
    refine h.sms (preserves_delete _ fun m _ hk => ?_)
    have hkeep : m.id ∉ purgedIds s.box.sms := fun hmem =>
      hc.dropped m.id hk (List.mem_map_of_mem hmem)
    simpa using hkeep

theorem MailInv.linksSound {s : MailSystem} (h : MailInv s) : LinksSound s where
  linked r hr hpos := by
    obtain ⟨k, hk⟩ := h.pending r hr
    obtain rfl : k = some r.val.smsId := h.stored _ hk hpos
    obtain ⟨m, hm, hid, hst⟩ := h.linked r hr hpos
    obtain ⟨hs, hb, -⟩ := h.own _ hk hpos m hm hid
    exact ⟨hk, m, hm, hid, hst, hs, hb⟩
  distinct r hr r' hr' hpos heq := by
    obtain ⟨k, hk⟩ := h.pending r hr
    obtain ⟨k', hk'⟩ := h.pending r' hr'
    exact congrArg Send.row (h.unique _ hk _ hk' hpos heq)
  reports q hq sent m hm hchanged := by
    by_cases hpos : 0 < q.row.val.smsId
    · have hid : m.id = q.row.val.smsId := by
        by_contra hne
        refine hchanged ?_
        simp only [MailOp.execSms, Int.toNat_natCast]
        rw [if_pos (show (q.row.val.smsId : Int) > 0 by omega)]
        exact mem_setStatus.2 (.inl ⟨hm, hne⟩)
      obtain ⟨hs, hb, hin⟩ := h.own q hq hpos m hm hid
      exact ⟨by rw [hid]; exact h.stored q hq hpos, hs, hb, hin⟩
    · refine absurd ?_ hchanged
      simp only [MailOp.execSms]
      rw [if_neg (show ¬ (q.row.val.smsId : Int) > 0 by omega)]
      exact hm

/-- In a run whose messages are queued under new rows and whose deletions keep the linked rows, the
links are sound in every state. -/
theorem linksSound_of_keepsLinks (ops : List MailOp) (s : MailSystem)
    (hrun : runSteps MailSystem.step .init ops = some s)
    (hc : StepsMeet MailSystem.step KeepsLinks .init ops) : LinksSound s :=
  (runSteps_invariant_of_meet mailInv_step hrun hc mailInv_init).linksSound

/-- One message, sent and reported. -/
theorem linksSound_one_send :
    LinksSound ⟨(MailOp.send 1000 "0612345678" "ok").exec .empty,
      [⟨⟨1, "0612345678", "ok", 1⟩, some 1⟩]⟩ := by
  refine linksSound_of_keepsLinks [.send 1000 "0612345678" "ok"] _ rfl ⟨⟨?_, ?_⟩, fun _ _ => trivial⟩
  · intro now recipient body h hb
    injection h with hnow hrecipient hbody
    subst hnow hrecipient hbody
    rfl
  · rintro k ⟨-, r, hr, -⟩
    cases hr

/-- The same text sent twice within three minutes is queued twice under one row of the history. -/
theorem same_text_shares_link :
    ¬ ∀ ops s, runSteps MailSystem.step .init ops = some s → LinksSound s := by
  intro h
  have hsound := h [.send 1000 "0612345678" "ok", .send 61000 "0612345678" "ok"] _ rfl
  have := hsound.distinct ⟨1, "0612345678", "ok", 1⟩ (by decide) ⟨2, "0612345678", "ok", 1⟩
    (by decide) (by decide) rfl
  revert this
  decide

end Gafam.Relay
