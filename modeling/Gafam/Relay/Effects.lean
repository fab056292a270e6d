import Gafam.Relay.Emergency

/-!
# Effects that are reported

The 911 cascade and the tool `sms.send` with writes to the database that may fail. The helpers that queue a message
log the error of an insert and return, and their callers do not hear of it.
-/

namespace Gafam.Relay

open Gafam.Go Gafam.Lib

/-- Which of the writes of a call succeed: the two of `mark911Seen`, and by their number the inserts into
`gafam_outbox` and those into the history that follow them. -/
structure Writes where
  seenInsert : Bool
  seenDelete : Bool
  outbox : Nat → Bool
  history : Nat → Bool

/-- `queue911Sms` and `queueSmsReply`, which do the same. -/
def Writes.queue (w : Writes) (k now : Nat) (recipient body : GoString) (n : Node) : Node :=
  if w.outbox k then
    { n with
      outbox := n.outbox.insert ⟨recipient, body, 0⟩
      sms := if w.history k then (insertSmsDeduped now n.sms recipient body now .outbound).2 else n.sms }
  else n

/-- `mark911Seen`, which lets an alert through that it cannot record. -/
def Writes.mark911Seen (w : Writes) (now : Nat) (alertID : GoString) (seen : List SeenAlert) :
    Bool × List SeenAlert :=
  if alertID = [] then (true, seen)
  else if w.seenInsert = false then (true, seen)
  else
    let fresh := ¬ Seen alertID seen
    let inserted := if fresh then seen ++ [⟨alertID, now / 1000⟩] else seen
    (fresh, if w.seenDelete then pruneSeen now inserted else inserted)

/-- The loop of `trigger911Cascade` over the guardians with the relay on, `k` of the inserts being done. -/
def Writes.relayLoop (w : Writes) (now : Nat) (senderStr body : GoString) : List Guardian → Nat → Node → Nat × Node
  | [], _, n => (0, n)
  | g :: rest, k, n =>
    if phonesMatch g.phoneNumber senderStr then w.relayLoop now senderStr body rest k n
    else
      let (relayed, n') := w.relayLoop now senderStr body rest (k + 1) (w.queue k now g.phoneNumber body n)
      (relayed + 1, n')

/-- `trigger911Cascade`. -/
def Writes.trigger911Cascade (w : Writes) (now : Nat) (newID senderStr alertID : GoString) (hop : Int)
    (origPhone origName message : GoString) (n : Node) : Nat × Node :=
  let alertID := if alertID = [] then newID else alertID
  let (fresh, seen) := w.mark911Seen now alertID n.seen
  let n := { n with seen := seen }
  if !fresh then (0, n)
  else if hop > max911Hops then (0, n)
  else
    let body := build911RelayBody alertID hop origPhone origName message
    w.relayLoop now senderStr body (n.guardians.filter fun g => g.relay911 = 1) 0 n

/-! ## `sms.send` -/

/-- The parameters of the tool, where they are strings. -/
structure SendParams where
  recipient : Option GoString
  body : Option GoString

structure SendResult where
  queued : Bool
  recipient : GoString
deriving DecidableEq

/-- The handler of `sms.send`, with the setting `agent_kill_sms`. -/
def Writes.smsSend (w : Writes) (now : Nat) (killSms : GoString) (p : SendParams) (n : Node) :
    Except GoString SendResult × Node :=
  let recipient := p.recipient.getD []
  let body := p.body.getD []
  if killSms = "1" then
    (.error (str "sms.send blocked: agent SMS kill switch is ON (Settings → Agent controls)"), n)
  else if recipient = [] ∨ body = [] then (.error (str "missing 'to' or 'body'"), n)
  else if body.length > 1500 then
    (.error (str "body too long (" ++ itoa body.length ++ str " chars, max 1500)"), n)
  else (.ok ⟨true, recipient⟩, w.queue 0 now recipient body n)

/-! ## What the reports are for -/

/-- As many rows are new in the outbox as the cascade says that it has relayed. -/
def CountsRows (n : Node) (result : Nat × Node) : Prop :=
  result.2.outbox.rows.length = n.outbox.rows.length + result.1

/-- The tool reports a message as queued only with its row in the outbox. -/
def QueuesRow (p : SendParams) (n : Node) (result : Except GoString SendResult × Node) : Prop :=
  ∀ r, result.1 = .ok r → r.queued = true →
    result.2.outbox = n.outbox.insert ⟨p.recipient.getD [], p.body.getD [], 0⟩

/-! ## When they are true -/

/-- The cascade ends before its loop: the alert is recorded already, or it has come too far. -/
def Writes.Stops (w : Writes) (alertID : GoString) (hop : Int) (n : Node) : Prop :=
  (alertID ≠ [] ∧ w.seenInsert = true ∧ Seen alertID n.seen) ∨ hop > max911Hops

/-- The tool refuses the message. -/
def Refuses (killSms : GoString) (p : SendParams) : Prop :=
  killSms = "1" ∨ p.recipient.getD [] = [] ∨ p.body.getD [] = [] ∨ (p.body.getD []).length > 1500

/-!
## Reports and rows

The cascade counts the guardians that it has tried, and the tool reports a message as queued when it has tried. So
they are right if and only if what they have tried has come about.
-/

/-! ### Writes that succeed -/

/-- Every write succeeds. -/
def Writes.all : Writes := ⟨true, true, fun _ => true, fun _ => true⟩

theorem queue_all (k now : Nat) (recipient body : GoString) (n : Node) :
    Writes.all.queue k now recipient body n = queue911Sms now recipient body n := rfl

theorem relayLoop_all (now : Nat) (senderStr body : GoString) (gs : List Guardian) (k : Nat) (n : Node) :
    Writes.all.relayLoop now senderStr body gs k n =
      ((gs.filter fun g => !phonesMatch g.phoneNumber senderStr).length,
        (gs.filter fun g => !phonesMatch g.phoneNumber senderStr).foldl
          (fun s g => queue911Sms now g.phoneNumber body s) n) := by
  induction gs generalizing k n with
  | nil => rfl
  | cons g gs ih =>
    rw [Writes.relayLoop]
    by_cases hsender : phonesMatch g.phoneNumber senderStr = true
    · rw [if_pos hsender, ih, List.filter_cons_of_neg (by simp [hsender])]
    · rw [if_neg hsender, ih, List.filter_cons_of_pos (by simp [hsender]), queue_all]
      rfl

theorem mark911Seen_all (now : Nat) (alertID : GoString) (seen : List SeenAlert) :
    Writes.all.mark911Seen now alertID seen = mark911Seen now alertID seen := by
  unfold Writes.mark911Seen mark911Seen
  by_cases hnil : alertID = []
  · rw [if_pos hnil, if_pos hnil]
  · rw [if_neg hnil, if_neg hnil, if_neg (by decide)]
    by_cases hseen : Seen alertID seen
    · simp [hseen, Writes.all]
    · simp [hseen, Writes.all]

/-- The cascade whose writes all succeed is the one of the node. -/
theorem cascade_all (now : Nat) (newID senderStr alertID : GoString) (hop : Int)
    (origPhone origName message : GoString) (n : Node) :
    Writes.all.trigger911Cascade now newID senderStr alertID hop origPhone origName message n =
      trigger911Cascade now newID senderStr alertID hop origPhone origName message n := by
  unfold Writes.trigger911Cascade trigger911Cascade
  simp only [mark911Seen_all, relayLoop_all]
  rfl

/-! ### Writes that fail -/

variable {w : Writes}

theorem queue_outbox (w : Writes) (k now : Nat) (recipient body : GoString) (n : Node) :
    (w.queue k now recipient body n).outbox =
      if w.outbox k then n.outbox.insert ⟨recipient, body, 0⟩ else n.outbox := by
  unfold Writes.queue
  split_ifs <;> rfl

theorem length_queue (w : Writes) (k now : Nat) (recipient body : GoString) (n : Node) :
    (w.queue k now recipient body n).outbox.rows.length = n.outbox.rows.length + if w.outbox k then 1 else 0 := by
  rw [queue_outbox]
  split_ifs
  · exact List.length_append
  · rfl

/-- The loop counts its attempts, and as many rows are new as inserts have succeeded. -/
theorem relayLoop_counts (w : Writes) (now : Nat) (senderStr body : GoString) (gs : List Guardian) (k : Nat)
    (n : Node) :
    (w.relayLoop now senderStr body gs k n).1 = (gs.filter fun g => !phonesMatch g.phoneNumber senderStr).length ∧
      (w.relayLoop now senderStr body gs k n).2.outbox.rows.length = n.outbox.rows.length +
        (List.range' k (gs.filter fun g => !phonesMatch g.phoneNumber senderStr).length).countP w.outbox := by
  induction gs generalizing k n with
  | nil => exact ⟨rfl, rfl⟩
  | cons g gs ih =>
    rw [Writes.relayLoop]
    by_cases hsender : phonesMatch g.phoneNumber senderStr = true
    · rw [if_pos hsender, List.filter_cons_of_neg (by simp [hsender])]
      exact ih k n
    · obtain ⟨hcount, hrows⟩ := ih (k + 1) (w.queue k now g.phoneNumber body n)
      rw [if_neg hsender, List.filter_cons_of_pos (by simp [hsender]), List.length_cons, List.range'_succ,
        List.countP_cons]
      refine ⟨by rw [← hcount], ?_⟩
      rw [hrows, length_queue]
      omega

theorem relayLoop_iff (now : Nat) (senderStr body : GoString) (n : Node) :
    CountsRows n (w.relayLoop now senderStr body (n.guardians.filter fun g => g.relay911 = 1) 0 n) ↔
      ∀ k < (relayGuardians senderStr n.guardians).length, w.outbox k = true := by
  obtain ⟨hcount, hrows⟩ := relayLoop_counts w now senderStr body (n.guardians.filter fun g => g.relay911 = 1) 0 n
  have hall := List.countP_eq_length (p := w.outbox) (l := List.range' 0 (relayGuardians senderStr n.guardians).length)
  rw [List.length_range'] at hall
  unfold CountsRows
  rw [hcount, hrows, Nat.add_left_cancel_iff]
  refine hall.trans ⟨fun h k hk => h k (List.mem_range'_1.2 ⟨Nat.zero_le k, by omega⟩), fun h k hk => h k ?_⟩
  have := (List.mem_range'_1.1 hk).2
  omega

/-- The alert is taken for a new one if it is, or cannot be recorded. -/
theorem mark911Seen_fresh (w : Writes) (now : Nat) (alertID : GoString) (seen : List SeenAlert) :
    (w.mark911Seen now alertID seen).1 = false ↔ alertID ≠ [] ∧ w.seenInsert = true ∧ Seen alertID seen := by
  unfold Writes.mark911Seen
  by_cases hnil : alertID = []
  · simp [hnil]
  · by_cases hinsert : w.seenInsert = true
    · simp [hnil, hinsert]
    · simp [hnil, hinsert]

theorem cascade_iff (w : Writes) (now : Nat) (newID senderStr alertID : GoString) (hop : Int)
    (origPhone origName message : GoString) (n : Node) :
    CountsRows n (w.trigger911Cascade now newID senderStr alertID hop origPhone origName message n) ↔
      w.Stops (if alertID = [] then newID else alertID) hop n ∨
        ∀ k < (relayGuardians senderStr n.guardians).length, w.outbox k = true := by
  unfold Writes.trigger911Cascade Writes.Stops
  generalize (if alertID = [] then newID else alertID) = id
  dsimp only
  by_cases hfresh : (w.mark911Seen now id n.seen).1 = false
  · rw [hfresh]
    exact iff_of_true rfl (.inl (.inl ((mark911Seen_fresh w now id n.seen).1 hfresh)))
  · have htrue : (w.mark911Seen now id n.seen).1 = true := by simpa using hfresh
    rw [htrue, if_neg (by decide)]
    by_cases hhop : hop > max911Hops
    · rw [if_pos hhop]
      exact iff_of_true rfl (.inl (.inr hhop))
    · rw [if_neg hhop, or_iff_right (not_or.2 ⟨mt (mark911Seen_fresh w now id n.seen).2 hfresh, hhop⟩)]
      exact relayLoop_iff now senderStr _ { n with seen := (w.mark911Seen now id n.seen).2 }

theorem insert_ne (t : Table OutboxMsg) (m : OutboxMsg) : t ≠ t.insert m := by
  intro h
  have hlen := congrArg (fun t : Table OutboxMsg => t.rows.length) h
  simp [Table.insert] at hlen

theorem smsSend_iff (w : Writes) (now : Nat) (killSms : GoString) (p : SendParams) (n : Node) :
    QueuesRow p n (w.smsSend now killSms p n) ↔ Refuses killSms p ∨ w.outbox 0 = true := by
  unfold Writes.smsSend QueuesRow Refuses
  dsimp only
  by_cases hkill : killSms = "1"
  · rw [if_pos hkill]
    exact iff_of_true (fun _ h => by cases h) (.inl (.inl hkill))
  · by_cases hempty : p.recipient.getD [] = [] ∨ p.body.getD [] = []
    · rw [if_neg hkill, if_pos hempty]
      exact iff_of_true (fun _ h => by cases h) (.inl (.inr (hempty.imp_right .inl)))
    · by_cases hlong : (p.body.getD []).length > 1500
      · rw [if_neg hkill, if_neg hempty, if_pos hlong]
        exact iff_of_true (fun _ h => by cases h) (.inl (.inr (.inr (.inr hlong))))
      · rw [if_neg hkill, if_neg hempty, if_neg hlong]
        have hno : ¬ (killSms = "1" ∨ p.recipient.getD [] = [] ∨ p.body.getD [] = [] ∨
            (p.body.getD []).length > 1500) := by
          tauto
        rw [or_iff_right hno]
        dsimp only
        rw [queue_outbox]
        constructor
        · intro h
          by_contra houtbox
          have hrow := h ⟨true, p.recipient.getD []⟩ rfl rfl
          rw [if_neg houtbox] at hrow
          exact insert_ne _ _ hrow
        · intro houtbox r _ _
          rw [if_pos houtbox]

/-- For every pattern of failures: the cascade counts the rows that it has inserted if and only if it stops before
its loop or the insert for each of its guardians succeeds; and the tool reports a message as queued only with its row
if and only if it refuses the message or its insert succeeds. -/
theorem reports_iff (w : Writes) (now : Nat) (newID senderStr alertID : GoString) (hop : Int)
    (origPhone origName message killSms : GoString) (p : SendParams) (n : Node) :
    (CountsRows n (w.trigger911Cascade now newID senderStr alertID hop origPhone origName message n) ↔
      w.Stops (if alertID = [] then newID else alertID) hop n ∨
        ∀ k < (relayGuardians senderStr n.guardians).length, w.outbox k = true) ∧
      (QueuesRow p n (w.smsSend now killSms p n) ↔ Refuses killSms p ∨ w.outbox 0 = true) :=
  ⟨cascade_iff .., smsSend_iff ..⟩

/-- No insert into the outbox succeeds. -/
def lockedOutbox : Writes := ⟨true, true, fun _ => false, fun _ => true⟩

theorem lockedOutbox_reported :
    ¬ QueuesRow ⟨some (str "+33612345678"), some (str "hello")⟩ .fresh
      (lockedOutbox.smsSend 0 [] ⟨some (str "+33612345678"), some (str "hello")⟩ .fresh) := by
  intro h
  exact insert_ne _ _ (h ⟨true, str "+33612345678"⟩ rfl rfl)

end Gafam.Relay
