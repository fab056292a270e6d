import Gafam.Lib.Steps
import Gafam.Relay.Dedup
import Gafam.Relay.Proofs.DedupProofs
import Mathlib.Logic.Function.Basic

/-!
# Which contacts to analyse again

An analysis of a contact reads the newest messages of the contact, asks the model about them, and stores the time at
which it is done. A contact is taken to need an analysis when one of its messages is dated later than that. Messages
come in at any time, also while an analysis waits for the model.
-/

namespace Gafam.Relay

open Gafam.Go Gafam.Lib

/-- The digits of a number that its messages are looked up by. -/
def contactSuffix (phone : GoString) : GoString :=
  let digits := phoneDigits phone
  if 9 < digits.length then digits.drop (digits.length - 9) else digits

/-- `sender LIKE '%' || suffix`, for a number that has digits. -/
def isFrom (phone sender : GoString) : Bool := contactSuffix phone ≠ [] && (contactSuffix phone).isSuffixOf sender

/-- The tables, and the analyses. `running` holds the contacts of the analyses that have read the history and wait for
the model; `lastRead` is the id of the newest message when an analysis of the contact last read its history. -/
structure AutoStore where
  sms : SmsTable
  /-- The column `last_analysis_ts` of each contact, 0 where it is `NULL`. -/
  lastAnalysisTs : GoString → Option Nat
  running : List GoString
  lastRead : GoString → Option Nat

namespace AutoStore

/-- A store without analyses. -/
def start (sms : SmsTable) (lastAnalysisTs : GoString → Option Nat) : AutoStore :=
  ⟨sms, lastAnalysisTs, [], fun _ => none⟩

/-- The messages of a contact. -/
def messagesOf (s : AutoStore) (phone : GoString) : List (Row Sms) :=
  s.sms.rows.filter fun r => isFrom phone r.val.sender

/-- `SELECT COALESCE(MAX(timestamp), 0)` -/
def maxTs (s : AutoStore) (phone : GoString) : Int := ((s.messagesOf phone).map fun r => r.val.timestamp).max?.getD 0

/-- `contactNeedsAnalysis` -/
def contactNeedsAnalysis (s : AutoStore) (phone : GoString) : Bool :=
  if contactSuffix phone = [] then false
  else if s.maxTs phone = 0 then false
  else match s.lastAnalysisTs phone with
    | none => true
    | some lastTs => lastTs = 0 || s.maxTs phone > lastTs

/-- The rows may be what the query for the history answers: rows of one timestamp come in any order. -/
def isHistory (s : AutoStore) (phone : GoString) (rows rest : List (Row Sms)) : Prop :=
  (rows ++ rest).Perm (s.messagesOf phone) ∧
    (rows ++ rest).Pairwise (fun a b => b.val.timestamp ≤ a.val.timestamp) ∧
      rows.length = min 30 (s.messagesOf phone).length

instance (s : AutoStore) (phone : GoString) (rows rest : List (Row Sms)) : Decidable (s.isHistory phone rows rest) := by
  unfold isHistory
  infer_instance

inductive Action
  | insert (c : DedupCall)
  /-- An analysis starts and reads the history. -/
  | read (phone : GoString) (rows rest : List (Row Sms))
  /-- The model has answered, and the time is stored. -/
  | finish (i : Nat) (now : Nat)
  /-- The time is not stored. -/
  | fail (i : Nat)

def step (s : AutoStore) : Action → Option AutoStore
  | .insert c => some { s with sms := c.exec s.sms }
  | .read phone rows rest =>
    if (s.lastAnalysisTs phone).isSome = true ∧ s.isHistory phone rows rest then
      -- Without a text in the history there is nothing to ask the model.
      let running := if rows.all fun r => trimSpace r.val.body = [] then s.running else s.running ++ [phone]
      some { s with lastRead := Function.update s.lastRead phone (some s.sms.seq), running := running }
    else none
  | .finish i now =>
    s.running[i]?.map fun phone =>
      { s with lastAnalysisTs := Function.update s.lastAnalysisTs phone (some now), running := s.running.eraseIdx i }
  | .fail i => s.running[i]?.map fun _ => { s with running := s.running.eraseIdx i }

/-! ## Purpose -/

/-- The contact has a message that was stored after an analysis last read its history. -/
def HasNew (s : AutoStore) (phone : GoString) : Prop :=
  ∃ n, s.lastRead phone = some n ∧ ∃ r ∈ s.messagesOf phone, n < r.id

/-- Every contact with such a message is reported. -/
def Reported (s : AutoStore) : Prop := ∀ phone, s.HasNew phone → s.contactNeedsAnalysis phone = true

/-- The time of the last analysis. -/
def marker (s : AutoStore) (phone : GoString) : Nat := (s.lastAnalysisTs phone).getD 0

/-- The contact has a message that is dated later. -/
def HasLater (s : AutoStore) (phone : GoString) (t : Nat) : Prop := ∃ r ∈ s.messagesOf phone, (t : Int) < r.val.timestamp

/-- Of an analysed contact, a new message, or one from before, is dated later than the analysis; and when the time
of an analysis is stored, one of the messages is dated later if there are new ones. -/
def Dated (s : AutoStore) : Action → Prop
  | .insert c => ¬Refused s.sms c → ∀ phone, s.lastRead phone ≠ none → isFrom phone c.sender = true →
    (s.marker phone : Int) < c.time ∨ s.HasLater phone (s.marker phone)
  | .finish i now => ∀ phone, s.running[i]? = some phone → s.HasNew phone → s.HasLater phone now
  | _ => True

end AutoStore

end Gafam.Relay

/-!
## Contacts with new messages

A contact is reported if one of its messages is dated later than its last analysis. That is kept when a message comes in
that is dated so, and when an analysis ends before the date of the messages that it has not read.
-/

namespace Gafam.Relay.AutoStore

open Gafam.Go Gafam.Lib

theorem mem_messagesOf {s : AutoStore} {phone : GoString} {r : Row Sms} :
    r ∈ s.messagesOf phone ↔ r ∈ s.sms.rows ∧ isFrom phone r.val.sender = true := List.mem_filter

/-- The newest timestamp is no earlier than that of any message. -/
theorem le_maxTs {s : AutoStore} {phone : GoString} {r : Row Sms} (h : r ∈ s.messagesOf phone) :
    r.val.timestamp ≤ s.maxTs phone := by
  unfold maxTs
  have hmem : r.val.timestamp ∈ (s.messagesOf phone).map fun r => r.val.timestamp := List.mem_map.2 ⟨r, h, rfl⟩
  obtain ⟨m, hm⟩ := Option.isSome_iff_exists.1 (List.isSome_max?_of_mem hmem)
  rw [hm]
  exact (List.max?_eq_some_iff.1 hm).2 _ hmem

/-- A message that is dated later than the last analysis makes the contact one that is reported. -/
theorem needsAnalysis_of_later {s : AutoStore} {phone : GoString} (h : s.HasLater phone (s.marker phone)) :
    s.contactNeedsAnalysis phone = true := by
  obtain ⟨r, hr, hlater⟩ := h
  have hsuffix : contactSuffix phone ≠ [] := by
    have hfrom := (mem_messagesOf.1 hr).2
    exact of_decide_eq_true (Bool.and_eq_true _ _ ▸ hfrom).1
  have hmax := le_maxTs hr
  have hpos : s.maxTs phone ≠ 0 := by omega
  unfold contactNeedsAnalysis
  rw [if_neg hsuffix, if_neg hpos]
  unfold marker at hlater
  cases hts : s.lastAnalysisTs phone with
  | none => rfl
  | some t =>
    rw [hts] at hlater
    have hgt : s.maxTs phone > (t : Int) := Int.lt_of_lt_of_le hlater hmax
    show (decide (t = 0) || decide (s.maxTs phone > (t : Int))) = true
    rw [decide_eq_true hgt, Bool.or_true]

/-! ### The invariant -/

/-- What every state keeps. -/
structure Kept (s : AutoStore) : Prop where
  /-- The ids that were remembered are ids that have been given out. -/
  read : ∀ phone n, s.lastRead phone = some n → n ≤ s.sms.seq
  later : ∀ phone, s.HasNew phone → s.HasLater phone (s.marker phone)

theorem kept_start (sms : SmsTable) (lastAnalysisTs : GoString → Option Nat) : Kept (start sms lastAnalysisTs) where
  read _ _ h := by cases h
  later := by
    rintro phone ⟨n, h, -⟩
    cases h

theorem kept_insert {s : AutoStore} {c : DedupCall} (h : Kept s) (hdated : Dated s (.insert c)) :
    Kept { s with sms := c.exec s.sms } := by
  by_cases href : Refused s.sms c
  · rw [exec_of_refused href]
    exact h
  · have hrows := rows_exec_of_not_refused href
    have hseq : (c.exec s.sms).seq = s.sms.nextId := by
      rcases insertSmsDeduped_cases s.sms c with ⟨h', -⟩ | ⟨-, -, -, hseq⟩
      · exact absurd h' href
      · exact hseq
    have hmem (phone : GoString) (r : Row Sms) (hr : r ∈ s.messagesOf phone) :
        r ∈ messagesOf { s with sms := c.exec s.sms } phone := by
      obtain ⟨hr, hfrom⟩ := mem_messagesOf.1 hr
      exact mem_messagesOf.2 ⟨by rw [hrows]; exact List.mem_append_left _ hr, hfrom⟩
    refine ⟨fun phone n hn => ?_, ?_⟩
    · show n ≤ (c.exec s.sms).seq
      rw [hseq]
      exact Nat.le_succ_of_le (h.read phone n hn)
    · rintro phone ⟨n, hn, r, hr, hid⟩
      obtain ⟨hr, hfrom⟩ := mem_messagesOf.1 hr
      have hkeep (hlater : s.HasLater phone (s.marker phone)) :
          HasLater { s with sms := c.exec s.sms } phone (s.marker phone) :=
        hlater.elim fun r hr => ⟨r, hmem phone r hr.1, hr.2⟩
      rw [hrows] at hr
      rcases List.mem_append.1 hr with hr | hr
      · exact hkeep (h.later phone ⟨n, hn, r, mem_messagesOf.2 ⟨hr, hfrom⟩, hid⟩)
      · obtain rfl := List.mem_singleton.1 hr
        rcases hdated href phone (by rw [hn]; exact Option.some_ne_none n) hfrom with hlater | hlater
        · have hnew : (⟨s.sms.nextId, c.sms⟩ : Row Sms) ∈ (c.exec s.sms).rows := by
            rw [hrows]
            exact List.mem_append_right _ (List.mem_singleton_self _)
          exact ⟨_, mem_messagesOf.2 ⟨hnew, hfrom⟩, hlater⟩
        · exact hkeep hlater

/-- The analysis that ends sets the marker of its own contact. -/
theorem marker_finish (s : AutoStore) (phone : GoString) (now : Nat) (running : List GoString) (p : GoString) :
    marker { s with lastAnalysisTs := Function.update s.lastAnalysisTs phone (some now), running := running } p =
      if p = phone then now else s.marker p := by
  unfold marker
  dsimp only
  by_cases hp : p = phone
  · rw [hp, Function.update_self, if_pos rfl]
    rfl
  · rw [Function.update_of_ne hp, if_neg hp]

theorem kept_step {s s' : AutoStore} {a : Action} (h : Kept s) (hdated : Dated s a) (hs : step s a = some s') :
    Kept s' := by
  cases a with
  | insert c =>
    cases hs
    exact kept_insert h hdated
  | read phone rows rest =>
    obtain ⟨-, hs⟩ := Option.ite_none_right_eq_some.1 hs
    cases hs
    refine ⟨fun p n hn => ?_, ?_⟩
    · dsimp only at hn ⊢
      by_cases hp : p = phone
      · rw [hp, Function.update_self] at hn
        exact Nat.le_of_eq (Option.some.inj hn).symm
      · rw [Function.update_of_ne hp] at hn
        exact h.read p n hn
    · rintro p ⟨n, hn, r, hr, hid⟩
      dsimp only at hn
      by_cases hp : p = phone
      · -- No message has been stored since.
        rw [hp, Function.update_self] at hn
        have hle := s.sms.le_seq r (mem_messagesOf.1 hr).1
        cases hn
        omega
      · rw [Function.update_of_ne hp] at hn
        exact h.later p ⟨n, hn, r, hr, hid⟩
  | finish i now =>
    obtain ⟨phone, hphone, rfl⟩ := Option.map_eq_some_iff.1 hs
    refine ⟨h.read, fun p hnew => ?_⟩
    rw [marker_finish]
    by_cases hp : p = phone
    · rw [hp] at hnew ⊢
      rw [if_pos rfl]
      exact hdated phone hphone hnew
    · rw [if_neg hp]
      exact h.later p hnew
  | fail i =>
    obtain ⟨phone, -, rfl⟩ := Option.map_eq_some_iff.1 hs
    exact ⟨h.read, h.later⟩

/-- In every run whose messages are dated so, every contact with a message that no analysis has read is reported. -/
theorem reported_of_dated {sms : SmsTable} {lastAnalysisTs : GoString → Option Nat} {s : AutoStore} {as : List Action}
    (hrun : runSteps step (start sms lastAnalysisTs) as = some s)
    (h : StepsMeet step Dated (start sms lastAnalysisTs) as) : s.Reported := by
  have hkept := runSteps_invariant_of_meet (fun _ _ _ => kept_step) hrun h (kept_start sms lastAnalysisTs)
  exact fun phone hnew => needsAnalysis_of_later (hkept.later phone hnew)

/-! ### Runs -/

def peer : GoString := "+33612345678"

/-- Only this contact is known, and has not been analysed. -/
def onePeer (phone : GoString) : Option Nat := if phone = peer then some 0 else none

def peerCall (body : GoString) (timestamp : Int) : DedupCall := ⟨0, peer, body, timestamp, .inbox⟩

/-- The analysis reads the first message; the second one comes in before the model has answered. -/
def overlap (timestamp : Int) : List Action :=
  [.insert (peerCall "hello" 1000), .read peer [⟨1, (peerCall "hello" 1000).sms⟩] [],
    .insert (peerCall "a question" timestamp), .finish 0 200000]

theorem overlap_reported : ∃ s, runSteps step (start .empty onePeer) (overlap 300000) = some s ∧ s.Reported := by
  have hrun : runSteps step (start .empty onePeer) (overlap 300000) = some _ := rfl
  refine ⟨_, hrun, reported_of_dated hrun ?_⟩
  have hmarker (phone : GoString) : (onePeer phone).getD 0 = 0 := by
    unfold onePeer
    split_ifs <;> rfl
  refine stepsMeet_cons (fun _ phone h => absurd rfl h) rfl (stepsMeet_cons trivial rfl
    (stepsMeet_cons (fun _ phone _ _ => .inl ?_) rfl (stepsMeet_cons (fun phone h _ => ?_) rfl trivial)))
  · show ((onePeer phone).getD 0 : Int) < 300000
    rw [hmarker]
    decide
  · cases h
    exact ⟨⟨2, (peerCall "a question" 300000).sms⟩, by decide, by decide⟩

/-- The message has come in after the reading, and the contact is not reported. -/
theorem overlap_missed : ∃ s, runSteps step (start .empty onePeer) (overlap 150000) = some s ∧ ¬s.Reported := by
  refine ⟨_, rfl, fun h => ?_⟩
  have hreported := h peer ⟨1, by decide, ⟨2, (peerCall "a question" 150000).sms⟩, by decide, by decide⟩
  exact absurd hreported (by decide)

end Gafam.Relay.AutoStore
