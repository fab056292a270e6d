import Gafam.Relay.Proofs.IngestionProofs
import Gafam.Relay.Proofs.SmsHandlerProofs

/-!
# The anti-spam check

The check looks for the last nine digits of the sender at the end of the contacts' numbers as they are stored. It
agrees with the comparison of the digits as far as the numbers are written alike.
-/

namespace Gafam.Relay

open Gafam.Go Gafam.Lib

/-! ## The triggers leave the contacts alone -/

theorem contacts_trigger911Cascade (now : Nat) (newID sender alertID : GoString) (hop : Int) (orig name msg : GoString)
    (n : Node) : (trigger911Cascade now newID sender alertID hop orig name msg n).2.contacts = n.contacts := by
  have hfold (body : GoString) (targets : List Guardian) (n : Node) :
      (targets.foldl (fun s g => queue911Sms now g.phoneNumber body s) n).contacts = n.contacts := by
    induction targets generalizing n with
    | nil => rfl
    | cons g gs ih => exact ih _
  unfold trigger911Cascade
  dsimp only
  split_ifs
  · rfl
  · rfl
  · exact hfold _ _ _
  · rfl
  · rfl
  · exact hfold _ _ _

theorem contacts_runSelfQuest (env : SmsEnv) (sender body : GoString) (n : Node) :
    (runSelfQuest env sender body n).contacts = n.contacts := by
  unfold runSelfQuest triggerSelfQuest
  dsimp only
  split
  · split <;> rfl
  · rfl

theorem contacts_runGuardianDistress (env : SmsEnv) (sender body : GoString) (n : Node) :
    (runGuardianDistress env sender body n).node.contacts = n.contacts := by
  unfold runGuardianDistress
  split
  · rfl
  · split
    · rfl
    · exact contacts_trigger911Cascade _ _ _ _ _ _ _ _ n

theorem contacts_runSelfDistress (env : SmsEnv) (sender body : GoString) (n : Node) :
    (runSelfDistress env sender body n).node.contacts = n.contacts := by
  unfold runSelfDistress
  split_ifs
  · split
    · rfl
    · exact contacts_trigger911Cascade _ _ _ _ _ _ _ _ n
  · rfl

theorem contacts_runRecovery (env : SmsEnv) (sender body : GoString) (n : Node) :
    (runRecovery env sender body n).contacts = n.contacts := by
  unfold runRecovery
  split_ifs
  · split <;> rfl
  · rfl

theorem contacts_runTriggers (env : SmsEnv) (sender body : GoString) (n : Node) :
    (runTriggers env sender body n).node.contacts = n.contacts := by
  have hrelay : (relay911Alert env.now env.relayID sender body (runSelfQuest env sender body n)).2.contacts =
      n.contacts := by
    obtain ⟨seen, hseen⟩ := relay911Alert_node env.now env.relayID sender body (runSelfQuest env sender body n)
    rw [hseen]
    exact contacts_runSelfQuest env sender body n
  unfold runTriggers
  dsimp only
  split_ifs
  · exact hrelay
  · exact (contacts_runGuardianDistress ..).trans hrelay
  · exact (contacts_runSelfDistress ..).trans ((contacts_runGuardianDistress ..).trans hrelay)
  · exact (contacts_runRecovery ..).trans
      ((contacts_runSelfDistress ..).trans ((contacts_runGuardianDistress ..).trans hrelay))

/-! ## What is stored -/

/-- The row of a stored message is the newest one, so that the rolling window keeps it. -/
theorem saved_row {env : SmsEnv} {sender body : GoString} {timestamp : Int} {n : Node} {id : Nat} {status : SmsStatus}
    (h : (storeSms env sender body timestamp n).1 = .saved id status) :
    ⟨id, (storeCall env sender body timestamp n).sms⟩ ∈ (storeSms env sender body timestamp n).2.sms.rows := by
  have hcases := insertSmsDeduped_cases n.sms (storeCall env sender body timestamp n)
  have hexec : (storeCall env sender body timestamp n).exec n.sms =
    (insertSmsDeduped env.now n.sms sender body timestamp (spamStatus sender n)).2 := rfl
  unfold storeSms at h ⊢
  dsimp only at h ⊢
  rcases hcases with ⟨hr, heq⟩ | ⟨hr, heq, -⟩
  · simp only [storeCall] at heq
    rw [heq] at h
    cases h
  · have hrows := rows_exec_of_not_refused hr
    simp only [storeCall] at heq
    rw [hexec] at hrows
    generalize insertSmsDeduped env.now n.sms sender body timestamp (spamStatus sender n) = x at heq hrows h ⊢
    obtain ⟨d, sms⟩ := x
    dsimp only at heq hrows h ⊢
    subst heq
    obtain ⟨rfl, -⟩ := SmsReply.saved.inj h
    have hlast : ⟨n.sms.nextId, (storeCall env sender body timestamp n).sms⟩ ∈ (sms.keepLast maxStoredSms).rows := by
      rw [TwiceSent.rows_keepLast_concat hrows TwiceSent.maxStoredSms_pos]
      exact List.mem_append_right _ (List.mem_singleton_self _)
    exact hlast

theorem spamStatus_eq (sender : GoString) (n : Node) :
    spamStatus sender n = if n.contacts.any fun c => (lastNine sender).isSuffixOf c.phone then .inbox else .purgatory :=
  rfl

/-- A new node with these contacts. -/
def withContacts (contacts : List Contact) : Node := { Node.fresh with contacts := contacts }

/-- Nothing happens there before the message is stored. -/
theorem runTriggers_withContacts (env : SmsEnv) (contacts : List Contact) (sender : GoString) :
    runTriggers env sender "Bonjour" (withContacts contacts) = ⟨false, [], withContacts contacts⟩ := by
  have hrelay : relay911Alert env.now env.relayID sender "Bonjour" (withContacts contacts) =
      (false, withContacts contacts) := by
    unfold relay911Alert
    rw [show parse911Relay "Bonjour" = none from by decide]
  unfold runTriggers
  rw [show runSelfQuest env sender "Bonjour" (withContacts contacts) = withContacts contacts from rfl, hrelay]
  rfl

theorem smsHandler_of_calm {env : SmsEnv} {p : SmsParams} {n m : Node}
    (h : runTriggers env (p.sender.getD []) (p.body.getD []) n = ⟨false, [], m⟩) :
    smsHandler env (.params p) n =
      ⟨(storeSms env (p.sender.getD []) (p.body.getD []) (p.timestamp.getD 0) m).1, [],
        (storeSms env (p.sender.getD []) (p.body.getD []) (p.timestamp.getD 0) m).2⟩ := by
  unfold smsHandler
  simp only [h, Bool.false_eq_true, if_false]

/-- What is stored is what the query of the check says. -/
theorem sortedByNumber_iff_query (contacts : List Contact) (sender : GoString) :
    SortedByNumber contacts sender ↔
      (contacts.any fun c => (lastNine sender).isSuffixOf c.phone) = knowsSender contacts sender := by
  constructor
  · intro h
    let env : SmsEnv := ⟨0, [], [], [], [], 0, [], []⟩
    let p : SmsParams := ⟨some sender, some "Bonjour", some 1⟩
    have hrun : smsHandler env (.params p) (withContacts contacts) =
        ⟨(storeSms env sender "Bonjour" 1 (withContacts contacts)).1, [],
          (storeSms env sender "Bonjour" 1 (withContacts contacts)).2⟩ := by
      exact smsHandler_of_calm (p := p) (runTriggers_withContacts env contacts sender)
    rcases storeSms_cases env sender "Bonjour" 1 (withContacts contacts) with ⟨hrefused, -⟩ | ⟨-, id, sms, hstore⟩
    · exact absurd hrefused (by rintro (hdup | ⟨r, hr, -⟩) <;> contradiction)
    have hreply : (storeSms env sender "Bonjour" 1 (withContacts contacts)).1 =
        .saved id (spamStatus sender (withContacts contacts)) := congrArg Prod.fst hstore
    have hrow := saved_row hreply
    have hsaved : (smsHandler env (.params p) (withContacts contacts)).reply =
        .saved id (spamStatus sender (withContacts contacts)) := by
      rw [hrun]
      exact hreply
    obtain ⟨r, hr, hid, -, hstatus⟩ := h env p (withContacts contacts) rfl rfl id _ hsaved
    rw [hrun] at hr
    obtain rfl := Table.row_unique hr hrow hid
    have hstatus : spamStatus sender (withContacts contacts) = _ := hstatus
    rw [spamStatus_eq] at hstatus
    show (withContacts contacts).contacts.any _ = _
    split_ifs at hstatus with hquery hknows hknows
    · exact hquery.trans hknows.symm
    · exact (Bool.eq_false_iff.2 hquery).trans (Bool.eq_false_iff.2 hknows).symm
  · intro h env p n hcontacts hsender id status hreply
    unfold smsHandler at hreply ⊢
    dsimp only at hreply ⊢
    rw [hsender] at hreply ⊢
    have hsame := contacts_runTriggers env sender (p.body.getD []) n
    generalize runTriggers env sender (p.body.getD []) n = t at hreply hsame ⊢
    by_cases hpanic : t.panicked = true
    · rw [if_pos hpanic] at hreply
      cases hreply
    rw [if_neg hpanic] at hreply ⊢
    refine ⟨_, saved_row hreply, rfl, rfl, ?_⟩
    show spamStatus sender t.node = _
    rw [spamStatus_eq, hsame, hcontacts, h]

/-! ## Numbers as they are written -/

theorem lastNine_suffix (s : GoString) : lastNine s <:+ phoneDigits s := by
  unfold lastNine
  dsimp only
  split_ifs
  · exact List.drop_suffix _ _
  · exact List.suffix_refl _

theorem isDigit_of_mem_lastNine {s : GoString} {b : UInt8} (h : b ∈ lastNine s) : isDigit b = true :=
  (List.mem_filter.1 ((lastNine_suffix s).subset h)).2

theorem lastNine_of_short {s : GoString} (h : (phoneDigits s).length < 9) : lastNine s = phoneDigits s :=
  if_neg (Nat.not_le.2 h)

theorem length_lastNine {s : GoString} (h : 9 ≤ (phoneDigits s).length) : (lastNine s).length = 9 := by
  unfold lastNine
  dsimp only
  rw [if_pos h, List.length_drop]
  omega

theorem lastNine_eq_nil_iff {s : GoString} : lastNine s = [] ↔ phoneDigits s = [] := by
  rcases Nat.lt_or_ge (phoneDigits s).length 9 with h | h
  · rw [lastNine_of_short h]
  · have hlen := length_lastNine h
    refine iff_of_false (fun hnil => ?_) (fun hnil => ?_)
    · rw [hnil] at hlen
      cases hlen
    · rw [hnil] at h
      cases h

/-- Digits at the end of a raw number are its last digits. -/
theorem suffix_phoneDigits {d s : GoString} (hd : ∀ b ∈ d, isDigit b = true) (h : d <:+ s) : d <:+ phoneDigits s := by
  have hfilter := h.filter isDigit
  rwa [List.filter_eq_self.2 hd] at hfilter

/-- A number whose last digits are these has them in one piece exactly if its last bytes are digits. -/
theorem suffix_iff_of_suffix_phoneDigits {d s : GoString} (h : d <:+ phoneDigits s) :
    d <:+ s ↔ ∀ b ∈ lastBytes s d.length, isDigit b = true := by
  have hd : ∀ b ∈ d, isDigit b = true := fun b hb => (List.mem_filter.1 (h.subset hb)).2
  have hlen : d.length ≤ s.length := Nat.le_trans h.length_le (List.length_filter_le _ _)
  have hsplit : s.take (s.length - d.length) ++ lastBytes s d.length = s := List.take_append_drop _ s
  have hlast : (lastBytes s d.length).length = d.length := by
    unfold lastBytes
    rw [List.length_drop]
    omega
  constructor
  · rintro ⟨a, rfl⟩
    unfold lastBytes
    rw [List.length_append, Nat.add_sub_cancel, List.drop_left]
    exact hd
  · intro hall
    have hdigits : phoneDigits s = phoneDigits (s.take (s.length - d.length)) ++ lastBytes s d.length := by
      conv_lhs => rw [← hsplit]
      unfold phoneDigits
      rw [List.filter_append, List.filter_eq_self.2 hall]
    obtain ⟨a, ha⟩ := h
    rw [hdigits] at ha
    have heq := (List.append_inj' ha hlast.symm).2
    rw [heq]
    exact ⟨_, hsplit⟩

/-- The query and the comparison agree exactly if the numbers are written alike. -/
theorem query_eq_knowsSender_iff (contacts : List Contact) (sender : GoString) :
    (contacts.any fun c => (lastNine sender).isSuffixOf c.phone) = knowsSender contacts sender ↔
      WrittenAlike contacts sender := by
  have hquery : (contacts.any fun c => (lastNine sender).isSuffixOf c.phone) = true ↔
      ∃ c ∈ contacts, lastNine sender <:+ c.phone := by
    simp only [List.any_eq_true, List.isSuffixOf_iff_suffix]
  have hknows : knowsSender contacts sender = true ↔ ∃ c ∈ contacts, phonesMatch c.phone sender = true := by
    unfold knowsSender
    rw [List.any_eq_true]
  rw [Bool.eq_iff_iff, hquery, hknows]
  constructor
  · intro h
    constructor
    · intro hnil
      refine List.eq_nil_iff_forall_not_mem.2 fun c hc => ?_
      rw [lastNine_eq_nil_iff.2 hnil] at h
      obtain ⟨c', -, hmatch⟩ := h.1 ⟨c, hc, List.nil_suffix⟩
      obtain ⟨hne, heq⟩ := phonesMatch_iff.1 hmatch
      exact hne (heq.trans (lastNine_eq_nil_iff.2 hnil))
    · intro c hc hne hlt hsuffix _
      rw [lastNine_of_short hlt] at h
      obtain ⟨c', hc', hmatch⟩ := h.1 ⟨c, hc, hsuffix⟩
      refine ⟨c', hc', ?_⟩
      have heq := (phonesMatch_iff.1 hmatch).2
      rw [lastNine_of_short hlt] at heq
      rcases Nat.lt_or_ge (phoneDigits c'.phone).length 9 with hshort | hlong
      · rwa [lastNine_of_short hshort] at heq
      · have hlen := length_lastNine hlong
        rw [heq] at hlen
        omega
    · exact fun c hc hmatch _ => h.2 ⟨c, hc, hmatch⟩
  · intro h
    constructor
    · rintro ⟨c, hc, hsuffix⟩
      have hne : phoneDigits sender ≠ [] := fun hnil => by
        rw [h.noDigits hnil] at hc
        cases hc
      have hnine : lastNine sender ≠ [] := lastNine_eq_nil_iff.not.2 hne
      have hin : lastNine sender <:+ phoneDigits c.phone := suffix_phoneDigits (fun _ => isDigit_of_mem_lastNine) hsuffix
      have hmatch {c' : Contact} (heq : lastNine c'.phone = lastNine sender) : phonesMatch c'.phone sender = true :=
        phonesMatch_iff.2 ⟨heq.symm ▸ hnine, heq⟩
      rcases Nat.lt_or_ge (phoneDigits sender).length 9 with hshort | hlong
      · have hsame {c' : Contact} (heq : phoneDigits c'.phone = phoneDigits sender) :
            phonesMatch c'.phone sender = true := by
          refine hmatch ?_
          rw [lastNine_of_short hshort, lastNine_of_short (heq ▸ hshort), heq]
        by_cases heq : phoneDigits c.phone = phoneDigits sender
        · exact ⟨c, hc, hsame heq⟩
        · rw [lastNine_of_short hshort] at hsuffix
          obtain ⟨c', hc', heq'⟩ := h.short c hc hne hshort hsuffix heq
          exact ⟨c', hc', hsame heq'⟩
      · refine ⟨c, hc, hmatch ?_⟩
        have hlen := length_lastNine hlong
        have hlong' : 9 ≤ (phoneDigits c.phone).length := hlen ▸ hin.length_le
        exact (List.suffix_of_suffix_length_le (lastNine_suffix c.phone) hin
          (Nat.le_of_eq ((length_lastNine hlong').trans hlen.symm))).eq_of_length
          ((length_lastNine hlong').trans hlen.symm)
    · rintro ⟨c, hc, hmatch⟩
      obtain ⟨-, heq⟩ := phonesMatch_iff.1 hmatch
      have hin : lastNine sender <:+ phoneDigits c.phone := heq ▸ lastNine_suffix c.phone
      by_cases hall : ∀ b ∈ lastBytes c.phone (lastNine sender).length, isDigit b = true
      · exact ⟨c, hc, (suffix_iff_of_suffix_phoneDigits hin).2 hall⟩
      · simp only [not_forall, exists_prop] at hall
        obtain ⟨b, hb, hno⟩ := hall
        exact h.separated c hc hmatch ⟨b, hb, Bool.eq_false_iff.2 hno⟩

/-- The check sorts the messages of a sender by its number exactly if the contacts' numbers are written so. -/
theorem sortedByNumber_iff (contacts : List Contact) (sender : GoString) :
    SortedByNumber contacts sender ↔ WrittenAlike contacts sender :=
  (sortedByNumber_iff_query contacts sender).trans (query_eq_knowsSender_iff contacts sender)

/-- A sender without digits passes for the first contact there is. -/
theorem free_to_inbox : ¬SortedByNumber [⟨"+33612345678", "Alice"⟩] "FREE" := by
  rw [sortedByNumber_iff_query]
  decide

end Gafam.Relay
