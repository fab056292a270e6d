import Gafam.Relay.SmsHandler
import Gafam.Relay.Proofs.DedupProofs
import Gafam.Relay.Proofs.EmergencyProofs

/-!
# One delivery of an SMS

The triggers of `smsHandler` run before the message is stored, so a delivery that turns out to be a
duplicate has already had their effects. The rows that the triggers mirror into `gafam_sms` on the
way do not change the verdict of the deduplication, with the one exception of a message that repeats
the recovery reply itself.
-/

namespace Gafam.Relay

open Gafam.Go Gafam.Lib

/-! ## Rows that the lookup of a message passes over -/

/-- A stored row plays no part in the lookup of a message of that sender and body. -/
def Passed (sender body : GoString) (m : Sms) : Prop :=
  m.body ≠ body ∨ (phonesMatch sender m.sender = false ∧ m.sender ≠ sender)

/-- The table is the other one with rows of a kind appended. -/
def ExtendsBy (P : Sms → Prop) (t t' : SmsTable) : Prop :=
  ∃ new, t'.rows = t.rows ++ new ∧ ∀ r ∈ new, P r.val

theorem ExtendsBy.refl (P : Sms → Prop) (t : SmsTable) : ExtendsBy P t t :=
  ⟨[], by simp, by simp⟩

theorem ExtendsBy.trans {P : Sms → Prop} {t t' t'' : SmsTable} (h : ExtendsBy P t t')
    (h' : ExtendsBy P t' t'') : ExtendsBy P t t'' := by
  obtain ⟨new, hrows, hnew⟩ := h
  obtain ⟨new', hrows', hnew'⟩ := h'
  refine ⟨new ++ new', by rw [hrows', hrows, List.append_assoc], fun r hr => ?_⟩
  rcases List.mem_append.1 hr with hr | hr
  · exact hnew r hr
  · exact hnew' r hr

theorem ExtendsBy.mono {P Q : Sms → Prop} {t t' : SmsTable} (h : ExtendsBy P t t')
    (hPQ : ∀ m, P m → Q m) : ExtendsBy Q t t' := by
  obtain ⟨new, hrows, hnew⟩ := h
  exact ⟨new, hrows, fun r hr => hPQ _ (hnew r hr)⟩

/-- A call extends the table by its row, or leaves it. -/
theorem extendsBy_exec {P : Sms → Prop} (t : SmsTable) {c : DedupCall} (hc : P c.sms) :
    ExtendsBy P t (c.exec t) := by
  by_cases h : Refused t c
  · rw [exec_of_refused h]
    exact .refl P t
  · exact ⟨[⟨t.nextId, c.sms⟩], rows_exec_of_not_refused h, by simpa using hc⟩

/-- Searching the first rows of a list finds the same when rows are appended that do not match. -/
theorem find?_take_append {α : Type} {p : α → Bool} (xs : List α) {ys : List α} (n : Nat)
    (hys : ∀ y ∈ ys, p y = false) : ((xs ++ ys).take n).find? p = (xs.take n).find? p := by
  rw [List.take_append, List.find?_append]
  have : (ys.take (n - xs.length)).find? p = none := by
    rw [List.find?_eq_none]
    intro y hy
    simp [hys y (List.mem_of_mem_take hy)]
  rw [this, Option.or_none]

theorem smsNearDuplicateID_of_extendsBy {sender body : GoString} {t t' : SmsTable}
    (h : ExtendsBy (Passed sender body) t t') (ts : Int) :
    smsNearDuplicateID t' sender body ts = smsNearDuplicateID t sender body ts := by
  obtain ⟨new, hrows, hnew⟩ := h
  unfold smsNearDuplicateID nearCandidates
  rw [hrows, List.filter_append, find?_take_append]
  intro r hr
  obtain ⟨hmem, hb⟩ := List.mem_filter.1 hr
  rcases hnew r hmem with h | ⟨h, -⟩
  · simp only [Bool.and_eq_true, beq_iff_eq] at hb
    exact absurd hb.1 h
  · exact h

/-- Rows that the lookup passes over do not change the verdict. -/
theorem refused_iff_of_extendsBy {t t' : SmsTable} {c : DedupCall}
    (h : ExtendsBy (Passed c.sender c.body) t t') : Refused t' c ↔ Refused t c := by
  unfold Refused
  rw [smsNearDuplicateID_of_extendsBy h]
  obtain ⟨new, hrows, hnew⟩ := h
  have hkey : ∀ r ∈ new, r.val.key ≠ c.sms.key := by
    intro r hr heq
    obtain ⟨hs, hb, -⟩ : r.val.sender = c.sender ∧ r.val.body = c.body ∧ _ := by
      simpa [Sms.key, DedupCall.sms] using heq
    rcases hnew r hr with h | ⟨-, h⟩
    · exact h hb
    · exact h hs
  refine or_congr_right ?_
  rw [hrows]
  constructor
  · rintro ⟨r, hr, heq⟩
    rcases List.mem_append.1 hr with hr | hr
    · exact ⟨r, hr, heq⟩
    · exact absurd heq (hkey r hr)
  · rintro ⟨r, hr, heq⟩
    exact ⟨r, List.mem_append_left _ hr, heq⟩

/-! ## The texts of the replies -/

/-- A remote quest starts with a slash, so no instruction starts with another ASCII letter. -/
theorem selfQuestInstruction_of_letter {c : UInt8} (hc : c.toNat < 0x80)
    (hs : isSpace c.toNat = false) (hl : (encodeRune (toLowerRune c.toNat)).head? ≠ some 0x2F)
    (self sender text : GoString) : selfQuestInstruction self sender (c :: text) = none := by
  obtain ⟨t, ht⟩ := trimSpace_cons hc hs text
  have hpre (p : GoString) (hp : p.head? = some 0x2F) (hlen : encodeRune (toLowerRune c.toNat) ≠ []) :
      p.isPrefixOf (toLower (c :: t)) = false := by
    rw [toLower_cons hc]
    obtain ⟨b, bs, hb⟩ := List.exists_cons_of_ne_nil hlen
    rw [hb] at hl ⊢
    cases p with
    | nil => cases hp
    | cons x xs =>
      have hx : x = 0x2F := by simpa using hp
      have hne : ¬ x = b := fun h => hl (by simp [← h, hx])
      simp [List.isPrefixOf, hne]
  have hlen : encodeRune (toLowerRune c.toNat) ≠ [] := by
    unfold encodeRune
    split_ifs <;> simp
  unfold selfQuestInstruction
  split_ifs with h0
  · rfl
  · rw [ht]
    simp only [questPrefixes, List.findSome?_cons, List.findSome?_nil]
    rw [hpre _ rfl hlen, hpre _ rfl hlen, hpre _ rfl hlen, hpre _ rfl hlen]
    rfl

/-- The message of a remote quest does not start like the confirmations. -/
theorem head?_of_selfQuest {self sender body : GoString}
    (h : (selfQuestInstruction self sender body).isSome) : body.head? ≠ some 0x47 := by
  intro hb
  cases body with
  | nil => cases hb
  | cons c rest =>
    obtain rfl : c = 0x47 := by simpa using hb
    rw [selfQuestInstruction_of_letter (by decide) (by decide) (by decide)] at h
    cases h

theorem head?_questStarted (missionID mode : GoString) :
    (questStarted missionID mode).head? = some 0x47 := by
  unfold questStarted
  split_ifs <;> rfl

theorem head?_recoveryReply (env : SmsEnv) (phone : GoString) :
    (recoveryReply env phone).head? = some 0x43 := rfl

/-! ## What the triggers change -/

/-- The rows that the triggers mirror before the recovery: their texts start alike, and unless the
message is a remote quest they go to other numbers than the sender's. -/
def FromTriggers (quest : Prop) (sender : GoString) (m : Sms) : Prop :=
  m.body.head? = some 0x47 ∧
    (quest ∨ (phonesMatch sender m.sender = false ∧ m.sender ≠ sender))

/-- The settings of a node are kept, its outbox grows, and `gafam_sms` gains rows of a kind. -/
structure OnlyMirrors (P : Sms → Prop) (n n' : Node) : Prop where
  guardians : n'.guardians = n.guardians
  sessions : n'.sessions = n.sessions
  selfPhone : n'.selfPhone = n.selfPhone
  outbox : n.outbox.rows <+: n'.outbox.rows
  sms : ExtendsBy P n.sms n'.sms

theorem OnlyMirrors.refl (P : Sms → Prop) (n : Node) : OnlyMirrors P n n :=
  ⟨rfl, rfl, rfl, List.prefix_rfl, .refl P n.sms⟩

theorem OnlyMirrors.trans {P : Sms → Prop} {n n' n'' : Node} (h : OnlyMirrors P n n')
    (h' : OnlyMirrors P n' n'') : OnlyMirrors P n n'' :=
  ⟨h'.guardians.trans h.guardians, h'.sessions.trans h.sessions, h'.selfPhone.trans h.selfPhone,
    h.outbox.trans h'.outbox, h.sms.trans h'.sms⟩

theorem onlyMirrors_queueAndMirror {P : Sms → Prop} (now : Nat) (recipient text : GoString)
    (n : Node) (h : P ⟨recipient, text, now, .outbound⟩) :
    OnlyMirrors P n (n.queueAndMirror now recipient text) := by
  have htime : (⟨now, recipient, text, now, .outbound⟩ : DedupCall).sms =
      ⟨recipient, text, now, .outbound⟩ := by
    simp [DedupCall.sms, DedupCall.time]
  exact ⟨rfl, rfl, rfl, List.prefix_append _ _,
    extendsBy_exec (c := ⟨now, recipient, text, now, .outbound⟩) n.sms (htime ▸ h)⟩

/-- A cascade of a sender with a number texts nobody with that number. -/
theorem onlyMirrors_startCascade {sender : GoString} (hs : lastNine sender ≠ []) (quest : Prop)
    (now : Nat) (newID name msg : GoString) (n : Node) :
    OnlyMirrors (FromTriggers quest sender) n (startCascade now newID sender name msg n) := by
  have hfold (text : GoString) (htext : text.head? = some 0x47) (targets : List Guardian)
      (ht : ∀ g ∈ targets, phonesMatch g.phoneNumber sender = false) (n : Node) :
      OnlyMirrors (FromTriggers quest sender) n
        (targets.foldl (fun s g => queue911Sms now g.phoneNumber text s) n) := by
    induction targets generalizing n with
    | nil => exact .refl _ n
    | cons g gs ih =>
      have hg := ht g (by simp)
      have hrev : phonesMatch sender g.phoneNumber = false := by
        by_contra hc
        rw [Bool.not_eq_false] at hc
        rw [phonesMatch_symm hc] at hg
        cases hg
      have hne : g.phoneNumber ≠ sender := by
        intro heq
        rw [heq, phonesMatch_self hs] at hg
        cases hg
      exact (onlyMirrors_queueAndMirror now _ text n ⟨htext, .inr ⟨hrev, hne⟩⟩).trans
        (ih (fun g' hg' => ht g' (by simp [hg'])) _)
  unfold startCascade trigger911Cascade
  simp only [if_true]
  generalize mark911Seen now newID n.seen = m
  obtain ⟨fresh, seen⟩ := m
  have hseen : OnlyMirrors (FromTriggers quest sender) n { n with seen := seen } :=
    ⟨rfl, rfl, rfl, List.prefix_rfl, .refl _ n.sms⟩
  simp only
  split_ifs
  · exact hseen
  · exact hseen
  · refine hseen.trans (hfold _ rfl _ (fun g hg => ?_) _)
    simpa using (List.mem_filter.1 hg).2

/-- What `triggerSelfQuest` does to the tables of SMS handling: it queues one reply. -/
theorem onlyMirrors_triggerSelfQuest {quest : Prop} (hquest : quest) (now : Nat)
    (sender instruction mode : GoString) (n : Node) :
    OnlyMirrors (FromTriggers quest sender) n (triggerSelfQuest now sender instruction mode n) ∧
      n.outbox.rows.length < (triggerSelfQuest now sender instruction mode n).outbox.rows.length := by
  have hreply (n' : Node) (hn' : OnlyMirrors (FromTriggers quest sender) n n')
      (ho : n'.outbox = n.outbox) (text : GoString) (ht : text.head? = some 0x47) :
      OnlyMirrors (FromTriggers quest sender) n (queueSmsReply now sender text n') ∧
        n.outbox.rows.length < (queueSmsReply now sender text n').outbox.rows.length := by
    refine ⟨hn'.trans (onlyMirrors_queueAndMirror now sender text n' ⟨ht, .inl hquest⟩), ?_⟩
    simp [queueSmsReply, Node.queueAndMirror, ho]
  unfold triggerSelfQuest
  generalize Moksa.createEmptyMission now instruction n.board = mb
  obtain ⟨m, board⟩ := mb
  simp only
  cases n.running with
  | some other =>
    exact hreply { n with board := (Moksa.deleteMission m.id board).2, running := some other }
      ⟨rfl, rfl, rfl, List.prefix_rfl, .refl _ _⟩ rfl questBusy rfl
  | none =>
    exact hreply { n with board := board, running := some m.id }
      ⟨rfl, rfl, rfl, List.prefix_rfl, .refl _ _⟩ rfl _ (head?_questStarted m.id mode)

/-! ## The distress triggers -/

theorem lastNine_of_guardianDistress {sender body : GoString} {n : Node} {g : Guardian}
    (h : guardianDistress sender body n = some g) : lastNine sender ≠ [] := by
  have hm := (Option.filter_eq_some_iff.1 h).1
  have hp := List.find?_some hm
  simp only [Bool.and_eq_true, bne_iff_ne] at hp
  exact hp.1.2

theorem lastNine_of_selfDistress {sender body : GoString} {n : Node}
    (h : selfDistress sender body n = true) : lastNine sender ≠ [] := by
  unfold selfDistress at h
  simp only [Bool.and_eq_true] at h
  exact (phonesMatch_iff.1 h.1.2).1

theorem guardianDistress_congr {n n' : Node} (h : n'.guardians = n.guardians)
    (sender body : GoString) : guardianDistress sender body n' = guardianDistress sender body n := by
  unfold guardianDistress
  rw [h]

theorem selfDistress_congr {n n' : Node} (h : n'.selfPhone = n.selfPhone)
    (sender body : GoString) : selfDistress sender body n' = selfDistress sender body n := by
  unfold selfDistress
  rw [h]

/-- Trigger (a): nothing to do, a panic, or one new cascade. -/
theorem runGuardianDistress_cases (env : SmsEnv) (sender body : GoString) (n : Node) :
    (guardianDistress sender body n = none ∧ runGuardianDistress env sender body n = ⟨false, [], n⟩) ∨
    (∃ g, guardianDistress sender body n = some g ∧ messageAfterCode body g.keyword911 = none ∧
      runGuardianDistress env sender body n = ⟨true, [], n⟩) ∨
    (∃ g n', guardianDistress sender body n = some g ∧ messageAfterCode body g.keyword911 ≠ none ∧
      runGuardianDistress env sender body n = ⟨false, [env.guardianID], n'⟩ ∧
      ∀ quest, OnlyMirrors (FromTriggers quest sender) n n') := by
  unfold runGuardianDistress
  cases hg : guardianDistress sender body n with
  | none => exact .inl ⟨rfl, rfl⟩
  | some g =>
    cases hm : messageAfterCode body g.keyword911 with
    | none => exact .inr (.inl ⟨g, rfl, hm, by simp only [hm]⟩)
    | some msg =>
      refine .inr (.inr ⟨g, _, rfl, by simp [hm], by simp only [hm]; rfl, fun quest => ?_⟩)
      exact onlyMirrors_startCascade (lastNine_of_guardianDistress hg) quest _ _ _ _ n

/-- Trigger (b), likewise. -/
theorem runSelfDistress_cases (env : SmsEnv) (sender body : GoString) (n : Node) :
    (selfDistress sender body n = false ∧ runSelfDistress env sender body n = ⟨false, [], n⟩) ∨
    (selfDistress sender body n = true ∧ messageAfterCode body default911Code = none ∧
      runSelfDistress env sender body n = ⟨true, [], n⟩) ∨
    (∃ n', selfDistress sender body n = true ∧ messageAfterCode body default911Code ≠ none ∧
      runSelfDistress env sender body n = ⟨false, [env.selfID], n'⟩ ∧
      ∀ quest, OnlyMirrors (FromTriggers quest sender) n n') := by
  unfold runSelfDistress
  cases hs : selfDistress sender body n with
  | false => exact .inl ⟨rfl, by simp⟩
  | true =>
    cases hm : messageAfterCode body default911Code with
    | none => exact .inr (.inl ⟨rfl, rfl, by simp⟩)
    | some msg =>
      refine .inr (.inr ⟨_, rfl, by simp, by simp only [if_true]; rfl, fun quest => ?_⟩)
      exact onlyMirrors_startCascade (lastNine_of_selfDistress hs) quest _ _ _ _ n

/-! ## All triggers together -/

/-- The message is a remote quest. -/
def IsQuest (sender body : GoString) (n : Node) : Prop :=
  (selfQuestInstruction n.selfPhone sender body).isSome

/-- What the triggers before the recovery do to a node: mirrored rows, an outbox message for a remote
quest, and nothing but a pruned table of seen alerts when none of them fires. -/
structure BeforeRecovery (sender body : GoString) (n n' : Node) : Prop where
  mirrors : OnlyMirrors (FromTriggers (IsQuest sender body n) sender) n n'
  quest : IsQuest sender body n → n.outbox.rows.length < n'.outbox.rows.length
  quiet : ¬ IsQuest sender body n → ¬ FiresGuardian sender body n →
    ¬ FiresSelf sender body n → ∃ seen, n' = { n with seen := seen }

theorem beforeRecovery_relay (env : SmsEnv) (sender body : GoString) (n : Node) :
    BeforeRecovery sender body n
      (relay911Alert env.now env.relayID sender body (runSelfQuest env sender body n)).2 := by
  obtain ⟨seen, hseen⟩ := relay911Alert_node env.now env.relayID sender body
    (runSelfQuest env sender body n)
  rw [hseen]
  unfold runSelfQuest
  cases hq : selfQuestInstruction n.selfPhone sender body with
  | none =>
    refine ⟨⟨rfl, rfl, rfl, List.prefix_rfl, .refl _ _⟩, fun h => ?_, fun _ _ _ => ⟨seen, rfl⟩⟩
    simp [IsQuest, hq] at h
  | some im =>
    have hquest : IsQuest sender body n := by simp [IsQuest, hq]
    obtain ⟨h, hlen⟩ := onlyMirrors_triggerSelfQuest hquest env.now sender im.1 im.2 n
    exact ⟨⟨h.guardians, h.sessions, h.selfPhone, h.outbox, h.sms⟩, fun _ => hlen,
      fun hno => absurd hquest hno⟩

/-- A cascade may follow. -/
theorem BeforeRecovery.cascade {sender body : GoString} {n n' n'' : Node}
    (h : BeforeRecovery sender body n n')
    (hm : ∀ quest, OnlyMirrors (FromTriggers quest sender) n' n'')
    (hf : FiresGuardian sender body n ∨ FiresSelf sender body n) :
    BeforeRecovery sender body n n'' where
  mirrors := h.mirrors.trans (hm _)
  quest hq := Nat.lt_of_lt_of_le (h.quest hq) (hm True).outbox.length_le
  quiet _ ha hb := (hf.elim ha hb).elim

/-- The triggers either panic, with at most one cascade started, or end with the recovery trigger.
The new cascades are those of the distress triggers that fire. -/
theorem runTriggers_cases (env : SmsEnv) (sender body : GoString) (n : Node) :
    (Panics sender body n ∧ (runTriggers env sender body n).panicked = true ∧
      (runTriggers env sender body n).cascades.length ≤ 1) ∨
    (¬ Panics sender body n ∧ ∃ n', BeforeRecovery sender body n n' ∧
      runTriggers env sender body n =
        ⟨false,
          (if FiresGuardian sender body n then [env.guardianID] else []) ++
            (if FiresSelf sender body n then [env.selfID] else []),
          if IsAlert body then n' else runRecovery env sender body n'⟩) := by
  have hbefore := beforeRecovery_relay env sender body n
  have hfst := relay911Alert_fst env.now env.relayID sender body (runSelfQuest env sender body n)
  unfold runTriggers
  generalize relay911Alert env.now env.relayID sender body (runSelfQuest env sender body n) = x
    at hbefore hfst ⊢
  obtain ⟨relayed, n₁⟩ := x
  simp only at hbefore hfst ⊢
  by_cases hal : IsAlert body
  · -- A continuation: the other triggers are skipped.
    refine .inr ⟨fun h => h.1 hal, n₁, hbefore, ?_⟩
    have hrel : relayed = true := hfst.trans hal
    simp [hrel, FiresGuardian, FiresSelf, hal]
  · have hrel : relayed = false := by
      rw [hfst]
      simpa [IsAlert] using hal
    subst hrel
    simp only [Bool.false_eq_true, if_false, hal]
    have hkeep := hbefore.mirrors
    have hga := guardianDistress_congr hkeep.guardians sender body
    rcases runGuardianDistress_cases env sender body n₁ with
      ⟨hg, hrun⟩ | ⟨g, hg, hm, hrun⟩ | ⟨g, n₂, hg, hm, hrun, hmir⟩
    · -- Trigger (a) does not fire.
      have hfa : ¬ FiresGuardian sender body n := by simp [FiresGuardian, ← hga, hg]
      have hsa := selfDistress_congr hkeep.selfPhone sender body
      rw [hrun]
      rcases runSelfDistress_cases env sender body n₁ with
        ⟨hs, hrun'⟩ | ⟨hs, hm', hrun'⟩ | ⟨n₃, hs, hm', hrun', hmir'⟩
      · have hfb : ¬ FiresSelf sender body n := by simp [FiresSelf, ← hsa, hs]
        refine .inr ⟨?_, n₁, hbefore, by simp [hrun', hfa, hfb]⟩
        rintro ⟨-, ⟨g, hg', -⟩ | ⟨hs', -⟩⟩
        · rw [← hga, hg] at hg'
          cases hg'
        · rw [← hsa, hs] at hs'
          cases hs'
      · refine .inl ⟨⟨hal, .inr ⟨hsa ▸ hs, hm'⟩⟩, by simp [hrun'], by simp [hrun']⟩
      · have hfb : FiresSelf sender body n := ⟨hal, hsa ▸ hs⟩
        refine .inr ⟨?_, n₃, hbefore.cascade hmir' (.inr hfb), by simp [hrun', hfa, hfb]⟩
        rintro ⟨-, ⟨g, hg', -⟩ | ⟨-, hnone⟩⟩
        · rw [← hga, hg] at hg'
          cases hg'
        · exact hm' hnone
    · refine .inl ⟨⟨hal, .inl ⟨g, hga ▸ hg, hm⟩⟩, by simp [hrun], by simp [hrun]⟩
    · -- Trigger (a) starts a cascade.
      have hfa : FiresGuardian sender body n := ⟨hal, by simp [← hga, hg]⟩
      have hb₂ := hbefore.cascade hmir (.inl hfa)
      have hsa := selfDistress_congr hb₂.mirrors.selfPhone sender body
      rw [hrun]
      have hnoA : ¬ ∃ g', guardianDistress sender body n = some g' ∧
          messageAfterCode body g'.keyword911 = none := by
        rintro ⟨g', hg', hnone⟩
        rw [← hga, hg, Option.some.injEq] at hg'
        exact hm (hg' ▸ hnone)
      rcases runSelfDistress_cases env sender body n₂ with
        ⟨hs, hrun'⟩ | ⟨hs, hm', hrun'⟩ | ⟨n₃, hs, hm', hrun', hmir'⟩
      · have hfb : ¬ FiresSelf sender body n := by simp [FiresSelf, ← hsa, hs]
        refine .inr ⟨?_, n₂, hb₂, by simp [hrun', hfa, hfb]⟩
        rintro ⟨-, h | ⟨hs', -⟩⟩
        · exact hnoA h
        · rw [← hsa, hs] at hs'
          cases hs'
      · refine .inl ⟨⟨hal, .inr ⟨hsa ▸ hs, hm'⟩⟩, by simp [hrun'], by simp [hrun']⟩
      · have hfb : FiresSelf sender body n := ⟨hal, hsa ▸ hs⟩
        refine .inr ⟨?_, n₃, hb₂.cascade hmir' (.inr hfb), by simp [hrun', hfa, hfb]⟩
        rintro ⟨-, h | ⟨-, hnone⟩⟩
        · exact hnoA h
        · exact hm' hnone

/-! ## The recovery and the insertion -/

theorem FromTriggers.passed {sender body : GoString} {n : Node} {m : Sms}
    (h : FromTriggers (IsQuest sender body n) sender m) : Passed sender body m := by
  obtain ⟨hhead, hq | ho⟩ := h
  · refine .inl ?_
    rintro rfl
    exact head?_of_selfQuest hq hhead
  · exact .inr ho

theorem FromTriggers.ne_recoveryReply {quest : Prop} {sender : GoString} {m : Sms}
    (h : FromTriggers quest sender m) (env : SmsEnv) (phone : GoString) :
    m.body ≠ recoveryReply env phone := by
  intro heq
  have hhead := h.1
  rw [heq, head?_recoveryReply] at hhead
  cases hhead

/-- The end of the triggers: nothing, or a session and the reply with its code. -/
theorem recovery_cases (env : SmsEnv) {sender body : GoString} {n n' : Node}
    (h : BeforeRecovery sender body n n') :
    (recoveryPhone sender body n = none ∧
      (if IsAlert body then n' else runRecovery env sender body n') = n') ∨
    (∃ phone, recoveryPhone sender body n = some phone ∧
      (if IsAlert body then n' else runRecovery env sender body n') =
        (generateEmergencyChallenge env phone n').queueAndMirror env.now sender
          (recoveryReply env phone)) := by
  have hreq : recoveryRequested sender body n' = recoveryRequested sender body n := by
    unfold recoveryRequested
    rw [h.mirrors.guardians]
  have hphone : relayPhone n' = relayPhone n := by
    unfold relayPhone
    rw [h.mirrors.sessions]
  unfold recoveryPhone
  by_cases hal : IsAlert body
  · have hnone : (parse911Relay body).isNone = false := by
      rw [← Option.not_isSome]
      simpa [IsAlert] using hal
    exact .inl ⟨by simp [hnone], if_pos hal⟩
  · have hnone : (parse911Relay body).isNone = true := by
      rw [← Option.not_isSome]
      simpa [IsAlert] using hal
    unfold runRecovery
    rw [if_neg hal, hnone, Bool.true_and, hreq, hphone]
    split_ifs
    · cases relayPhone n with
      | none => exact .inl ⟨rfl, rfl⟩
      | some phone => exact .inr ⟨phone, rfl, rfl⟩
    · exact .inl ⟨rfl, rfl⟩

theorem mem_take_concat {α : Type} {l : List α} {x r : α} {n : Nat} :
    r ∈ (l ++ [x]).take n ↔ r ∈ l.take n ∨ (l.length < n ∧ r = x) := by
  rw [List.take_append, List.mem_append]
  refine or_congr_right ?_
  by_cases h : l.length < n
  · obtain ⟨k, hk⟩ : ∃ k, n - l.length = k + 1 := ⟨n - l.length - 1, by omega⟩
    simp [hk, h]
  · have h0 : n - l.length = 0 := by omega
    simp [h0, h]

/-- The verdict on a message that repeats the mirrored recovery reply. -/
theorem refused_reply_iff {env : SmsEnv} {phone : GoString} {c : DedupCall} {t t' : SmsTable}
    (hs : lastNine c.sender ≠ []) (hb : c.body = recoveryReply env phone)
    (hext : ExtendsBy (fun m => m.body ≠ c.body) t t')
    (hnew : ¬ Refused t' (replyCall env c.sender phone)) :
    Refused ((replyCall env c.sender phone).exec t') c ↔
      Refused t c ∨ c.time = env.now ∨
        c.time ≠ 0 ∧ inWindow env.now c.time ∧
          (t.rows.filter fun r =>
            r.val.body == c.body && inWindow r.val.timestamp c.time).length < candidateLimit := by
  obtain ⟨new, hrows, hne⟩ := hext
  have htime : (replyCall env c.sender phone).time = env.now := by simp [DedupCall.time, replyCall]
  have hrefused : Refused t' c ↔ Refused t c :=
    refused_iff_of_extendsBy ⟨new, hrows, fun r hr => .inl (hne r hr)⟩
  have hfilter : (t'.rows.filter fun r => r.val.body == c.body && inWindow r.val.timestamp c.time) =
      t.rows.filter fun r => r.val.body == c.body && inWindow r.val.timestamp c.time := by
    have hskip : (new.filter fun r => r.val.body == c.body && inWindow r.val.timestamp c.time) =
        [] := by
      rw [List.filter_eq_nil_iff]
      intro r hr
      simp [hne r hr]
    rw [hrows, List.filter_append, hskip, List.append_nil]
  rw [← hrefused, ← hfilter]
  have happ := rows_exec_of_not_refused hnew
  have hsms : (replyCall env c.sender phone).sms = ⟨c.sender, c.body, env.now, .outbound⟩ := by
    rw [DedupCall.sms, htime, hb]
    rfl
  rw [hsms] at happ
  generalize (replyCall env c.sender phone).exec t' = t'' at happ ⊢
  have hself := phonesMatch_self hs
  have hne0 : c.body ≠ [] := by
    intro h0
    have := head?_recoveryReply env phone
    rw [← hb, h0] at this
    cases this
  -- The candidates of the query, with the mirrored row at the end if it is in the window.
  have hcand (r : Row Sms) : r ∈ nearCandidates t'' c.body c.time ↔
      r ∈ nearCandidates t' c.body c.time ∨
        (inWindow env.now c.time = true ∧
          (t'.rows.filter fun r =>
            r.val.body == c.body && inWindow r.val.timestamp c.time).length < candidateLimit ∧
          r = ⟨t'.nextId, c.sender, c.body, env.now, .outbound⟩) := by
    unfold nearCandidates
    rw [happ, List.filter_append]
    by_cases hw : inWindow env.now c.time = true
    · simp only [hw, List.filter_cons, List.filter_nil, beq_self_eq_true, Bool.and_self, if_true,
        true_and]
      exact mem_take_concat
    · simp [hw]
  have hkey : (∃ r ∈ t''.rows, r.val.key = c.sms.key) ↔
      (∃ r ∈ t'.rows, r.val.key = c.sms.key) ∨ c.time = env.now := by
    rw [happ]
    simp only [List.mem_append, List.mem_singleton, or_and_right, exists_or, exists_eq_left]
    refine or_congr_right ?_
    simp [Sms.key, DedupCall.sms, eq_comm]
  unfold Refused
  rw [smsNearDuplicateID_isSome, smsNearDuplicateID_isSome, hkey]
  constructor
  · rintro (⟨-, h0, r, hr, hp⟩ | h | h)
    · rcases (hcand r).1 hr with hr | ⟨hw, hlen, -⟩
      · exact .inl (.inl ⟨hne0, h0, r, hr, hp⟩)
      · exact .inr (.inr ⟨h0, hw, hlen⟩)
    · exact .inl (.inr h)
    · exact .inr (.inl h)
  · rintro ((⟨-, h0, r, hr, hp⟩ | h) | h | ⟨h0, hw, hlen⟩)
    · exact .inl ⟨hne0, h0, r, (hcand r).2 (.inl hr), hp⟩
    · exact .inr (.inl h)
    · exact .inr (.inr h)
    · exact .inl ⟨hne0, h0, _, (hcand _).2 (.inr ⟨hw, hlen, rfl⟩), hself⟩

/-- The insertion meets a stored copy of the message exactly when the table held one before the
triggers ran, or the recovery reply is one. -/
theorem refused_afterTriggers_iff (env : SmsEnv) {c : DedupCall} {n n' : Node}
    (h : BeforeRecovery c.sender c.body n n') :
    Refused (if IsAlert c.body then n' else runRecovery env c.sender c.body n').sms c ↔
      Refused n.sms c ∨ EchoesReply env c n := by
  have hbefore : Refused n'.sms c ↔ Refused n.sms c :=
    refused_iff_of_extendsBy (h.mirrors.sms.mono fun m hm => hm.passed)
  rcases recovery_cases env h with ⟨hnone, hnode⟩ | ⟨phone, hphone, hnode⟩
  · rw [hnode, hbefore]
    refine (or_iff_left ?_).symm
    rintro ⟨phone, hphone, -⟩
    rw [hnone] at hphone
    cases hphone
  · have hsms : ((generateEmergencyChallenge env phone n').queueAndMirror env.now c.sender
        (recoveryReply env phone)).sms = (replyCall env c.sender phone).exec n'.sms := rfl
    rw [hnode, hsms]
    have hreply : Refused n'.sms (replyCall env c.sender phone) ↔
        Refused n.sms (replyCall env c.sender phone) :=
      refused_iff_of_extendsBy
        (h.mirrors.sms.mono fun m hm => .inl (hm.ne_recoveryReply env phone))
    have hecho : EchoesReply env c n ↔ c.body = recoveryReply env phone ∧
        ¬ Refused n.sms (replyCall env c.sender phone) ∧
        (c.time = env.now ∨ c.time ≠ 0 ∧ inWindow env.now c.time ∧
          (n.sms.rows.filter fun r =>
            r.val.body == c.body && inWindow r.val.timestamp c.time).length < candidateLimit) := by
      unfold EchoesReply
      simp [hphone]
    by_cases hr : Refused n.sms (replyCall env c.sender phone)
    · rw [exec_of_refused (hreply.2 hr), hbefore, hecho]
      simp [hr]
    · by_cases hb : c.body = recoveryReply env phone
      · have hs : lastNine c.sender ≠ [] := by
          obtain ⟨g, hg⟩ : ∃ g, matchGuardian c.sender n.guardians = some g := by
            unfold recoveryPhone at hphone
            split_ifs at hphone with hreq
            simp only [Bool.and_eq_true, recoveryRequested] at hreq
            cases hg : matchGuardian c.sender n.guardians with
            | none => simp [hg] at hreq
            | some g => exact ⟨g, rfl⟩
          have hp := List.find?_some hg
          simp only [Bool.and_eq_true, bne_iff_ne] at hp
          exact hp.1.2
        have hne : ExtendsBy (fun m => m.body ≠ c.body) n.sms n'.sms :=
          h.mirrors.sms.mono fun m hm => hb ▸ hm.ne_recoveryReply env phone
        rw [refused_reply_iff hs hb hne (fun hr' => hr (hreply.1 hr')), hecho]
        simp [hb, hr]
      · have hext : ExtendsBy (Passed c.sender c.body) n'.sms
            ((replyCall env c.sender phone).exec n'.sms) :=
          extendsBy_exec _ (.inl fun heq => hb heq.symm)
        rw [refused_iff_of_extendsBy hext, hbefore, hecho]
        simp [hb]

/-- The answer is `duplicate` exactly when the insertion is refused, which then changes nothing. -/
theorem storeSms_cases (env : SmsEnv) (sender body : GoString) (ts : Int) (n : Node) :
    (Refused n.sms (storeCall env sender body ts n) ∧
      ∃ id, storeSms env sender body ts n = (.duplicate id (spamStatus sender n), n)) ∨
    (¬ Refused n.sms (storeCall env sender body ts n) ∧
      ∃ id sms, storeSms env sender body ts n =
        (.saved id (spamStatus sender n), { n with sms := sms })) := by
  have hc := insertSmsDeduped_cases n.sms (storeCall env sender body ts n)
  unfold storeSms
  simp only [storeCall] at hc ⊢
  rcases hc with ⟨hr, heq⟩ | ⟨hr, heq, -⟩
  · exact .inl ⟨hr, _, by rw [heq]⟩
  · generalize insertSmsDeduped env.now n.sms sender body ts (spamStatus sender n) = x at heq ⊢
    obtain ⟨d, sms⟩ := x
    simp only at heq
    subst heq
    exact .inr ⟨hr, n.sms.nextId, sms.keepLast maxStoredSms, rfl⟩

/-! ## One delivery -/

/-- A delivery without side effects is one on which no trigger fires. -/
theorem noSideEffect_iff (env : SmsEnv) {sender body : GoString} {n n' : Node}
    (h : BeforeRecovery sender body n n') (reply : SmsReply) :
    NoSideEffect n
        ⟨reply,
          (if FiresGuardian sender body n then [env.guardianID] else []) ++
            (if FiresSelf sender body n then [env.selfID] else []),
          if IsAlert body then n' else runRecovery env sender body n'⟩ ↔
      ¬ Fires sender body n := by
  constructor
  · rintro ⟨hout, -, -, hcas⟩ hf
    simp only [List.append_eq_nil_iff, ite_eq_right_iff, List.cons_ne_nil, imp_false] at hcas
    have hgrows : n.outbox.rows.length <
        (if IsAlert body then n' else runRecovery env sender body n').outbox.rows.length := by
      rcases recovery_cases env h with ⟨hnone, hnode⟩ | ⟨phone, hphone, hnode⟩
      · rw [hnode]
        rcases hf with hq | hf | hf | hf
        · exact h.quest hq
        · exact absurd hf hcas.1
        · exact absurd hf hcas.2
        · simp [hnone] at hf
      · rw [hnode]
        have := h.mirrors.outbox.length_le
        simp only [Node.queueAndMirror, Table.rows_insert, List.length_append, List.length_cons,
          List.length_nil, generateEmergencyChallenge]
        omega
    rw [hout] at hgrows
    exact Nat.lt_irrefl _ hgrows
  · intro hf
    simp only [Fires, not_or] at hf
    obtain ⟨hq, ha, hb, hr⟩ := hf
    rcases recovery_cases env h with ⟨-, hnode⟩ | ⟨phone, hphone, -⟩
    · obtain ⟨seen, rfl⟩ := h.quiet hq ha hb
      rw [hnode]
      exact ⟨rfl, rfl, rfl, by simp [ha, hb]⟩
    · simp [hphone] at hr

/-- A delivery is handled once exactly when the triggers and the deduplication agree about it. -/
theorem smsHandler_handledOnce_iff (env : SmsEnv) (req : SmsRequest) (n : Node) :
    HandledOnce n (smsHandler env req n) ↔
      ∀ p, req = .params p →
        TakenOnce env (storeCall env (p.sender.getD []) (p.body.getD []) (p.timestamp.getD 0) n) n := by
  have herror (code : Nat) (text : GoString) : HandledOnce n ⟨.error code text, [], n⟩ := by
    refine ⟨fun id status h => ?_, by simp⟩
    cases h
  cases req with
  | badPayload => exact iff_of_true (herror 400 _) (fun p h => nomatch h)
  | badCipher => exact iff_of_true (herror 403 _) (fun p h => nomatch h)
  | badPlaintext => exact iff_of_true (herror 400 _) (fun p h => nomatch h)
  | params p =>
    simp only [SmsRequest.params.injEq, forall_eq']
    unfold smsHandler
    dsimp only
    generalize p.sender.getD [] = sender
    generalize p.body.getD [] = body
    generalize p.timestamp.getD 0 = ts
    have htaken : TakenOnce env (storeCall env sender body ts n) n ↔
        Panics sender body n ∨
          ((Fires sender body n → ¬ Refused n.sms (storeCall env sender body ts n) ∧
              ¬ EchoesReply env (storeCall env sender body ts n) n) ∧
            ¬ (FiresGuardian sender body n ∧ FiresSelf sender body n)) := Iff.rfl
    rw [htaken]
    rcases runTriggers_cases env sender body n with ⟨hp, hpan, hlen⟩ | ⟨hp, n', hbefore, hrun⟩
    · simp only [hpan, if_true]
      refine ⟨fun _ => .inl hp, fun _ => ⟨fun id status h => ?_, hlen⟩⟩
      cases h
    · rw [hrun]
      simp only [Bool.false_eq_true, if_false]
      have hnone := noSideEffect_iff env hbefore
      have hdup := refused_afterTriggers_iff env (c := storeCall env sender body ts n) hbefore
      have hcas : ((if FiresGuardian sender body n then [env.guardianID] else []) ++
          (if FiresSelf sender body n then [env.selfID] else [])).length ≤ 1 ↔
          ¬ (FiresGuardian sender body n ∧ FiresSelf sender body n) := by
        split_ifs with ha hb <;> simp [*]
      rw [or_iff_right hp]
      rcases storeSms_cases env sender body ts
          (if IsAlert body then n' else runRecovery env sender body n') with
        ⟨href, id, hstore⟩ | ⟨href, id, sms, hstore⟩
      · have hor := hdup.1 href
        rw [hstore]
        constructor
        · rintro ⟨h1, h2⟩
          refine ⟨fun hf => absurd hf ((hnone _).1 (h1 id _ rfl)), hcas.1 h2⟩
        · rintro ⟨h1, h2⟩
          refine ⟨fun _ _ _ => (hnone _).2 fun hf => ?_, hcas.2 h2⟩
          exact hor.elim (h1 hf).1 (h1 hf).2
      · have hor := not_or.1 (mt hdup.2 href)
        rw [hstore]
        constructor
        · rintro ⟨-, h2⟩
          exact ⟨fun _ => hor, hcas.1 h2⟩
        · rintro ⟨-, h2⟩
          exact ⟨fun _ _ h => (nomatch h), hcas.2 h2⟩

/-- A node whose owner has set the self phone, after the owner's remote quest was delivered once. -/
def questNode (env : SmsEnv) (req : SmsRequest) : Node :=
  (smsHandler env req { Node.fresh with selfPhone := "0612345678" }).node

theorem quest_redelivered :
    let env : SmsEnv := ⟨1000, "a", "b", "c", "12:30", 5, "s", "t"⟩
    let req : SmsRequest := .params ⟨some "0612345678", some "/q check the mail", some 1000⟩
    ¬ HandledOnce (questNode env req) (smsHandler env req (questNode env req)) := by
  intro env req h
  have hdup : (smsHandler env req (questNode env req)).reply = .duplicate 2 .purgatory := by
    decide
  have hout := congrArg (fun t => t.rows.length) (h.duplicate _ _ hdup).outbox
  revert hout
  decide

end Gafam.Relay
