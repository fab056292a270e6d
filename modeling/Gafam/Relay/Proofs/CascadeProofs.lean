import Gafam.Relay.Cascade
import Gafam.Relay.Proofs.EmergencyProofs
import Mathlib.Algebra.BigOperators.Group.Finset.Piecewise
import Mathlib.Algebra.Order.BigOperators.Group.Finset

/-!
# The cascade never floods the network

The record of seen alerts serializes the invocations of a node: the `INSERT OR IGNORE` inside
`trigger911Cascade` succeeds for one invocation per alert id, and only that one goes on to its
guardians. Inside the retention of the record, pruning does not undo this.
-/

namespace Gafam.Relay

open Gafam.Go Gafam.Lib

/-! ## One step of an invocation -/

/-- The invocation has recorded the alert in `trigger911Cascade`, so it is the one that relays it. -/
def Pc.Owns (a : GoString) : Pc → Prop
  | .prune c fresh _ => fresh = true ∧ c.alertID = a
  | .query c _ => c.alertID = a
  | .sending c _ _ => c.alertID = a
  | _ => False

/-- How many messages for an alert an invocation may still queue, `m` being the number of relaying
guardians of its node. -/
def Pc.remaining (m : Nat) (a : GoString) : Pc → Nat
  | .prune c fresh _ => if fresh = true ∧ c.alertID = a then m else 0
  | .query c _ => if c.alertID = a then m else 0
  | .sending c rest _ => if c.alertID = a then rest.length else 0
  | _ => 0

/-- The hop counter of an invocation is in range. -/
def Pc.HopOk : Pc → Prop
  | .relayMark _ a => 1 ≤ a.hop
  | .relayPrune _ a _ => 1 ≤ a.hop
  | .mark c _ => 1 ≤ c.hop
  | .prune c _ _ => 1 ≤ c.hop
  | .query c _ => 1 ≤ c.hop ∧ c.hop ≤ max911Hops
  | .sending c _ _ => 1 ≤ c.hop ∧ c.hop ≤ max911Hops
  | _ => True

/-- The number of messages for an alert that a step queues. -/
def queuedFor (a : GoString) : Option (CascadeCall × Guardian) → Nat
  | some q => if q.1.alertID = a then 1 else 0
  | none => 0

/-- What a step of an invocation does to its node and to its own standing. -/
structure StepFacts (t₀ now : Nat) (n : Node) (pc pc' : Pc) (n' : Node)
    (queued : Option (CascadeCall × Guardian)) : Prop where
  guardians : n'.guardians = n.guardians
  kept : now / 1000 ≤ t₀ + seenRetention → ∀ r ∈ n.seen, t₀ ≤ r.createdAt → r ∈ n'.seen
  owns : ∀ a : GoString, a ≠ [] → pc'.Owns a → pc.Owns a ∨
    (¬ Seen a n.seen ∧ ∃ r ∈ n'.seen, r.alertId = a ∧ r.createdAt = now / 1000)
  hop : pc.HopOk → pc'.HopOk
  sent : ∀ q, queued = some q →
    pc.Owns q.1.alertID ∧ (pc.HopOk → 1 ≤ q.1.hop ∧ q.1.hop ≤ max911Hops)
  spent : ∀ a, pc.Owns a → queuedFor a queued + pc'.remaining (relays n.guardians).length a ≤
    pc.remaining (relays n.guardians).length a
  fresh : ∀ a, ¬ pc.Owns a →
    pc'.remaining (relays n.guardians).length a ≤ (relays n.guardians).length

theorem after_owns (a : GoString) (next : Option (GoString × GoString)) :
    ¬ (Pc.after next).Owns a := by
  cases next <;> exact fun h => h

theorem after_remaining (m : Nat) (a : GoString) (next : Option (GoString × GoString)) :
    (Pc.after next).remaining m a = 0 := by
  cases next <;> rfl

theorem after_hopOk (next : Option (GoString × GoString)) : (Pc.after next).HopOk := by
  cases next <;> trivial

theorem remaining_prune_le (m : Nat) (a : GoString) (c : CascadeCall) (fresh : Bool)
    (next : Option (GoString × GoString)) : (Pc.prune c fresh next).remaining m a ≤ m := by
  unfold Pc.remaining
  dsimp only
  split_ifs
  · exact Nat.le_refl m
  · exact Nat.zero_le m

/-- The facts about a step that only moves an invocation on to where it owns no alert. -/
theorem StepFacts.idle {t₀ now : Nat} {n : Node} {pc pc' : Pc} (hown : ∀ a, ¬ pc'.Owns a)
    (hrem : ∀ m a, pc'.remaining m a = 0) (hhop : pc.HopOk → pc'.HopOk) :
    StepFacts t₀ now n pc pc' n none where
  guardians := rfl
  kept _ _ hr _ := hr
  owns a _ h := absurd h (hown a)
  hop := hhop
  sent _ h := nomatch h
  spent a _ := by simp [queuedFor, hrem]
  fresh a _ := by simp [hrem]

/-- Recording an alert keeps the record, and owns an alert that was not in it. -/
theorem insertSeen_spec (now : Nat) (id : GoString) (seen : List SeenAlert) :
    (∀ r ∈ seen, r ∈ (insertSeen now id seen).2) ∧
      (id ≠ [] → (insertSeen now id seen).1 = true →
        ¬ Seen id seen ∧ ∃ r ∈ (insertSeen now id seen).2, r.alertId = id ∧
          r.createdAt = now / 1000) := by
  unfold insertSeen
  split_ifs with h0 hs
  · exact ⟨fun _ hr => hr, fun hne => absurd h0 hne⟩
  · exact ⟨fun _ hr => hr, fun _ h => nomatch h⟩
  · exact ⟨fun _ hr => List.mem_append_left _ hr, fun _ _ => ⟨hs, ⟨id, now / 1000⟩, by simp⟩⟩

theorem mem_pruneAfter {t₀ now : Nat} {id : GoString} {seen : List SeenAlert} {r : SeenAlert}
    (hnow : now / 1000 ≤ t₀ + seenRetention) (hr : r ∈ seen) (ht : t₀ ≤ r.createdAt) :
    r ∈ pruneAfter now id seen := by
  unfold pruneAfter
  split_ifs
  · exact hr
  · exact mem_pruneSeen.2 ⟨hr, by omega⟩

/-- Every step of an invocation. -/
theorem pc_step_facts (t₀ now : Nat) (newID : GoString) (n : Node) (pc : Pc) :
    StepFacts t₀ now n pc (pc.step now newID n).1 (pc.step now newID n).2.1
      (pc.step now newID n).2.2 := by
  cases pc with
  | received sender body =>
    unfold Pc.step
    dsimp only
    cases hp : parse911Relay body with
    | some a =>
      refine .idle ?_ ?_ ?_
      exacts [fun _ h => h, fun _ _ => rfl, fun _ => (parse911Relay_spec hp).2]
    | none =>
      cases guardianDistress sender body n with
      | none =>
        refine .idle ?_ ?_ ?_
        exacts [fun _ h => h, fun _ _ => rfl, fun _ => trivial]
      | some g =>
        dsimp only
        cases messageAfterCode body g.keyword911 with
        | none =>
          refine .idle ?_ ?_ ?_
          exacts [fun _ h => h, fun _ _ => rfl, fun _ => trivial]
        | some msg =>
          refine .idle ?_ ?_ ?_
          exacts [fun _ h => h, fun _ _ => rfl, fun _ => Int.le_refl 1]
  | web message =>
    refine .idle ?_ ?_ ?_
    exacts [fun _ h => h, fun _ _ => rfl, fun _ => Int.le_refl 1]
  | relayMark sender a =>
    obtain ⟨hkeep, -⟩ := insertSeen_spec now a.alertID n.seen
    exact ⟨rfl, fun _ r hr _ => hkeep r hr, fun _ _ h => h.elim, fun h => h,
      fun _ h => (nomatch h), fun _ h => h.elim, fun _ _ => Nat.zero_le _⟩
  | relayPrune sender a fresh =>
    have hkept : now / 1000 ≤ t₀ + seenRetention → ∀ r ∈ n.seen, t₀ ≤ r.createdAt →
        r ∈ pruneAfter now a.alertID n.seen := fun hnow r hr ht => mem_pruneAfter hnow hr ht
    unfold Pc.step
    dsimp only
    generalize (if a.alertID = [] then newID else a.alertID) = id
    split_ifs
    · exact ⟨rfl, hkept, fun _ _ h => h.elim, fun _ => trivial, fun _ h => (nomatch h),
        fun _ h => h.elim, fun _ _ => Nat.zero_le _⟩
    · exact ⟨rfl, hkept, fun _ _ h => h.elim, fun _ => trivial, fun _ h => (nomatch h),
        fun _ h => h.elim, fun _ _ => Nat.zero_le _⟩
    · refine ⟨rfl, hkept, fun _ _ h => h.elim, fun h => ?_, fun _ h => (nomatch h),
        fun _ h => h.elim, fun _ _ => Nat.zero_le _⟩
      have hhop : 1 ≤ a.hop := h
      show 1 ≤ a.hop + 1
      omega
  | mark c next =>
    obtain ⟨hkeep, hfresh⟩ := insertSeen_spec now c.alertID n.seen
    refine ⟨rfl, fun _ r hr _ => hkeep r hr, fun a hne h => .inr ?_, fun h => h,
      fun _ h => (nomatch h), fun _ h => h.elim, fun a _ => ?_⟩
    · obtain ⟨hf, rfl⟩ : (insertSeen now c.alertID n.seen).1 = true ∧ c.alertID = a := h
      exact hfresh hne hf
    · exact remaining_prune_le _ a c _ next
  | prune c fresh next =>
    have hkept : now / 1000 ≤ t₀ + seenRetention → ∀ r ∈ n.seen, t₀ ≤ r.createdAt →
        r ∈ pruneAfter now c.alertID n.seen := fun hnow r hr ht => mem_pruneAfter hnow hr ht
    have hback : StepFacts t₀ now n (.prune c fresh next) (.after next)
        { n with seen := pruneAfter now c.alertID n.seen } none :=
      ⟨rfl, hkept, fun a _ h => absurd h (after_owns a next), fun _ => after_hopOk next,
        fun _ h => (nomatch h), fun a _ => by simp [queuedFor, after_remaining],
        fun a _ => by simp [after_remaining]⟩
    unfold Pc.step
    dsimp only
    split_ifs with hf hh
    · exact hback
    · exact hback
    · have hfresh : fresh = true := by simpa using hf
      refine ⟨rfl, hkept, fun a _ h => .inl ⟨hfresh, h⟩, fun h => ⟨h, Int.not_lt.1 hh⟩,
        fun _ h => (nomatch h), fun a h => ?_, fun a h => ?_⟩
      · obtain ⟨-, rfl⟩ := h
        simp [queuedFor, Pc.remaining, hfresh]
      · have hne : c.alertID ≠ a := fun heq => h ⟨hfresh, heq⟩
        simp [Pc.remaining, hne]
  | query c next =>
    refine ⟨rfl, fun _ r hr _ => hr, fun a _ h => .inl h, fun h => h, fun _ h => (nomatch h),
      fun a h => ?_, fun a h => ?_⟩
    · obtain rfl : c.alertID = a := h
      simp [queuedFor, Pc.remaining, Pc.step]
    · have hne : c.alertID ≠ a := h
      simp [Pc.remaining, Pc.step, hne]
  | sending c rest next =>
    cases rest with
    | nil =>
      refine .idle ?_ ?_ ?_
      exacts [fun a => after_owns a next, fun m a => after_remaining m a next, fun _ => after_hopOk next]
    | cons g rest =>
      unfold Pc.step
      dsimp only
      split_ifs with hm
      · refine ⟨rfl, fun _ r hr _ => hr, fun a _ h => .inl h, fun h => h, fun _ h => (nomatch h),
          fun a h => ?_, fun a h => ?_⟩
        · obtain rfl : c.alertID = a := h
          simp [queuedFor, Pc.remaining]
        · have hne : c.alertID ≠ a := h
          simp [Pc.remaining, hne]
      · refine ⟨rfl, fun _ r hr _ => hr, fun a _ h => .inl h, fun h => h, fun q h => ?_,
          fun a h => ?_, fun a h => ?_⟩
        · obtain rfl := Option.some.inj h
          exact ⟨rfl, fun h => h⟩
        · obtain rfl : c.alertID = a := h
          simp [queuedFor, Pc.remaining]
          omega
        · have hne : c.alertID ≠ a := h
          simp [Pc.remaining, hne]
  | selfTrigger sender body =>
    unfold Pc.step
    dsimp only
    split_ifs
    · cases messageAfterCode body default911Code with
      | none =>
        refine .idle ?_ ?_ ?_
        exacts [fun _ h => h, fun _ _ => rfl, fun _ => trivial]
      | some msg =>
        refine .idle ?_ ?_ ?_
        exacts [fun _ h => h, fun _ _ => rfl, fun _ => Int.le_refl 1]
    · refine .idle ?_ ?_ ?_
      exacts [fun _ h => h, fun _ _ => rfl, fun _ => trivial]
  | finished =>
    refine .idle ?_ ?_ ?_
    exacts [fun _ h => h, fun _ _ => rfl, fun _ => trivial]

/-! ## An invocation alone -/

theorem mark911Seen_eq (now : Nat) (id : GoString) (seen : List SeenAlert) :
    mark911Seen now id seen =
      ((insertSeen now id seen).1, pruneAfter now id (insertSeen now id seen).2) := by
  unfold mark911Seen insertSeen pruneAfter
  by_cases h0 : id = []
  · simp [h0]
  · by_cases hs : Seen id seen <;> simp [h0, hs]

theorem alone_add (now : Nat) (newID : GoString) (m m' : Nat) (n : Node) (pc : Pc) :
    Pc.alone now newID (m + m') n pc =
      Pc.alone now newID m' (Pc.alone now newID m n pc).2 (Pc.alone now newID m n pc).1 := by
  induction m generalizing n pc with
  | zero => rw [Nat.zero_add]; rfl
  | succ m ih => rw [Nat.succ_add]; exact ih _ _

/-- The loop of `trigger911Cascade` over the rows of its query. -/
theorem alone_sending (now : Nat) (newID : GoString) (c : CascadeCall)
    (next : Option (GoString × GoString)) (rest : List Guardian) (n : Node) :
    Pc.alone now newID (rest.length + 1) n (.sending c rest next) =
      (.after next, (rest.filter fun g => !phonesMatch g.phoneNumber c.sender).foldl
        (fun s g => queue911Sms now g.phoneNumber c.body s) n) := by
  induction rest generalizing n with
  | nil => rfl
  | cons g rest ih =>
    rw [List.length_cons, Pc.alone]
    unfold Pc.step
    dsimp only
    by_cases hm : phonesMatch g.phoneNumber c.sender = true
    · simp only [if_pos hm]
      rw [ih, List.filter_cons_of_neg (by simp [hm])]
    · simp only [if_neg hm]
      rw [ih, List.filter_cons_of_pos (by simp [hm]), List.foldl_cons]

/-- `trigger911Cascade` is what its steps do when nothing comes in between. -/
theorem alone_trigger911Cascade (now : Nat) (newID sender alertID : GoString) (hop : Int)
    (orig name msg : GoString) (next : Option (GoString × GoString)) (n : Node) :
    ∃ m, Pc.alone now newID m n
        (.mark ⟨sender, if alertID = [] then newID else alertID, hop, orig, name, msg⟩ next) =
      (.after next, (trigger911Cascade now newID sender alertID hop orig name msg n).2) := by
  unfold trigger911Cascade
  dsimp only
  generalize (if alertID = [] then newID else alertID) = id
  rw [mark911Seen_eq]
  by_cases hf : (insertSeen now id n.seen).1 = true
  · by_cases hh : hop > max911Hops
    · exact ⟨2, by simp [Pc.alone, Pc.step, hf, hh]⟩
    · refine ⟨3 + ((relays n.guardians).length + 1), ?_⟩
      rw [alone_add]
      simp only [Pc.alone, Pc.step, hf, Bool.not_true, Bool.false_eq_true, if_false, if_neg hh]
      exact alone_sending now newID _ next (relays n.guardians) _
  · exact ⟨2, by simp [Pc.alone, Pc.step, hf]⟩

/-- So is `relay911Alert` for a received alert. -/
theorem alone_relay911Alert (now : Nat) (newID sender body : GoString) (n : Node) {a : Alert}
    (hp : parse911Relay body = some a) :
    ∃ m, Pc.alone now newID m n (.received sender body) =
      (.finished, (relay911Alert now newID sender body n).2) := by
  unfold relay911Alert
  rw [hp]
  dsimp only
  rw [mark911Seen_eq]
  by_cases hf : (insertSeen now a.alertID n.seen).1 = true
  · by_cases hh : a.hop ≥ max911Hops
    · exact ⟨3, by simp [Pc.alone, Pc.step, hp, hf, hh]⟩
    · obtain ⟨m, hm⟩ := alone_trigger911Cascade now newID sender a.alertID (a.hop + 1) a.origPhone
        a.origName a.message none
        { n with seen := pruneAfter now a.alertID (insertSeen now a.alertID n.seen).2 }
      refine ⟨3 + m, ?_⟩
      rw [alone_add]
      simp only [Pc.alone, Pc.step, hp, hf, Bool.not_true, Bool.false_eq_true, if_false, if_neg hh]
      exact hm
  · exact ⟨3, by simp [Pc.alone, Pc.step, hp, hf]⟩

theorem alone_relay911Alert_first :
    ∃ m, Pc.alone 0 "1700-cd" m Node.fresh (.received "0699999999" "GAFAM911 1700-ab 1 0612345678 | Alice | help") =
      (.finished, (relay911Alert 0 "1700-cd" "0699999999" "GAFAM911 1700-ab 1 0612345678 | Alice | help"
        Node.fresh).2) :=
  alone_relay911Alert (a := ⟨"1700-ab", "0612345678", "Alice", "help", 1⟩) _ _ _ _ _ (by decide)

/-! ## The invariant of the network -/

section Net

variable {ι : Type}

/-- The invocation relays the alert on that node, or has done so. -/
def Holds (s : Network ι) (i : ι) (k : Nat) (a : GoString) : Prop :=
  (∃ pc, s.invocations[k]? = some (i, pc) ∧ pc.Owns a) ∨
    ∃ e ∈ s.log, e.node = i ∧ e.invocation = k ∧ e.alertID = a

/-- The number of messages for an alert that an invocation has queued. -/
def sentBy (log : List (Relayed ι)) (k : Nat) (a : GoString) : Nat :=
  log.countP fun e => e.invocation = k ∧ e.alertID = a

/-- What every step preserves. An alert that an invocation relays is in the record of its node since
the start of the run, and no other invocation of the node relays it. -/
structure NetInv (nodes₀ : ι → Node) (t₀ : Nat) (s : Network ι) : Prop where
  guardians : ∀ i, (s.nodes i).guardians = (nodes₀ i).guardians
  logged : ∀ e ∈ s.log, ∃ pc, s.invocations[e.invocation]? = some (e.node, pc)
  recorded : ∀ (i : ι) (k : Nat) (a : GoString), a ≠ [] → Holds s i k a →
    ∃ r ∈ (s.nodes i).seen, r.alertId = a ∧ t₀ ≤ r.createdAt
  once : ∀ (i : ι) (k k' : Nat) (a : GoString), a ≠ [] → Holds s i k a → Holds s i k' a → k = k'
  hopOk : ∀ (k : Nat) (i : ι) (pc : Pc), s.invocations[k]? = some (i, pc) → pc.HopOk
  logHop : ∀ e ∈ s.log, 1 ≤ e.hop ∧ e.hop ≤ max911Hops ∧
    ∃ origPhone origName message,
      e.body = build911RelayBody e.alertID e.hop origPhone origName message
  count : ∀ (k : Nat) (i : ι) (pc : Pc) (a : GoString), a ≠ [] → s.invocations[k]? = some (i, pc) →
    sentBy s.log k a + pc.remaining (relays (nodes₀ i).guardians).length a ≤
      (relays (nodes₀ i).guardians).length

theorem remaining_of_not_owns {pc : Pc} {a : GoString} (h : ¬ pc.Owns a) (m : Nat) :
    pc.remaining m a = 0 := by
  cases pc with
  | prune c fresh next => exact if_neg h
  | query c next => exact if_neg h
  | sending c rest next => exact if_neg h
  | _ => rfl

theorem netInv_start (nodes : ι → Node) (t₀ : Nat) : NetInv nodes t₀ (.start nodes) where
  guardians _ := rfl
  logged e he := nomatch he
  recorded i k a _ h := by
    rcases h with ⟨pc, hpc, -⟩ | ⟨e, he, -⟩
    · simp [Network.start] at hpc
    · cases he
  once i k k' a _ h := by
    rcases h with ⟨pc, hpc, -⟩ | ⟨e, he, -⟩
    · simp [Network.start] at hpc
    · cases he
  hopOk k i pc h := by simp [Network.start] at h
  logHop e he := nomatch he
  count k i pc a _ h := by simp [Network.start] at h

/-- A new invocation relays nothing yet. -/
theorem NetInv.spawn {nodes₀ : ι → Node} {t₀ : Nat} {s : Network ι} (h : NetInv nodes₀ t₀ s) (i : ι)
    {pc : Pc} (hown : ∀ a, ¬ pc.Owns a) (hhop : pc.HopOk) :
    NetInv nodes₀ t₀ { s with invocations := s.invocations ++ [(i, pc)] } := by
  have hget {k : Nat} {j : ι} {pc' : Pc} (hk : (s.invocations ++ [(i, pc)])[k]? = some (j, pc')) :
      s.invocations[k]? = some (j, pc') ∨ (k = s.invocations.length ∧ j = i ∧ pc' = pc) := by
    rcases Nat.lt_or_ge k s.invocations.length with hlt | hge
    · rw [List.getElem?_append_left hlt] at hk
      exact .inl hk
    · rw [List.getElem?_append_right hge] at hk
      obtain ⟨h0, heq⟩ := List.getElem?_eq_some_iff.1 hk
      simp only [List.length_singleton] at h0
      have hz : k - s.invocations.length = 0 := by omega
      simp only [hz, List.getElem_cons_zero, Prod.mk.injEq] at heq
      exact .inr ⟨by omega, heq.1.symm, heq.2.symm⟩
  have hkeep {k : Nat} {x : ι × Pc} (hk : s.invocations[k]? = some x) :
      (s.invocations ++ [(i, pc)])[k]? = some x := by
    rw [List.getElem?_append_left (List.getElem?_eq_some_iff.1 hk).1]
    exact hk
  have hholds {j : ι} {k : Nat} {a : GoString}
      (hh : Holds { s with invocations := s.invocations ++ [(i, pc)] } j k a) : Holds s j k a := by
    rcases hh with ⟨pc', hpc', ho⟩ | hlog
    · rcases hget hpc' with hold | ⟨-, -, rfl⟩
      · exact .inl ⟨pc', hold, ho⟩
      · exact absurd ho (hown a)
    · exact .inr hlog
  refine ⟨h.guardians, fun e he => ?_, fun j k a hne hh => h.recorded j k a hne (hholds hh),
    fun j k k' a hne hh hh' => h.once j k k' a hne (hholds hh) (hholds hh'),
    fun k j pc' hk => ?_, h.logHop, fun k j pc' a hne hk => ?_⟩
  · obtain ⟨pc', hpc'⟩ := h.logged e he
    exact ⟨pc', hkeep hpc'⟩
  · rcases hget hk with hold | ⟨-, -, rfl⟩
    · exact h.hopOk k j pc' hold
    · exact hhop
  · rcases hget hk with hold | ⟨rfl, rfl, rfl⟩
    · exact h.count k j pc' a hne hold
    · have hzero : sentBy s.log s.invocations.length a = 0 := by
        refine List.countP_eq_zero.2 fun e he => ?_
        obtain ⟨pc', hpc'⟩ := h.logged e he
        have := (List.getElem?_eq_some_iff.1 hpc').1
        simp only [decide_eq_true_eq, not_and]
        omega
      rw [remaining_of_not_owns (hown a)]
      show sentBy s.log s.invocations.length a + 0 ≤ _
      omega

variable [DecidableEq ι]

/-- A step of an invocation. -/
theorem NetInv.act {nodes₀ : ι → Node} {t₀ now : Nat} {s : Network ι} (h : NetInv nodes₀ t₀ s)
    (hlow : t₀ ≤ now / 1000) (hhigh : now / 1000 ≤ t₀ + seenRetention) {k : Nat} {i : ι}
    {pc pc' : Pc} {n' : Node} {queued : Option (CascadeCall × Guardian)}
    (hk : s.invocations[k]? = some (i, pc))
    (hf : StepFacts t₀ now (s.nodes i) pc pc' n' queued) :
    NetInv nodes₀ t₀
      { nodes := Function.update s.nodes i n'
        invocations := s.invocations.set k (i, pc')
        log := s.log ++ (queued.map (Relayed.of i k)).toList } := by
  have hlen := (List.getElem?_eq_some_iff.1 hk).1
  have hget {l : Nat} {j : ι} {pc₁ : Pc}
      (hl : (s.invocations.set k (i, pc'))[l]? = some (j, pc₁)) :
      (l ≠ k ∧ s.invocations[l]? = some (j, pc₁)) ∨ (l = k ∧ j = i ∧ pc₁ = pc') := by
    by_cases hlk : l = k
    · subst hlk
      rw [List.getElem?_set_self hlen] at hl
      obtain ⟨rfl, rfl⟩ := Prod.mk.inj (Option.some.inj hl)
      exact .inr ⟨rfl, rfl, rfl⟩
    · rw [List.getElem?_set_ne (Ne.symm hlk)] at hl
      exact .inl ⟨hlk, hl⟩
  have hnew {e : Relayed ι} (he : e ∈ s.log ++ (queued.map (Relayed.of i k)).toList) :
      e ∈ s.log ∨ ∃ q, queued = some q ∧ e = Relayed.of i k q := by
    rcases List.mem_append.1 he with he | he
    · exact .inl he
    · obtain ⟨q, hq, rfl⟩ : ∃ q, queued = some q ∧ Relayed.of i k q = e := by simpa using he
      exact .inr ⟨q, hq, rfl⟩
  -- Whoever relays an alert after the step did so before, or has just recorded it.
  have hholds {j : ι} {l : Nat} {a : GoString} (hne : a ≠ [])
      (hh : Holds { nodes := Function.update s.nodes i n'
                    invocations := s.invocations.set k (i, pc')
                    log := s.log ++ (queued.map (Relayed.of i k)).toList } j l a) :
      Holds s j l a ∨ (j = i ∧ l = k ∧ ¬ Seen a (s.nodes i).seen ∧
        ∃ r ∈ n'.seen, r.alertId = a ∧ r.createdAt = now / 1000) := by
    rcases hh with ⟨pc₁, hpc₁, ho⟩ | ⟨e, he, rfl, rfl, rfl⟩
    · rcases hget hpc₁ with ⟨-, hold⟩ | ⟨rfl, rfl, rfl⟩
      · exact .inl (.inl ⟨pc₁, hold, ho⟩)
      · rcases hf.owns a hne ho with ho | ⟨hs, hr⟩
        · exact .inl (.inl ⟨pc, hk, ho⟩)
        · exact .inr ⟨rfl, rfl, hs, hr⟩
    · rcases hnew he with he | ⟨q, hq, rfl⟩
      · exact .inl (.inr ⟨e, he, rfl, rfl, rfl⟩)
      · exact .inl (.inl ⟨pc, hk, (hf.sent q hq).1⟩)
  have hseen {l : Nat} {a : GoString} (hne : a ≠ []) (hh : Holds s i l a) :
      Seen a (s.nodes i).seen := by
    obtain ⟨r, hr, hra, -⟩ := h.recorded i l a hne hh
    exact ⟨r, hr, hra⟩
  refine ⟨fun j => ?_, fun e he => ?_, fun j l a hne hh => ?_, fun j l l' a hne hh hh' => ?_,
    fun l j pc₁ hl => ?_, fun e he => ?_, fun l j pc₁ a hne hl => ?_⟩
  · by_cases hji : j = i
    · subst hji
      simp only [Function.update_self]
      rw [hf.guardians, h.guardians]
    · simp only [Function.update_of_ne hji]
      exact h.guardians j
  · rcases hnew he with he | ⟨q, -, rfl⟩
    · obtain ⟨pc₁, hpc₁⟩ := h.logged e he
      by_cases hek : e.invocation = k
      · rw [hek, hk] at hpc₁
        obtain ⟨rfl, -⟩ := Prod.mk.inj (Option.some.inj hpc₁)
        exact ⟨pc', by rw [hek]; exact List.getElem?_set_self hlen⟩
      · exact ⟨pc₁, by rw [List.getElem?_set_ne (Ne.symm hek)]; exact hpc₁⟩
    · exact ⟨pc', List.getElem?_set_self hlen⟩
  · rcases hholds hne hh with hold | ⟨rfl, -, -, r, hr, hra, hrc⟩
    · obtain ⟨r, hr, hra, hrt⟩ := h.recorded j l a hne hold
      by_cases hji : j = i
      · subst hji
        simp only [Function.update_self]
        exact ⟨r, hf.kept hhigh r hr hrt, hra, hrt⟩
      · simp only [Function.update_of_ne hji]
        exact ⟨r, hr, hra, hrt⟩
    · simp only [Function.update_self]
      exact ⟨r, hr, hra, hrc ▸ hlow⟩
  · rcases hholds hne hh with hold | ⟨hj, hl, hs, -⟩ <;>
      rcases hholds hne hh' with hold' | ⟨hj', hl', hs', -⟩
    · exact h.once j l l' a hne hold hold'
    · exact absurd (hseen hne (hj' ▸ hold)) hs'
    · exact absurd (hseen hne (hj ▸ hold')) hs
    · rw [hl, hl']
  · rcases hget hl with ⟨-, hold⟩ | ⟨-, -, rfl⟩
    · exact h.hopOk l j pc₁ hold
    · exact hf.hop (h.hopOk k i pc hk)
  · rcases hnew he with he | ⟨q, hq, rfl⟩
    · exact h.logHop e he
    · obtain ⟨h1, h2⟩ := (hf.sent q hq).2 (h.hopOk k i pc hk)
      exact ⟨h1, h2, q.1.origPhone, q.1.origName, q.1.message, rfl⟩
  · have hcount : sentBy (s.log ++ (queued.map (Relayed.of i k)).toList) l a =
        sentBy s.log l a + if l = k then queuedFor a queued else 0 := by
      unfold sentBy
      rw [List.countP_append]
      cases queued with
      | none => simp [queuedFor]
      | some q =>
        by_cases hlk : l = k
        · simp [queuedFor, Relayed.of, hlk, List.countP_cons]
        · simp [Relayed.of, hlk, Ne.symm hlk]
    simp only [hcount]
    rcases hget hl with ⟨hlk, hold⟩ | ⟨rfl, rfl, rfl⟩
    · rw [if_neg hlk]
      exact h.count l j pc₁ a hne hold
    · rw [if_pos rfl]
      have hold := h.count l j pc a hne hk
      by_cases ho : pc.Owns a
      · have hspent := hf.spent a ho
        rw [h.guardians] at hspent
        omega
      · have hq0 : queuedFor a queued = 0 := by
          cases queued with
          | none => rfl
          | some q =>
            refine if_neg fun heq => ho ?_
            rw [← heq]
            exact (hf.sent q rfl).1
        by_cases ho' : pc₁.Owns a
        · -- The invocation has just recorded the alert: it has queued nothing for it so far.
          have hfresh := hf.fresh a ho
          rw [h.guardians] at hfresh
          have hzero : sentBy s.log l a = 0 := by
            rcases hf.owns a hne ho' with ho | ⟨hs, -⟩
            · exact absurd ho (by assumption)
            · refine List.countP_eq_zero.2 fun e he => ?_
              simp only [decide_eq_true_eq, not_and]
              rintro rfl rfl
              obtain ⟨pc₂, hpc₂⟩ := h.logged e he
              rw [hk] at hpc₂
              obtain ⟨rfl, -⟩ := Prod.mk.inj (Option.some.inj hpc₂)
              exact hs (hseen hne (.inr ⟨e, he, rfl, rfl, rfl⟩))
          omega
        · rw [remaining_of_not_owns ho']
          rw [remaining_of_not_owns ho] at hold
          omega

/-- Something else happens to a node. -/
theorem NetInv.other {nodes₀ : ι → Node} {t₀ : Nat} {s : Network ι} (h : NetInv nodes₀ t₀ s) {i : ι}
    {n : Node} (hseen : n.seen = (s.nodes i).seen) (hg : n.guardians = (s.nodes i).guardians) :
    NetInv nodes₀ t₀ { s with nodes := Function.update s.nodes i n } := by
  refine ⟨fun j => ?_, h.logged, fun j k a hne hh => ?_, h.once, h.hopOk, h.logHop, h.count⟩
  · by_cases hji : j = i
    · subst hji
      simp only [Function.update_self]
      rw [hg, h.guardians]
    · simp only [Function.update_of_ne hji]
      exact h.guardians j
  · have hr := h.recorded j k a hne hh
    by_cases hji : j = i
    · subst hji
      simp only [Function.update_self]
      rw [hseen]
      exact hr
    · simp only [Function.update_of_ne hji]
      exact hr

/-- The clock reading of an action, if it has one, lies within the retention. -/
def Timely (t₀ : Nat) : Action ι → Prop
  | .step _ now _ => t₀ ≤ now / 1000 ∧ now / 1000 ≤ t₀ + seenRetention
  | _ => True

theorem netInv_step {nodes₀ : ι → Node} {t₀ : Nat} (s : Network ι) (act : Action ι)
    (s' : Network ι) (h : NetInv nodes₀ t₀ s) (ht : Timely t₀ act) (hs : s.step act = some s') :
    NetInv nodes₀ t₀ s' := by
  cases act with
  | receive i sender body =>
    obtain rfl := Option.some.inj hs
    exact h.spawn i (fun _ ho => ho) trivial
  | raise i message =>
    obtain rfl := Option.some.inj hs
    exact h.spawn i (fun _ ho => ho) trivial
  | step k now newID =>
    unfold Network.step at hs
    dsimp only at hs
    cases hk : s.invocations[k]? with
    | none => simp [hk] at hs
    | some x =>
      obtain ⟨i, pc⟩ := x
      rw [hk] at hs
      obtain rfl := Option.some.inj hs
      exact h.act ht.1 ht.2 hk (pc_step_facts t₀ now newID (s.nodes i) pc)
  | other i n =>
    unfold Network.step at hs
    dsimp only at hs
    split_ifs at hs with heq
    obtain rfl := Option.some.inj hs
    exact h.other heq.1 heq.2

/-- The invariant holds after every run within the retention. -/
theorem netInv_run {nodes₀ : ι → Node} {t₀ : Nat} {acts : List (Action ι)} {s s' : Network ι}
    (h : NetInv nodes₀ t₀ s) (ht : ∀ act ∈ acts, Timely t₀ act)
    (hrun : runSteps Network.step s acts = some s') : NetInv nodes₀ t₀ s' := by
  induction acts generalizing s with
  | nil => cases hrun; exact h
  | cons act acts ih =>
    obtain ⟨t, hstep, hrun⟩ := runSteps_cons_eq_some.1 hrun
    exact ih (netInv_step s act t h (ht act (by simp)) hstep)
      (fun act' hact' => ht act' (by simp [hact'])) hrun

/-! ## The total number of messages -/

/-- A node queues at most one message for each of its relaying guardians. -/
theorem NetInv.node_bound {nodes₀ : ι → Node} {t₀ : Nat} {s : Network ι} (h : NetInv nodes₀ t₀ s)
    {a : GoString} (hne : a ≠ []) (i : ι) :
    (s.log.countP fun e => e.node = i ∧ decide (e.alertID = a) = true) ≤
      (relays (nodes₀ i).guardians).length := by
  by_cases hex : ∃ e ∈ s.log, e.node = i ∧ e.alertID = a
  · obtain ⟨e, he, rfl, rfl⟩ := hex
    obtain ⟨pc, hpc⟩ := h.logged e he
    have hcount := h.count _ _ pc e.alertID hne hpc
    have hle : (s.log.countP fun e' => e'.node = e.node ∧ decide (e'.alertID = e.alertID) = true) ≤
        sentBy s.log e.invocation e.alertID := by
      refine List.countP_mono_left fun e' he' hp => ?_
      simp only [decide_eq_true_eq] at hp ⊢
      have hk := h.once e.node _ _ e.alertID hne (.inr ⟨e', he', hp.1, rfl, hp.2⟩)
        (.inr ⟨e, he, rfl, rfl, rfl⟩)
      exact ⟨hk, hp.2⟩
    omega
  · have hzero : (s.log.countP fun e => e.node = i ∧ decide (e.alertID = a) = true) = 0 := by
      refine List.countP_eq_zero.2 fun e he hp => hex ⟨e, he, ?_⟩
      simpa using hp
    omega

variable [Fintype ι]

/-- The messages of a list are those of the single nodes together. -/
theorem countP_eq_sum (p : Relayed ι → Bool) (log : List (Relayed ι)) :
    log.countP p = ∑ i, log.countP fun e => e.node = i ∧ p e = true := by
  induction log with
  | nil => simp
  | cons e log ih =>
    simp only [List.countP_cons, Finset.sum_add_distrib, ← ih]
    by_cases hp : p e = true <;> simp [hp]

/-- In every run of every network that stays within the retention, the cascades do not flood it. -/
theorem floodSafe_run (nodes : ι → Node) (t₀ : Nat) (acts : List (Action ι)) (s : Network ι)
    (ht : WithinRetention t₀ acts) (hrun : runSteps Network.step (.start nodes) acts = some s) :
    FloodSafe nodes s.log := by
  have htimely : ∀ act ∈ acts, Timely t₀ act := by
    intro act hact
    cases act with
    | step k now newID => exact ht k now newID hact
    | _ => trivial
  have h := netInv_run (netInv_start nodes t₀) htimely hrun
  refine ⟨fun e he e' he' hn ha hne => ?_, h.logHop, fun a hne => ?_⟩
  · exact h.once e.node _ _ e.alertID hne (.inr ⟨e, he, rfl, rfl, rfl⟩)
      (.inr ⟨e', he', hn.symm, rfl, ha.symm⟩)
  · rw [countP_eq_sum]
    exact Finset.sum_le_sum fun i _ => h.node_bound hne i

end Net

/-- Two nodes that name each other as guardians: the first one raises an alert and relays it. -/
theorem floodSafe_one_alert :
    let nodes : Fin 2 → Node := fun _ => oneGuardian
    let acts : List (Action (Fin 2)) := .raise 0 "help" :: List.replicate 5 (.step 0 1000 "1-ab")
    ∃ s, runSteps Network.step (.start nodes) acts = some s ∧ s.log.length = 1 ∧
      FloodSafe nodes s.log := by
  intro nodes acts
  refine ⟨_, rfl, rfl, floodSafe_run nodes 0 acts _ ?_ rfl⟩
  intro k now newID h
  simp only [acts, List.mem_cons, List.mem_replicate, reduceCtorEq, false_or,
    Action.step.injEq] at h
  obtain ⟨-, -, rfl, -⟩ := h
  decide

end Gafam.Relay
