import Gafam.Go.Proofs.TextProofs
import Gafam.Relay.Emergency

/-!
# One node of the 911 cascade

What a node queues for an alert it handles, and what it records. `trigger911Cascade` is the only
place that queues relay messages, and it does so only after `mark911Seen` has recorded the alert id.
-/

namespace Gafam.Relay

open Gafam.Go Gafam.Lib

/-! ## The table of seen alerts -/

theorem mark911Seen_of_seen {now : Nat} {alertID : GoString} {seen : List SeenAlert}
    (hne : alertID ≠ []) (h : Seen alertID seen) :
    mark911Seen now alertID seen = (false, pruneSeen now seen) :=
  (if_neg hne).trans (if_pos h)

theorem mark911Seen_of_fresh {now : Nat} {alertID : GoString} {seen : List SeenAlert}
    (hne : alertID ≠ []) (h : ¬ Seen alertID seen) :
    mark911Seen now alertID seen = (true, pruneSeen now (seen ++ [⟨alertID, now / 1000⟩])) :=
  (if_neg hne).trans (if_neg h)

theorem mem_pruneSeen {now : Nat} {seen : List SeenAlert} {r : SeenAlert} :
    r ∈ pruneSeen now seen ↔ r ∈ seen ∧ now / 1000 ≤ r.createdAt + seenRetention := by
  simp [pruneSeen]

/-- The id that a call records is recorded after the call. -/
theorem seen_mark911Seen_of_fresh (now : Nat) {alertID : GoString} {seen : List SeenAlert}
    (hne : alertID ≠ []) (h : ¬ Seen alertID seen) :
    Seen alertID (mark911Seen now alertID seen).2 := by
  rw [mark911Seen_of_fresh hne h]
  exact ⟨⟨alertID, now / 1000⟩, mem_pruneSeen.2 ⟨by simp, Nat.le_add_right _ _⟩, rfl⟩

/-! ## Parsing -/

/-- The id of a well-formed alert is not empty, and its hop counter is positive. -/
theorem parse911Relay_spec {body : GoString} {a : Alert} (h : parse911Relay body = some a) :
    a.alertID ≠ [] ∧ 1 ≤ a.hop := by
  unfold parse911Relay at h
  split at h
  · obtain ⟨⟨alertID, hop, origPhone⟩, hh, rfl⟩ := Option.map_eq_some_iff.1 h
    unfold parse911Head at hh
    split at hh
    · rename_i word aid hopText orig hf
      split_ifs at hh with hw
      split at hh
      · split_ifs at hh with h1
        simp only [Option.some.injEq, Prod.mk.injEq] at hh
        obtain ⟨rfl, rfl, rfl⟩ := hh
        have hmem : aid ∈ fields _ := hf ▸ (by simp : aid ∈ [word, aid, hopText, orig])
        exact ⟨fields_ne_nil hmem, by simpa using h1⟩
      · cases hh
    · cases hh
  · cases h

/-! ## What a cascade queues -/

/-- The messages a node relays to its guardians for one alert. -/
def relayMessages (senderStr body : GoString) (guardians : List Guardian) : List OutboxMsg :=
  (relayGuardians senderStr guardians).map fun g => ⟨g.phoneNumber, body, 0⟩

/-- A call on a recorded alert queues nothing. -/
theorem trigger911Cascade_of_seen {now : Nat} {newID sender alertID orig name msg : GoString}
    {hop : Int} {n : Node} (hne : alertID ≠ []) (h : Seen alertID n.seen) :
    trigger911Cascade now newID sender alertID hop orig name msg n =
      (0, { n with seen := pruneSeen now n.seen }) := by
  unfold trigger911Cascade
  rw [if_neg hne]
  simp [mark911Seen_of_seen hne h]

/-! ## The continuation of a received alert -/

/-- The outbox after `relay911Alert` holds, besides what it held, exactly the given messages. -/
def Appends (n n' : Node) (msgs : List OutboxMsg) : Prop :=
  ∃ new, n'.outbox.rows.map (·.val) = n.outbox.rows.map (·.val) ++ new ∧ new.Perm msgs

/-- A received alert is never relayed: `relay911Alert` records the id of a fresh alert itself, and
the cascade it then calls finds the id recorded. -/
theorem relay911Alert_node (now : Nat) (newID sender body : GoString) (n : Node) :
    ∃ seen, (relay911Alert now newID sender body n).2 = { n with seen := seen } := by
  unfold relay911Alert
  cases hp : parse911Relay body with
  | none => exact ⟨n.seen, rfl⟩
  | some a =>
    have hne := (parse911Relay_spec hp).1
    by_cases hs : Seen a.alertID n.seen
    · exact ⟨_, by simp only [mark911Seen_of_seen hne hs]; rfl⟩
    · have hseen := seen_mark911Seen_of_fresh now hne hs
      rw [mark911Seen_of_fresh hne hs] at hseen
      simp only [mark911Seen_of_fresh hne hs, Bool.not_true, Bool.false_eq_true, if_false]
      split_ifs with hh
      · exact ⟨_, rfl⟩
      · rw [trigger911Cascade_of_seen (n := { n with seen := _ }) hne hseen]
        exact ⟨_, rfl⟩

theorem outbox_relay911Alert (now : Nat) (newID sender body : GoString) (n : Node) :
    (relay911Alert now newID sender body n).2.outbox = n.outbox := by
  obtain ⟨seen, h⟩ := relay911Alert_node now newID sender body n
  rw [h]

theorem relay911Alert_fst (now : Nat) (newID sender body : GoString) (n : Node) :
    (relay911Alert now newID sender body n).1 = (parse911Relay body).isSome := by
  unfold relay911Alert
  cases parse911Relay body with
  | none => rfl
  | some a =>
    simp only [Option.isSome_some]
    split_ifs <;> rfl

/-- The continuation of a fresh alert queues what it should exactly when there is no guardian to
relay to. -/
theorem relay911Alert_appends_iff (now : Nat) (newID sender body : GoString) (n : Node) (a : Alert)
    (_hp : parse911Relay body = some a) (_hhop : a.hop < max911Hops)
    (_hfresh : ¬ Seen a.alertID n.seen) :
    Appends n (relay911Alert now newID sender body n).2
        (relayMessages sender
          (build911RelayBody a.alertID (a.hop + 1) a.origPhone a.origName a.message) n.guardians) ↔
      relayGuardians sender n.guardians = [] := by
  unfold Appends
  rw [outbox_relay911Alert]
  constructor
  · rintro ⟨new, hnew, hperm⟩
    obtain rfl : new = [] := by simpa using hnew
    simpa [relayMessages] using hperm.symm.eq_nil
  · intro hg
    exact ⟨[], by simp, by simp [relayMessages, hg]⟩

/-- A node with one guardian that takes part in the 911 relay. -/
def oneGuardian : Node :=
  { Node.fresh with guardians := [⟨"Bob", "0611111111", "URGENCE_GAFAM", "911", 1⟩] }

/-- The alert that the node receives for the first time, at hop 1. -/
def firstAlert : Alert := ⟨"1700-ab", "0612345678", "Alice", "help", 1⟩

theorem firstAlert_lost :
    parse911Relay "GAFAM911 1700-ab 1 0612345678 | Alice | help" = some firstAlert ∧
      firstAlert.hop < max911Hops ∧ ¬ Seen firstAlert.alertID oneGuardian.seen ∧
      ¬ Appends oneGuardian
        (relay911Alert 0 "1700-cd" "0699999999" "GAFAM911 1700-ab 1 0612345678 | Alice | help"
          oneGuardian).2
        (relayMessages "0699999999"
          (build911RelayBody firstAlert.alertID (firstAlert.hop + 1) firstAlert.origPhone
            firstAlert.origName firstAlert.message) oneGuardian.guardians) := by
  refine ⟨by decide, by decide, by decide, ?_⟩
  rintro ⟨new, hnew, hperm⟩
  rw [outbox_relay911Alert] at hnew
  obtain rfl : new = [] := by simpa using hnew
  have hlen := hperm.length_eq
  revert hlen
  decide

theorem relay911Alert_appends_iff_no_guardian :
    Appends Node.fresh
        (relay911Alert 0 "1700-cd" "0699999999" "GAFAM911 1700-ab 1 0612345678 | Alice | help"
          Node.fresh).2
        (relayMessages "0699999999"
          (build911RelayBody firstAlert.alertID (firstAlert.hop + 1) firstAlert.origPhone
            firstAlert.origName firstAlert.message) Node.fresh.guardians) ↔
      relayGuardians "0699999999" Node.fresh.guardians = [] :=
  relay911Alert_appends_iff 0 "1700-cd" "0699999999" "GAFAM911 1700-ab 1 0612345678 | Alice | help"
    Node.fresh firstAlert (by decide) (by decide) (by decide)

end Gafam.Relay
