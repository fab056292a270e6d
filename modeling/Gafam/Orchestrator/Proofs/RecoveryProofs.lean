import Gafam.Orchestrator.Proofs.GuardProofs
import Gafam.Orchestrator.Proofs.BoardProofs
import Gafam.Orchestrator.System

/-!
# When a restart recovers every quest

A restart recovers all the quests in flight exactly when it finds them in missions that it takes for
interrupted. A mission that has been resumed keeps the status `interrupted`, so a second crash does not
give its quests back.
-/

namespace Gafam.Orchestrator

open Gafam.Go Gafam.Lib Gafam.Moksa

theorem recoverMission_quests {m : Mission} (h : Recoverable m.status) :
    (recoverMission m).quests = m.quests.map fun q =>
      if q.status = .running ∨ q.status = .claimed then { q with status := .pending, error := [] }
      else q := by
  unfold Recoverable at h
  unfold recoverMission
  rw [if_pos h]

theorem recoverMission_other {m : Mission} (h : ¬ Recoverable m.status) : recoverMission m = m := by
  unfold Recoverable at h
  unfold recoverMission
  rw [if_neg h]

/-- No quest of a mission is in flight after it has been recovered if and only if it was a mission
that is taken for interrupted, or had no such quest. -/
theorem recoverMission_held_iff (m : Mission) :
    (∀ q ∈ (recoverMission m).quests, ¬ Held q) ↔
      ((∃ q ∈ m.quests, Held q) → Recoverable m.status) := by
  by_cases hm : Recoverable m.status
  · refine ⟨fun _ _ => hm, fun _ q hq => ?_⟩
    rw [recoverMission_quests hm] at hq
    obtain ⟨p, -, rfl⟩ := List.mem_map.1 hq
    by_cases hp : p.status = .running ∨ p.status = .claimed
    · rw [if_pos hp]
      intro h
      rcases h with h | h
      · exact nomatch h
      · exact nomatch h
    · rw [if_neg hp]
      exact hp
  · rw [recoverMission_other hm]
    constructor
    · rintro h ⟨q, hq, hfl⟩
      exact absurd hfl (h q hq)
    · intro h q hq hfl
      exact hm (h ⟨q, hq, hfl⟩)

theorem recoverMission_pending {m : Mission} (hm : Recoverable m.status) {k : Nat} {q : Quest}
    (hq : m.quests[k]? = some q) (hfl : Held q) :
    (recoverMission m).quests[k]? = some { q with status := .pending, error := [] } := by
  rw [recoverMission_quests hm, List.getElem?_map, hq]
  have h : q.status = .running ∨ q.status = .claimed := hfl
  rw [Option.map_some, if_pos h]

/-- One restart. -/
theorem restart_recovered_iff (sys : System) :
    Recovered sys.saved (restart sys).store ↔ FindsRecoverable sys .restart := by
  have hget : ∀ id, getMission id (restart sys).store = (sys.saved.lookup id).map recoverMission :=
    fun id => lookup_loadMissions sys.saved id
  constructor
  · rintro ⟨hnone, -⟩ - id m hm
    refine (recoverMission_held_iff m).1 (hnone id (recoverMission m) ?_)
    rw [hget, hm]
    rfl
  · intro h
    constructor
    · intro id m' hm'
      rw [hget] at hm'
      obtain ⟨m, hm, rfl⟩ := Option.map_eq_some_iff.1 hm'
      exact (recoverMission_held_iff m).2 (h rfl id m hm)
    · intro id m hm
      refine ⟨recoverMission m, by rw [hget, hm]; rfl, fun k q hq hfl => ?_⟩
      exact recoverMission_pending (h rfl id m hm ⟨q, List.mem_of_getElem? hq, hfl⟩) hq hfl

theorem recovers_iff (sys : System) (act : SysAct) : Recovers sys act ↔ FindsRecoverable sys act := by
  by_cases hact : act = .restart
  · subst hact
    constructor
    · intro h
      exact (restart_recovered_iff sys).1 (h rfl _ rfl)
    · rintro h - sys' hsys'
      cases hsys'
      exact (restart_recovered_iff sys).2 h
  · exact ⟨fun _ h => absurd h hact, fun _ h => absurd h hact⟩

end Gafam.Orchestrator
