import Gafam.Orchestrator.Guard
import Gafam.Orchestrator.Proofs.BoardProofs

/-!
# Where the operations of a step come from

A step of the relay makes few operations on the boards, and most of them only one kind of step can
make. `ops_of` and `thread_ops_of` list them all.
-/

namespace Gafam.Orchestrator

open Gafam.Go Gafam.Moksa

/-- Where the operations of a thread come from. -/
inductive ThreadOpOf (perm : GoString → GoString → Permission) (t : Thread) :
    ThreadAct → StoreOp → Prop
  | worker {r : Run} {s : Levels} {k : Nat} {h : Host} {q : Quest} {pc : WorkerPc} {op : BoardOp}
    (hpc : t.pc = .levels r s) (hk : s.phase.workers[k]? = some (q, pc))
    (hop : op ∈ pc.ops r { h with perm := perm } q) :
    ThreadOpOf perm t (.level (.work k h)) (.update h.now r.missionID op)
  | dropped {r : Run} {s : Levels} {a : Act} {now : Nat} {x reason : GoString}
    (hpc : t.pc = .levels r s) :
    ThreadOpOf perm t (.level a) (.update now r.missionID (.cancel x reason))
  | added {act : ThreadAct} {now : Nat} {title karakaID tool : GoString} {p : Params}
    {deps : List GoString} :
    ThreadOpOf perm t act (.update now t.missionID (.add title karakaID tool p deps 30))
  | wired {act : ThreadAct} {now : Nat} {x : GoString} {deps : List GoString} :
    ThreadOpOf perm t act (.update now t.missionID (.wire x deps))
  | mission {act : ThreadAct} {now : Nat} {f : Mission → Mission}
    {hf : ∀ m, (f m).quests = m.quests} :
    ThreadOpOf perm t act (.update now t.missionID (.mission f hf))
  | started {now k : Nat} {stage : GoString × GoString × GoString} (hpc : t.pc = .researchStart k)
    (hstage : researchSteps[k]? = some stage) :
    ThreadOpOf perm t (.tick now) (.update now t.missionID (.research stage.1 .running none []))
  | worked {now k : Nat} {v : Option Json} {stage : GoString × GoString × GoString}
    (hpc : t.pc = .researchWork k) (hstage : researchSteps[k]? = some stage) :
    ThreadOpOf perm t (.stage now (.ok v)) (.update now t.missionID (.research stage.1 .done v []))
  | failed {now k : Nat} {e : GoString} {stage : GoString × GoString × GoString}
    (hpc : t.pc = .researchWork k) (hstage : researchSteps[k]? = some stage) :
    ThreadOpOf perm t (.stage now (.error e))
      (.update now t.missionID (.research stage.1 .failed none e))
  | gaveUp {now : Nat} {summary err : GoString} :
    ThreadOpOf perm t (.write now summary) (.update now t.missionID (.researchFail summary err))

theorem level_ops_of {perm : GoString → GoString → Permission} {t : Thread} {r : Run} {s : Levels}
    {a : Act} {now : Nat} {op : BoardOp} (hpc : t.pc = .levels r s)
    (hop : (now, op) ∈ (a.under perm).ops r s) :
    ThreadOpOf perm t (.level a) (.update now r.missionID op) := by
  cases a with
  | work k h =>
    have hop' : (now, op) ∈ Act.ops r s (.work k { h with perm := perm }) := hop
    unfold Act.ops at hop'
    dsimp only at hop'
    cases hp : s.phase with
    | level workers =>
      rw [hp] at hop'
      dsimp only at hop'
      cases hk : workers[k]? with
      | none => rw [hk] at hop'; exact nomatch hop'
      | some w =>
        obtain ⟨q, pc⟩ := w
        rw [hk] at hop'
        obtain ⟨op', hop', heq⟩ := List.mem_map.1 hop'
        cases heq
        exact .worker hpc (by rw [hp]; exact hk) hop'
    | _ => rw [hp] at hop'; exact nomatch hop'
  | visit id now' =>
    have hop' : (now, op) ∈ Act.ops r s (.visit id now') := hop
    unfold Act.ops at hop'
    dsimp only at hop'
    split at hop'
    · exact nomatch hop'
    · split_ifs at hop'
      · cases List.mem_singleton.1 hop'
        exact .dropped hpc
      · exact nomatch hop'
  | drop id now' =>
    have hop' : (now, op) ∈ Act.ops r s (.drop id now') := hop
    cases List.mem_singleton.1 hop'
    exact .dropped hpc
  | head cancelled => exact nomatch hop
  | endScan => exact nomatch hop
  | endDrop => exact nomatch hop
  | join => exact nomatch hop

theorem thread_ops_of {perm : GoString → GoString → Permission} {t : Thread} {act : ThreadAct}
    {op : StoreOp} (hop : op ∈ t.ops perm act) : ThreadOpOf perm t act op := by
  cases hpc : t.pc with
  | levels r s =>
    cases act with
    | level a =>
      simp only [Thread.ops, hpc] at hop
      obtain ⟨p, hp, rfl⟩ := List.mem_map.1 hop
      exact level_ops_of hpc hp
    | _ => simp [Thread.ops, hpc] at hop
  | researchWork k =>
    cases act with
    | stage now res =>
      simp only [Thread.ops, hpc] at hop
      cases hs : researchSteps[k]? with
      | none => rw [hs] at hop; cases hop
      | some stage =>
        rw [hs] at hop
        cases res with
        | ok v =>
          obtain rfl := List.mem_singleton.1 hop
          exact .worked hpc hs
        | error e =>
          obtain rfl := List.mem_singleton.1 hop
          exact .failed hpc hs
    | _ => simp [Thread.ops, hpc] at hop
  | researchStart k =>
    cases act with
    | tick now =>
      simp only [Thread.ops, hpc] at hop
      cases hs : researchSteps[k]? with
      | none => rw [hs] at hop; cases hop
      | some stage =>
        rw [hs] at hop
        obtain rfl := List.mem_singleton.1 hop
        exact .started hpc hs
    | _ => simp [Thread.ops, hpc] at hop
  | add todo plan ids =>
    cases todo with
    | nil => cases act <;> simp [Thread.ops, hpc] at hop
    | cons pq todo =>
      cases act with
      | tick now =>
        simp only [Thread.ops, hpc] at hop
        split_ifs at hop
        · cases hop
        · obtain rfl := List.mem_singleton.1 hop
          exact .added
      | _ => simp [Thread.ops, hpc] at hop
  | wire todo =>
    cases todo with
    | nil => cases act <;> simp [Thread.ops, hpc] at hop
    | cons p todo =>
      cases act with
      | tick now =>
        simp only [Thread.ops, hpc] at hop
        obtain rfl := List.mem_singleton.1 hop
        exact .wired
      | _ => simp [Thread.ops, hpc] at hop
  | judge =>
    cases act with
    | verdict now j =>
      cases j with
      | none => simp [Thread.ops, hpc] at hop
      | some j =>
        simp only [Thread.ops, hpc] at hop
        obtain rfl := List.mem_singleton.1 hop
        exact .mission
    | _ => simp [Thread.ops, hpc] at hop
  | researchAdd k =>
    cases act with
    | tick now =>
      simp only [Thread.ops, hpc] at hop
      split at hop
      · cases hop
      · obtain rfl := List.mem_singleton.1 hop
        exact .added
    | _ => simp [Thread.ops, hpc] at hop
  | researchFail err =>
    cases act with
    | write now summary =>
      simp only [Thread.ops, hpc] at hop
      obtain rfl := List.mem_singleton.1 hop
      exact .gaveUp
    | _ => simp [Thread.ops, hpc] at hop
  | _ =>
    cases act <;>
      first
        | (simp [Thread.ops, hpc] at hop; done)
        | (simp only [Thread.ops, hpc] at hop
           obtain rfl := List.mem_singleton.1 hop
           exact .mission)

/-- The operations of a thread are updates of its mission. -/
theorem thread_ops_updates {perm : GoString → GoString → Permission} {t : Thread} {act : ThreadAct}
    {op : StoreOp} (hop : op ∈ t.ops perm act) : ∃ now id bop, op = .update now id bop := by
  cases thread_ops_of hop <;> exact ⟨_, _, _, rfl⟩

/-- No goroutine fills a board. -/
theorem worker_ops_fill {r : Run} {h : Host} {q : Quest} {pc : WorkerPc} {quests : List Quest} :
    BoardOp.fill quests ∉ pc.ops r h q := by
  intro hop
  cases pc with
  | gate =>
    unfold WorkerPc.ops at hop
    dsimp only at hop
    split at hop
    · exact nomatch List.mem_singleton.1 hop
    · split_ifs at hop
      · exact nomatch List.mem_singleton.1 hop
      · exact nomatch hop
    · exact nomatch hop
  | repair attempt lastErr =>
    unfold WorkerPc.ops at hop
    dsimp only at hop
    cases hr : h.repair with
    | none => rw [hr] at hop; exact nomatch hop
    | some p => rw [hr] at hop; exact nomatch List.mem_singleton.1 hop
  | queued => exact nomatch hop
  | finished => exact nomatch hop
  | _ => exact nomatch List.mem_singleton.1 hop

/-- The operations that give a mission to a sub-agent. -/
def Delegated : StoreOp → Prop
  | .create _ _ posed => posed = false
  | .update _ _ (.mission _ _) => True
  | _ => False

theorem delegateOps_delegated {now : Nat} {sys : System} {q : Quest} :
    ∀ op ∈ delegateOps now sys q, Delegated op := by
  unfold delegateOps
  extract_lets instruction given karakaID
  split_ifs
  · exact fun _ hop => absurd hop List.not_mem_nil
  · intro op hop
    rcases List.mem_cons.1 hop with rfl | hop
    · rfl
    · rw [List.mem_singleton.1 hop]
      trivial

/-- Where the operations of a step come from. What is filled in, or deleted although nobody has asked for
it, is the mission that the step creates. -/
inductive OpOf (sys : System) : SysAct → StoreOp → Prop
  | thread {now k : Nat} {act : ThreadAct} {t : Thread} {op : StoreOp} (ht : sys.threads[k]? = some t)
    (hop : op ∈ t.ops sys.perm act) : OpOf sys (.thread now k act) op
  | delegated {act : SysAct} {op : StoreOp} (h : Delegated op) : OpOf sys act op
  | created {now : Nat} {instruction : GoString} {quests : List Quest} :
    OpOf sys (.create now instruction quests) (.create now instruction true)
  | filled {now : Nat} {instruction : GoString} {quests : List Quest} {rest : List StoreOp}
    (hops : ops sys (.create now instruction quests) = .create now instruction true :: rest) :
    OpOf sys (.create now instruction quests)
      (.update now (newMissionID now sys.store).1 (.fill (quests.mapIdx defaultQuest)))
  | refused {now : Nat} {instruction mode : GoString} {cron : Bool} {rest : List StoreOp}
    {op : StoreOp} (hops : ops sys (.trigger now instruction mode cron) =
      .create now instruction false :: rest)
    (hop : op = .delete (newMissionID now sys.store).1 ∨ op = .erase (newMissionID now sys.store).1) :
    OpOf sys (.trigger now instruction mode cron) op
  | deleted {id : GoString} {op : StoreOp} (hop : op = .delete id ∨ op = .erase id) :
    OpOf sys (.delete id) op
  | reloaded : OpOf sys .restart .reload
  | persisted {id : GoString} : OpOf sys (.persist id) (.persist id)
  | approved {now : Nat} {id x reason : GoString} {ok : Bool} :
    OpOf sys (.approve now id x ok reason) (.update now id (.approve x ok reason))
  | claimed {now : Nat} {id x given karakaID : GoString} :
    OpOf sys (.claim now id x given) (.update now id (.claim x karakaID))
  | called {now : Nat} {id x : GoString} :
    OpOf sys (.callStart now id x) (.update now id (.runStart sys.perm x))
  | returned {now : Nat} {id x : GoString} {res : Except GoString Json} :
    OpOf sys (.callFinish now id x res) (.update now id (.runFinish x res))
  | rewarded {now : Nat} {id x verdict reason : GoString} {score : Rat} {autoAdd : Bool} {v : Verdict}
    (hv : parseVerdict verdict = some v) :
    OpOf sys (.reward now id x verdict score reason autoAdd)
      (.update now id (.reward x v score reason autoAdd))
  | added {now : Nat} {id title organHint tool : GoString} {p : Params} {dependsOn : List GoString}
    {eta : Int} :
    OpOf sys (.addQuest now id title organHint tool p dependsOn eta)
      (.update now id (.add title organHint tool p dependsOn eta))
  | closed {now : Nat} {id summary : GoString} {f : Mission → Mission}
    {hf : ∀ m, (f m).quests = m.quests} :
    OpOf sys (.synthesize now id summary) (.update now id (.mission f hf))

theorem ops_of {sys : System} {act : SysAct} {op : StoreOp} (hop : op ∈ ops sys act) :
    OpOf sys act op := by
  cases act with
  | thread now k act =>
    unfold ops threadOps at hop
    dsimp only at hop
    cases ht : sys.threads[k]? with
    | none => rw [ht] at hop; cases hop
    | some t =>
      rw [ht] at hop
      dsimp only at hop
      rcases List.mem_append.1 hop with hop | hop
      · exact .thread ht hop
      · split at hop
        · obtain ⟨q, -, hq⟩ := List.mem_flatMap.1 hop
          exact .delegated (delegateOps_delegated op hq)
        · cases hop
  | run now req =>
    unfold ops at hop
    dsimp only at hop
    split_ifs at hop
    · cases hop
    · rw [List.mem_singleton.1 hop]
      exact .delegated rfl
    · cases hop
  | trigger now instruction mode cron =>
    have hops : ∃ rest, ops sys (.trigger now instruction mode cron) =
        .create now instruction false :: rest := ⟨_, rfl⟩
    obtain ⟨rest, hops⟩ := hops
    unfold ops at hop
    dsimp only at hop
    rcases List.mem_append.1 hop with hop | hop
    · rcases List.mem_append.1 hop with hop | hop
      · rw [List.mem_singleton.1 hop]
        exact .delegated rfl
      · split_ifs at hop
        · rw [List.mem_singleton.1 hop]
          exact .delegated trivial
        · cases hop
    · split_ifs at hop
      · refine .refused hops ?_
        rcases List.mem_cons.1 hop with hop | hop
        · exact .inl hop
        · exact .inr (List.mem_singleton.1 hop)
      · cases hop
  | create now instruction quests =>
    unfold ops at hop
    dsimp only at hop
    split_ifs at hop with hinstr hquests
    · cases hop
    · rw [List.append_nil] at hop
      rw [List.mem_singleton.1 hop]
      exact .created
    · rcases List.mem_append.1 hop with hop | hop
      · rw [List.mem_singleton.1 hop]
        exact .created
      · rw [List.mem_singleton.1 hop]
        have hops : ops sys (.create now instruction quests) =
            [.create now instruction true, .update now (newMissionID now sys.store).1
              (.fill (quests.mapIdx defaultQuest))] := by
          unfold ops
          dsimp only
          rw [if_neg hinstr, if_neg hquests]
          rfl
        exact .filled hops
  | callStart now id x =>
    unfold ops at hop
    dsimp only at hop
    rcases List.mem_append.1 hop with hop | hop
    · rw [List.mem_singleton.1 hop]
      exact .called
    · split at hop
      · cases hop
      · obtain ⟨q, -, hq⟩ := List.mem_flatMap.1 hop
        exact .delegated (delegateOps_delegated op hq)
  | reward now id x verdict score reason autoAdd =>
    unfold ops at hop
    dsimp only at hop
    cases hv : parseVerdict verdict with
    | none => rw [hv] at hop; cases hop
    | some v =>
      rw [hv] at hop
      rw [List.mem_singleton.1 hop]
      exact .rewarded hv
  | delete id =>
    unfold ops at hop
    dsimp only at hop
    split_ifs at hop
    · refine .deleted ?_
      rcases List.mem_cons.1 hop with hop | hop
      · exact .inl hop
      · exact .inr (List.mem_singleton.1 hop)
    · cases hop
  | resume id => cases hop
  | setPermissions perm => cases hop
  | restart => rw [List.mem_singleton.1 hop]; exact .reloaded
  | persist id => rw [List.mem_singleton.1 hop]; exact .persisted
  | approve now id x ok reason => rw [List.mem_singleton.1 hop]; exact .approved
  | claim now id x karakaID => rw [List.mem_singleton.1 hop]; exact .claimed
  | callFinish now id x res => rw [List.mem_singleton.1 hop]; exact .returned
  | addQuest now id title organHint tool p dependsOn eta =>
    rw [List.mem_singleton.1 hop]
    exact .added
  | synthesize now id summary => rw [List.mem_singleton.1 hop]; exact .closed

/-- Only a restart loads the missions. -/
theorem reload_notMem_ops {sys : System} {act : SysAct} (h : act ≠ .restart) :
    StoreOp.reload ∉ ops sys act := by
  intro hop
  cases ops_of hop with
  | thread ht hop =>
    obtain ⟨_, _, _, heq⟩ := thread_ops_updates hop
    exact nomatch heq
  | delegated h => exact h
  | refused hops hop => rcases hop with hop | hop <;> exact nomatch hop
  | deleted hop => rcases hop with hop | hop <;> exact nomatch hop
  | reloaded => exact h rfl

end Gafam.Orchestrator
