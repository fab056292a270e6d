import Gafam.Moksa.Executor

/-!
# What an operation on one quest can change

The operations of the executor look for the first quest with an id and change that quest only. What
they do to it depends on nothing but the quest itself and the status of the mission: `LocalTo`. So the
same operation has the same effect on any two boards that agree on these two.
-/

namespace Gafam.Moksa

open Gafam.Go

/-! ## The first quest with an id -/

/-- The update leaves alone what the scheduler reads of a quest. -/
structure SameKey (q q' : Quest) : Prop where
  id : q'.id = q.id
  tool : q'.tool = q.tool
  dependsOn : q'.dependsOn = q.dependsOn

theorem SameKey.refl (q : Quest) : SameKey q q := ⟨rfl, rfl, rfl⟩

theorem SameKey.trans {q₁ q₂ q₃ : Quest} (h₁ : SameKey q₁ q₂) (h₂ : SameKey q₂ q₃) :
    SameKey q₁ q₃ :=
  ⟨h₂.id.trans h₁.id, h₂.tool.trans h₁.tool, h₂.dependsOn.trans h₁.dependsOn⟩

/-- What the scheduler reads of a quest to decide whether it is ready. -/
def Quest.key (q : Quest) : GoString × List GoString := (q.id, q.dependsOn)

theorem SameKey.key_eq {q q' : Quest} (h : SameKey q q') : q'.key = q.key := by
  unfold Quest.key
  rw [h.id, h.dependsOn]

theorem find_updateFirst_self {x : GoString} {f : Quest → Quest} (hf : ∀ q, q.id = x → (f q).id = x)
    (qs : List Quest) :
    (updateFirst x f qs).find? (fun q => q.id = x) = (qs.find? fun q => q.id = x).map f := by
  induction qs with
  | nil => rfl
  | cons q qs ih =>
    unfold updateFirst
    split_ifs with h
    · simp [h, hf q h]
    · simp [h, ih]

theorem find_updateFirst_ne {x y : GoString} (hne : y ≠ x) {f : Quest → Quest}
    (hf : ∀ q, q.id = x → (f q).id = x) (qs : List Quest) :
    (updateFirst x f qs).find? (fun q => q.id = y) = qs.find? fun q => q.id = y := by
  induction qs with
  | nil => rfl
  | cons q qs ih =>
    unfold updateFirst
    split_ifs with h
    · have h1 : (f q).id ≠ y := by rw [hf q h]; exact hne.symm
      have h2 : q.id ≠ y := by rw [h]; exact hne.symm
      simp [h1, h2]
    · by_cases hy : q.id = y
      · simp [hy]
      · simp [hy, ih]

theorem map_updateFirst {α : Type} {x : GoString} {qs : List Quest} {q q' : Quest} {g : Quest → α}
    (hq : qs.find? (fun q => q.id = x) = some q) (hg : g q' = g q) :
    (updateFirst x (fun _ => q') qs).map g = qs.map g := by
  induction qs with
  | nil => rfl
  | cons p qs ih =>
    by_cases hp : p.id = x
    · obtain rfl : p = q := by simpa [hp] using hq
      simp [updateFirst, hp, hg]
    · have hq' : qs.find? (fun q => q.id = x) = some q := by simpa [hp] using hq
      simp [updateFirst, hp, ih hq']

/-- Only the quest that is found is looked at. -/
theorem updateFirst_congr {x : GoString} {f g : Quest → Quest} {qs : List Quest} {q : Quest}
    (hq : qs.find? (fun q => q.id = x) = some q) (hfg : f q = g q) :
    updateFirst x f qs = updateFirst x g qs := by
  induction qs with
  | nil => rfl
  | cons p qs ih =>
    by_cases hp : p.id = x
    · obtain rfl : p = q := by simpa [hp] using hq
      simp [updateFirst, hp, hfg]
    · have hq' : qs.find? (fun q => q.id = x) = some q := by simpa [hp] using hq
      simp [updateFirst, hp, ih hq']

theorem updateFirst_self {x : GoString} {qs : List Quest} {q : Quest}
    (hq : qs.find? (fun q => q.id = x) = some q) : updateFirst x (fun _ => q) qs = qs := by
  induction qs with
  | nil => rfl
  | cons p qs ih =>
    by_cases hp : p.id = x
    · obtain rfl : p = q := by simpa [hp] using hq
      simp [updateFirst, hp]
    · have hq' : qs.find? (fun q => q.id = x) = some q := by simpa [hp] using hq
      simp [updateFirst, hp, ih hq']

theorem length_updateFirst (x : GoString) (f : Quest → Quest) (qs : List Quest) :
    (updateFirst x f qs).length = qs.length := by
  induction qs with
  | nil => rfl
  | cons p qs ih =>
    unfold updateFirst
    split_ifs
    · rfl
    · rw [List.length_cons, ih, List.length_cons]

theorem updateFirst_none {x : GoString} {qs : List Quest}
    (hq : qs.find? (fun q => q.id = x) = none) (f : Quest → Quest) : updateFirst x f qs = qs := by
  induction qs with
  | nil => rfl
  | cons p qs ih =>
    have hp : p.id ≠ x := by
      intro h
      simp [h] at hq
    have hq' : qs.find? (fun q => q.id = x) = none := by simpa [hp] using hq
    simp [updateFirst, hp, ih hq']

theorem updateFirst_updateFirst {x : GoString} {f g : Quest → Quest}
    (hf : ∀ q, q.id = x → (f q).id = x) (qs : List Quest) :
    updateFirst x g (updateFirst x f qs) = updateFirst x (fun q => g (f q)) qs := by
  induction qs with
  | nil => rfl
  | cons q qs ih =>
    by_cases h : q.id = x
    · simp [updateFirst, h, hf q h]
    · simp [updateFirst, h, ih]

/-- The quests that an update does not reach. -/
theorem getElem?_updateFirst (x : GoString) (f : Quest → Quest) (qs : List Quest) (i : Nat) :
    (updateFirst x f qs)[i]? =
      if i = qs.findIdx (fun q => q.id = x) then qs[i]?.map f else qs[i]? := by
  induction qs generalizing i with
  | nil => simp [updateFirst]
  | cons q qs ih =>
    by_cases h : q.id = x
    · cases i <;> simp [updateFirst, h, List.findIdx_cons]
    · cases i <;> simp [updateFirst, h, List.findIdx_cons, ih]

theorem findQuest_id {m : Mission} {x : GoString} {q : Quest} (h : m.findQuest x = some q) :
    q.id = x := by
  have := List.find?_some h
  simpa using this

/-! ## Operations on one quest -/

/-- What an operation makes of a quest, given the status of the mission, and the error it returns. -/
abbrev QuestFn := MissionStatus → Quest → Quest × Option GoString

/-- `fn` does to the first quest with the id `x` what `φ` says, and nothing else. -/
structure LocalTo (x : GoString) (fn : MissionFn) (φ : QuestFn) : Prop where
  eq : ∀ m q, m.findQuest x = some q →
    fn m = (m.updateQuest x fun _ => (φ m.status q).1, (φ m.status q).2)
  key : ∀ μ q, SameKey q (φ μ q).1

theorem updateQuest_found {m : Mission} {x : GoString} {q : Quest} (hq : m.findQuest x = some q)
    (f : Quest → Quest) : m.updateQuest x f = m.updateQuest x fun _ => f q := by
  unfold Mission.updateQuest
  rw [updateFirst_congr (g := fun _ => f q) hq rfl]

theorem updateQuest_self {m : Mission} {x : GoString} {q : Quest} (hq : m.findQuest x = some q) :
    (m.updateQuest x fun _ => q) = m := by
  unfold Mission.updateQuest
  rw [updateFirst_self hq]

theorem findQuest_updateQuest_self {m : Mission} {x : GoString} {q q' : Quest}
    (hq : m.findQuest x = some q) (hid : q'.id = x) :
    (m.updateQuest x fun _ => q').findQuest x = some q' := by
  have h := find_updateFirst_self (x := x) (f := fun _ => q') (fun _ _ => hid) m.quests
  have hq' : m.quests.find? (fun q => q.id = x) = some q := hq
  rw [hq'] at h
  exact h

theorem findQuest_updateQuest_ne {m : Mission} {x y : GoString} (hne : y ≠ x) {q' : Quest}
    (hid : q'.id = x) : (m.updateQuest x fun _ => q').findQuest y = m.findQuest y :=
  find_updateFirst_ne hne (fun _ _ => hid) m.quests

theorem updateQuest_updateQuest {m : Mission} {x : GoString} {q' : Quest} (hid : q'.id = x)
    (f : Quest → Quest) :
    (m.updateQuest x fun _ => q').updateQuest x f = m.updateQuest x fun _ => f q' := by
  simp only [Mission.updateQuest]
  rw [updateFirst_updateFirst fun _ _ => hid]

/-- `ClaimQuest` on the quest. -/
def claimOne (karakaID : GoString) : QuestFn := fun μ q =>
  if μ = .cancelled ∨ μ = .done then (q, some ("mission is " ++ μ.text))
  else if q.status ≠ .pending ∧ q.status ≠ .claimed then
    (q, some ("quest status is " ++ q.status.text))
  else if karakaID = [] then (q, some "missing karaka_id")
  else ({ q with claim := karakaID, status := .claimed }, none)

theorem claimQuest_local (x karakaID : GoString) :
    LocalTo x (claimQuest x karakaID) (claimOne karakaID) := by
  constructor
  · intro m q hq
    unfold claimQuest claimOne
    rw [hq]
    dsimp only
    split_ifs
    · rw [updateQuest_self hq]
    · rw [updateQuest_self hq]
    · rw [updateQuest_self hq]
    · rw [updateQuest_found hq]
  · intro μ q
    unfold claimOne
    split_ifs <;> exact ⟨rfl, rfl, rfl⟩

/-- The first half of `RunQuest` on the quest. -/
def runStartOne (perm : GoString → GoString → Permission) : QuestFn := fun _ q =>
  if q.status ≠ .claimed ∧ q.status ≠ .failed then
    (q, some ("quest must be claimed before run (status=" ++ q.status.text ++ ")"))
  else if q.tool = [] then (q, some "quest has no tool — mark reward manually (judge quest)")
  else if q.claim = [] then (q, some "quest has no claim")
  else if perm q.claim q.tool = .deny then
    (q, some ("permission deny: " ++ q.claim ++ " cannot use " ++ q.tool))
  else ({ q with status := .running }, none)

theorem runQuestStart_local (perm : GoString → GoString → Permission) (x : GoString) :
    LocalTo x (runQuestStart perm x) (runStartOne perm) := by
  constructor
  · intro m q hq
    unfold runQuestStart runStartOne
    rw [hq]
    dsimp only
    split_ifs
    · rw [updateQuest_self hq]
    · rw [updateQuest_self hq]
    · rw [updateQuest_self hq]
    · rw [updateQuest_self hq]
    · rw [updateQuest_found hq]
  · intro μ q
    unfold runStartOne
    split_ifs <;> exact ⟨rfl, rfl, rfl⟩

/-- The second half of `RunQuest` on the quest. -/
def runFinishOne (res : Except GoString Json) : QuestFn := fun _ q =>
  match res with
  | .error e =>
    ({ q with status := .failed, error := e, result := none, reward := some ⟨.failed, 0, e⟩ }, none)
  | .ok v => ({ q with status := .done, error := [], result := some v }, none)

theorem runQuestFinish_local (x : GoString) (res : Except GoString Json) :
    LocalTo x (runQuestFinish x res) (runFinishOne res) := by
  constructor
  · intro m q hq
    unfold runQuestFinish runFinishOne
    rw [hq]
    cases res <;> dsimp only <;> rw [updateQuest_found hq]
  · intro μ q
    unfold runFinishOne
    cases res <;> exact ⟨rfl, rfl, rfl⟩

/-- `ApplyReward` on the quest, for the two verdicts that add no quest. -/
def rewardOne (passed : Bool) (score : Rat) (reason : GoString) : QuestFn := fun _ q =>
  if passed then
    (if q.status = .running ∨ q.status = .claimed ∨ q.status = .pending then
      { q with reward := some ⟨.done, score, reason⟩, status := .done }
    else { q with reward := some ⟨.done, score, reason⟩ }, none)
  else ({ q with reward := some ⟨.failed, score, reason⟩, status := .failed }, none)

theorem applyReward_done_local (x : GoString) (score : Rat) (reason : GoString) (autoAdd : Bool) :
    LocalTo x (applyReward x .done score reason autoAdd) (rewardOne true score reason) := by
  constructor
  · intro m q hq
    have hx : q.id = x := findQuest_id hq
    have hid : ({ q with reward := some ⟨.done, score, reason⟩ } : Quest).id = x := hx
    unfold applyReward rewardOne
    rw [hq]
    dsimp only
    rw [updateQuest_found hq, updateQuest_updateQuest hid]
    simp
  · intro μ q
    unfold rewardOne
    rw [if_pos rfl]
    split_ifs <;> exact ⟨rfl, rfl, rfl⟩

theorem applyReward_failed_local (x : GoString) (score : Rat) (reason : GoString) (autoAdd : Bool) :
    LocalTo x (applyReward x .failed score reason autoAdd) (rewardOne false score reason) := by
  constructor
  · intro m q hq
    have hx : q.id = x := findQuest_id hq
    have hid : ({ q with reward := some ⟨.failed, score, reason⟩ } : Quest).id = x := hx
    unfold applyReward rewardOne
    rw [hq]
    dsimp only
    rw [updateQuest_found hq, updateQuest_updateQuest hid]
    simp
  · intro μ q
    unfold rewardOne
    rw [if_neg (by simp)]
    exact ⟨rfl, rfl, rfl⟩

/-! ## Operations on the store -/

/-- The mission that an operation on one quest leaves in the store. -/
def Mission.after (m : Mission) (now : Nat) (x : GoString) (r : Quest × Option GoString) : Mission :=
  match r.2 with
  | some _ => m.updateQuest x fun _ => r.1
  | none => { m.updateQuest x fun _ => r.1 with updatedAt := now }

@[simp] theorem after_quests (m : Mission) (now : Nat) (x : GoString)
    (r : Quest × Option GoString) :
    (m.after now x r).quests = updateFirst x (fun _ => r.1) m.quests := by
  unfold Mission.after
  cases r.2 <;> rfl

@[simp] theorem after_status (m : Mission) (now : Nat) (x : GoString)
    (r : Quest × Option GoString) : (m.after now x r).status = m.status := by
  unfold Mission.after
  cases r.2 <;> rfl

theorem after_findQuest_self {m : Mission} (now : Nat) {x : GoString} {q : Quest}
    {r : Quest × Option GoString} (hq : m.findQuest x = some q) (hid : r.1.id = x) :
    (m.after now x r).findQuest x = some r.1 := by
  have h := findQuest_updateQuest_self hq hid
  unfold Mission.after
  cases r.2 <;> exact h

/-- `UpdateMission` with an operation on one quest. -/
theorem updateMission_local (now : Nat) {id x : GoString} {fn : MissionFn} {φ : QuestFn} {st : Store}
    {m : Mission} {q : Quest} (hfn : LocalTo x fn φ) (hm : getMission id st = some m)
    (hq : m.findQuest x = some q) :
    updateMission now id fn st =
      ((match (φ m.status q).2 with
        | some e => .error e
        | none => .ok (m.after now x (φ m.status q))),
        { st with missions := st.missions.insert id (m.after now x (φ m.status q)) }) := by
  have hm' : st.missions.lookup id = some m := hm
  unfold updateMission
  rw [hm']
  dsimp only
  rw [hfn.eq m q hq]
  unfold Mission.after
  cases (φ m.status q).2 <;> rfl

theorem updateMission_seq (now : Nat) (id : GoString) (fn : MissionFn) (st : Store) :
    (updateMission now id fn st).2.seq = st.seq := by
  unfold updateMission
  cases st.missions.lookup id with
  | none => rfl
  | some m =>
    dsimp only
    rcases fn m with ⟨m', _ | e⟩ <;> rfl

/-! ## The board of a new mission -/

theorem pose_ite {P : List Quest → Prop} {c : Prop} [Decidable c] {p p' : Posing} (h : P p.quests)
    (h' : P p'.quests) : P (if c then p' else p).quests := by
  by_cases hc : c
  · rw [if_pos hc]
    exact h'
  · rw [if_neg hc]
    exact h

/-- `PoseBoard` poses one quest after the other. -/
theorem poseBoard_induct {P : List Quest → Prop} (hnil : P [])
    (hpose : ∀ (p : Posing), P p.quests → ∀ title organHint tool params dependsOn eta,
      P (p.pose title organHint tool params dependsOn eta).quests)
    (instruction : GoString) : P (poseBoard instruction) := by
  unfold poseBoard
  extract_lets lower hasURL hasShell hasFile hasLogs files p qUnderstand p₁ p₂
    qStatus p₃ cmd p₄ p₅ qList p₆
  have h : P p.quests := hnil
  have h₁ : P p₁.quests := hpose p h ..
  have h₂ : P p₂.quests := pose_ite h₁ (hpose p₁ h₁ ..)
  have h₃ : P p₃.quests := pose_ite h₂ (hpose _ (hpose p₂ h₂ ..) ..)
  have h₄ : P p₄.quests := pose_ite h₃ (hpose p₃ h₃ ..)
  have h₅ : P p₅.quests := pose_ite h₄ (hpose p₄ h₄ ..)
  have h₆ : P p₆.quests := pose_ite h₅ (hpose _ (hpose p₅ h₅ ..) ..)
  exact hpose p₆ h₆ ..

end Gafam.Moksa
