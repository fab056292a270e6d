import Mathlib.Algebra.GroupWithZero.Nat
import Mathlib.Data.List.Basic
import Mathlib.Tactic.Common

/-!
# Runs of a step function

A system is given by a partial step function `step : σ → α → Option σ`: `step s a` is the state after
the action `a`, or `none` when `a` is not enabled in `s`. The nondeterminism of the system is in the
choice of the actions. The rules below lift a fact about one step to all runs.
-/

namespace Gafam.Lib

variable {σ α : Type} (step : σ → α → Option σ)

/-- The state after a list of actions, if every one of them is enabled in its turn. -/
def runSteps : σ → List α → Option σ
  | s, [] => some s
  | s, a :: as => (step s a).bind fun s' => runSteps s' as

/-- Every step of the run from `s` along the actions starts in a state that meets `C`. -/
def StepsMeet (C : σ → α → Prop) : σ → List α → Prop
  | _, [] => True
  | s, a :: as => C s a ∧ ∀ s', step s a = some s' → StepsMeet C s' as

/-- The states a system can reach from `s`. -/
def Reaches (s s' : σ) : Prop := ∃ as, runSteps step s as = some s'

variable {step}

@[simp] theorem runSteps_nil (s : σ) : runSteps step s [] = some s := rfl

theorem runSteps_cons_eq_some {s s' : σ} {a : α} {as : List α} :
    runSteps step s (a :: as) = some s' ↔
      ∃ t, step s a = some t ∧ runSteps step t as = some s' := by
  simp [runSteps, Option.bind_eq_some_iff]

theorem runSteps_append_eq_some {s s' : σ} {as bs : List α} :
    runSteps step s (as ++ bs) = some s' ↔
      ∃ t, runSteps step s as = some t ∧ runSteps step t bs = some s' := by
  induction as generalizing s with
  | nil => simp
  | cons a as ih =>
    rw [List.cons_append, runSteps_cons_eq_some]
    simp only [ih, runSteps_cons_eq_some]
    constructor
    · rintro ⟨t, ht, u, hu, hs⟩
      exact ⟨u, ⟨t, ht, hu⟩, hs⟩
    · rintro ⟨u, ⟨t, ht, hu⟩, hs⟩
      exact ⟨t, ht, u, hu, hs⟩

/-- The first step of a run, the others by themselves. -/
theorem stepsMeet_cons {C : σ → α → Prop} {s s' : σ} {a : α} {as : List α} (hC : C s a)
    (hs : step s a = some s') (h : StepsMeet step C s' as) : StepsMeet step C s (a :: as) := by
  refine ⟨hC, fun t ht => ?_⟩
  rw [hs] at ht
  cases ht
  exact h

/-- Two runs one after the other. -/
theorem stepsMeet_append {C : σ → α → Prop} {s t : σ} {as bs : List α} (hrun : runSteps step s as = some t)
    (has : StepsMeet step C s as) (hbs : StepsMeet step C t bs) : StepsMeet step C s (as ++ bs) := by
  induction as generalizing s with
  | nil =>
    cases hrun
    exact hbs
  | cons a as ih =>
    obtain ⟨u, hu, hrun⟩ := runSteps_cons_eq_some.1 hrun
    exact stepsMeet_cons has.1 hu (ih hrun (has.2 u hu))

/-- The step that comes after a part of the run. -/
theorem StepsMeet.next {C : σ → α → Prop} {s t : σ} {as bs : List α} {a : α} (hrun : runSteps step s as = some t)
    (h : StepsMeet step C s (as ++ a :: bs)) : C t a := by
  induction as generalizing s with
  | nil =>
    cases hrun
    exact h.1
  | cons b as ih =>
    obtain ⟨u, hu, hrun⟩ := runSteps_cons_eq_some.1 hrun
    exact ih hrun (h.2 u hu)

theorem StepsMeet.mono {C D : σ → α → Prop} (hCD : ∀ s a, C s a → D s a) {s : σ} {as : List α}
    (h : StepsMeet step C s as) : StepsMeet step D s as := by
  induction as generalizing s with
  | nil => trivial
  | cons a as ih => exact ⟨hCD s a h.1, fun s' hs' => ih (h.2 s' hs')⟩

theorem StepsMeet.and {C D : σ → α → Prop} {s : σ} {as : List α} (hC : StepsMeet step C s as)
    (hD : StepsMeet step D s as) : StepsMeet step (fun s a => C s a ∧ D s a) s as := by
  induction as generalizing s with
  | nil => trivial
  | cons a as ih => exact ⟨⟨hC.1, hD.1⟩, fun s' hs' => ih (hC.2 s' hs') (hD.2 s' hs')⟩

/-- Whether a run meets a condition can be evaluated. -/
instance decidableStepsMeet {C : σ → α → Prop} [∀ s a, Decidable (C s a)] :
    ∀ (s : σ) (as : List α), Decidable (StepsMeet step C s as)
  | _, [] => isTrue trivial
  | s, a :: as =>
    match h : step s a with
    | none => decidable_of_iff (C s a) ⟨fun hC => ⟨hC, fun s' hs' => by rw [h] at hs'; cases hs'⟩, fun hm => hm.1⟩
    | some s' =>
      have : Decidable (StepsMeet step C s' as) := decidableStepsMeet s' as
      decidable_of_iff (C s a ∧ StepsMeet step C s' as)
        ⟨fun hm => stepsMeet_cons hm.1 h hm.2, fun hm => ⟨hm.1, hm.2 s' h⟩⟩

/-- Actions that meet `C` in every state make runs that meet it. -/
theorem stepsMeet_of_forall {C : σ → α → Prop} {as : List α} (h : ∀ a ∈ as, ∀ s, C s a) (s : σ) :
    StepsMeet step C s as := by
  induction as generalizing s with
  | nil => trivial
  | cons a as ih =>
    refine ⟨h a (List.mem_cons_self ..) s, fun s' _ => ?_⟩
    exact ih (fun b hb => h b (List.mem_cons_of_mem _ hb)) s'

/-- A property that every enabled step preserves holds after every run. -/
theorem runSteps_invariant {P : σ → Prop} (hstep : ∀ s a s', P s → step s a = some s' → P s')
    {s s' : σ} {as : List α} (hrun : runSteps step s as = some s') (hs : P s) : P s' := by
  induction as generalizing s with
  | nil => cases hrun; exact hs
  | cons a as ih =>
    obtain ⟨t, ht, hrun⟩ := runSteps_cons_eq_some.1 hrun
    exact ih hrun (hstep s a t hs ht)

/-- A property that every step meeting `C` preserves holds after every run whose steps all do. -/
theorem runSteps_invariant_of_meet {P : σ → Prop} {C : σ → α → Prop}
    (hstep : ∀ s a s', P s → C s a → step s a = some s' → P s') {s s' : σ} {as : List α}
    (hrun : runSteps step s as = some s') (hC : StepsMeet step C s as) (hs : P s) : P s' := by
  induction as generalizing s with
  | nil => cases hrun; exact hs
  | cons a as ih =>
    obtain ⟨t, ht, hrun⟩ := runSteps_cons_eq_some.1 hrun
    exact ih hrun (hC.2 t ht) (hstep s a t hs hC.1 ht)

/-- When an invariant implies `C`, every step of a run from a state that meets it does meet `C`. -/
theorem stepsMeet_of_invariant {P : σ → Prop} {C : σ → α → Prop}
    (hstep : ∀ s a s', P s → step s a = some s' → P s') (hC : ∀ s a, P s → C s a) {s : σ}
    (as : List α) (hs : P s) : StepsMeet step C s as := by
  induction as generalizing s with
  | nil => trivial
  | cons a as ih => exact ⟨hC s a hs, fun s' hs' => ih (hstep s a s' hs hs')⟩

/-- Two conditions that agree wherever an invariant holds are met by the same runs. -/
theorem stepsMeet_iff_of_invariant {P : σ → Prop} {C D : σ → α → Prop} {as : List α}
    (hstep : ∀ a ∈ as, ∀ s s', P s → step s a = some s' → P s')
    (hCD : ∀ a ∈ as, ∀ s, P s → (C s a ↔ D s a)) {s : σ} (hs : P s) :
    StepsMeet step C s as ↔ StepsMeet step D s as := by
  induction as generalizing s with
  | nil => exact Iff.rfl
  | cons a as ih =>
    have ha := List.mem_cons_self (a := a) (l := as)
    have hrest : ∀ s', step s a = some s' → (StepsMeet step C s' as ↔ StepsMeet step D s' as) := by
      intro s' hs'
      exact ih (fun b hb => hstep b (List.mem_cons_of_mem _ hb))
        (fun b hb => hCD b (List.mem_cons_of_mem _ hb)) (hstep a ha s s' hs hs')
    constructor
    · rintro ⟨h, h'⟩
      exact ⟨(hCD a ha s hs).1 h, fun s' hs' => (hrest s' hs').1 (h' s' hs')⟩
    · rintro ⟨h, h'⟩
      exact ⟨(hCD a ha s hs).2 h, fun s' hs' => (hrest s' hs').2 (h' s' hs')⟩

/-- Where an invariant holds that the condition `C` keeps, `C` may be replaced by what it implies. -/
theorem stepsMeet_imp_of_invariant {P : σ → Prop} {C D : σ → α → Prop} {as : List α}
    (hstep : ∀ s a s', P s → C s a → step s a = some s' → P s')
    (hCD : ∀ s a, a ∈ as → P s → C s a → D s a) {s : σ} (hs : P s) (h : StepsMeet step C s as) :
    StepsMeet step D s as := by
  induction as generalizing s with
  | nil => trivial
  | cons a as ih =>
    obtain ⟨hC, hrest⟩ := h
    refine ⟨hCD s a (List.mem_cons_self ..) hs hC, fun s' hs' => ?_⟩
    exact ih (fun s b hb => hCD s b (List.mem_cons_of_mem _ hb)) (hstep s a s' hs hC hs')
      (hrest s' hs')

/-- Where an invariant holds, a property holds in every state of a run iff every step meets the condition under
which that step keeps the property. -/
theorem stepsMeet_iff_always {J P : σ → Prop} {C : σ → α → Prop}
    (hJ : ∀ s a s', J s → step s a = some s' → J s')
    (hC : ∀ s a s', J s → P s → step s a = some s' → (P s' ↔ C s a)) {s s' : σ} {as : List α}
    (hrun : runSteps step s as = some s') (hs : J s) (hP : P s) :
    StepsMeet step C s as ↔ ∀ bs t, bs <+: as → runSteps step s bs = some t → P t := by
  induction as generalizing s with
  | nil =>
    refine ⟨fun _ bs t hbs ht => ?_, fun _ => trivial⟩
    rw [List.prefix_nil.1 hbs] at ht
    cases ht
    exact hP
  | cons a as ih =>
    obtain ⟨u, hu, hrun⟩ := runSteps_cons_eq_some.1 hrun
    have hJu := hJ s a u hs hu
    have hPu := hC s a u hs hP hu
    constructor
    · rintro ⟨hCa, hrest⟩ bs t hbs ht
      rcases List.prefix_cons_iff.1 hbs with rfl | ⟨cs, rfl, hcs⟩
      · cases ht
        exact hP
      · obtain ⟨u', hu', ht⟩ := runSteps_cons_eq_some.1 ht
        rw [hu] at hu'
        cases hu'
        exact (ih hrun hJu (hPu.2 hCa)).1 (hrest u hu) cs t hcs ht
    · intro hall
      have hPu' : P u := by
        refine hall [a] u ?_ (runSteps_cons_eq_some.2 ⟨u, hu, rfl⟩)
        exact List.prefix_cons_iff.2 (.inr ⟨[], rfl, List.nil_prefix⟩)
      refine stepsMeet_cons (hPu.1 hPu') hu ((ih hrun hJu hPu').2 fun cs t hcs ht => ?_)
      exact hall (a :: cs) t (List.prefix_cons_iff.2 (.inr ⟨cs, rfl, hcs⟩))
        (runSteps_cons_eq_some.2 ⟨u, hu, ht⟩)

/-- Where an invariant holds, a property that no step can restore holds at the end of a run iff it holds at its
beginning and every step meets the condition under which that step keeps it. -/
theorem last_iff_stepsMeet {J P : σ → Prop} {C : σ → α → Prop}
    (hJ : ∀ s a s', J s → step s a = some s' → J s')
    (hC : ∀ s a s', J s → step s a = some s' → (P s' ↔ P s ∧ C s a)) {s s' : σ} {as : List α}
    (hrun : runSteps step s as = some s') (hs : J s) : P s' ↔ P s ∧ StepsMeet step C s as := by
  induction as generalizing s with
  | nil =>
    cases hrun
    exact ⟨fun h => ⟨h, trivial⟩, fun h => h.1⟩
  | cons a as ih =>
    obtain ⟨u, hu, hrun⟩ := runSteps_cons_eq_some.1 hrun
    rw [ih hrun (hJ s a u hs hu), hC s a u hs hu]
    constructor
    · rintro ⟨⟨hP, hCa⟩, hrest⟩
      exact ⟨hP, stepsMeet_cons hCa hu hrest⟩
    · rintro ⟨hP, hCa, hrest⟩
      exact ⟨⟨hP, hCa⟩, hrest u hu⟩

section History

variable {η : Type} (step) (note : σ → α → η → η)

/-- The system with a history variable, which no step reads. -/
def withHistory (p : σ × η) (a : α) : Option (σ × η) :=
  (step p.1 a).map fun s' => (s', note p.1 a p.2)

variable {step note}

theorem withHistory_eq_some {p p' : σ × η} {a : α} :
    withHistory step note p a = some p' ↔ step p.1 a = some p'.1 ∧ p'.2 = note p.1 a p.2 := by
  unfold withHistory
  rw [Option.map_eq_some_iff]
  constructor
  · rintro ⟨s', hs', rfl⟩
    exact ⟨hs', rfl⟩
  · rintro ⟨hs', hp'⟩
    exact ⟨p'.1, hs', by rw [← hp']⟩

/-- A run with its history is a run of the system. -/
theorem runSteps_of_withHistory {p p' : σ × η} {as : List α}
    (h : runSteps (withHistory step note) p as = some p') : runSteps step p.1 as = some p'.1 := by
  induction as generalizing p with
  | nil =>
    cases h
    rfl
  | cons a as ih =>
    obtain ⟨t, ht, h⟩ := runSteps_cons_eq_some.1 h
    exact runSteps_cons_eq_some.2 ⟨t.1, (withHistory_eq_some.1 ht).1, ih h⟩

/-- Conditions on the system alone do not see the history. -/
theorem stepsMeet_withHistory {C : σ → α → Prop} {s : σ} {h : η} {as : List α} :
    StepsMeet (withHistory step note) (fun p a => C p.1 a) (s, h) as ↔ StepsMeet step C s as := by
  induction as generalizing s h with
  | nil => exact Iff.rfl
  | cons a as ih =>
    constructor
    · rintro ⟨hC, hrest⟩
      refine ⟨hC, fun s' hs' => ?_⟩
      exact ih.1 (hrest (s', note s a h) (withHistory_eq_some.2 ⟨hs', rfl⟩))
    · rintro ⟨hC, hrest⟩
      refine ⟨hC, fun p' hp' => ?_⟩
      obtain ⟨hs', -⟩ := withHistory_eq_some.1 hp'
      exact ih.2 (hrest p'.1 hs')

end History

/-- An entry of a log that grows by one is an old entry or the new one. -/
theorem snoc_split {ε : Type} {log before after : List ε} {e x : ε}
    (h : log ++ [x] = before ++ e :: after) :
    (∃ after', log = before ++ e :: after') ∨ (log = before ∧ x = e) := by
  rcases List.eq_nil_or_concat after with rfl | ⟨after', z, rfl⟩
  · obtain ⟨h1, h2⟩ := List.append_inj' h rfl
    exact .inr ⟨h1, (List.cons.inj h2).1⟩
  · have h' : log ++ [x] = (before ++ e :: after') ++ [z] := by simpa using h
    exact .inl ⟨after', (List.append_inj' h' rfl).1⟩

/-!
## Runs that come to an end

A system may take steps of its own and steps of its surroundings. A rank that each step of its own lowers,
and that the surroundings cannot raise, bounds how many steps of its own it takes.
-/

section Rank

variable {J : σ → Prop} {own : α → Bool} {rank : σ → Nat}

/-- The own steps of a run take no more than the rank it loses. -/
theorem countP_add_rank_le (hJ : ∀ s a s', J s → step s a = some s' → J s')
    (hown : ∀ s a s', J s → step s a = some s' → own a = true → rank s' < rank s)
    (hothers : ∀ s a s', J s → step s a = some s' → own a = false → rank s' ≤ rank s)
    {s s' : σ} {as : List α} (hrun : runSteps step s as = some s') (hs : J s) :
    as.countP own + rank s' ≤ rank s := by
  induction as generalizing s with
  | nil =>
    cases hrun
    simp
  | cons a as ih =>
    obtain ⟨t, ht, hrun⟩ := runSteps_cons_eq_some.1 hrun
    have hrest := ih hrun (hJ s a t hs ht)
    cases ha : own a with
    | true =>
      rw [List.countP_cons_of_pos ha]
      have := hown s a t hs ht ha
      omega
    | false =>
      rw [List.countP_cons_of_neg (by simp [ha])]
      have := hothers s a t hs ht ha
      omega

/-- What holds at first, or after an own step, and lasts: it holds once an own step has been taken. -/
theorem holds_of_countP_pos {P Q : σ → Prop} (hJ : ∀ s a s', J s → step s a = some s' → J s')
    (hown : ∀ s a s', J s → P s ∨ Q s → step s a = some s' → own a = true → Q s')
    (hothers : ∀ s a s', J s → step s a = some s' → own a = false → (P s → P s') ∧ (Q s → Q s'))
    {s s' : σ} {as : List α} (hrun : runSteps step s as = some s') (hs : J s) (hP : P s ∨ Q s)
    (hpos : 0 < as.countP own ∨ Q s) : Q s' := by
  induction as generalizing s with
  | nil =>
    cases hrun
    exact hpos.resolve_left (by simp)
  | cons a as ih =>
    obtain ⟨t, ht, hrun⟩ := runSteps_cons_eq_some.1 hrun
    have hJt := hJ s a t hs ht
    cases ha : own a with
    | true =>
      have hQ := hown s a t hs hP ht ha
      exact ih hrun hJt (.inr hQ) (.inr hQ)
    | false =>
      obtain ⟨hkP, hkQ⟩ := hothers s a t hs ht ha
      rw [List.countP_cons_of_neg (by simp [ha])] at hpos
      exact ih hrun hJt (hP.imp hkP hkQ) (hpos.imp_right hkQ)

/-- One part of a system moves, and the rank is a sum over the parts. -/
theorem sum_map_set {β : Type} {l : List β} {k : Nat} {b : β} (hk : l[k]? = some b) (b' : β) (f : β → Nat) :
    ((l.set k b').map f).sum + f b = (l.map f).sum + f b' := by
  induction l generalizing k with
  | nil => exact nomatch hk
  | cons c l ih =>
    cases k with
    | zero =>
      cases hk
      simp only [List.set_cons_zero, List.map_cons, List.sum_cons]
      omega
    | succ k =>
      have h := ih hk
      simp only [List.set_cons_succ, List.map_cons, List.sum_cons]
      omega

end Rank

end Gafam.Lib
