import Gafam.Lib.Steps
import Mathlib.Data.List.Basic

/-!
# Threads over one shared state

A thread takes a step by itself: `advance s p e` is what becomes of the shared state `s` and of the thread `p` when
the outside answers `e`, with a thread that is started on the way, if there is one. Threads also come from outside, in
a state that `entry` accepts. The rule below is that of Owicki and Gries: an assertion on each thread, and one on each
pair of threads, hold in every run when the thread that moves establishes its own and no thread that moves destroys
those of the others.
-/

namespace Gafam.Lib

/-- The shared state, and the threads in the order in which they came. -/
structure Threads (σ π : Type) where
  shared : σ
  threads : List π

/-- What can happen next. -/
inductive Turn (π ε : Type)
  | enter (p : π)
  | run (k : Nat) (e : ε)

variable {σ π ε : Type}

/-- The shared state, the thread that moved, and a new thread. -/
abbrev Moved (σ π : Type) := σ × π × Option π

section

variable (entry : π → Bool) (advance : σ → π → ε → Option (Moved σ π))

def Threads.step (s : Threads σ π) : Turn π ε → Option (Threads σ π)
  | .enter p => if entry p then some { s with threads := s.threads ++ [p] } else none
  | .run k e =>
    (s.threads[k]?.bind fun p => advance s.shared p e).map fun m =>
      ⟨m.1, s.threads.set k m.2.1 ++ m.2.2.toList⟩

/-- The assertions: `J` on the shared state, `L` on a thread, `R` on two threads at different places. -/
structure Safe (J : σ → Prop) (L : σ → π → Prop) (R : σ → π → π → Prop) (s : Threads σ π) : Prop where
  shared : J s.shared
  each : ∀ (k : Nat) p, s.threads[k]? = some p → L s.shared p
  pair : ∀ (i j : Nat) p q, i ≠ j → s.threads[i]? = some p → s.threads[j]? = some q → R s.shared p q

/-- What each step has to keep; `q` and `r` are threads that do not move. -/
structure FreeOfInterference (J : σ → Prop) (L : σ → π → Prop) (R : σ → π → π → Prop) : Prop where
  enter : ∀ s p, entry p = true → J s → L s p ∧ ∀ q, L s q → R s p q ∧ R s q p
  own : ∀ s p e s' p' o, advance s p e = some (s', p', o) → J s → L s p →
    J s' ∧ L s' p' ∧ ∀ n, o = some n → L s' n ∧ R s' p' n ∧ R s' n p'
  other : ∀ s p e s' p' o q, advance s p e = some (s', p', o) → J s → L s p → L s q → R s p q → R s q p →
    L s' q ∧ R s' p' q ∧ R s' q p' ∧ ∀ n, o = some n → R s' n q ∧ R s' q n
  rest : ∀ s p e s' p' o q r, advance s p e = some (s', p', o) → J s → L s p → R s p q → R s p r → R s q r → R s' q r

end

variable {entry : π → Bool} {advance : σ → π → ε → Option (Moved σ π)} {J : σ → Prop} {L : σ → π → Prop}
  {R : σ → π → π → Prop}

theorem Threads.step_enter_eq_some {s t : Threads σ π} {p : π} :
    Threads.step entry advance s (.enter p) = some t ↔
      entry p = true ∧ t = { s with threads := s.threads ++ [p] } := by
  simp only [Threads.step, Option.ite_none_right_eq_some, Option.some.injEq]
  exact and_congr_right fun _ => eq_comm

theorem Threads.step_run_eq_some {s t : Threads σ π} {k : Nat} {e : ε} :
    Threads.step entry advance s (.run k e) = some t ↔ ∃ p s' p' o, s.threads[k]? = some p ∧
      advance s.shared p e = some (s', p', o) ∧ t = ⟨s', s.threads.set k p' ++ o.toList⟩ := by
  simp only [Threads.step, Option.map_eq_some_iff, Option.bind_eq_some_iff, Prod.exists]
  constructor
  · rintro ⟨s', p', o, ⟨p, hp, hadv⟩, rfl⟩
    exact ⟨p, s', p', o, hp, hadv, rfl⟩
  · rintro ⟨p, s', p', o, hp, hadv, rfl⟩
    exact ⟨s', p', o, ⟨p, hp, hadv⟩, rfl⟩

/-- A place behind a step is that of the thread that moved, of one that did not, or of the new one. -/
theorem getElem?_moved {l : List π} {k i : Nat} {p p' q : π} {o : Option π} (hk : l[k]? = some p)
    (hi : (l.set k p' ++ o.toList)[i]? = some q) :
    (i = k ∧ q = p') ∨ (i ≠ k ∧ l[i]? = some q) ∨ (i = l.length ∧ o = some q) := by
  have hlt : k < l.length := (List.getElem?_eq_some_iff.1 hk).1
  rcases Nat.lt_or_ge i l.length with h | h
  · rw [List.getElem?_append_left (by simpa using h), List.getElem?_set] at hi
    by_cases hki : k = i
    · subst hki
      rw [if_pos rfl, if_pos hlt] at hi
      exact .inl ⟨rfl, (Option.some.inj hi).symm⟩
    · rw [if_neg hki] at hi
      exact .inr (.inl ⟨Ne.symm hki, hi⟩)
  · rw [List.getElem?_append_right (by simpa using h)] at hi
    cases o with
    | none => exact nomatch hi
    | some n =>
      obtain ⟨hlt', heq⟩ := List.getElem?_eq_some_iff.1 hi
      simp only [List.length_set, Option.toList_some, List.length_singleton] at hlt'
      refine .inr (.inr ⟨by omega, ?_⟩)
      simpa using heq

/-- The threads that did not move are where they were. -/
theorem getElem?_stayed {l : List π} {k i : Nat} {p' q : π} {o : Option π} (hki : i ≠ k) (hi : l[i]? = some q) :
    (l.set k p' ++ o.toList)[i]? = some q := by
  have hlt : i < l.length := (List.getElem?_eq_some_iff.1 hi).1
  rw [List.getElem?_append_left (by simpa using hlt), List.getElem?_set_ne (Ne.symm hki), hi]

/-- The place of the thread that moved. -/
theorem getElem?_mover {l : List π} {k : Nat} {p p' : π} {o : Option π} (hk : l[k]? = some p) :
    (l.set k p' ++ o.toList)[k]? = some p' := by
  have hlt : k < l.length := (List.getElem?_eq_some_iff.1 hk).1
  rw [List.getElem?_append_left (by simpa using hlt), List.getElem?_set_self hlt]

/-- Nobody is there yet. -/
theorem Safe.of_nil {s : σ} (hs : J s) : Safe J L R ⟨s, []⟩ :=
  ⟨hs, fun _ _ hp => (nomatch hp), fun _ _ _ _ _ hp => (nomatch hp)⟩

/-- **One step.** -/
theorem FreeOfInterference.step (h : FreeOfInterference entry advance J L R) {s t : Threads σ π} {a : Turn π ε}
    (hs : Safe J L R s) (hstep : Threads.step entry advance s a = some t) : Safe J L R t := by
  cases a with
  | enter p =>
    obtain ⟨hp, rfl⟩ := Threads.step_enter_eq_some.1 hstep
    obtain ⟨hL, hR⟩ := h.enter s.shared p hp hs.shared
    -- an entry is a step of no thread, with `p` as the new one
    have hget : ∀ {i : Nat} {q : π}, (s.threads ++ [p])[i]? = some q →
        s.threads[i]? = some q ∨ (i = s.threads.length ∧ q = p) := by
      intro i q hi
      rcases Nat.lt_or_ge i s.threads.length with hlt | hge
      · rw [List.getElem?_append_left hlt] at hi
        exact .inl hi
      · obtain ⟨hlt', -⟩ := List.getElem?_eq_some_iff.1 hi
        obtain rfl : i = s.threads.length := by
          simp only [List.length_append, List.length_singleton] at hlt'
          omega
        rw [List.getElem?_concat_length] at hi
        exact .inr ⟨rfl, (Option.some.inj hi).symm⟩
    refine ⟨hs.shared, fun k q hq => ?_, fun i j q r hij hq hr => ?_⟩
    · rcases hget hq with hq | ⟨-, rfl⟩
      · exact hs.each k q hq
      · exact hL
    · rcases hget hq with hq' | ⟨hi, rfl⟩ <;> rcases hget hr with hr' | ⟨hj, rfl⟩
      · exact hs.pair i j q r hij hq' hr'
      · exact (hR q (hs.each i q hq')).2
      · exact (hR r (hs.each j r hr')).1
      · exact absurd (hi.trans hj.symm) hij
  | run k e =>
    obtain ⟨p, s', p', o, hp, hadv, rfl⟩ := Threads.step_run_eq_some.1 hstep
    have hLp := hs.each k p hp
    obtain ⟨hJ', hLp', hnew⟩ := h.own _ _ _ _ _ _ hadv hs.shared hLp
    have hother : ∀ {i : Nat} {q : π}, i ≠ k → s.threads[i]? = some q →
        L s' q ∧ R s' p' q ∧ R s' q p' ∧ ∀ n, o = some n → R s' n q ∧ R s' q n := by
      intro i q hik hq
      exact h.other _ _ _ _ _ _ q hadv hs.shared hLp (hs.each i q hq) (hs.pair k i p q (Ne.symm hik) hp hq)
        (hs.pair i k q p hik hq hp)
    refine ⟨hJ', fun i q hq => ?_, fun i j q r hij hq hr => ?_⟩
    · rcases getElem?_moved hp hq with ⟨rfl, rfl⟩ | ⟨hik, hq⟩ | ⟨-, ho⟩
      · exact hLp'
      · exact (hother hik hq).1
      · exact (hnew q ho).1
    · rcases getElem?_moved hp hq with ⟨hi, rfl⟩ | ⟨hik, hq'⟩ | ⟨hi, ho⟩ <;>
        rcases getElem?_moved hp hr with ⟨hj, rfl⟩ | ⟨hjk, hr'⟩ | ⟨hj, ho'⟩
      · exact absurd (hi.trans hj.symm) hij
      · exact (hother hjk hr').2.1
      · exact (hnew r ho').2.1
      · exact (hother hik hq').2.2.1
      · exact h.rest _ _ _ _ _ _ q r hadv hs.shared hLp (hs.pair k i p q (Ne.symm hik) hp hq')
          (hs.pair k j p r (Ne.symm hjk) hp hr') (hs.pair i j q r hij hq' hr')
      · exact ((hother hik hq').2.2.2 r ho').2
      · exact (hnew q ho).2.2
      · exact ((hother hjk hr').2.2.2 q ho).1
      · exact absurd (hi.trans hj.symm) hij

/-- **Every run.** -/
theorem FreeOfInterference.runs (h : FreeOfInterference entry advance J L R) {s t : Threads σ π}
    {as : List (Turn π ε)} (hs : Safe J L R s) (hrun : runSteps (Threads.step entry advance) s as = some t) :
    Safe J L R t :=
  runSteps_invariant (fun _ _ _ => h.step) hrun hs

/-- What the shared state says of some thread: `W` holds only as long as a thread with `A` is there. -/
def Backed (W : σ → Prop) (A : σ → π → Prop) (s : Threads σ π) : Prop :=
  W s.shared → ∃ (k : Nat) (p : π), s.threads[k]? = some p ∧ A s.shared p

/-- The thread that moves takes the office, or hands it to the new one, or leaves it with one that does not move. -/
theorem Backed.step {W : σ → Prop} {A : σ → π → Prop}
    (h : ∀ s p e s' p' o, advance s p e = some (s', p', o) → J s → L s p → W s' →
      A s' p' ∨ (∃ n, o = some n ∧ A s' n) ∨ (W s ∧ ¬A s p ∧ ∀ q, A s q → A s' q))
    {s t : Threads σ π} {a : Turn π ε} (hs : Safe J L R s) (hb : Backed W A s)
    (hstep : Threads.step entry advance s a = some t) : Backed W A t := by
  cases a with
  | enter p =>
    obtain ⟨-, rfl⟩ := Threads.step_enter_eq_some.1 hstep
    intro hW
    obtain ⟨k, q, hq, hA⟩ := hb hW
    exact ⟨k, q, by rw [List.getElem?_append_left (List.getElem?_eq_some_iff.1 hq).1]; exact hq, hA⟩
  | run k e =>
    obtain ⟨p, s', p', o, hp, hadv, rfl⟩ := Threads.step_run_eq_some.1 hstep
    intro hW
    rcases h _ _ _ _ _ _ hadv hs.shared (hs.each k p hp) hW with hA | ⟨n, rfl, hA⟩ | ⟨hWs, hnot, hkeep⟩
    · exact ⟨k, p', getElem?_mover hp, hA⟩
    · refine ⟨(s.threads.set k p').length, n, ?_, hA⟩
      rw [Option.toList_some, List.getElem?_concat_length]
    · obtain ⟨i, q, hq, hA⟩ := hb hWs
      have hik : i ≠ k := by
        rintro rfl
        rw [hp] at hq
        cases hq
        exact hnot hA
      exact ⟨i, q, getElem?_stayed hik hq, hkeep q hA⟩

end Gafam.Lib
