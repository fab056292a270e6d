import Gafam.Android.RetryQueue

/-!
# What the retry queue keeps

The queue loses nothing exactly as long as every thread that writes it has read all that is in it.
-/

namespace Gafam.Android.Retries

open Gafam.Lib

/-- What a thread holds was put into the queue before, except for the SMS that it appends itself. -/
def ThreadSound (s : Retries) (i : Nat) : RetryThread → Prop
  | .append item queue => item.delivery = i ∧ ∀ x ∈ queue, x ∈ s.enqueued
  | .flush queue rest remaining =>
    (∀ x ∈ queue, x ∈ s.enqueued) ∧ (∀ x ∈ rest ++ remaining, x ∈ queue) ∧
      ∀ x ∈ queue, x ∈ rest ++ remaining ∨ x ∈ s.answered
  | _ => True

structure Sound (s : Retries) : Prop where
  done : ∀ x ∈ s.enqueued, s.threads[x.delivery]? = some .done
  queued : ∀ x ∈ s.smsRetryQueue, x ∈ s.enqueued
  thread : ∀ i t, s.threads[i]? = some t → s.ThreadSound i t

theorem sound_start : Sound start where
  done := by simp [start]
  queued := by simp [start]
  thread := by simp [start]

theorem ThreadSound.mono {s s' : Retries} {i : Nat} {t : RetryThread} (h : s.ThreadSound i t)
    (henqueued : ∀ x ∈ s.enqueued, x ∈ s'.enqueued) (hanswered : ∀ x ∈ s.answered, x ∈ s'.answered) :
    s'.ThreadSound i t := by
  cases t with
  | append item queue => exact ⟨h.1, fun x hx => henqueued x (h.2 x hx)⟩
  | flush queue rest remaining =>
    obtain ⟨hqueue, hsub, hall⟩ := h
    exact ⟨fun x hx => henqueued x (hqueue x hx), hsub, fun x hx => (hall x hx).imp_right (hanswered x)⟩
  | _ => trivial

/-- A thread that is not done goes on; what has been put into the queue or delivered stays so. -/
theorem Sound.goto {s s' : Retries} (h : Sound s) {i : Nat} {t t' : RetryThread} (ht : s.threads[i]? = some t)
    (hlive : t ≠ .done) (hthreads : s'.threads = s.threads.set i t')
    (henqueued : ∀ x ∈ s.enqueued, x ∈ s'.enqueued) (hanswered : ∀ x ∈ s.answered, x ∈ s'.answered)
    (hnew : ∀ x ∈ s'.enqueued, x ∈ s.enqueued ∨ x.delivery = i ∧ t' = .done)
    (hqueued : ∀ x ∈ s'.smsRetryQueue, x ∈ s'.enqueued) (hsound : s'.ThreadSound i t') : Sound s' := by
  have hi : i < s.threads.length := (List.getElem?_eq_some_iff.1 ht).1
  constructor
  · intro x hx
    rw [hthreads]
    rcases hnew x hx with hx | ⟨hdel, hdone⟩
    · have hdone := h.done x hx
      have hne : i ≠ x.delivery := by
        rintro rfl
        rw [ht] at hdone
        exact hlive (Option.some.inj hdone)
      rw [List.getElem?_set_ne hne]
      exact hdone
    · rw [hdel, hdone, List.getElem?_set_self hi]
  · exact hqueued
  · intro j u hu
    rw [hthreads] at hu
    by_cases hij : i = j
    · subst hij
      rw [List.getElem?_set_self hi] at hu
      cases hu
      exact hsound
    · rw [List.getElem?_set_ne hij] at hu
      exact (h.thread j u hu).mono henqueued hanswered

theorem sound_deliver {s : Retries} (h : Sound s) {t : RetryThread} (ht : ∀ i, s.ThreadSound i t) :
    Sound { s with threads := s.threads ++ [t] } := by
  constructor
  · intro x hx
    have hdone := h.done x hx
    rw [List.getElem?_append_left (List.getElem?_eq_some_iff.1 hdone).1]
    exact hdone
  · exact h.queued
  · intro i u hu
    rcases Nat.lt_or_ge i s.threads.length with hi | hi
    · rw [List.getElem?_append_left hi] at hu
      exact h.thread i u hu
    · rw [List.getElem?_append_right hi] at hu
      have hmem := List.mem_of_getElem? hu
      rw [List.mem_singleton.1 hmem]
      exact ht i

theorem sound_step {s s' : Retries} {e : RetryEvent} (h : Sound s) (hstep : step s e = some s') : Sound s' := by
  have hid : ∀ x ∈ s.enqueued, x ∈ s.enqueued := fun _ hx => hx
  have had : ∀ x ∈ s.answered, x ∈ s.answered := fun _ hx => hx
  cases e with
  | deliver sms answers =>
    cases hstep
    refine sound_deliver h fun i => ?_
    split_ifs <;> trivial
  | read i now =>
    simp only [step] at hstep
    split at hstep
    · next sms ht =>
      cases hstep
      exact h.goto ht (by simp) rfl hid had (fun x hx => .inl hx) h.queued ⟨rfl, h.queued⟩
    · next ht =>
      cases hstep
      refine h.goto ht (by simp) rfl hid had (fun x hx => .inl hx) h.queued ?_
      split_ifs
      · trivial
      · exact ⟨h.queued, by simp, fun x hx => .inl (by simpa using hx)⟩
    · cases hstep
  | request i answer =>
    simp only [step] at hstep
    split at hstep
    · next queue item rest remaining ht =>
      obtain ⟨hqueue, hsub, hall⟩ := h.thread i _ ht
      split_ifs at hstep with hok
      · cases hstep
        refine h.goto ht (by simp) rfl hid (fun _ hx => List.mem_append_left _ hx) (fun x hx => .inl hx) h.queued ?_
        refine ⟨hqueue, fun x hx => hsub x (List.mem_cons_of_mem _ hx), fun x hx => ?_⟩
        rcases hall x hx with hx | hx
        · rcases List.mem_cons.1 hx with rfl | hx
          · exact .inr (List.mem_append_right _ (List.mem_singleton.2 rfl))
          · exact .inl hx
        · exact .inr (List.mem_append_left _ hx)
      · cases hstep
        -- the item moves from the rest to what remains
        have hmove : ∀ x, x ∈ rest ++ (remaining ++ [item]) ↔ x ∈ (item :: rest) ++ remaining := by
          intro x
          simp only [List.mem_append, List.mem_cons, List.not_mem_nil, or_false]
          tauto
        refine h.goto ht (by simp) rfl hid had (fun x hx => .inl hx) h.queued ?_
        exact ⟨hqueue, fun x hx => hsub x ((hmove x).1 hx), fun x hx => (hall x hx).imp_left (hmove x).2⟩
    · cases hstep
  | write i =>
    simp only [step] at hstep
    split at hstep
    · next item queue ht =>
      obtain ⟨hdel, hqueue⟩ := h.thread i _ ht
      cases hstep
      refine h.goto ht (by simp) rfl (fun _ hx => List.mem_append_left _ hx) had ?_ ?_ trivial
      · intro x hx
        rcases List.mem_append.1 hx with hx | hx
        · exact .inl hx
        · rw [List.mem_singleton.1 hx]
          exact .inr ⟨hdel, rfl⟩
      · intro x hx
        exact List.mem_append.2 ((List.mem_append.1 hx).imp_left (hqueue x))
    · next queue remaining ht =>
      obtain ⟨hqueue, hsub, -⟩ := h.thread i _ ht
      cases hstep
      exact h.goto ht (by simp) rfl hid had (fun x hx => .inl hx) (fun x hx => hqueue x (hsub x hx)) trivial
    · cases hstep
  | leave i =>
    simp only [step] at hstep
    split at hstep
    · next ht =>
      cases hstep
      exact h.goto ht (by simp) rfl hid had (fun x hx => .inl hx) h.queued trivial
    · next ht =>
      cases hstep
      exact h.goto ht (by simp) rfl hid had (fun x hx => .inl hx) h.queued trivial
    · cases hstep

/-! ## What a write loses -/

/-- The SMS that a thread appends is new. -/
theorem Sound.notMem_enqueued {s : Retries} (h : Sound s) {i : Nat} {item : QueueItem} {queue : List QueueItem}
    (ht : s.threads[i]? = some (.append item queue)) : item ∉ s.enqueued := by
  intro hmem
  have hdone := h.done item hmem
  rw [(h.thread i _ ht).1, ht] at hdone
  cases hdone

/-- `queue` is what the thread has read, `written` what it writes, and `new` what it adds. -/
theorem noLoss_write_iff {s s' : Retries} (h : Sound s) (hP : NoLoss s) (queue written new : List QueueItem)
    (hqueue : s'.smsRetryQueue = written) (henqueued : s'.enqueued = s.enqueued ++ new)
    (hanswered : s'.answered = s.answered) (hnew : ∀ x ∈ new, x ∈ written ∧ x ∉ s.enqueued)
    (hwritten : ∀ x ∈ written, x ∈ queue ∨ x ∈ new) (hkept : ∀ x ∈ queue, x ∈ written ∨ x ∈ s.answered) :
    NoLoss s' ↔ ∀ x ∈ s.smsRetryQueue, x ∈ queue ∨ x ∈ s.answered := by
  unfold NoLoss
  rw [hqueue, henqueued, hanswered]
  constructor
  · intro hloss x hx
    have hold := h.queued x hx
    rcases hloss x (List.mem_append_left _ hold) with hx | hx
    · exact .inl ((hwritten x hx).resolve_right fun hx => (hnew x hx).2 hold)
    · exact .inr hx
  · intro hread x hx
    rcases List.mem_append.1 hx with hx | hx
    · rcases hP x hx with hx | hx
      · rcases hread x hx with hx | hx
        · exact hkept x hx
        · exact .inr hx
      · exact .inr hx
    · exact .inl (hnew x hx).1

/-- A step that does not write leaves the queue alone. -/
theorem noLoss_of_keeps {s s' : Retries} (hP : NoLoss s) (hqueue : s'.smsRetryQueue = s.smsRetryQueue)
    (henqueued : s'.enqueued = s.enqueued) (hanswered : ∀ x ∈ s.answered, x ∈ s'.answered) : NoLoss s' := by
  intro x hx
  rw [henqueued] at hx
  rw [hqueue]
  exact (hP x hx).imp_right (hanswered x)

theorem noLoss_step_iff {s s' : Retries} {e : RetryEvent} (h : Sound s) (hP : NoLoss s)
    (hstep : step s e = some s') : NoLoss s' ↔ UpToDate s e := by
  have had : ∀ x ∈ s.answered, x ∈ s.answered := fun _ hx => hx
  cases e with
  | deliver sms answers =>
    cases hstep
    exact iff_of_true (noLoss_of_keeps hP rfl rfl had) trivial
  | read i now =>
    refine iff_of_true ?_ trivial
    simp only [step] at hstep
    split at hstep
    · cases hstep
      exact noLoss_of_keeps hP rfl rfl had
    · cases hstep
      exact noLoss_of_keeps hP rfl rfl had
    · cases hstep
  | request i answer =>
    refine iff_of_true ?_ trivial
    simp only [step] at hstep
    split at hstep
    · split_ifs at hstep with hok
      · cases hstep
        exact noLoss_of_keeps hP rfl rfl fun _ hx => List.mem_append_left _ hx
      · cases hstep
        exact noLoss_of_keeps hP rfl rfl had
    · cases hstep
  | write i =>
    simp only [step] at hstep
    split at hstep
    · next item queue ht =>
      have hfresh := h.notMem_enqueued ht
      cases hstep
      refine Iff.trans (noLoss_write_iff h hP queue (queue ++ [item]) [item] rfl rfl rfl ?_ ?_ ?_) ?_
      · intro x hx
        rw [List.mem_singleton.1 hx]
        exact ⟨List.mem_append_right _ (List.mem_singleton.2 rfl), hfresh⟩
      · exact fun x hx => List.mem_append.1 hx
      · exact fun x hx => .inl (List.mem_append_left _ hx)
      · simp [UpToDate, ht, RetryThread.queue]
    · next queue remaining ht =>
      obtain ⟨-, hsub, hall⟩ := h.thread i _ ht
      cases hstep
      refine Iff.trans (noLoss_write_iff h hP queue remaining [] rfl (List.append_nil _).symm rfl ?_ ?_ ?_) ?_
      · exact fun x hx => absurd hx List.not_mem_nil
      · exact fun x hx => .inl (hsub x hx)
      · exact fun x hx => hall x hx
      · simp [UpToDate, ht, RetryThread.queue]
    · cases hstep
  | leave i =>
    refine iff_of_true ?_ trivial
    simp only [step] at hstep
    split at hstep
    · cases hstep
      exact noLoss_of_keeps hP rfl rfl had
    · cases hstep
      exact noLoss_of_keeps hP rfl rfl had
    · cases hstep

/-! ## Runs -/

/-- Nothing is lost at any time of a run iff no thread writes behind another's back. -/
theorem noLoss_iff_upToDate {s : Retries} {es : List RetryEvent} (hrun : runSteps step start es = some s) :
    (∀ bs t, bs <+: es → runSteps step start bs = some t → t.NoLoss) ↔ StepsMeet step UpToDate start es := by
  refine (stepsMeet_iff_always (fun s e s' h hstep => sound_step h hstep)
    (fun s e s' h hP hstep => noLoss_step_iff h hP hstep) hrun sound_start ?_).symm
  simp [NoLoss, start]

/-- The first SMS is queued; the second is pushed, and the first is retried in vain. -/
def retriedInVain : List RetryEvent :=
  [.deliver ⟨"0612345678", "hello", 1⟩ [none, none, none], .read 0 5, .write 0,
    .deliver ⟨"0612345678", "bye", 2⟩ [some 200], .read 1 6, .request 1 (some 503), .write 1]

theorem noLoss_retriedInVain : ∃ s, runSteps step start retriedInVain = some s ∧
    s.smsRetryQueue.map (·.sms.body) = ["hello"] ∧
    ((∀ bs t, bs <+: retriedInVain → runSteps step start bs = some t → t.NoLoss) ↔
      StepsMeet step UpToDate start retriedInVain) := by
  have hrun : ∃ s, runSteps step start retriedInVain = some s ∧ s.smsRetryQueue.map (·.sms.body) = ["hello"] :=
    ⟨_, rfl, rfl⟩
  obtain ⟨s, hs, hqueue⟩ := hrun
  exact ⟨s, hs, hqueue, noLoss_iff_upToDate hs⟩

/-- While the first SMS is retried, the third one is queued. -/
def queuedMeanwhile : List RetryEvent :=
  [.deliver ⟨"0612345678", "hello", 1⟩ [none, none, none], .read 0 5, .write 0,
    .deliver ⟨"0612345678", "bye", 2⟩ [some 200], .read 1 6,
    .deliver ⟨"0687654321", "lost", 3⟩ [none, some 503, none], .read 2 7, .write 2,
    .request 1 (some 200), .write 1]

theorem queuedMeanwhile_lost : ∃ s, runSteps step start queuedMeanwhile = some s ∧ ¬ s.NoLoss := by
  have hrun : ∃ s, runSteps step start queuedMeanwhile = some s ∧
      ∃ x ∈ s.enqueued, x ∉ s.smsRetryQueue ∧ x ∉ s.answered :=
    ⟨_, rfl, ⟨⟨"0687654321", "lost", 3⟩, 7, 2⟩, by decide⟩
  obtain ⟨s, hs, x, hx, hqueue, hanswered⟩ := hrun
  refine ⟨s, hs, fun h => ?_⟩
  exact (h x hx).elim hqueue hanswered

end Gafam.Android.Retries
