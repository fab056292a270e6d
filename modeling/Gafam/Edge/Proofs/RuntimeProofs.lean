import Gafam.Edge.Runtime

/-!
# The hand-off of results

As long as no result is posted in the time between the registration of a channel and its look-up, a job
whose handler has not returned is found under its id, or its result is in its channel or with its handler.
The ids of live jobs are different, so that no registration of another job is overwritten or removed.
-/

namespace Gafam.Edge

open Gafam.Go Gafam.Lib

/-! ## Jobs -/

theorem modify_eq_set {l : List Job} {k : Nat} {a : Job} (ha : l[k]? = some a) (f : Job → Job) :
    l.modify k f = l.set k (f a) := by
  rw [List.modify_eq_set_getElem?, ha]
  rfl

theorem getElem?_set_self {l : List Job} {k : Nat} {a : Job} (ha : l[k]? = some a) (b : Job) :
    (l.set k b)[k]? = some b := by
  obtain ⟨hk, -⟩ := List.getElem?_eq_some_iff.1 ha
  exact List.getElem?_set_self hk

/-- What is known of a job with this registration under its id. -/
def JobOk (registered : Option Nat) (i : Nat) (a : Job) : Prop :=
  match a.stage with
  | .queued => registered = some i ∧ a.channel = none ∧ a.answer = none
  | .waiting ch => ch = i ∧ ((registered = some i ∧ a.channel = none ∧ a.answer = none) ∨
      (registered ≠ some i ∧ ∃ res, res.jobID = a.id ∧ a.channel = some res ∧ a.answer = some res))
  | .received res => res.jobID = a.id ∧ a.answer = some res ∧ registered ≠ some i
  | .timedOut => True
  | .done res ok => ok = true ∧ res.jobID = a.id ∧ (res = timeoutResult a.id ∨ a.answer = some res)

/-- A result may still be posted to the job. -/
def Job.Open (a : Job) : Prop :=
  a.stage = .queued ∨ (∃ ch, a.stage = .waiting ch) ∨ a.stage = .timedOut

/-- The invariant of the runtime. -/
structure Inv (s : Runtime) : Prop where
  job : ∀ (i : Nat) (a : Job), s.jobs[i]? = some a → JobOk (s.inferWaiters a.id) i a
  waiter : ∀ id ch, s.inferWaiters id = some ch → ∃ a, s.jobs[ch]? = some a ∧ a.id = id ∧ a.Open
  distinct : ∀ (i j : Nat) (a b : Job), s.jobs[i]? = some a → s.jobs[j]? = some b → a.Live → b.Live →
    a.id = b.id → i = j

theorem Job.Open.live {a : Job} (h : a.Open) : a.Live := by
  intro res ok hdone
  rcases h with h | ⟨ch, h⟩ | h
  · exact Stage.noConfusion (h.symm.trans hdone)
  · exact Stage.noConfusion (h.symm.trans hdone)
  · exact Stage.noConfusion (h.symm.trans hdone)

/-- The registration does not concern a job whose handler has returned. -/
theorem JobOk.of_not_live {w w' : Option Nat} {i : Nat} {a : Job} (h : JobOk w i a) (hdone : ¬ a.Live) :
    JobOk w' i a := by
  obtain ⟨res, hdone⟩ := not_forall.1 hdone
  obtain ⟨ok, hstage⟩ := not_forall.1 hdone
  simp only [ne_eq, not_not] at hstage
  simpa only [JobOk, hstage] using h

/-- **One job changes.** Its registration is removed or stays, in which case results may still come. -/
theorem Inv.change {s : Runtime} (h : Inv s) {k : Nat} {a b : Job} {w : Option Nat}
    (ha : s.jobs[k]? = some a) (hlive : a.Live) (hid : b.id = a.id) (hok : JobOk w k b)
    (hw : w = none ∨ (w = s.inferWaiters a.id ∧ (w = some k → b.Open))) :
    Inv { s with jobs := s.jobs.set k b, inferWaiters := Function.update s.inferWaiters a.id w } := by
  have hk : k < s.jobs.length := (List.getElem?_eq_some_iff.1 ha).1
  have hget : ∀ {i : Nat} {c : Job}, (s.jobs.set k b)[i]? = some c →
      (i = k ∧ c = b) ∨ (i ≠ k ∧ s.jobs[i]? = some c) := by
    intro i c hc
    rw [List.getElem?_set] at hc
    by_cases hki : k = i
    · subst hki
      rw [if_pos rfl, if_pos hk] at hc
      exact Or.inl ⟨rfl, (Option.some.inj hc).symm⟩
    · rw [if_neg hki] at hc
      exact Or.inr ⟨Ne.symm hki, hc⟩
  refine ⟨?_, ?_, ?_⟩
  · intro i c hc
    rcases hget hc with ⟨rfl, rfl⟩ | ⟨hik, hc⟩
    · simpa only [hid, Function.update_self] using hok
    · have hjob := h.job i c hc
      by_cases hsame : c.id = a.id
      · have hdone : ¬ c.Live := fun hclive => hik (h.distinct i k c a hc ha hclive hlive hsame)
        exact hjob.of_not_live hdone
      · simpa only [Function.update_of_ne hsame] using hjob
  · intro id ch hch
    by_cases hsame : id = a.id
    · subst hsame
      simp only [Function.update_self] at hch
      rcases hw with rfl | ⟨hreg, hopen⟩
      · exact absurd hch.symm (Option.some_ne_none _)
      · obtain ⟨c, hc, hcid, hcopen⟩ := h.waiter a.id ch (hreg ▸ hch)
        obtain rfl := h.distinct ch k c a hc ha hcopen.live hlive hcid
        exact ⟨b, getElem?_set_self ha b, hid, hopen hch⟩
    · simp only [Function.update_of_ne hsame] at hch
      obtain ⟨c, hc, hcid, hcopen⟩ := h.waiter id ch hch
      have hne : k ≠ ch := by
        rintro rfl
        rw [ha] at hc
        obtain rfl := Option.some.inj hc
        exact hsame hcid.symm
      exact ⟨c, by rw [List.getElem?_set_ne hne]; exact hc, hcid, hcopen⟩
  · intro i j c d hc hd hclive hdlive hcd
    rcases hget hc with ⟨rfl, rfl⟩ | ⟨-, hc'⟩
    · rcases hget hd with ⟨rfl, rfl⟩ | ⟨-, hd'⟩
      · rfl
      · exact h.distinct _ j a d ha hd' hlive hdlive (hid.symm.trans hcd)
    · rcases hget hd with ⟨rfl, rfl⟩ | ⟨-, hd'⟩
      · exact h.distinct i _ c a hc' ha hclive hlive (hcd.trans hid)
      · exact h.distinct i j c d hc' hd' hclive hdlive hcd

/-- A job whose registration stays. -/
theorem Inv.changeStage {s : Runtime} (h : Inv s) {k : Nat} {a b : Job} (ha : s.jobs[k]? = some a)
    (hlive : a.Live) (hid : b.id = a.id) (hok : JobOk (s.inferWaiters a.id) k b)
    (hopen : s.inferWaiters a.id = some k → b.Open) : Inv { s with jobs := s.jobs.set k b } := by
  have hchange := h.change ha hlive hid hok (Or.inr ⟨rfl, hopen⟩)
  rwa [Function.update_eq_self] at hchange

/-- **A new job.** -/
theorem Inv.queueInfer {s : Runtime} (h : Inv s) {jobID : GoString} (prompt : GoString)
    (hnew : ∀ a ∈ s.jobs, a.Live → a.id ≠ jobID) : Inv (queueInfer s jobID prompt) := by
  have hget : ∀ {i : Nat} {c : Job}, (s.jobs ++ [⟨jobID, prompt, none, .queued, none⟩])[i]? = some c →
      s.jobs[i]? = some c ∨ (i = s.jobs.length ∧ c = ⟨jobID, prompt, none, .queued, none⟩) := by
    intro i c hc
    rcases Nat.lt_trichotomy i s.jobs.length with hlt | rfl | hgt
    · rw [List.getElem?_append_left hlt] at hc
      exact Or.inl hc
    · rw [List.getElem?_concat_length] at hc
      exact Or.inr ⟨rfl, (Option.some.inj hc).symm⟩
    · rw [List.getElem?_eq_none (by simp; omega)] at hc
      exact absurd hc.symm (Option.some_ne_none _)
  have hold : ∀ {i : Nat} {c : Job}, s.jobs[i]? = some c →
      (s.jobs ++ [⟨jobID, prompt, none, .queued, none⟩])[i]? = some c := by
    intro i c hc
    rw [List.getElem?_append_left (List.getElem?_eq_some_iff.1 hc).1, hc]
  refine ⟨?_, ?_, ?_⟩
  · intro i c hc
    rcases hget hc with hc | ⟨rfl, rfl⟩
    · have hjob := h.job i c hc
      by_cases hsame : c.id = jobID
      · have hdone : ¬ c.Live := fun hclive => hnew c (List.mem_of_getElem? hc) hclive hsame
        exact hjob.of_not_live hdone
      · simpa only [Edge.queueInfer, Function.update_of_ne hsame] using hjob
    · exact ⟨Function.update_self .., rfl, rfl⟩
  · intro id ch hch
    by_cases hsame : id = jobID
    · subst hsame
      simp only [Edge.queueInfer, Function.update_self, Option.some.injEq] at hch
      subst hch
      exact ⟨_, List.getElem?_concat_length, rfl, Or.inl rfl⟩
    · simp only [Edge.queueInfer, Function.update_of_ne hsame] at hch
      obtain ⟨c, hc, hcid, hcopen⟩ := h.waiter id ch hch
      exact ⟨c, hold hc, hcid, hcopen⟩
  · intro i j c d hc hd hclive hdlive hcd
    rcases hget hc with hc' | ⟨rfl, rfl⟩
    · rcases hget hd with hd' | ⟨rfl, rfl⟩
      · exact h.distinct i j c d hc' hd' hclive hdlive hcd
      · exact absurd hcd (hnew c (List.mem_of_getElem? hc') hclive)
    · rcases hget hd with hd' | ⟨rfl, rfl⟩
      · exact absurd hcd.symm (hnew d (List.mem_of_getElem? hd') hdlive)
      · rfl

/-! ## The steps of a handler -/

theorem lookUp_eq_some {s s' : Runtime} {k : Nat} (h : lookUp s k = some s') :
    ∃ a, s.jobs[k]? = some a ∧ a.stage = .queued ∧
      ((∃ ch, s.inferWaiters a.id = some ch ∧ s' = s.setJob k (Job.goTo (.waiting ch))) ∨
        s.inferWaiters a.id = none) := by
  unfold lookUp at h
  split at h
  · next id prompt channel answer ha =>
    refine ⟨_, ha, rfl, ?_⟩
    split at h
    · next ch hch => exact Or.inl ⟨ch, hch, (Option.some.inj h).symm⟩
    · next hnone => exact Or.inr hnone
  · exact absurd h.symm (Option.some_ne_none _)

theorem receive_eq_some {s s' : Runtime} {k : Nat} (h : receive s k = some s') :
    ∃ a ch res, s.jobs[k]? = some a ∧ a.stage = .waiting ch ∧ s.jobs[ch]?.bind Job.channel = some res ∧
      s' = (s.setJob ch Job.drain).setJob k (Job.goTo (.received res)) := by
  unfold receive at h
  split at h
  · next id prompt channel ch answer ha =>
    split at h
    · next res hres => exact ⟨_, ch, res, ha, rfl, hres, (Option.some.inj h).symm⟩
    · exact absurd h.symm (Option.some_ne_none _)
  · exact absurd h.symm (Option.some_ne_none _)

theorem timeOut_eq_some {s s' : Runtime} {k : Nat} (h : timeOut s k = some s') :
    ∃ a ch, s.jobs[k]? = some a ∧ a.stage = .waiting ch ∧ s' = s.setJob k (Job.goTo .timedOut) := by
  unfold timeOut at h
  split at h
  · next id prompt channel ch answer ha => exact ⟨_, ch, ha, rfl, (Option.some.inj h).symm⟩
  · exact absurd h.symm (Option.some_ne_none _)

theorem finish_eq_some {s s' : Runtime} {k : Nat} (h : finish s k = some s') :
    ∃ a res, s.jobs[k]? = some a ∧
      (a.stage = .received res ∨ (a.stage = .timedOut ∧ res = timeoutResult a.id)) ∧
      s' = (s.setJob k (Job.goTo (.done res true))).remove a.id := by
  unfold finish at h
  split at h
  · next id prompt channel res answer ha => exact ⟨_, res, ha, Or.inl rfl, (Option.some.inj h).symm⟩
  · next id prompt channel answer ha =>
    exact ⟨_, timeoutResult id, ha, Or.inr ⟨rfl, rfl⟩, (Option.some.inj h).symm⟩
  · exact absurd h.symm (Option.some_ne_none _)

/-- A stage that is not the end. -/
theorem live_of_stage {a : Job} {st : Stage} (hstage : a.stage = st) (hst : ∀ res ok, st ≠ .done res ok) :
    a.Live := by
  intro res ok hdone
  exact hst res ok (hstage.symm.trans hdone)

theorem Inv.lookUp {s s' : Runtime} (h : Inv s) {k : Nat} (hstep : lookUp s k = some s') : Inv s' := by
  obtain ⟨a, ha, hstage, hcase⟩ := lookUp_eq_some hstep
  have hjob := h.job k a ha
  simp only [JobOk, hstage] at hjob
  obtain ⟨hreg, hchannel, hanswer⟩ := hjob
  rcases hcase with ⟨ch, hch, rfl⟩ | hnone
  · obtain rfl := Option.some.inj (hch.symm.trans hreg)
    rw [Runtime.setJob, modify_eq_set ha]
    refine h.changeStage ha (live_of_stage hstage (by simp)) rfl ?_ fun _ => Or.inr (Or.inl ⟨ch, rfl⟩)
    exact ⟨rfl, Or.inl ⟨hreg, hchannel, hanswer⟩⟩
  · rw [hnone] at hreg
    exact absurd hreg.symm (Option.some_ne_none _)

theorem Inv.receive {s s' : Runtime} (h : Inv s) {k : Nat} (hstep : receive s k = some s') : Inv s' := by
  obtain ⟨a, ch, res, ha, hstage, hres, rfl⟩ := receive_eq_some hstep
  have hjob := h.job k a ha
  simp only [JobOk, hstage] at hjob
  obtain ⟨rfl, hwait⟩ := hjob
  rw [ha, Option.bind_some] at hres
  rcases hwait with ⟨-, hchannel, -⟩ | ⟨hreg, res', hid, hchannel, hanswer⟩
  · rw [hchannel] at hres
    exact absurd hres.symm (Option.some_ne_none _)
  · obtain rfl := Option.some.inj (hres.symm.trans hchannel)
    have hset : (s.jobs.modify ch Job.drain).modify ch (Job.goTo (.received res)) =
        s.jobs.set ch (Job.goTo (.received res) a.drain) := by
      rw [modify_eq_set ha, modify_eq_set (getElem?_set_self ha _), List.set_set]
    simp only [Runtime.setJob, hset]
    exact h.changeStage ha (live_of_stage hstage (by simp)) rfl ⟨hid, hanswer, hreg⟩
      fun hreg' => absurd hreg' hreg

theorem Inv.timeOut {s s' : Runtime} (h : Inv s) {k : Nat} (hstep : timeOut s k = some s') : Inv s' := by
  obtain ⟨a, ch, ha, hstage, rfl⟩ := timeOut_eq_some hstep
  rw [Runtime.setJob, modify_eq_set ha]
  exact h.changeStage ha (live_of_stage hstage (by simp)) rfl trivial fun _ => Or.inr (Or.inr rfl)

theorem Inv.finish {s s' : Runtime} (h : Inv s) {k : Nat} (hstep : finish s k = some s') : Inv s' := by
  obtain ⟨a, res, ha, hstage, rfl⟩ := finish_eq_some hstep
  have hjob := h.job k a ha
  simp only [Runtime.setJob, Runtime.remove, modify_eq_set ha]
  rcases hstage with hstage | ⟨hstage, rfl⟩
  · simp only [JobOk, hstage] at hjob
    exact h.change ha (live_of_stage hstage (by simp)) rfl ⟨rfl, hjob.1, Or.inr hjob.2.1⟩ (Or.inl rfl)
  · exact h.change ha (live_of_stage hstage (by simp)) rfl ⟨rfl, rfl, Or.inl rfl⟩ (Or.inl rfl)

/-! ## The steps of the phone and of the web -/

/-- A report leaves the jobs alone, or it brings a result to a job that waits for it or has timed out. -/
theorem Inv.updateApkReport {s : Runtime} (h : Inv s) (now : Nat) {req : SyncRequest}
    (hquiet : ∀ a ∈ s.jobs, a.stage = Stage.queued → a.id ≠ req.inferJobID) :
    Inv (updateApkReport s now req) := by
  have hreport : Inv { s with apkReport := req.report now } := ⟨h.job, h.waiter, h.distinct⟩
  unfold Edge.updateApkReport
  dsimp only
  split_ifs with hnil
  · exact hreport
  · split
    · next ch hch =>
      obtain ⟨a, ha, hid, hopen⟩ := h.waiter _ ch hch
      simp only [Runtime.setJob, Runtime.remove, modify_eq_set ha, ← hid]
      refine hreport.change ha hopen.live rfl ?_ (Or.inl rfl)
      rcases hopen with hstage | ⟨ch', hstage⟩ | hstage
      · exact absurd hid (hquiet a (List.mem_of_getElem? ha) hstage)
      · have hjob := h.job ch a ha
        simp only [JobOk, hstage] at hjob
        simp only [JobOk, Job.post, hstage]
        exact ⟨hjob.1, Or.inr ⟨(Option.some_ne_none _).symm, req.result, hid.symm, rfl, rfl⟩⟩
      · simp only [JobOk, Job.post, hstage]
    · exact hreport

theorem inv_step {layout : Nat → GoString} {s : Runtime} {act : Action} {s' : Runtime} (h : Inv s)
    (hquiet : Quiet layout s act) (hstep : step layout s act = some s') : Inv s' := by
  cases act with
  | wake now ramRequestMb =>
    obtain rfl := Option.some.inj hstep
    exact ⟨h.job, h.waiter, h.distinct⟩
  | stop =>
    obtain rfl := Option.some.inj hstep
    exact ⟨h.job, h.waiter, h.distinct⟩
  | infer req snap t t' =>
    simp only [step] at hstep
    split at hstep
    · next prompt hprompt =>
      obtain rfl := Option.some.inj hstep
      exact h.queueInfer prompt (hquiet (by rw [hprompt]; rfl))
    · obtain rfl := Option.some.inj hstep
      exact h
  | sync now req =>
    obtain rfl := Option.some.inj hstep
    exact h.updateApkReport now hquiet
  | poll =>
    obtain rfl := Option.some.inj hstep
    unfold takeSyncResponse
    dsimp only
    split <;> exact ⟨h.job, h.waiter, h.distinct⟩
  | lookUp k => exact h.lookUp hstep
  | receive k => exact h.receive hstep
  | timeOut k => exact h.timeOut hstep
  | finish k => exact h.finish hstep

/-! ## How a handler ends -/

/-- The handler of the job can end with this result. -/
def EndsWith (layout : Nat → GoString) (s : Runtime) (k : Nat) (res : InferResult) : Prop :=
  ∃ acts s' b, (∀ act ∈ acts, Action.Handles k act) ∧ runSteps (step layout) s acts = some s' ∧
    s'.jobs[k]? = some b ∧ b.stage = .done res true

variable {layout : Nat → GoString}

/-- One more step in front. -/
theorem EndsWith.cons {s t : Runtime} {k : Nat} {res : InferResult} {act : Action}
    (hact : Action.Handles k act) (hstep : step layout s act = some t) (h : EndsWith layout t k res) :
    EndsWith layout s k res := by
  obtain ⟨acts, s', b, hacts, hrun, hb, hdone⟩ := h
  refine ⟨act :: acts, s', b, ?_, runSteps_cons_eq_some.2 ⟨t, hstep, hrun⟩, hb, hdone⟩
  intro act' hact'
  rcases List.mem_cons.1 hact' with rfl | hact'
  · exact hact
  · exact hacts act' hact'

theorem getElem?_setJob {s : Runtime} {k : Nat} {a : Job} (ha : s.jobs[k]? = some a) (f : Job → Job) :
    (s.setJob k f).jobs[k]? = some (f a) := by
  rw [Runtime.setJob, modify_eq_set ha]
  exact getElem?_set_self ha (f a)

variable (layout)

theorem endsWith_received {s : Runtime} {k : Nat} {a : Job} {res : InferResult} (ha : s.jobs[k]? = some a)
    (hstage : a.stage = .received res) : EndsWith layout s k res := by
  obtain ⟨id, prompt, channel, stage, answer⟩ := a
  obtain rfl : stage = .received res := hstage
  refine ⟨[.finish k], (s.setJob k (Job.goTo (.done res true))).remove id, _, ?_, ?_,
    getElem?_setJob ha (Job.goTo (.done res true)), rfl⟩
  · simp [Action.Handles]
  · rw [runSteps_cons_eq_some]
    refine ⟨_, ?_, rfl⟩
    simp only [step, finish, ha]

theorem endsWith_timedOut {s : Runtime} {k : Nat} {a : Job} (ha : s.jobs[k]? = some a)
    (hstage : a.stage = .timedOut) : EndsWith layout s k (timeoutResult a.id) := by
  obtain ⟨id, prompt, channel, stage, answer⟩ := a
  obtain rfl : stage = .timedOut := hstage
  refine ⟨[.finish k], (s.setJob k (Job.goTo (.done (timeoutResult id) true))).remove id, _, ?_, ?_,
    getElem?_setJob ha (Job.goTo (.done (timeoutResult id) true)), rfl⟩
  · simp [Action.Handles]
  · rw [runSteps_cons_eq_some]
    refine ⟨_, ?_, rfl⟩
    simp only [step, finish, ha]

/-- Without a result there is a time-out. -/
theorem endsWith_waiting {s : Runtime} {k : Nat} {a : Job} {ch : Nat} (ha : s.jobs[k]? = some a)
    (hstage : a.stage = .waiting ch) : EndsWith layout s k (timeoutResult a.id) := by
  obtain ⟨id, prompt, channel, stage, answer⟩ := a
  obtain rfl : stage = .waiting ch := hstage
  have hstep : step layout s (.timeOut k) = some (s.setJob k (Job.goTo .timedOut)) := by
    simp only [step, timeOut, ha]
  have hends := endsWith_timedOut layout (getElem?_setJob ha (Job.goTo .timedOut)) rfl
  exact EndsWith.cons (by simp [Action.Handles]) hstep hends

/-- A result in the channel is taken. -/
theorem endsWith_channel {s : Runtime} {k : Nat} {a : Job} {res : InferResult} (ha : s.jobs[k]? = some a)
    (hstage : a.stage = .waiting k) (hchannel : a.channel = some res) : EndsWith layout s k res := by
  have hbuffer : s.jobs[k]?.bind Job.channel = some res := by rw [ha, Option.bind_some, hchannel]
  obtain ⟨id, prompt, channel, stage, answer⟩ := a
  obtain rfl : stage = .waiting k := hstage
  have hstep : step layout s (.receive k) =
      some ((s.setJob k Job.drain).setJob k (Job.goTo (.received res))) := by
    simp only [step, receive, ha]
    rw [ha] at hbuffer
    rw [hbuffer]
  have hends := endsWith_received layout
    (getElem?_setJob (getElem?_setJob ha Job.drain) (Job.goTo (.received res))) rfl
  exact EndsWith.cons (by simp [Action.Handles]) hstep hends

theorem endsWith_queued {s : Runtime} {k : Nat} {a : Job} {ch : Nat} (ha : s.jobs[k]? = some a)
    (hstage : a.stage = .queued) (hreg : s.inferWaiters a.id = some ch) :
    EndsWith layout s k (timeoutResult a.id) := by
  obtain ⟨id, prompt, channel, stage, answer⟩ := a
  obtain rfl : stage = .queued := hstage
  have hstep : step layout s (.lookUp k) = some (s.setJob k (Job.goTo (.waiting ch))) := by
    have hreg' : s.inferWaiters id = some ch := hreg
    simp only [step, Edge.lookUp, ha, hreg']
  have hends := endsWith_waiting layout (getElem?_setJob ha (Job.goTo (.waiting ch))) rfl
  exact EndsWith.cons (by simp [Action.Handles]) hstep hends

theorem Inv.endsWith {s : Runtime} (h : Inv s) {k : Nat} {a : Job} (ha : s.jobs[k]? = some a)
    (hlive : a.Live) : ∃ res, EndsWith layout s k res ∧ res.jobID = a.id ∧
      ∀ r, a.answer = some r → a.stage ≠ .timedOut → res = r := by
  have hjob := h.job k a ha
  cases hstage : a.stage with
  | queued =>
    simp only [JobOk, hstage] at hjob
    refine ⟨_, endsWith_queued layout ha hstage hjob.1, rfl, fun r hr => ?_⟩
    rw [hjob.2.2] at hr
    exact absurd hr.symm (Option.some_ne_none _)
  | waiting ch =>
    simp only [JobOk, hstage] at hjob
    obtain ⟨rfl, ⟨-, -, hanswer⟩ | ⟨-, res, hid, hchannel, hanswer⟩⟩ := hjob
    · refine ⟨_, endsWith_waiting layout ha hstage, rfl, fun r hr => ?_⟩
      rw [hanswer] at hr
      exact absurd hr.symm (Option.some_ne_none _)
    · refine ⟨res, endsWith_channel layout ha hstage hchannel, hid, fun r hr _ => ?_⟩
      exact Option.some.inj (hanswer.symm.trans hr)
  | received res =>
    simp only [JobOk, hstage] at hjob
    refine ⟨res, endsWith_received layout ha hstage, hjob.1, fun r hr _ => ?_⟩
    exact Option.some.inj (hjob.2.1.symm.trans hr)
  | timedOut => exact ⟨_, endsWith_timedOut layout ha hstage, rfl, fun r _ hne => absurd rfl hne⟩
  | done res ok => exact absurd hstage (hlive res ok)

theorem Inv.handedOver {s : Runtime} (h : Inv s) : HandedOver layout s where
  distinct := h.distinct
  outcome := by
    intro i a res ok ha hstage
    have hjob := h.job i a ha
    simpa only [JobOk, hstage] using hjob
  progress := by
    intro i a ha hlive
    obtain ⟨res, ⟨acts, s', b, hacts, hrun, hb, hdone⟩, hid, hanswer⟩ := h.endsWith layout ha hlive
    exact ⟨acts, s', b, res, hacts, hrun, hb, hdone, hid, hanswer⟩

/-! ## Ids -/

/-- The four digits depend on the time modulo 128, so that a second has 128 ids at most. -/
theorem randomHex_mod (t : Nat) : randomHex 4 0 (t % 128) = randomHex 4 0 t := by
  have h0 : (t % 128 + 0 * 17) % 16 = (t + 0 * 17) % 16 := by omega
  have h1 : (t % 128 / 2 + (0 + 1) * 17) % 16 = (t / 2 + (0 + 1) * 17) % 16 := by omega
  have h2 : (t % 128 / 2 / 2 + (0 + 1 + 1) * 17) % 16 = (t / 2 / 2 + (0 + 1 + 1) * 17) % 16 := by omega
  have h3 : (t % 128 / 2 / 2 / 2 + (0 + 1 + 1 + 1) * 17) % 16 =
      (t / 2 / 2 / 2 + (0 + 1 + 1 + 1) * 17) % 16 := by omega
  simp only [randomHex, Nat.shiftRight_succ, Nat.shiftRight_zero, h0, h1, h2, h3]

/-- Two jobs of the same second get the same id if their times agree modulo 128. -/
theorem newJobID_clash (layout : Nat → GoString) {t u t' u' : Nat} (hsecond : t / 10 ^ 9 = u / 10 ^ 9)
    (hmod : t' % 128 = u' % 128) : newJobID layout t t' = newJobID layout u u' := by
  rw [newJobID, newJobID, hsecond, ← randomHex_mod t', hmod, randomHex_mod]

/-! ## Runs -/

theorem inv_boot : Inv boot :=
  ⟨fun i a ha => absurd ha (by simp [boot]), fun id ch hch => absurd hch (by simp [boot]),
    fun i j a b ha => absurd ha (by simp [boot])⟩

/-- **As long as new ids are not those of live jobs and no result is posted between the registration of a
channel and its look-up, live jobs have different ids, every handler that has returned has the result of its
own job or a time-out, and every other one can go on to such an end.** -/
theorem handedOver_of_quiet {layout : Nat → GoString} {acts : List Action} {s : Runtime}
    (hrun : runSteps (step layout) boot acts = some s)
    (hquiet : StepsMeet (step layout) (Quiet layout) boot acts) : HandedOver layout s :=
  (runSteps_invariant_of_meet (fun _ _ _ hs hq hstep => inv_step hs hq hstep) hrun hquiet
    inv_boot).handedOver layout

/-- A request for deep inference while the phone is there. -/
def askDeep : Action := .infer ⟨"why?", "deep"⟩ ⟨true, false⟩ 0 0

/-- The id of its job. -/
def askedID : GoString := newJobID (fun n => itoa n) 0 0

/-- The phone posts the answer. -/
def postAnswer : Action := .sync 5 { SyncRequest.zero with inferJobID := askedID, inferContent := "because" }

theorem handedOver_of_quiet_inTurn :
    ∃ s, runSteps (step fun n => itoa n) boot
        [askDeep, .poll, .lookUp 0, postAnswer, .receive 0, .finish 0] = some s ∧
      HandedOver (fun n => itoa n) s := by
  obtain ⟨s, hrun⟩ : ∃ s, runSteps (step fun n => itoa n) boot
      [askDeep, .poll, .lookUp 0, postAnswer, .receive 0, .finish 0] = some s := ⟨_, rfl⟩
  refine ⟨s, hrun, handedOver_of_quiet hrun ?_⟩
  refine stepsMeet_cons (fun _ a ha => absurd ha List.not_mem_nil) rfl ?_
  refine stepsMeet_cons trivial rfl (stepsMeet_cons trivial rfl ?_)
  refine stepsMeet_cons ?_ rfl (stepsMeet_cons trivial rfl (stepsMeet_cons trivial rfl trivial))
  intro a ha hqueued
  obtain rfl := List.mem_singleton.1 ha
  exact Stage.noConfusion hqueued

/-- The phone polls and answers before the handler has looked up the channel: the result is lost. -/
theorem early_answer_lost :
    ∃ s, runSteps (step fun n => itoa n) boot [askDeep, .poll, postAnswer, .lookUp 0] = some s ∧
      ¬ HandedOver (fun n => itoa n) s := by
  refine ⟨_, rfl, ?_⟩
  intro h
  obtain ⟨hok, -⟩ := h.outcome 0 _ _ _ rfl rfl
  exact absurd hok Bool.false_ne_true

end Gafam.Edge
