import Gafam.Android.EdgeInference
import Mathlib.Data.List.Perm.Basic
import Mathlib.Data.List.Count
import Mathlib.Data.List.Nodup

/-!
# Proofs: one report for each job

What the successful requests have carried, what is being read or sent, and the result that nobody has taken
yet are together the results of the jobs that have ended. Each result moves from one of the three places to
the next.
-/

namespace Gafam.Android.EdgeInference

open Gafam.Js
open Gafam.Lib (runSteps StepsMeet runSteps_invariant_of_meet)

/-! ## Where a result is -/

/-- The result in a report. -/
def InferReport.result (r : InferReport) : JobResult := ⟨r.jobId, r.content, r.error⟩

/-- The result that the fields hold. -/
def Fields.result (f : Fields) : JobResult := ⟨f.lastInferJobId, f.lastInferContent, f.lastInferError⟩

/-- The result that a sync has marked, when nothing is overwritten. -/
def Sync.taken (f : Fields) : Sync → List JobResult
  | .readJobId => [f.result]
  | .readContent jobId => [⟨jobId, f.lastInferContent, f.lastInferError⟩]
  | .readError jobId content => [⟨jobId, content, f.lastInferError⟩]
  | .readLatency jobId content error => [⟨jobId, content, error⟩]
  | .sending (some r) => [r.result]
  | _ => []

/-- The sync of a thread, if there is one. -/
def takenBy (f : Fields) (sync : Option Sync) : List JobResult := (sync.map (Sync.taken f)).getD []

/-- The result in the fields, unless it is marked. -/
def Fields.pending (f : Fields) : List JobResult := if f.inferReported then [] else [f.result]

/-- The result that nobody has marked yet. -/
def Task.pending (f : Fields) : Task → List JobResult
  | .infer jobId (.setContent answer) => [⟨jobId, answer, []⟩]
  | .infer jobId (.setError message) => [⟨jobId, [], message⟩]
  | .infer _ .setLatency => f.pending
  | .infer _ .setErrorLatency => f.pending
  | .infer _ .setErrorState => f.pending
  | .infer _ .checkInferring => f.pending
  | .infer _ .leaveInferring => f.pending
  | .infer _ _ => []
  | _ => f.pending

/-- The fields hold no result. -/
structure Fields.Empty (f : Fields) (jobId : JsString) : Prop where
  jobId : f.lastInferJobId = jobId
  content : f.lastInferContent = []
  error : f.lastInferError = []
  reported : f.inferReported = false

/-- The fields hold a result to report. -/
structure Fields.Full (f : Fields) : Prop where
  jobId : isBlank f.lastInferJobId = false
  result : ¬ (isBlank f.lastInferContent = true ∧ isBlank f.lastInferError = true)

/-- What the fields hold at each stage of a job. -/
def StageOk (f : Fields) (jobId : JsString) : Stage → Prop
  | .setJobId => f.inferReported = true
  | .clearContent => f.inferReported = true ∧ f.lastInferJobId = jobId
  | .clearError => f.inferReported = true ∧ f.lastInferJobId = jobId ∧ f.lastInferContent = []
  | .unreport => f.inferReported = true ∧ f.lastInferJobId = jobId ∧ f.lastInferContent = [] ∧
      f.lastInferError = []
  | .setContent answer => f.Empty jobId ∧ isBlank answer = false
  | .setError message => f.Empty jobId ∧ isBlank message = false
  | .setLatency => f.Full
  | .setErrorLatency => f.Full
  | .setErrorState => f.Full
  | .checkInferring => f.Full
  | .leaveInferring => f.Full
  | _ => f.Empty jobId

/-- The job has no result yet. -/
def Stage.isBefore : Stage → Bool
  | .setContent _ => false
  | .setLatency => false
  | .setError _ => false
  | .setErrorLatency => false
  | .setErrorState => false
  | .checkInferring => false
  | .leaveInferring => false
  | _ => true

/-- What the fields hold when no job is running. -/
structure Fields.Rests (f : Fields) : Prop where
  state : f.edgeService ≠ .inferring
  full : f.inferReported = true ∨ f.Full

/-- What a sync that began after the latest job has seen. -/
def Sync.Late (f : Fields) : Sync → Prop
  | .started => True
  | .checkJobId => True
  | .checkState => True
  | .checkContent => True
  | .checkError => isBlank f.lastInferContent = true
  | .mark => True
  | _ => f.inferReported = true

/-- A sync that began after the latest job does not mind another one that marks the report. -/
theorem Sync.Late.mark {f : Fields} {sync : Sync} (h : sync.Late f) :
    sync.Late { f with inferReported := true } := by
  cases sync with
  | checkError => exact h
  | started => trivial
  | checkJobId => trivial
  | checkState => trivial
  | checkContent => trivial
  | mark => trivial
  | _ => rfl

/-- What the executor is at. -/
def TaskOk (s : Phone) : Task → Prop
  | .idle => s.fields.Rests
  | .onDone sync => s.fields.Rests ∧ sync.Late s.fields
  | .infer jobId stage => isBlank jobId = false ∧ StageOk s.fields jobId stage ∧
      (stage.isBefore = true → s.followed = s.ended ∧ jobId ∉ s.ended.map JobResult.jobId)

/-- All results are somewhere. -/
structure Inv (s : Phone) : Prop where
  placed : (s.reports.map InferReport.result ++ (takenBy s.fields s.poll ++
    (takenBy s.fields (s.sync .executor) ++ s.executor.pending s.fields))).Perm s.ended
  ids : (s.ended.map JobResult.jobId).Nodup
  task : TaskOk s s.executor
  late : s.late = true → s.executor.isOver = true ∧ ∀ sync ∈ s.poll, sync.Late s.fields
  followed : ∃ rest, s.ended = s.followed ++ rest ∧
    (s.executor.pending s.fields = [] ∨ rest = s.executor.pending s.fields)

theorem inv_start : Inv start where
  placed := List.Perm.nil
  ids := List.nodup_nil
  task := ⟨nofun, .inl rfl⟩
  late := nofun
  followed := ⟨[], rfl, .inl rfl⟩

/-! ## Fields that do not matter -/

/-- The fields agree on the result and on whether it is marked. -/
structure Same (f f' : Fields) : Prop where
  result : f'.result = f.result
  reported : f'.inferReported = f.inferReported

section Same

variable {f f' : Fields}

theorem taken_congr (h : f'.result = f.result) (sync : Sync) : sync.taken f' = sync.taken f := by
  obtain ⟨hid, hcontent, herror⟩ := JobResult.mk.inj h
  cases sync with
  | readJobId => exact congrArg (fun r => [r]) h
  | readContent jobId => exact congrArg₂ (fun c e => [(⟨jobId, c, e⟩ : JobResult)]) hcontent herror
  | readError jobId content => exact congrArg (fun e => [(⟨jobId, content, e⟩ : JobResult)]) herror
  | sending r => cases r <;> rfl
  | _ => rfl

theorem takenBy_congr (h : f'.result = f.result) (sync : Option Sync) : takenBy f' sync = takenBy f sync := by
  cases sync with
  | none => rfl
  | some sync => exact taken_congr h sync

theorem Same.pending (h : Same f f') (task : Task) : task.pending f' = task.pending f := by
  have hfields : f'.pending = f.pending := by
    unfold Fields.pending
    rw [h.reported, h.result]
  cases task with
  | infer jobId stage => cases stage <;> first | exact hfields | rfl
  | _ => exact hfields

theorem Same.full (h : Same f f') (hfull : f.Full) : f'.Full := by
  obtain ⟨hid, hcontent, herror⟩ := JobResult.mk.inj h.result
  refine ⟨?_, ?_⟩
  · rw [hid]
    exact hfull.jobId
  · rw [hcontent, herror]
    exact hfull.result

theorem Same.stageOk (h : Same f f') {jobId : JsString} {stage : Stage} (hok : StageOk f jobId stage) :
    StageOk f' jobId stage := by
  obtain ⟨hid, hcontent, herror⟩ := JobResult.mk.inj h.result
  have hempty : f.Empty jobId → f'.Empty jobId := fun he =>
    ⟨hid.trans he.jobId, hcontent.trans he.content, herror.trans he.error, h.reported.trans he.reported⟩
  cases stage with
  | setJobId => exact h.reported.trans hok
  | clearContent => exact ⟨h.reported.trans hok.1, hid.trans hok.2⟩
  | clearError => exact ⟨h.reported.trans hok.1, hid.trans hok.2.1, hcontent.trans hok.2.2⟩
  | unreport =>
    obtain ⟨hreported, hjob, hempty, hnone⟩ := hok
    exact ⟨h.reported.trans hreported, hid.trans hjob, hcontent.trans hempty, herror.trans hnone⟩
  | setContent answer => exact ⟨hempty hok.1, hok.2⟩
  | setError message => exact ⟨hempty hok.1, hok.2⟩
  | setLatency => exact h.full hok
  | setErrorLatency => exact h.full hok
  | setErrorState => exact h.full hok
  | checkInferring => exact h.full hok
  | leaveInferring => exact h.full hok
  | _ => exact hempty hok

theorem Same.late (h : Same f f') {sync : Sync} (hlate : sync.Late f) : sync.Late f' := by
  obtain ⟨-, hcontent, -⟩ := JobResult.mk.inj h.result
  cases sync with
  | checkError =>
    show isBlank f'.lastInferContent = true
    rw [hcontent]
    exact hlate
  | started => trivial
  | checkJobId => trivial
  | checkState => trivial
  | checkContent => trivial
  | mark => trivial
  | _ => exact h.reported.trans hlate

theorem Same.rests (h : Same f f') (hrests : f.Rests) (hstate : f'.edgeService ≠ .inferring) : f'.Rests := by
  refine ⟨hstate, ?_⟩
  rcases hrests.full with hreported | hfull
  · exact .inl (h.reported.trans hreported)
  · exact .inr (h.full hfull)

end Same

/-- A change of other fields. -/
theorem Inv.other {s : Phone} (h : Inv s) {f : Fields} (hsame : Same s.fields f)
    (hstate : s.fields.edgeService ≠ .inferring → f.edgeService ≠ .inferring) :
    Inv { s with fields := f } where
  placed := by
    show (s.reports.map InferReport.result ++ (takenBy f s.poll ++ (takenBy f (s.sync .executor) ++
      s.executor.pending f))).Perm s.ended
    rw [takenBy_congr hsame.result, takenBy_congr hsame.result, hsame.pending]
    exact h.placed
  ids := h.ids
  task := by
    have htask := h.task
    show TaskOk { s with fields := f } s.executor
    cases hexec : s.executor with
    | idle =>
      rw [hexec] at htask
      exact hsame.rests htask (hstate htask.state)
    | infer jobId stage =>
      rw [hexec] at htask
      exact ⟨htask.1, hsame.stageOk htask.2.1, htask.2.2⟩
    | onDone sync =>
      rw [hexec] at htask
      exact ⟨hsame.rests htask.1 (hstate htask.1.state), hsame.late htask.2⟩
  late := fun hlate => ⟨(h.late hlate).1, fun sync hsync => hsame.late ((h.late hlate).2 sync hsync)⟩
  followed := by
    obtain ⟨rest, hrest, hpending⟩ := h.followed
    refine ⟨rest, hrest, ?_⟩
    show s.executor.pending f = [] ∨ rest = s.executor.pending f
    rw [hsame.pending]
    exact hpending

/-! ## A job -/

theorem pending_eq_nil {f : Fields} : f.pending = [] ↔ f.inferReported = true := by
  unfold Fields.pending
  cases f.inferReported <;> simp

/-- The next step of a job. -/
theorem runInfer_spec {f f' : Fields} {latencyMs : Int} {jobId : JsString} {stage : Stage} {task : Task}
    (h : runInfer f latencyMs jobId stage = some (f', task)) (hid : isBlank jobId = false)
    (hok : StageOk f jobId stage) :
    task.pending f' = (Task.infer jobId stage).pending f ∧
      ((∃ stage', task = .infer jobId stage' ∧ StageOk f' jobId stage' ∧
          (stage'.isBefore = true → stage.isBefore = true)) ∨
        (task = .onDone .started ∧ f'.Rests)) := by
  cases stage with
  | setJobId =>
    cases h
    exact ⟨rfl, .inl ⟨_, rfl, ⟨hok, rfl⟩, id⟩⟩
  | clearContent =>
    cases h
    exact ⟨rfl, .inl ⟨_, rfl, ⟨hok.1, hok.2, rfl⟩, id⟩⟩
  | clearError =>
    cases h
    exact ⟨rfl, .inl ⟨_, rfl, ⟨hok.1, hok.2.1, hok.2.2, rfl⟩, id⟩⟩
  | unreport =>
    cases h
    exact ⟨rfl, .inl ⟨_, rfl, ⟨hok.2.1, hok.2.2.1, hok.2.2.2, rfl⟩, id⟩⟩
  | checkLoaded =>
    cases h
    by_cases hloaded : f.loaded = true
    · rw [if_pos hloaded]
      exact ⟨rfl, .inl ⟨_, rfl, hok, id⟩⟩
    · rw [if_neg hloaded]
      exact ⟨rfl, .inl ⟨_, rfl, hok, id⟩⟩
  | setLoading =>
    cases h
    exact ⟨rfl, .inl ⟨_, rfl, ⟨hok.jobId, hok.content, hok.error, hok.reported⟩, id⟩⟩
  | load => cases h
  | setAwake =>
    cases h
    exact ⟨rfl, .inl ⟨_, rfl, ⟨hok.jobId, hok.content, hok.error, hok.reported⟩, id⟩⟩
  | setInferring =>
    cases h
    exact ⟨rfl, .inl ⟨_, rfl, ⟨hok.jobId, hok.content, hok.error, hok.reported⟩, id⟩⟩
  | complete => cases h
  | setContent answer =>
    cases h
    obtain ⟨hempty, hanswer⟩ := hok
    refine ⟨?_, .inl ⟨_, rfl, ⟨?_, fun hblank => ?_⟩, nofun⟩⟩
    · show Fields.pending _ = [⟨jobId, answer, []⟩]
      unfold Fields.pending Fields.result
      dsimp only
      rw [hempty.reported, hempty.jobId, hempty.error]
      rfl
    · exact (congrArg isBlank hempty.jobId).trans hid
    · exact Bool.false_ne_true (hanswer.symm.trans hblank.1)
  | setLatency =>
    cases h
    exact ⟨rfl, .inl ⟨_, rfl, ⟨hok.jobId, hok.result⟩, nofun⟩⟩
  | setError message =>
    cases h
    obtain ⟨hempty, hmessage⟩ := hok
    refine ⟨?_, .inl ⟨_, rfl, ⟨?_, fun hblank => ?_⟩, nofun⟩⟩
    · show Fields.pending _ = [⟨jobId, [], message⟩]
      unfold Fields.pending Fields.result
      dsimp only
      rw [hempty.reported, hempty.jobId, hempty.content]
      rfl
    · exact (congrArg isBlank hempty.jobId).trans hid
    · exact Bool.false_ne_true (hmessage.symm.trans hblank.2)
  | setErrorLatency =>
    cases h
    exact ⟨rfl, .inl ⟨_, rfl, ⟨hok.jobId, hok.result⟩, nofun⟩⟩
  | setErrorState =>
    cases h
    exact ⟨rfl, .inl ⟨_, rfl, ⟨hok.jobId, hok.result⟩, nofun⟩⟩
  | checkInferring =>
    cases h
    by_cases hstate : f.edgeService = .inferring
    · rw [if_pos hstate]
      exact ⟨rfl, .inl ⟨_, rfl, hok, nofun⟩⟩
    · rw [if_neg hstate]
      exact ⟨rfl, .inr ⟨rfl, hstate, .inr hok⟩⟩
  | leaveInferring =>
    cases h
    refine ⟨rfl, .inr ⟨rfl, ?_, .inr ⟨hok.jobId, hok.result⟩⟩⟩
    dsimp only
    split_ifs <;> nofun

/-- What the next step of a job does to the result in the fields. -/
theorem runInfer_fields {f f' : Fields} {latencyMs : Int} {jobId : JsString} {stage : Stage} {task : Task}
    (h : runInfer f latencyMs jobId stage = some (f', task)) :
    f'.result = ⟨(Task.infer jobId stage).writes.1.getD f.lastInferJobId,
      (Task.infer jobId stage).writes.2.1.getD f.lastInferContent,
      (Task.infer jobId stage).writes.2.2.getD f.lastInferError⟩ := by
  cases stage <;> cases h <;> rfl

/-- The loop keeps what it has marked, when nothing that it has yet to read is overwritten. -/
theorem taken_undisturbed {f f' : Fields} {sync : Sync} {id content error : Option JsString}
    (hresult : f'.result = ⟨id.getD f.lastInferJobId, content.getD f.lastInferContent,
      error.getD f.lastInferError⟩)
    (hid : sync.needsJobId = true → ∀ v ∈ id, v = f.lastInferJobId)
    (hcontent : sync.needsContent = true → ∀ v ∈ content, v = f.lastInferContent)
    (herror : sync.needsError = true → ∀ v ∈ error, v = f.lastInferError) :
    sync.taken f' = sync.taken f := by
  have hkeep : ∀ {o : Option JsString} {old : JsString}, (∀ v ∈ o, v = old) → o.getD old = old := by
    intro o old h
    cases o with
    | none => rfl
    | some v => exact h v rfl
  obtain ⟨hid', hcontent', herror'⟩ := JobResult.mk.inj hresult
  cases sync with
  | readJobId =>
    have hsame : f'.result = f.result := by
      rw [hresult, hkeep (hid rfl), hkeep (hcontent rfl), hkeep (herror rfl)]
      rfl
    exact taken_congr hsame _
  | readContent jobId =>
    rw [hkeep (hcontent rfl)] at hcontent'
    rw [hkeep (herror rfl)] at herror'
    exact congrArg₂ (fun c e => [(⟨jobId, c, e⟩ : JobResult)]) hcontent' herror'
  | readError jobId content =>
    rw [hkeep (herror rfl)] at herror'
    exact congrArg (fun e => [(⟨jobId, content, e⟩ : JobResult)]) herror'
  | sending r => cases r <;> rfl
  | _ => rfl

/-! ## A sync -/

/-- A step of `takeInferReport` marks the report, or it keeps the fields and what the sync has marked. -/
theorem takeInferReport_spec {f f' : Fields} {sync sync' : Sync}
    (h : takeInferReport f sync = some (f', sync')) :
    (sync = .mark ∧ f' = { f with inferReported := true } ∧ sync' = .readJobId) ∨
      (sync ≠ .mark ∧ f' = f ∧ sync'.taken f = sync.taken f) := by
  cases sync with
  | mark =>
    cases h
    exact .inl ⟨rfl, rfl, rfl⟩
  | sending r => cases h
  | _ =>
    cases h
    refine .inr ⟨nofun, rfl, ?_⟩
    first
      | rfl
      | split_ifs <;> rfl

/-- What a sync after the latest job sees. -/
theorem late_take {f f' : Fields} {sync sync' : Sync} (hrests : f.Rests) (hlate : sync.Late f)
    (h : takeInferReport f sync = some (f', sync')) : sync'.Late f' := by
  have hmarked : ¬ f.Full → f.inferReported = true := fun hno => hrests.full.resolve_right hno
  cases sync with
  | started =>
    cases h
    by_cases hreported : f.inferReported = true
    · rw [if_pos hreported]
      exact hreported
    · rw [if_neg hreported]
      trivial
  | checkJobId =>
    cases h
    by_cases hblank : isBlank f.lastInferJobId = true
    · rw [if_pos hblank]
      exact hmarked fun hfull => Bool.false_ne_true (hfull.jobId.symm.trans hblank)
    · rw [if_neg hblank]
      trivial
  | checkState =>
    cases h
    rw [if_neg hrests.state]
    trivial
  | checkContent =>
    cases h
    by_cases hblank : isBlank f.lastInferContent = true
    · rw [if_pos hblank]
      exact hblank
    · rw [if_neg hblank]
      trivial
  | checkError =>
    cases h
    by_cases hblank : isBlank f.lastInferError = true
    · rw [if_pos hblank]
      exact hmarked fun hfull => hfull.result ⟨hlate, hblank⟩
    · rw [if_neg hblank]
      trivial
  | mark =>
    cases h
    rfl
  | sending r => cases h
  | _ =>
    cases h
    exact hlate

section Mark

variable {f : Fields} (hreported : f.inferReported = false)
  (hthere : ¬ (isBlank f.lastInferContent = true ∧ isBlank f.lastInferError = true))
include hreported hthere

/-- A result that is there and not marked is the pending one. -/
theorem pending_mark {s : Phone} {task : Task} (hs : s.fields = f) (hok : TaskOk s task) :
    task.pending f = [f.result] ∧ task.pending { f with inferReported := true } = [] ∧
      TaskOk { s with fields := { f with inferReported := true } } task := by
  have hpending : f.pending = [f.result] := by
    unfold Fields.pending
    rw [hreported]
    rfl
  have hempty : ∀ jobId, ¬ f.Empty jobId := fun jobId he =>
    hthere ⟨by rw [he.content]; rfl, by rw [he.error]; rfl⟩
  have hmarked : f.inferReported ≠ true := fun h => Bool.false_ne_true (hreported.symm.trans h)
  have hrests : f.Rests → Fields.Rests { f with inferReported := true } := fun h => ⟨h.state, .inl rfl⟩
  have hfull : f.Full → Fields.Full { f with inferReported := true } := fun h => ⟨h.jobId, h.result⟩
  subst hs
  cases task with
  | idle => exact ⟨hpending, rfl, hrests hok⟩
  | onDone sync =>
    exact ⟨hpending, rfl, hrests hok.1, hok.2.mark⟩
  | infer jobId stage =>
    obtain ⟨hid, hstage, hbefore⟩ := hok
    cases stage with
    | setJobId => exact absurd hstage hmarked
    | clearContent => exact absurd hstage.1 hmarked
    | clearError => exact absurd hstage.1 hmarked
    | unreport => exact absurd hstage.1 hmarked
    | setContent answer => exact absurd hstage.1 (hempty jobId)
    | setError message => exact absurd hstage.1 (hempty jobId)
    | setLatency => exact ⟨hpending, rfl, hid, hfull hstage, hbefore⟩
    | setErrorLatency => exact ⟨hpending, rfl, hid, hfull hstage, hbefore⟩
    | setErrorState => exact ⟨hpending, rfl, hid, hfull hstage, hbefore⟩
    | checkInferring => exact ⟨hpending, rfl, hid, hfull hstage, hbefore⟩
    | leaveInferring => exact ⟨hpending, rfl, hid, hfull hstage, hbefore⟩
    | _ => exact absurd hstage (hempty jobId)

end Mark

/-! ## What one step preserves -/

theorem Inv.job {s s' : Phone} (h : Inv s) {jobId : JsString} (hfollowed : s.followed = s.ended)
    (hstep : step s (.job jobId) = some s') : Inv s' := by
  unfold step at hstep
  dsimp only at hstep
  by_cases hc : s.executor = .idle ∧ isBlank jobId = false ∧ jobId ∉ s.ended.map JobResult.jobId
  · rw [if_pos hc] at hstep
    cases hstep
    obtain ⟨hidle, hid, hfresh⟩ := hc
    obtain ⟨rest, hrest, hpending⟩ := h.followed
    have hnil : s.fields.pending = [] := by
      have hrest' : rest = [] := by
        rw [hfollowed] at hrest
        exact List.self_eq_append_right.1 hrest
      rw [hidle] at hpending
      rcases hpending with hnil | hnil
      · exact hnil
      · exact hnil.symm.trans hrest'
    have hplaced := h.placed
    unfold Phone.sync at hplaced
    rw [hidle] at hplaced
    refine ⟨?_, h.ids, ⟨hid, pending_eq_nil.1 hnil, fun _ => ⟨hfollowed, hfresh⟩⟩, nofun, ?_⟩
    · have hplaced' : (s.reports.map InferReport.result ++ (takenBy s.fields s.poll ++
          ([] ++ s.fields.pending))).Perm s.ended := hplaced
      rw [hnil] at hplaced'
      exact hplaced'
    · exact ⟨rest, hrest, .inl rfl⟩
  · rw [if_neg hc] at hstep
    cases hstep

theorem Inv.work {s s' : Phone} (h : Inv s) {latencyMs : Int} (hC : Undisturbed s (.work latencyMs))
    (hstep : step s (.work latencyMs) = some s') : Inv s' := by
  unfold step at hstep
  cases hexec : s.executor with
  | infer jobId stage =>
    rw [hexec] at hstep
    obtain ⟨⟨f, task⟩, hrun, rfl⟩ := Option.map_eq_some_iff.1 hstep
    have htask := h.task
    have hplaced := h.placed
    have hfollowed := h.followed
    have hlate := h.late
    unfold Undisturbed at hC
    unfold Phone.sync at hplaced
    rw [hexec] at htask hplaced hfollowed hlate hC
    obtain ⟨hid, hstage, hbefore⟩ := htask
    obtain ⟨hpending, hnext⟩ := runInfer_spec hrun hid hstage
    have hpoll : takenBy f s.poll = takenBy s.fields s.poll := by
      cases hs : s.poll with
      | none => rfl
      | some sync =>
        obtain ⟨hid', hcontent, herror⟩ := hC sync hs
        exact taken_undisturbed (runInfer_fields hrun) hid' hcontent herror
    have hexecutor : takenBy f (Phone.sync { s with fields := f, executor := task } .executor) = [] := by
      rcases hnext with ⟨stage', rfl, -⟩ | ⟨rfl, -⟩ <;> rfl
    refine ⟨?_, h.ids, ?_, fun hl => Bool.false_ne_true.elim (hlate hl).1, ?_⟩
    · show (s.reports.map InferReport.result ++ (takenBy f s.poll ++
        (takenBy f (Phone.sync { s with fields := f, executor := task } .executor) ++ task.pending f))).Perm s.ended
      rw [hpoll, hexecutor, hpending]
      exact hplaced
    · rcases hnext with ⟨stage', rfl, hstage', hbefore'⟩ | ⟨rfl, hrests⟩
      · exact ⟨hid, hstage', fun hb => hbefore (hbefore' hb)⟩
      · exact ⟨hrests, trivial⟩
    · obtain ⟨rest, hrest, hp⟩ := hfollowed
      refine ⟨rest, hrest, ?_⟩
      show task.pending f = [] ∨ rest = task.pending f
      rw [hpending]
      exact hp
  | _ =>
    rw [hexec] at hstep
    cases hstep

/-- The end of a job. -/
theorem Inv.endJob {s : Phone} (h : Inv s) {result : JobResult} {stage stage' : Stage}
    (hexec : s.executor = .infer result.jobId stage) (hbefore : stage.isBefore = true)
    (hnone : (Task.infer result.jobId stage).pending s.fields = [])
    (hpending : (Task.infer result.jobId stage').pending s.fields = [result])
    (hafter : stage'.isBefore = false) (hstage : StageOk s.fields result.jobId stage') :
    Inv (s.endJob result stage') := by
  have htask := h.task
  have hplaced := h.placed
  have hlate := h.late
  unfold Phone.sync at hplaced
  rw [hexec] at htask hplaced hlate
  obtain ⟨hid, -, hbefore'⟩ := htask
  obtain ⟨hfollowed, hfresh⟩ := hbefore' hbefore
  refine ⟨?_, ?_, ⟨hid, hstage, fun hb => ?_⟩, fun hl => Bool.false_ne_true.elim (hlate hl).1,
    ⟨[result], ?_, .inr hpending.symm⟩⟩
  · show (s.reports.map InferReport.result ++ (takenBy s.fields s.poll ++
      ([] ++ (Task.infer result.jobId stage').pending s.fields))).Perm (s.ended ++ [result])
    have hold : (s.reports.map InferReport.result ++ (takenBy s.fields s.poll ++ ([] ++ []))).Perm s.ended := by
      rw [hnone] at hplaced
      exact hplaced
    rw [hpending]
    rw [List.append_nil, List.append_nil] at hold
    rw [List.nil_append, ← List.append_assoc]
    exact hold.append_right [result]
  · show ((s.ended ++ [result]).map JobResult.jobId).Nodup
    rw [List.map_append]
    exact List.nodup_append.2 ⟨h.ids, List.nodup_singleton _, fun a ha b hb heq => by
      obtain rfl := List.mem_singleton.1 hb
      exact hfresh (heq ▸ ha)⟩
  · rw [hafter] at hb
    cases hb
  · show s.ended ++ [result] = s.followed ++ [result]
    rw [hfollowed]

theorem Inv.poll {s s' : Phone} (h : Inv s) (hstep : step s .poll = some s') : Inv s' := by
  unfold step at hstep
  cases hpoll : s.poll with
  | some sync =>
    rw [hpoll] at hstep
    cases hstep
  | none =>
    rw [hpoll] at hstep
    cases hstep
    have hplaced := h.placed
    rw [hpoll] at hplaced
    refine ⟨hplaced, h.ids, h.task, fun hl => ⟨hl, ?_⟩, h.followed⟩
    rintro sync ⟨⟩
    trivial

theorem sync_executor {s : Phone} {sync : Sync} (h : s.sync .executor = some sync) :
    s.executor = .onDone sync := by
  unfold Phone.sync at h
  cases he : s.executor with
  | onDone y =>
    rw [he] at h
    exact congrArg Task.onDone (Option.some.inj h)
  | _ =>
    rw [he] at h
    cases h

/-- A sync that does not start and does not mark a report: the fields and what it has marked are kept. -/
theorem Inv.setSync {s : Phone} (h : Inv s) {c : Caller} {sync : Sync} (hsync : s.sync c = some sync)
    {next : Option Sync} (htaken : takenBy s.fields next = sync.taken s.fields)
    (hlate : s.fields.Rests → sync.Late s.fields → ∀ y ∈ next, y.Late s.fields) :
    Inv (s.setSync c next) := by
  have hplaced := h.placed
  have htask := h.task
  cases c with
  | poll =>
    have hpoll : s.poll = some sync := hsync
    rw [hpoll] at hplaced
    refine ⟨?_, h.ids, htask, fun hl => ?_, h.followed⟩
    · show (s.reports.map InferReport.result ++ (takenBy s.fields next ++
        (takenBy s.fields (s.sync .executor) ++ s.executor.pending s.fields))).Perm s.ended
      rw [htaken]
      exact hplaced
    · obtain ⟨hover, hpolls⟩ := h.late hl
      refine ⟨hover, hlate ?_ (hpolls sync hpoll)⟩
      cases hexec : s.executor with
      | infer jobId stage =>
        rw [hexec] at hover
        cases hover
      | idle =>
        rw [hexec] at htask
        exact htask
      | onDone y =>
        rw [hexec] at htask
        exact htask.1
  | executor =>
    have hexec := sync_executor hsync
    rw [hsync] at hplaced
    rw [hexec] at htask hplaced
    have hfollowed := h.followed
    have hover := h.late
    rw [hexec] at hfollowed hover
    obtain ⟨hrests, hl⟩ := htask
    cases next with
    | none =>
      refine ⟨?_, h.ids, hrests, fun hl => ⟨rfl, (hover hl).2⟩, hfollowed⟩
      show (s.reports.map InferReport.result ++ (takenBy s.fields s.poll ++
        (takenBy s.fields none ++ s.fields.pending))).Perm s.ended
      rw [htaken]
      exact hplaced
    | some y =>
      refine ⟨?_, h.ids, ⟨hrests, hlate hrests hl y rfl⟩, fun hl => ⟨rfl, (hover hl).2⟩, hfollowed⟩
      show (s.reports.map InferReport.result ++ (takenBy s.fields s.poll ++
        (takenBy s.fields (some y) ++ s.fields.pending))).Perm s.ended
      rw [htaken]
      exact hplaced

/-- The pending result is marked. -/
theorem Inv.mark {s : Phone} (h : Inv s) {c : Caller} (hsync : s.sync c = some .mark)
    (hreported : s.fields.inferReported = false)
    (hthere : ¬ (isBlank s.fields.lastInferContent = true ∧ isBlank s.fields.lastInferError = true)) :
    Inv (Phone.setSync { s with fields := { s.fields with inferReported := true } } c (some .readJobId)) := by
  obtain ⟨hpending, hnone, htask⟩ := pending_mark hreported hthere rfl h.task
  have hplaced := h.placed
  rw [hpending] at hplaced
  obtain ⟨rest, hrest, -⟩ := h.followed
  cases c with
  | poll =>
    have hpoll : s.poll = some .mark := hsync
    refine ⟨?_, h.ids, htask, fun hl => ⟨(h.late hl).1, ?_⟩, ⟨rest, hrest, .inl hnone⟩⟩
    · have hexec : takenBy { s.fields with inferReported := true } (s.sync .executor) =
          takenBy s.fields (s.sync .executor) := takenBy_congr rfl _
      show (s.reports.map InferReport.result ++ ([s.fields.result] ++
        (takenBy { s.fields with inferReported := true } (s.sync .executor) ++
          s.executor.pending { s.fields with inferReported := true }))).Perm s.ended
      rw [hpoll] at hplaced
      rw [hexec, hnone, List.append_nil]
      exact (List.Perm.append_left _ List.perm_append_comm).trans hplaced
    · rintro y ⟨⟩
      rfl
  | executor =>
    have hexec := sync_executor hsync
    rw [hexec] at htask hnone
    have hover := h.late
    rw [hexec] at hover
    refine ⟨?_, h.ids, ⟨htask.1, rfl⟩, fun hl => ⟨rfl, fun y hy => ((hover hl).2 y hy).mark⟩,
      ⟨rest, hrest, .inl rfl⟩⟩
    have hpoll : takenBy { s.fields with inferReported := true } s.poll = takenBy s.fields s.poll :=
      takenBy_congr rfl _
    show (s.reports.map InferReport.result ++ (takenBy { s.fields with inferReported := true } s.poll ++
      ([s.fields.result] ++ []))).Perm s.ended
    rw [hsync] at hplaced
    rw [hpoll]
    exact hplaced

theorem Inv.turn {s s' : Phone} (h : Inv s) {c : Caller} (hC : Undisturbed s (.turn c))
    (hstep : step s (.turn c) = some s') : Inv s' := by
  unfold step at hstep
  simp only [Option.bind_eq_bind, Option.bind_eq_some_iff, Prod.exists] at hstep
  obtain ⟨sync, hsync, f, sync', htake, heq⟩ := hstep
  cases heq
  rcases takeInferReport_spec htake with ⟨rfl, rfl, rfl⟩ | ⟨-, rfl, htaken⟩
  · obtain ⟨hreported, hthere⟩ := hC hsync
    exact h.mark hsync hreported hthere
  · refine h.setSync hsync htaken fun hrests hlate => ?_
    rintro y ⟨⟩
    exact late_take hrests hlate htake

theorem Inv.giveUp {s s' : Phone} (h : Inv s) {c : Caller} (hstep : step s (.giveUp c) = some s') :
    Inv s' := by
  unfold step at hstep
  dsimp only at hstep
  cases hsync : s.sync c with
  | none =>
    rw [hsync] at hstep
    cases hstep
  | some sync =>
    rw [hsync] at hstep
    cases sync with
    | started =>
      cases hstep
      exact h.setSync hsync rfl fun _ _ => nofun
    | _ => cases hstep

/-- When no job is running and the report is marked, nothing is left to mark. -/
theorem pending_over {f : Fields} {task : Task} (hover : task.isOver = true) (hmarked : f.inferReported = true) :
    task.pending f = [] := by
  have hnil : f.pending = [] := pending_eq_nil.2 hmarked
  cases task with
  | infer jobId stage => cases hover
  | _ => exact hnil

/-- A request that succeeds. -/
theorem Inv.succeed {s : Phone} (h : Inv s) {c : Caller} {r : Option InferReport}
    (hsync : s.sync c = some (.sending r)) : Inv (Phone.setSync (s.succeed c r) c none) := by
  have htaken : Sync.taken s.fields (.sending r) = r.toList.map InferReport.result := by
    cases r <;> rfl
  have hplaced := h.placed
  cases c with
  | poll =>
    have hpoll : s.poll = some (.sending r) := hsync
    rw [hpoll] at hplaced
    refine ⟨?_, h.ids, ?_, fun hl => ⟨(h.late hl).1, nofun⟩, ?_⟩
    · show ((s.reports ++ r.toList).map InferReport.result ++ ([] ++
        (takenBy s.fields (s.sync .executor) ++ s.executor.pending s.fields))).Perm s.ended
      rw [List.map_append, ← htaken, List.append_assoc]
      exact hplaced
    · have htask := h.task
      have hlate := h.late
      show TaskOk (Phone.setSync (s.succeed .poll r) .poll none) s.executor
      cases hexec : s.executor with
      | infer jobId stage =>
        rw [hexec] at htask hlate
        have hearly : s.late ≠ true := fun hl => Bool.false_ne_true (hlate hl).1
        have hsame : (Phone.setSync (s.succeed .poll r) .poll none).followed = s.followed := if_neg hearly
        unfold TaskOk
        rw [hsame]
        exact htask
      | _ =>
        rw [hexec] at htask
        exact htask
    · show ∃ rest, s.ended = (if s.late then s.ended else s.followed) ++ rest ∧
        (s.executor.pending s.fields = [] ∨ rest = s.executor.pending s.fields)
      by_cases hl : s.late = true
      · rw [if_pos hl]
        obtain ⟨hover, hmarked⟩ := h.late hl
        exact ⟨[], (List.append_nil _).symm, .inl (pending_over hover (hmarked _ hpoll))⟩
      · rw [if_neg hl]
        exact h.followed
  | executor =>
    have hexec := sync_executor hsync
    have htask := h.task
    have hover := h.late
    rw [hsync] at hplaced
    rw [hexec] at htask hplaced hover
    obtain ⟨hrests, hmarked⟩ := htask
    refine ⟨?_, h.ids, hrests, fun hl => ⟨rfl, (hover hl).2⟩, ?_⟩
    · show ((s.reports ++ r.toList).map InferReport.result ++ (takenBy s.fields s.poll ++
        ([] ++ s.fields.pending))).Perm s.ended
      have hold : (s.reports.map InferReport.result ++ (takenBy s.fields s.poll ++
          (Sync.taken s.fields (.sending r) ++ s.fields.pending))).Perm s.ended := hplaced
      rw [htaken] at hold
      refine List.Perm.trans ?_ hold
      rw [List.map_append, List.append_assoc, List.nil_append]
      refine List.Perm.append_left _ ?_
      rw [← List.append_assoc, ← List.append_assoc]
      exact List.perm_append_comm.append_right _
    · exact ⟨[], (List.append_nil _).symm, .inl (pending_eq_nil.2 hmarked)⟩

theorem Inv.response {s s' : Phone} (h : Inv s) {c : Caller} {isSuccessful : Bool}
    (hC : Undisturbed s (.response c isSuccessful))
    (hstep : step s (.response c isSuccessful) = some s') : Inv s' := by
  unfold step at hstep
  dsimp only at hstep
  cases hsync : s.sync c with
  | none =>
    rw [hsync] at hstep
    cases hstep
  | some sync =>
    rw [hsync] at hstep
    cases sync with
    | sending r =>
      cases hstep
      cases isSuccessful with
      | true => exact h.succeed hsync
      | false =>
        have hnone := hC rfl
        rw [hsync] at hnone
        cases hnone
        exact h.setSync hsync rfl fun _ _ => nofun
    | _ => cases hstep

theorem Inv.completes {s s' : Phone} (h : Inv s) {answer : JsString}
    (hC : Undisturbed s (.completes answer)) (hstep : step s (.completes answer) = some s') : Inv s' := by
  unfold step at hstep
  dsimp only at hstep
  split at hstep
  · next jobId hexec =>
    cases hstep
    have htask := h.task
    rw [hexec] at htask
    exact @Inv.endJob s h ⟨jobId, answer, []⟩ .complete (.setContent answer) hexec rfl rfl rfl rfl
      ⟨htask.2.1, hC⟩
  · cases hstep

theorem Inv.throws {s s' : Phone} (h : Inv s) {message : Option JsString}
    (hC : Undisturbed s (.throws message)) (hstep : step s (.throws message) = some s') : Inv s' := by
  have htask := h.task
  unfold step at hstep
  dsimp only at hstep
  split at hstep
  · next jobId hexec =>
    cases hstep
    rw [hexec] at htask
    exact @Inv.endJob s h ⟨jobId, [], message.getD (ascii "infer_failed")⟩ .load
      (.setError (message.getD (ascii "infer_failed"))) hexec rfl rfl rfl rfl ⟨htask.2.1, hC⟩
  · next jobId hexec =>
    cases hstep
    rw [hexec] at htask
    exact @Inv.endJob s h ⟨jobId, [], message.getD (ascii "infer_failed")⟩ .complete
      (.setError (message.getD (ascii "infer_failed"))) hexec rfl rfl rfl rfl ⟨htask.2.1, hC⟩
  · cases hstep

theorem Inv.loads {s s' : Phone} (h : Inv s) (hstep : step s .loads = some s') : Inv s' := by
  unfold step at hstep
  dsimp only at hstep
  split at hstep
  · next jobId hexec =>
    cases hstep
    have hsame : Same s.fields { s.fields with loaded := true } := ⟨rfl, rfl⟩
    have hplaced := (h.other hsame id).placed
    have hfollowed := h.followed
    have htask := h.task
    have hlate := h.late
    unfold Phone.sync at hplaced
    dsimp only at hplaced
    rw [hexec] at hplaced htask hlate hfollowed
    exact ⟨hplaced, h.ids, ⟨htask.1, hsame.stageOk htask.2.1, htask.2.2⟩,
      fun hl => Bool.false_ne_true.elim (hlate hl).1, hfollowed⟩
  · cases hstep

/-- One step. -/
theorem inv_step {s s' : Phone} {a : PhoneAction} (h : Inv s) (hF : Followed s a) (hC : Undisturbed s a)
    (hstep : step s a = some s') : Inv s' := by
  cases a with
  | job jobId => exact h.job hF hstep
  | work latencyMs => exact h.work hC hstep
  | loads => exact h.loads hstep
  | completes answer => exact h.completes hC hstep
  | throws message => exact h.throws hC hstep
  | poll => exact h.poll hstep
  | turn c => exact h.turn hC hstep
  | giveUp c => exact h.giveUp hstep
  | response c isSuccessful => exact h.response hC hstep
  | service edgeService =>
    unfold step at hstep
    dsimp only at hstep
    by_cases hstate : edgeService = .inferring
    · rw [if_pos hstate] at hstep
      cases hstep
    · rw [if_neg hstate] at hstep
      cases hstep
      exact h.other ⟨rfl, rfl⟩ fun _ => hstate
  | engine loaded =>
    unfold step at hstep
    dsimp only at hstep
    split at hstep
    · cases hstep
      exact h.other ⟨rfl, rfl⟩ id
    · cases hstep

/-! ## One report for each job -/

theorem count_ended {ended : List JobResult} (hids : (ended.map JobResult.jobId).Nodup) {j : JobResult}
    (hj : j ∈ ended) : (ended.countP fun r => r.jobId = j.jobId) = 1 := by
  have hone := List.count_eq_one_of_mem hids (List.mem_map_of_mem hj)
  rw [List.count_eq_countP, List.countP_map] at hone
  rw [← hone]
  refine List.countP_congr fun r _ => ?_
  simp

/-- The reports, what is under way, and what is pending, counted for one job. -/
theorem Inv.count {s : Phone} (h : Inv s) {j : JobResult} (hj : j ∈ s.ended) :
    s.reportsOn j.jobId + ((takenBy s.fields s.poll ++ takenBy s.fields (s.sync .executor)).countP
        fun r => r.jobId = j.jobId) +
      ((s.executor.pending s.fields).countP fun r => r.jobId = j.jobId) = 1 := by
  have hcount := h.placed.countP_eq fun r => r.jobId = j.jobId
  rw [count_ended h.ids hj, List.countP_append, List.countP_append, List.countP_append, List.countP_map] at hcount
  have hreports : s.reportsOn j.jobId =
      s.reports.countP ((fun r : JobResult => decide (r.jobId = j.jobId)) ∘ InferReport.result) := rfl
  rw [List.countP_append, hreports]
  omega

theorem Inv.reportedOnce {s : Phone} (h : Inv s) : Reported s where
  own := by
    intro r hr
    exact h.placed.subset (List.mem_append_left _ (List.mem_map_of_mem hr))
  once := by
    intro j hj
    have := h.count hj
    omega
  followed := by
    intro hquiet j hj
    obtain ⟨rest, hrest, hpending⟩ := h.followed
    have hmem : j ∈ s.ended := by
      rw [hrest]
      exact List.mem_append_left _ hj
    have hnone : ∀ c, takenBy s.fields (s.sync c) = [] := by
      intro c
      have hc := hquiet c
      cases hs : s.sync c with
      | none => rfl
      | some sync =>
        have hfree := hc sync hs
        cases sync with
        | sending r =>
          cases r with
          | none => rfl
          | some r => cases hfree
        | started => rfl
        | checkJobId => rfl
        | checkState => rfl
        | checkContent => rfl
        | checkError => rfl
        | mark => rfl
        | _ => cases hfree
    have hcount := h.count hmem
    have hpoll : takenBy s.fields s.poll = [] := hnone .poll
    rw [hpoll, hnone .executor, List.nil_append, List.countP_nil] at hcount
    rcases hpending with hnil | rfl
    · rw [hnil, List.countP_nil] at hcount
      exact hcount
    · -- the pending result is not among those that were followed
      have hended := count_ended h.ids hmem
      rw [hrest, List.countP_append] at hended
      have hpos : 0 < s.followed.countP fun r => r.jobId = j.jobId :=
        List.countP_pos_iff.2 ⟨j, hj, decide_eq_true rfl⟩
      omega

/-- In every run in which the next job starts only after a successful request, and in which nothing
disturbs the reports, each job is reported once, with its own result. -/
theorem reported_of_undisturbed {s : Phone} {as : List PhoneAction} (hrun : runSteps step start as = some s)
    (hF : StepsMeet step Followed start as) (hC : StepsMeet step Undisturbed start as) : Reported s := by
  have hend : Inv s :=
    runSteps_invariant_of_meet (fun _ _ _ h hFC hstep => inv_step h hFC.1 hFC.2 hstep) hrun (hF.and hC) inv_start
  exact hend.reportedOnce

instance (s : Phone) (a : PhoneAction) : Decidable (Followed s a) := by
  unfold Followed
  split <;> infer_instance

instance (s : Phone) (a : PhoneAction) : Decidable (Undisturbed s a) := by
  unfold Undisturbed
  split <;> infer_instance

/-- A job is run to its end. -/
def runJob (jobId answer : JsString) : List PhoneAction :=
  [.job jobId] ++ List.replicate 6 (.work 0) ++ [.loads] ++ List.replicate 2 (.work 0) ++ [.completes answer] ++
    List.replicate 4 (.work 0)

/-- The sync at the end of a job, up to its request. -/
def syncJob : List PhoneAction := List.replicate 9 (.turn .executor)

/-- A job with the answer 42, the report of which arrives. -/
def oneJob : List PhoneAction := runJob (ascii "a") (ascii "42") ++ syncJob ++ [.response .executor true]

theorem reported_oneJob : ∃ s, runSteps step start oneJob = some s ∧ s.reports = [⟨ascii "a", ascii "42", [], 0⟩] ∧
    Reported s := by
  obtain ⟨s, hrun, hreports⟩ : ∃ s, runSteps step start oneJob = some s ∧
      s.reports = [⟨ascii "a", ascii "42", [], 0⟩] := ⟨_, rfl, rfl⟩
  exact ⟨s, hrun, hreports, reported_of_undisturbed hrun (by decide) (by decide)⟩

/-- A job whose report is sent in a request that fails, and a sync of the loop after it. -/
def lostJob : List PhoneAction :=
  runJob (ascii "a") (ascii "42") ++ syncJob ++ [.response .executor false, .poll, .turn .poll, .response .poll true]

/-- The report was marked before it was sent, and is not sent again. -/
theorem report_lost : ¬ ∀ (s : Phone) (as : List PhoneAction), runSteps step start as = some s →
    StepsMeet step Followed start as → Reported s := by
  intro h
  obtain ⟨s, hrun, hreports, hfollowed, hpoll, hexec⟩ : ∃ s, runSteps step start lostJob = some s ∧
      s.reports = [] ∧ s.followed = [⟨ascii "a", ascii "42", []⟩] ∧ s.poll = none ∧ s.executor = .idle :=
    ⟨_, rfl, rfl, rfl, rfl, rfl⟩
  have hquiet : ∀ c, ∀ sync ∈ s.sync c, sync.carries = false := by
    intro c sync hsync
    cases c with
    | poll =>
      have hs : s.poll = some sync := hsync
      rw [hpoll] at hs
      cases hs
    | executor =>
      have hs := sync_executor hsync
      rw [hexec] at hs
      cases hs
  have hone := (h s lostJob hrun (by decide)).followed hquiet ⟨ascii "a", ascii "42", []⟩ (by
    rw [hfollowed]
    exact List.mem_singleton_self _)
  unfold Phone.reportsOn at hone
  rw [hreports] at hone
  cases hone

end Gafam.Android.EdgeInference
