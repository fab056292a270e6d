import Gafam.Android.ModelDownload
import Mathlib.Data.List.Nodup

/-!
# What a download leaves behind

A file that has its name is never looked at again. So the files are complete when a run returns exactly if every body
that was given its name, in this run or an earlier one, had come whole.
-/

namespace Gafam.Android.ModelDownload

open Gafam.Lib

theorem mem_files (f : ModelFile) : f ∈ files := by
  cases f <;> decide

/-! ## The invariant -/

/-- These are the files of the model that the directory does not have. -/
structure Missing (dir : FileName → Option Nat) (l : List ModelFile) : Prop where
  nodup : l.Nodup
  mem : ∀ f, f ∈ l ↔ dir (.model f) = none

/-- What a run knows about the directory. -/
def Knows (s : Device) : Prop :=
  match s.pc with
  | .idle | .thrown => True
  | .manifest l | .loop l => Missing s.dir l
  | .body f rest _ | .finalize f rest => Missing s.dir (f :: rest) ∧ s.dir (.tmp f) ≠ none
  | .returned => ∀ f, s.dir (.model f) ≠ none

theorem missing_missing (s : Device) : Missing s.dir (missing s) := by
  refine ⟨List.Nodup.filter _ (by decide), fun f => ?_⟩
  unfold missing
  rw [List.mem_filter, Option.isNone_iff_eq_none]
  exact and_iff_right (mem_files f)

/-- Only the files of the model count. -/
theorem Missing.congr {dir dir' : FileName → Option Nat} {l : List ModelFile} (h : Missing dir l)
    (hdir : ∀ f, dir' (.model f) = dir (.model f)) : Missing dir' l := by
  refine ⟨h.nodup, fun f => ?_⟩
  rw [hdir]
  exact h.mem f

/-- A `.partial` file is none of the model. -/
theorem update_tmp (dir : FileName → Option Nat) (f g : ModelFile) (size : Option Nat) :
    Function.update dir (.tmp f) size (.model g) = dir (.model g) :=
  Function.update_of_ne FileName.noConfusion ..

/-- The directory once a `.partial` file has got its name. -/
theorem renamed_model (dir : FileName → Option Nat) (f g : ModelFile) :
    Function.update (Function.update dir (.model f) (dir (.tmp f))) (.tmp f) none (.model g) =
      if g = f then dir (.tmp f) else dir (.model g) := by
  rw [update_tmp]
  split_ifs with h
  · rw [h, Function.update_self]
  · exact Function.update_of_ne (fun heq => h (FileName.model.inj heq)) ..

/-- With its name, the first of the missing files is missing no more. -/
theorem Missing.renamed {dir : FileName → Option Nat} {f : ModelFile} {rest : List ModelFile}
    (h : Missing dir (f :: rest)) (htmp : dir (.tmp f) ≠ none) :
    Missing (Function.update (Function.update dir (.model f) (dir (.tmp f))) (.tmp f) none) rest := by
  obtain ⟨hnotin, hnodup⟩ := List.nodup_cons.1 h.nodup
  refine ⟨hnodup, fun g => ?_⟩
  rw [renamed_model]
  split_ifs with hg
  · subst hg
    exact ⟨fun hmem => absurd hmem hnotin, fun hnone => absurd hnone htmp⟩
  · rw [← h.mem g, List.mem_cons]
    exact (or_iff_right hg).symm

variable {disk : Disk} {s s' : Device} {e : Event}

/-- What a step does to the directory and to the run. -/
inductive Moves (s : Device) : Event → Device → Prop
  /-- A run ends without returning. -/
  | stopped {e : Event} {s' : Device} (hdir : s'.dir = s.dir) (hpc : s'.pc = .idle ∨ s'.pc = .thrown)
    (he : e ≠ .renameTo true) : Moves s e s'
  | nothingMissing (h : missing s = []) : Moves s (.call true) { s with pc := .returned }
  | called : Moves s (.call true) { s with pc := .manifest (missing s) }
  | announced {l : List ModelFile} (hpc : s.pc = .manifest l) : Moves s .manifest { s with pc := .loop l }
  /-- The `.partial` file is opened, or grows. -/
  | written {e : Event} {f : ModelFile} {rest : List ModelFile} (n : Nat)
    (hpc : s.pc = .loop (f :: rest) ∨ ∃ k, s.pc = .body f rest k) (he : e ≠ .renameTo true) :
    Moves s e { s with dir := Function.update s.dir (.tmp f) (some n), pc := .body f rest n }
  | ended {f : ModelFile} {rest : List ModelFile} {n : Nat} (w : List ShortBody) (hpc : s.pc = .body f rest n) :
    Moves s .endOfBody { s with warnings := w, pc := .finalize f rest }
  | named {f : ModelFile} {rest : List ModelFile} (hpc : s.pc = .finalize f rest) :
    Moves s (.renameTo true) { s with
      dir := Function.update (Function.update s.dir (.model f) (s.dir (.tmp f))) (.tmp f) none
      pc := .loop rest }
  | finished (hpc : s.pc = .loop []) : Moves s .finish { s with pc := .returned }

theorem moves_of_step (hstep : step disk s e = some s') : Moves s e s' := by
  obtain ⟨dir, pc, warnings⟩ := s
  cases e with
  | call paired =>
    cases pc <;> simp only [step, reduceCtorEq] at hstep
    all_goals
      split_ifs at hstep with hpaired hmissing
      · cases hstep
        subst hpaired
        exact .nothingMissing hmissing
      · cases hstep
        subst hpaired
        exact .called
      · cases hstep
        exact .stopped rfl (.inr rfl) Event.noConfusion
  | manifest =>
    cases pc with
    | manifest l =>
      simp only [step] at hstep
      split_ifs at hstep
      · cases hstep
        exact .announced rfl
      · cases hstep
        exact .stopped rfl (.inr rfl) Event.noConfusion
    | _ => cases hstep
  | response =>
    cases pc with
    | loop l =>
      cases l with
      | nil => cases hstep
      | cons f rest =>
        cases hstep
        exact .written 0 (.inl rfl) Event.noConfusion
    | _ => cases hstep
  | read n =>
    cases pc with
    | body f rest fileDone =>
      simp only [step] at hstep
      split_ifs at hstep
      cases hstep
      exact .written (fileDone + n) (.inr ⟨_, rfl⟩) Event.noConfusion
    | _ => cases hstep
  | endOfBody =>
    cases pc with
    | body f rest fileDone =>
      cases hstep
      exact .ended _ rfl
    | _ => cases hstep
  | renameTo ok =>
    cases pc with
    | finalize f rest =>
      cases ok with
      | true =>
        cases hstep
        exact .named rfl
      | false =>
        cases hstep
        exact .stopped rfl (.inr rfl) fun h => Bool.noConfusion (Event.renameTo.inj h)
    | _ => cases hstep
  | finish =>
    cases pc with
    | loop l =>
      cases l with
      | nil =>
        cases hstep
        exact .finished rfl
      | cons f rest => cases hstep
    | _ => cases hstep
  | fail =>
    cases pc with
    | idle | returned | thrown => cases hstep
    | _ =>
      cases hstep
      exact .stopped rfl (.inr rfl) Event.noConfusion
  | die =>
    cases hstep
    exact .stopped rfl (.inl rfl) Event.noConfusion

theorem knows_step (h : Knows s) (hstep : step disk s e = some s') : Knows s' := by
  unfold Knows at h ⊢
  cases moves_of_step hstep with
  | stopped hdir hpc he =>
    rcases hpc with hpc | hpc <;>
      (rw [hpc]
       trivial)
  | nothingMissing hnil =>
    intro f hf
    have hmem := ((missing_missing s).mem f).2 hf
    rw [hnil] at hmem
    exact List.not_mem_nil hmem
  | called => exact missing_missing s
  | announced hpc =>
    rw [hpc] at h
    exact h
  | @written e f rest n hpc he =>
    have hmissing : Missing s.dir (f :: rest) := by
      rcases hpc with hpc | ⟨k, hpc⟩
      · rw [hpc] at h
        exact h
      · rw [hpc] at h
        exact h.1
    refine ⟨hmissing.congr fun g => update_tmp s.dir f g (some n), ?_⟩
    dsimp only
    rw [Function.update_self]
    exact Option.some_ne_none n
  | ended w hpc =>
    rw [hpc] at h
    exact h
  | @named f rest hpc =>
    rw [hpc] at h
    exact h.1.renamed h.2
  | finished hpc =>
    rw [hpc] at h
    intro f hf
    exact List.not_mem_nil ((h.mem f).2 hf)

/-! ## Complete files -/

/-- The files of the model that are there have the announced size. -/
def Sound (disk : Disk) (s : Device) : Prop :=
  ∀ f n, s.dir (.model f) = some n → announced disk f = some n

theorem sound_congr (hdir : ∀ f, s'.dir (.model f) = s.dir (.model f)) : Sound disk s' ↔ Sound disk s := by
  unfold Sound
  simp only [hdir]

/-- Only a body that gets its name matters. -/
theorem sound_step (h : Knows s) (hstep : step disk s e = some s') :
    Sound disk s' ↔ Sound disk s ∧ Whole disk s e := by
  have hother : (∀ f, s'.dir (.model f) = s.dir (.model f)) → e ≠ .renameTo true →
      (Sound disk s' ↔ Sound disk s ∧ Whole disk s e) := by
    intro hdir he
    have hwhole : Whole disk s e := by
      unfold Whole
      split
      · exact absurd rfl he
      · trivial
    rw [sound_congr hdir]
    exact (and_iff_left hwhole).symm
  cases moves_of_step hstep with
  | stopped hdir hpc he => exact hother (fun f => by rw [hdir]) he
  | nothingMissing | called | announced | ended | finished => exact hother (fun f => rfl) Event.noConfusion
  | @written e f rest n hpc he => exact hother (fun g => update_tmp s.dir f g (some n)) he
  | @named f rest hpc =>
    unfold Knows at h
    rw [hpc] at h
    obtain ⟨hmissing, htmp⟩ := h
    have hnone : s.dir (.model f) = none := (hmissing.mem f).1 (List.mem_cons_self ..)
    unfold Sound Whole
    simp only [hpc, renamed_model]
    constructor
    · intro hall
      refine ⟨fun g n hg => hall g n ?_, ?_⟩
      · rw [if_neg fun heq => ?_]
        · exact hg
        · rw [heq, hnone] at hg
          cases hg
      · obtain ⟨n, hn⟩ := Option.ne_none_iff_exists'.1 htmp
        rw [hn, hall f n (by rw [if_pos rfl, hn])]
    · rintro ⟨hall, hwhole⟩ g n hg
      split_ifs at hg with heq
      · rw [heq, ← hwhole, hg]
      · exact hall g n hg

/-- Where all the files are there, they are complete iff each of them has the announced size. -/
theorem complete_iff_sound (h : ∀ f, s.dir (.model f) ≠ none) : Complete disk s ↔ Sound disk s := by
  constructor
  · intro hall f n hf
    rw [← hall f (mem_files f), hf]
  · intro hall f _
    obtain ⟨n, hn⟩ := Option.ne_none_iff_exists'.1 (h f)
    rw [hn, hall f n hn]

theorem knows_start : Knows .start := trivial

/-- **Downloads.** After any runs, when one returns the files are complete iff every body that has been given its name
had come whole. -/
theorem complete_iff {es : List Event} (hrun : runSteps (step disk) .start es = some s) (hret : s.pc = .returned) :
    Complete disk s ↔ StepsMeet (step disk) (Whole disk) .start es := by
  have hknows := runSteps_invariant (P := Knows) (fun _ _ _ => knows_step) hrun knows_start
  unfold Knows at hknows
  rw [hret] at hknows
  have hstart : Sound disk .start := by
    intro f n hf
    cases hf
  rw [complete_iff_sound hknows,
    last_iff_stepsMeet (fun _ _ _ => knows_step) (fun _ _ _ => sound_step) hrun knows_start]
  exact and_iff_right hstart

/-- The announced size is that of the file on the VPC. -/
theorem announced_eq (disk : Disk) (f : ModelFile) : announced disk f = some ((disk f).getD 0) := by
  cases f <;> rfl

/-- Complete files are what `isReady` looks for, if the VPC was ready. -/
theorem isReady_of_complete (h : Complete disk s) (hready : (buildModelManifest disk).ready = true) :
    isReady s = true := by
  refine List.all_eq_true.2 fun f hf => ?_
  have hsize := List.all_eq_true.1 hready f hf
  rw [h f hf, announced_eq]
  rcases hd : disk f with _ | n
  · rw [hd] at hsize
    cases hsize
  · rw [hd] at hsize
    have hn : n ≠ 0 := of_decide_eq_true hsize
    simpa using Nat.pos_of_ne_zero hn

/-- The VPC has all the files, of three bytes each. -/
def threeBytes : Disk := fun _ => some 3

/-- The download of a file whose body has `n` bytes. -/
def fetch (n : Nat) : List Event := [.response, .read n, .endOfBody, .renameTo true]

/-- A run in which the first body has `n` bytes. -/
def firstBody (n : Nat) : List Event :=
  [.call true, .manifest] ++ fetch n ++ fetch 3 ++ fetch 3 ++ fetch 3 ++ fetch 3 ++ fetch 3 ++ [.finish]

theorem complete_whole : ∃ s, runSteps (step threeBytes) .start (firstBody 3) = some s ∧ Complete threeBytes s := by
  have hrun : ∃ s, runSteps (step threeBytes) .start (firstBody 3) = some s ∧ s.pc = .returned := ⟨_, rfl, rfl⟩
  obtain ⟨s, hrun, hret⟩ := hrun
  exact ⟨s, hrun, (complete_iff hrun hret).2 (by decide)⟩

/-- The first body ends early. A warning, and the next run finds nothing missing. -/
theorem short_stays : ∃ s, runSteps (step threeBytes) .start (firstBody 2 ++ [.call true]) = some s ∧
    s.pc = .returned ∧ s.warnings = [⟨.chatTemplate, 3, 2⟩] ∧ ¬Complete threeBytes s := by
  refine ⟨_, rfl, rfl, rfl, fun h => ?_⟩
  have hsize : some 2 = some 3 := h .chatTemplate (mem_files _)
  cases hsize

end Gafam.Android.ModelDownload
