import Gafam.Frontend.Directory
import Mathlib.Data.List.Pairwise

/-!
# One delivery, and the shape of an answer

A safe that has been handed out is consumed, and an unconsumed row has not been handed out: this holds
as long as no lookup marks a row that another one has already marked. Two lookups that read the same
row before either of them marks it are both answered with it.
-/

namespace Gafam.Frontend

open Gafam.Go Gafam.Js
open Gafam.Lib (Row Table runSteps StepsMeet withHistory withHistory_eq_some)

/-! ## One step of a lookup -/

/-- What a lookup can do next. -/
inductive Moves (db : Database) (clock : Nat) (l : Lookup) : Phase → Database → Phase → Prop
  | read : Moves db clock l .start db (.rated (db.rate l))
  | refuse (row : RateLimit) (hrecent : row.Recent clock) (hmany : 3 ≤ row.attempts) :
      Moves db clock l (.rated (some row)) db (.answered none tooMany)
  | pass (row : Option RateLimit) (h : ∀ r ∈ row, r.Recent clock ∧ r.attempts < 3) :
      Moves db clock l (.rated row) db .looking
  | expire (row : RateLimit) (h : ¬ row.Recent clock) : Moves db clock l (.rated (some row)) db .resetting
  | reset : Moves db clock l .resetting (db.resetRate l (clock / 1000)) .looking
  | find (safe : Row Safe) (pick : Nat) (h : db.newest l pick = some safe) :
      Moves db clock l .looking db (.found (some safe))
  | miss (h : ¬ RealTime db l) : Moves db clock l .looking db (.found none)
  | lock (safe : Row Safe) (h : 20 ≤ db.globalAttempts l.phone (clock / 1000)) :
      Moves db clock l (.found (some safe)) db (.destroying safe)
  | go (safe : Option (Row Safe)) : Moves db clock l (.found safe) db (.counting safe)
  | destroy (safe : Row Safe) (d : Decoy) :
      Moves db clock l (.destroying safe) (db.destroy safe.id) (.answered none (lockdownAnswer d))
  | decoy (d : Decoy) :
      Moves db clock l (.counting none) (db.countAttempt l (clock / 1000)) (.answered none (fakeAnswer d))
  | count (safe : Row Safe) :
      Moves db clock l (.counting (some safe)) (db.countAttempt l (clock / 1000)) (.consuming safe)
  | consume (safe : Row Safe) :
      Moves db clock l (.consuming safe) (db.consume safe.id) (.answered (some safe) (realAnswer safe.val))

theorem lookupStep_moves {db db' : Database} {clock : Nat} {l : Lookup} {pick : Option Nat}
    {decoy : Decoy} {phase phase' : Phase}
    (h : lookupStep db clock l pick decoy phase = some (db', phase')) :
    Moves db clock l phase db' phase' := by
  cases phase with
  | start =>
    cases h
    exact .read
  | rated row =>
    cases row with
    | none =>
      cases h
      exact .pass none nofun
    | some row =>
      unfold lookupStep at h
      dsimp only at h
      by_cases hrecent : row.Recent clock
      · rw [if_pos hrecent] at h
        by_cases hmany : 3 ≤ row.attempts
        · rw [if_pos hmany] at h
          cases h
          exact .refuse row hrecent hmany
        · rw [if_neg hmany] at h
          cases h
          refine .pass (some row) fun r hr => ?_
          obtain rfl := Option.some.inj hr
          exact ⟨hrecent, Nat.not_le.1 hmany⟩
      · rw [if_neg hrecent] at h
        cases h
        exact .expire row hrecent
  | resetting =>
    cases h
    exact .reset
  | looking =>
    cases pick with
    | none =>
      unfold lookupStep at h
      dsimp only at h
      by_cases hreal : ∃ r ∈ db.safes.rows, r.val.Matches l
      · rw [if_pos hreal] at h
        cases h
      · rw [if_neg hreal] at h
        cases h
        exact .miss hreal
    | some id =>
      obtain ⟨safe, hsafe, heq⟩ := Option.map_eq_some_iff.1 h
      cases heq
      exact .find safe id hsafe
  | found safe =>
    cases safe with
    | none =>
      cases h
      exact .go none
    | some safe =>
      unfold lookupStep at h
      dsimp only at h
      by_cases hmany : 20 ≤ db.globalAttempts l.phone (clock / 1000)
      · rw [if_pos hmany] at h
        cases h
        exact .lock safe hmany
      · rw [if_neg hmany] at h
        cases h
        exact .go (some safe)
  | destroying safe =>
    cases h
    exact .destroy safe decoy
  | counting safe =>
    cases safe with
    | none =>
      cases h
      exact .decoy decoy
    | some safe =>
      cases h
      exact .count safe
  | consuming safe =>
    cases h
    exact .consume safe
  | answered safe r => cases h

/-! ## One step of the directory -/

/-- What can happen in the directory: a request that is not answered makes a move or dies, a new one
arrives, a safe is deposited, or time passes. -/
theorem directoryStep_cases {s s' : Directory} {a : DirectoryAction} (h : directoryStep s a = some s') :
    (∃ i l phase phase' db pick d, a = .turn i pick d ∧ s.requests[i]? = some ⟨l, phase⟩ ∧
        Moves s.db s.clock l phase db phase' ∧
        s' = { s with db := db, requests := s.requests.set i ⟨l, phase'⟩ }) ∨
      (∃ i l phase, a = .die i ∧ s.requests[i]? = some ⟨l, phase⟩ ∧ phase.delivered = none ∧
        s' = { s with requests := s.requests.eraseIdx i }) ∨
      (∃ l, a = .arrive l ∧ s' = { s with requests := s.requests ++ [⟨l, .start⟩] }) ∨
      (∃ phone safe salt iv time, a = .deposit phone safe salt iv time ∧
        (s' = s ∨ s' = { s with db := s.db.deposit phone safe salt iv time (s.clock / 1000) })) ∨
      ∃ ms, a = .tick ms ∧ s' = { s with clock := s.clock + ms } := by
  cases a with
  | tick ms =>
    cases h
    exact .inr (.inr (.inr (.inr ⟨ms, rfl, rfl⟩)))
  | deposit phone safe salt iv time =>
    refine .inr (.inr (.inr (.inl ⟨phone, safe, salt, iv, time, rfl, ?_⟩)))
    unfold directoryStep at h
    dsimp only at h
    by_cases hempty : phone = [] ∨ safe = [] ∨ salt = [] ∨ iv = [] ∨ time = []
    · rw [if_pos hempty] at h
      cases h
      exact .inl rfl
    · rw [if_neg hempty] at h
      cases h
      exact .inr rfl
  | arrive l =>
    refine .inr (.inr (.inl ⟨l, rfl, ?_⟩))
    unfold directoryStep at h
    dsimp only at h
    by_cases hempty : l.phone = [] ∨ l.time = []
    · rw [if_pos hempty] at h
      cases h
    · rw [if_neg hempty] at h
      cases h
      rfl
  | turn i pick d =>
    unfold directoryStep at h
    simp only [Option.bind_eq_bind, Option.bind_eq_some_iff, Prod.exists] at h
    obtain ⟨⟨l, phase⟩, hi, db, phase', hstep, heq⟩ := h
    cases heq
    exact .inl ⟨i, l, phase, phase', db, pick, d, rfl, hi, lookupStep_moves hstep, rfl⟩
  | die i =>
    unfold directoryStep at h
    simp only [Option.bind_eq_bind, Option.bind_eq_some_iff] at h
    obtain ⟨⟨l, phase⟩, hi, h⟩ := h
    cases phase with
    | answered safe r => cases h
    | _ =>
      cases h
      exact .inr (.inl ⟨i, l, _, rfl, hi, rfl, rfl⟩)

/-! ## One delivery -/

/-- The rows of a table after a step that deposits nothing: none is new, and none is fresh again. -/
def KeepsSafes (db db' : Database) : Prop :=
  db'.safes.seq = db.safes.seq ∧
    ∀ r' ∈ db'.safes.rows, ∃ r ∈ db.safes.rows, r.id = r'.id ∧
      (r'.val.consumed = false → r.val.consumed = false)

theorem KeepsSafes.refl {db db' : Database} (h : db'.safes = db.safes) : KeepsSafes db db' := by
  unfold KeepsSafes
  rw [h]
  exact ⟨rfl, fun r' hr' => ⟨r', hr', rfl, id⟩⟩

theorem keepsSafes_destroy (db : Database) (id : Nat) : KeepsSafes db (db.destroy id) := by
  refine ⟨rfl, fun r' hr' => ⟨r', ?_, rfl, fun h => h⟩⟩
  exact (List.mem_filter.1 hr').1

theorem keepsSafes_consume (db : Database) (id : Nat) : KeepsSafes db (db.consume id) := by
  refine ⟨rfl, fun r' hr' => ?_⟩
  rcases Table.mem_update.1 hr' with ⟨hr, -⟩ | ⟨v, hv, rfl⟩
  · exact ⟨r', hr, rfl, fun h => h⟩
  · exact ⟨⟨id, v⟩, hv, rfl, nofun⟩

theorem Moves.safes {db db' : Database} {clock : Nat} {l : Lookup} {phase phase' : Phase}
    (h : Moves db clock l phase db' phase') : KeepsSafes db db' := by
  cases h with
  | destroy safe d => exact keepsSafes_destroy db safe.id
  | consume safe => exact keepsSafes_consume db safe.id
  | _ => exact KeepsSafes.refl rfl

/-- Nothing has been answered before a move, and a safe only by marking it. -/
theorem Moves.delivered {db db' : Database} {clock : Nat} {l : Lookup} {phase phase' : Phase}
    (h : Moves db clock l phase db' phase') :
    phase.delivered = none ∧ ∀ id, phase'.delivered = some id →
      ∃ safe, phase = .consuming safe ∧ safe.id = id ∧ db' = db.consume id := by
  cases h with
  | consume safe =>
    refine ⟨rfl, fun id hid => ?_⟩
    obtain rfl := Option.some.inj hid
    exact ⟨safe, rfl, rfl, rfl⟩
  | _ => exact ⟨rfl, nofun⟩

/-- What holds of a row: its safe has been handed out at most once, and only if it is consumed. -/
def HandedOut (id : Nat) (s : Directory) : Prop :=
  s.deliveries id ≤ 1 ∧ (0 < s.deliveries id → id ≤ s.db.safes.seq ∧
    ∀ r ∈ s.db.safes.rows, r.id = id → r.val.consumed = true)

/-- Without a delivery, a step that keeps the safes keeps what holds of each row. -/
theorem HandedOut.keep {id : Nat} {s s' : Directory} (h : HandedOut id s)
    (hdb : KeepsSafes s.db s'.db) (hcount : s'.deliveries id = s.deliveries id) : HandedOut id s' := by
  obtain ⟨hone, hconsumed⟩ := h
  obtain ⟨hseq, hrows⟩ := hdb
  refine ⟨by rw [hcount]; exact hone, fun hpos => ?_⟩
  rw [hcount] at hpos
  obtain ⟨hle, hall⟩ := hconsumed hpos
  refine ⟨by rw [hseq]; exact hle, fun r' hr' hid => ?_⟩
  obtain ⟨r, hr, hrid, hfresh⟩ := hrows r' hr'
  cases hc : r'.val.consumed with
  | true => rfl
  | false =>
    have := hall r hr (hrid.trans hid)
    rw [hfresh hc] at this
    exact this

theorem deliveries_set {s : Directory} {i : Nat} {l : Lookup} {phase phase' : Phase} {db : Database}
    (hi : s.requests[i]? = some ⟨l, phase⟩) (hnone : phase.delivered = none) (id : Nat) :
    ({ s with db := db, requests := s.requests.set i ⟨l, phase'⟩ } : Directory).deliveries id =
      s.deliveries id + if phase'.delivered = some id then 1 else 0 := by
  obtain ⟨hlt, hget⟩ := List.getElem?_eq_some_iff.1 hi
  unfold Directory.deliveries
  rw [List.countP_set hlt, hget]
  simp only [hnone]
  simp

theorem deliveries_erase {s : Directory} {i : Nat} {l : Lookup} {phase : Phase}
    (hi : s.requests[i]? = some ⟨l, phase⟩) (hnone : phase.delivered = none) (id : Nat) :
    ({ s with requests := s.requests.eraseIdx i } : Directory).deliveries id = s.deliveries id := by
  obtain ⟨hlt, hget⟩ := List.getElem?_eq_some_iff.1 hi
  unfold Directory.deliveries
  have hsplit : s.requests = s.requests.take i ++ s.requests[i] :: s.requests.drop (i + 1) := by
    rw [← List.drop_eq_getElem_cons hlt, List.take_append_drop]
  rw [List.eraseIdx_eq_take_drop_succ]
  conv_rhs => rw [hsplit]
  rw [List.countP_append, List.countP_append, List.countP_cons, hget]
  simp [hnone]

/-- One step that marks no consumed row. -/
theorem handedOut_step {id : Nat} {s s' : Directory} {a : DirectoryAction} (h : HandedOut id s)
    (hC : TakesUnconsumed s a) (hstep : directoryStep s a = some s') : HandedOut id s' := by
  rcases directoryStep_cases hstep with ⟨i, l, phase, phase', db, pick, d, rfl, hi, hmove, rfl⟩ |
    ⟨i, l, phase, rfl, hi, hnone, rfl⟩ | ⟨l, rfl, rfl⟩ | ⟨phone, safe, salt, iv, time, rfl, hs'⟩ |
    ⟨ms, rfl, rfl⟩
  · obtain ⟨hnone, hdelivered⟩ := hmove.delivered
    have hcount : ({ s with db := db, requests := s.requests.set i ⟨l, phase'⟩ } :
        Directory).deliveries id = s.deliveries id + if phase'.delivered = some id then 1 else 0 :=
      deliveries_set hi hnone id
    by_cases hid : phase'.delivered = some id
    · -- the row that is marked is fresh, so that it has not been handed out
      obtain ⟨safe, rfl, hsafe, rfl⟩ := hdelivered id hid
      obtain ⟨row, hrow, hrowid, hfresh⟩ := hC l safe hi
      have hzero : s.deliveries id = 0 := by
        by_contra hne
        obtain ⟨-, hall⟩ := h.2 (Nat.pos_of_ne_zero hne)
        rw [hall row hrow (hrowid.trans hsafe)] at hfresh
        cases hfresh
      rw [if_pos hid, hzero] at hcount
      refine ⟨by rw [hcount], fun _ => ⟨?_, fun r hr hrid => ?_⟩⟩
      · rw [← hsafe, ← hrowid]
        exact s.db.safes.le_seq row hrow
      · rcases Table.mem_update.1 hr with ⟨-, hne⟩ | ⟨v, -, rfl⟩
        · exact absurd hrid hne
        · rfl
    · rw [if_neg hid, Nat.add_zero] at hcount
      exact h.keep hmove.safes hcount
  · exact h.keep (KeepsSafes.refl rfl) (deliveries_erase hi hnone id)
  · refine h.keep (KeepsSafes.refl rfl) ?_
    unfold Directory.deliveries
    rw [List.countP_append]
    rfl
  · rcases hs' with rfl | rfl
    · exact h
    · obtain ⟨hone, hconsumed⟩ := h
      refine ⟨hone, fun hpos => ?_⟩
      obtain ⟨hle, hall⟩ := hconsumed hpos
      refine ⟨Nat.le_succ_of_le hle, fun r hr hid => ?_⟩
      rcases Table.mem_insert.1 hr with hr | rfl
      · exact hall r hr hid
      · have : id = s.db.safes.seq + 1 := hid.symm
        omega
  · exact h

/-- In every run in which no lookup marks a row that is already consumed or gone, each safe is delivered
at most once. -/
theorem delivered_once {s s' : Directory} {as : List DirectoryAction} (hidle : s.requests = [])
    (hrun : runSteps directoryStep s as = some s') (hC : StepsMeet directoryStep TakesUnconsumed s as)
    (id : Nat) : s'.deliveries id ≤ 1 := by
  have hstart : HandedOut id s := by
    have hzero : s.deliveries id = 0 := by
      unfold Directory.deliveries
      rw [hidle]
      rfl
    refine ⟨by omega, fun hpos => ?_⟩
    omega
  have hend : HandedOut id s' :=
    Lib.runSteps_invariant_of_meet (fun _ _ _ h hC hstep => handedOut_step h hC hstep) hrun hC hstart
  exact hend.1

/-- A safe for a phone at 18:36. -/
def safe1836 : Row Safe :=
  ⟨1, ⟨ascii "0600000000", ascii "c2FmZQ==", ascii "c2FsdA==", ascii "aXY=", ascii "1836", false, 0⟩⟩

/-- A database with one safe. -/
def oneSafe : Database := ⟨Table.empty.insert safe1836.val, [], unique_nil⟩

/-- A lookup of that safe. -/
def lookup1836 : Lookup := ⟨ascii "192.0.2.1", ascii "0600000000", ascii "1836"⟩

/-- The random bytes, as it happens all zero. -/
def zeros : Decoy :=
  ⟨List.replicate 130 0, List.replicate 16 0, List.replicate 12 0, by simp, by simp, by simp⟩

/-- The next step of a request, which reads the first safe if it reads one. -/
def turn (i : Nat) : DirectoryAction := .turn i (some 1) zeros

/-- A lookup by itself in front of this database. -/
def alone (db : Database) (phase : Phase) : Directory := ⟨db, 0, [⟨lookup1836, phase⟩]⟩

theorem delivered_once_alone :
    (alone ((oneSafe.countAttempt lookup1836 0).consume 1)
      (.answered (some safe1836) (realAnswer safe1836.val))).deliveries 1 ≤ 1 := by
  let counted := oneSafe.countAttempt lookup1836 0
  let answer := realAnswer safe1836.val
  let as : List DirectoryAction := [.arrive lookup1836, turn 0, turn 0, turn 0, turn 0, turn 0, turn 0]
  have h1 : directoryStep ⟨oneSafe, 0, []⟩ (.arrive lookup1836) = some (alone oneSafe .start) := rfl
  have h2 : directoryStep (alone oneSafe .start) (turn 0) = some (alone oneSafe (.rated none)) := rfl
  have h3 : directoryStep (alone oneSafe (.rated none)) (turn 0) = some (alone oneSafe .looking) := rfl
  have h4 : directoryStep (alone oneSafe .looking) (turn 0) =
      some (alone oneSafe (.found (some safe1836))) := rfl
  have h5 : directoryStep (alone oneSafe (.found (some safe1836))) (turn 0) =
      some (alone oneSafe (.counting (some safe1836))) := rfl
  have h6 : directoryStep (alone oneSafe (.counting (some safe1836))) (turn 0) =
      some (alone counted (.consuming safe1836)) := rfl
  have h7 : directoryStep (alone counted (.consuming safe1836)) (turn 0) =
      some (alone (counted.consume 1) (.answered (some safe1836) answer)) := rfl
  have hrun : runSteps directoryStep ⟨oneSafe, 0, []⟩ as =
      some (alone (counted.consume 1) (.answered (some safe1836) answer)) := by
    simp only [as, runSteps, h1, h2, h3, h4, h5, h6, h7, Option.bind_some]
  have hfresh : TakesUnconsumed (alone counted (.consuming safe1836)) (turn 0) := by
    rintro l safe ⟨⟩
    exact ⟨safe1836, List.mem_singleton_self _, rfl, rfl⟩
  have hmeet : StepsMeet directoryStep TakesUnconsumed ⟨oneSafe, 0, []⟩ as := by
    refine Lib.stepsMeet_cons trivial h1 (Lib.stepsMeet_cons ?_ h2 (Lib.stepsMeet_cons ?_ h3
      (Lib.stepsMeet_cons ?_ h4 (Lib.stepsMeet_cons ?_ h5 (Lib.stepsMeet_cons ?_ h6
        (Lib.stepsMeet_cons hfresh h7 trivial))))))
    all_goals rintro l safe ⟨⟩
  exact delivered_once rfl hrun hmeet 1

/-- Two lookups side by side that both read the safe before either of them marks it. -/
theorem delivered_twice : ¬ ∀ (s s' : Directory) (as : List DirectoryAction), s.requests = [] →
    runSteps directoryStep s as = some s' → ∀ id, s'.deliveries id ≤ 1 := by
  intro h
  let as : List DirectoryAction := [.arrive lookup1836, .arrive lookup1836, turn 0, turn 1, turn 0,
    turn 1, turn 0, turn 1, turn 0, turn 1, turn 0, turn 1, turn 0, turn 1]
  have htwice : (runSteps directoryStep ⟨oneSafe, 0, []⟩ as).map (fun s => s.deliveries 1) = some 2 := by
    decide
  obtain ⟨s', hrun, htwo⟩ := Option.map_eq_some_iff.1 htwice
  have hone := h _ s' as rfl hrun 1
  omega

/-! ## The shape of an answer -/

/-- The answer is the one that these tables call for. -/
inductive Outcome (db : Database) (clock : Nat) (l : Lookup) : Response → Prop
  | refused (h : Refused db clock l) : Outcome db clock l tooMany
  | real (h : ¬ Refused db clock l) (hreal : RealTime db l) (s : Safe) :
      Outcome db clock l (realAnswer s)
  | lockdown (h : ¬ Refused db clock l) (hreal : RealTime db l) (d : Decoy) :
      Outcome db clock l (lockdownAnswer d)
  | fake (h : ¬ Refused db clock l) (hreal : ¬ RealTime db l) (d : Decoy) :
      Outcome db clock l (fakeAnswer d)

/-- What a lookup knows of the tables it found. -/
def Knows (db : Database) (clock : Nat) (l : Lookup) (now : Database) : Phase → Prop
  | .start => now = db
  | .rated row => now = db ∧ row = db.rate l
  | .resetting => ¬ Refused db clock l ∧ now = db
  | .looking => ¬ Refused db clock l ∧ now.safes = db.safes
  | .found safe => ¬ Refused db clock l ∧ (safe.isSome ↔ RealTime db l)
  | .destroying _ => ¬ Refused db clock l ∧ RealTime db l
  | .counting safe => ¬ Refused db clock l ∧ (safe.isSome ↔ RealTime db l)
  | .consuming _ => ¬ Refused db clock l ∧ RealTime db l
  | .answered _ r => Outcome db clock l r

theorem newest_real {db : Database} {l : Lookup} {pick : Nat} {safe : Row Safe}
    (h : db.newest l pick = some safe) : RealTime db l := by
  have hmem := List.mem_of_find?_eq_some h
  have hmatch := List.find?_some h
  simp only [decide_eq_true_eq] at hmatch
  exact ⟨safe, hmem, hmatch.2.1⟩

/-- One move of a lookup that is by itself. -/
theorem knows_moves {db now now' : Database} {clock : Nat} {l : Lookup} {phase phase' : Phase}
    (h : Knows db clock l now phase) (hmove : Moves now clock l phase now' phase') :
    Knows db clock l now' phase' := by
  cases hmove with
  | read =>
    obtain rfl := h
    exact ⟨rfl, rfl⟩
  | refuse row hrecent hmany =>
    obtain ⟨-, hrow⟩ := h
    exact .refused ⟨row, hrow.symm, hrecent, hmany⟩
  | pass row hpass =>
    obtain ⟨rfl, rfl⟩ := h
    refine ⟨?_, rfl⟩
    rintro ⟨row, hrow, -, hmany⟩
    have := (hpass row hrow).2
    omega
  | expire row hold =>
    obtain ⟨rfl, hrow⟩ := h
    refine ⟨?_, rfl⟩
    rintro ⟨row', hrow', hrecent, -⟩
    rw [← hrow] at hrow'
    obtain rfl := Option.some.inj hrow'
    exact hold hrecent
  | reset =>
    obtain ⟨hpass, rfl⟩ := h
    exact ⟨hpass, rfl⟩
  | find safe pick hfind =>
    obtain ⟨hpass, hsafes⟩ := h
    have hreal : RealTime now l := newest_real hfind
    unfold RealTime at hreal
    rw [hsafes] at hreal
    exact ⟨hpass, fun _ => hreal, fun _ => rfl⟩
  | miss hmiss =>
    obtain ⟨hpass, hsafes⟩ := h
    unfold RealTime at hmiss
    rw [hsafes] at hmiss
    exact ⟨hpass, nofun, fun hreal => absurd hreal hmiss⟩
  | lock safe hmany => exact ⟨h.1, h.2.1 rfl⟩
  | go safe => exact h
  | destroy safe d => exact .lockdown h.1 h.2 d
  | decoy d => exact .fake h.1 (fun hreal => nomatch h.2.2 hreal) d
  | count safe => exact ⟨h.1, h.2.1 rfl⟩
  | consume safe => exact .real h.1 h.2 safe.val

/-- The answers that a lookup can get. -/
theorem replies_outcome {db : Database} {clock : Nat} {l : Lookup} {r : Response}
    (h : Replies db clock l r) : Outcome db clock l r := by
  obtain ⟨choices, db', safe, hrun⟩ := h
  let Solo := fun s : Directory =>
    s.clock = clock ∧ ∃ phase, s.requests = [⟨l, phase⟩] ∧ Knows db clock l s.db phase
  let Turn := fun (_ : Directory) (a : DirectoryAction) => ∃ pick d, a = .turn 0 pick d
  have hstep : ∀ s a s', Solo s → Turn s a → directoryStep s a = some s' → Solo s' := by
    rintro s a s' ⟨hclock, phase, hreq, hknows⟩ ⟨pick, d, rfl⟩ hs
    rcases directoryStep_cases hs with ⟨i, l', ph, ph', db'', pick', d', ha, hi, hmove, rfl⟩ |
      ⟨i, l', ph, ha, -⟩ | ⟨l', ha, -⟩ | ⟨_, _, _, _, _, ha, -⟩ | ⟨ms, ha, -⟩
    · cases ha
      rw [hreq] at hi
      cases hi
      rw [hclock] at hmove
      refine ⟨hclock, ph', ?_, knows_moves hknows hmove⟩
      show s.requests.set 0 ⟨l, ph'⟩ = _
      rw [hreq]
      rfl
    all_goals cases ha
  have hturns : StepsMeet directoryStep Turn ⟨db, clock, [⟨l, .start⟩]⟩
      (choices.map fun c => .turn 0 c.1 c.2) := by
    apply Lib.stepsMeet_of_forall
    intro a ha s
    obtain ⟨c, -, rfl⟩ := List.mem_map.1 ha
    exact ⟨c.1, c.2, rfl⟩
  have hstart : Solo ⟨db, clock, [⟨l, .start⟩]⟩ := ⟨rfl, .start, rfl, rfl⟩
  obtain ⟨-, phase, hreq, hknows⟩ := Lib.runSteps_invariant_of_meet hstep hrun hturns hstart
  cases hreq
  exact hknows

theorem refused_congr {l : Lookup} {db db' : Database} (h : db.rates = db'.rates) (clock : Nat) :
    Refused db clock l ↔ Refused db' clock l := by
  unfold Refused Database.rate
  rw [h]

/-- A decoy for a time without a safe has a field that no other answer has. -/
theorem fake_differs {r : Response} {d : Decoy} (h : ascii "is_fake" ∉ r.fields) :
    ¬ SameShape r (fakeAnswer d) := by
  rintro ⟨-, hfields⟩
  have hfake : ascii "is_fake" ∈ (fakeAnswer d).fields := by
    show ascii (str "is_fake") ∈ [ascii (str "success"), ascii (str "encrypted_safe"),
      ascii (str "salt"), ascii (str "iv"), ascii (str "is_fake")]
    decide
  exact h ((hfields (ascii "is_fake")).2 hfake)

/-- The answers to a real time and to another one have the same shape exactly if the lookup is refused
before the safe is looked for. -/
theorem sameShape_iff {l : Lookup} {db db' : Database} {clock : Nat} {r r' : Response}
    (h : DifferInTime l db db') (hr : Replies db clock l r) (hr' : Replies db' clock l r') :
    SameShape r r' ↔ Refused db clock l := by
  have hrefused := refused_congr (l := l) h.rates clock
  cases replies_outcome hr' with
  | refused href' =>
    cases replies_outcome hr with
    | refused href => exact ⟨fun _ => href, fun _ => ⟨rfl, fun f => Iff.rfl⟩⟩
    | real hpass => exact absurd (hrefused.2 href') hpass
    | lockdown hpass => exact absurd (hrefused.2 href') hpass
    | fake hpass => exact absurd (hrefused.2 href') hpass
  | real _ hreal => exact absurd hreal h.unreal
  | lockdown _ hreal => exact absurd hreal h.unreal
  | fake hpass' _ d =>
    have hpass : ¬ Refused db clock l := fun href => hpass' (hrefused.1 href)
    refine ⟨fun hsame => ?_, fun href => absurd href hpass⟩
    exfalso
    cases replies_outcome hr with
    | refused href => exact hpass href
    | real _ _ s =>
      have hno : ascii "is_fake" ∉ (realAnswer s).fields := by
        show ascii (str "is_fake") ∉ [ascii (str "success"), ascii (str "encrypted_safe"),
          ascii (str "salt"), ascii (str "iv")]
        decide
      exact fake_differs hno hsame
    | lockdown _ _ d' =>
      have hno : ascii "is_fake" ∉ (lockdownAnswer d').fields := by
        show ascii (str "is_fake") ∉ [ascii (str "success"), ascii (str "encrypted_safe"),
          ascii (str "salt"), ascii (str "iv"), ascii (str "locked_down_correct_time")]
        decide
      exact fake_differs hno hsame
    | fake _ hunreal => exact hunreal h.real

/-- A database without a safe. -/
def noSafe : Database := ⟨Table.empty, [], .nil⟩

theorem differInTime_1836 : DifferInTime lookup1836 oneSafe noSafe where
  rates := rfl
  others := by
    intro r hr
    constructor
    · intro hmem
      obtain rfl : r = safe1836 := List.mem_singleton.1 hmem
      exact absurd ⟨rfl, rfl, rfl⟩ hr
    · nofun
  real := ⟨safe1836, List.mem_singleton_self _, rfl, rfl, rfl⟩
  unreal := by
    rintro ⟨r, hr, -⟩
    cases hr

theorem oneSafe_replies : Replies oneSafe 0 lookup1836 (realAnswer safe1836.val) :=
  ⟨List.replicate 6 (some 1, zeros), _, _, rfl⟩

theorem noSafe_replies : Replies noSafe 0 lookup1836 (fakeAnswer zeros) :=
  ⟨List.replicate 5 (none, zeros), _, _, rfl⟩

theorem sameShape_1836 :
    SameShape (realAnswer safe1836.val) (fakeAnswer zeros) ↔ Refused oneSafe 0 lookup1836 :=
  sameShape_iff differInTime_1836 oneSafe_replies noSafe_replies

/-- The field `is_fake` tells the decoy from the safe. -/
theorem differentShape : ¬ ∀ (l : Lookup) (db db' : Database) (clock : Nat) (r r' : Response),
    DifferInTime l db db' → Replies db clock l r → Replies db' clock l r' → SameShape r r' := by
  intro h
  have hsame := h _ _ _ _ _ _ differInTime_1836 oneSafe_replies noSafe_replies
  have hno : ascii "is_fake" ∉ (realAnswer safe1836.val).fields := by decide
  exact fake_differs hno hsame

/-!
## The two limits of the directory

The counter of an address on a phone covers the lookups of a window of time as long as no reset forgets
one of them, and none is answered without being counted. With the window of ten minutes this bounds the
lookups that are let through, with the window of a day the sum over all addresses.
-/

/-! ### The counters -/

theorem Lookup.SameSource.symm {l l' : Lookup} (h : l.SameSource l') : l'.SameSource l :=
  ⟨h.1.symm, h.2.symm⟩

theorem Lookup.SameSource.trans {l l' l'' : Lookup} (h : l.SameSource l') (h' : l'.SameSource l'') :
    l.SameSource l'' :=
  ⟨h.1.trans h'.1, h.2.trans h'.2⟩

theorem RateLimit.counts_congr {l l' : Lookup} (h : l.SameSource l') (r : RateLimit) :
    r.Counts l ↔ r.Counts l' := by
  unfold RateLimit.Counts
  rw [h.1, h.2]

/-- Two lookups that one row counts come from the same source. -/
theorem RateLimit.Counts.same {r : RateLimit} {l l' : Lookup} (h : r.Counts l) (h' : r.Counts l') :
    l.SameSource l' :=
  ⟨h.1.symm.trans h'.1, h.2.symm.trans h'.2⟩

theorem rate_congr (db : Database) {l l' : Lookup} (h : l.SameSource l') : db.rate l = db.rate l' := by
  unfold Database.rate
  congr 1
  funext r
  exact decide_eq_decide.2 (RateLimit.counts_congr h r)

theorem attempts_congr (db : Database) {l l' : Lookup} (h : l.SameSource l') :
    db.attempts l = db.attempts l' := by
  unfold Database.attempts
  rw [rate_congr db h]

theorem rate_spec {db : Database} {l : Lookup} {row : RateLimit} (h : db.rate l = some row) :
    row ∈ db.rates ∧ row.Counts l := by
  refine ⟨List.mem_of_find?_eq_some h, ?_⟩
  have hfound := List.find?_some h
  simpa using hfound

/-- The row of an address and a phone is the only one. -/
theorem rate_of_mem {db : Database} {l : Lookup} {row : RateLimit} (hmem : row ∈ db.rates)
    (hcounts : row.Counts l) : db.rate l = some row := by
  cases h : db.rate l with
  | none =>
    have hnone := List.find?_eq_none.1 h row hmem
    exact absurd (decide_eq_true hcounts) hnone
  | some row' =>
    obtain ⟨hmem', hcounts'⟩ := rate_spec h
    by_contra hne
    have hdiffer : row ≠ row' := fun heq => hne (by rw [heq])
    have hsymm : Std.Symm fun r r' : RateLimit =>
        ¬ (r.ipAddress = r'.ipAddress ∧ r.phoneNumber = r'.phoneNumber) :=
      ⟨fun x y hxy hyx => hxy ⟨hyx.1.symm, hyx.2.symm⟩⟩
    exact db.unique.forall hmem hmem' hdiffer
      ⟨hcounts.1.trans hcounts'.1.symm, hcounts.2.trans hcounts'.2.symm⟩

theorem put_counts {r : RateLimit} {l : Lookup} (n now : Nat) : (r.put n now).Counts l ↔ r.Counts l :=
  Iff.rfl

/-- A change of rows that keeps their addresses and phones. -/
theorem find_map_rates {rates : List RateLimit} {l : Lookup} {f : RateLimit → RateLimit}
    (hf : ∀ r, (f r).Counts l ↔ r.Counts l) :
    (rates.map f).find? (fun r => decide (r.Counts l)) =
      (rates.find? fun r => decide (r.Counts l)).map f := by
  rw [List.find?_map]
  congr 2
  funext r
  exact decide_eq_decide.2 (hf r)

theorem rate_reset (db : Database) (l l' : Lookup) (now : Nat) :
    (db.resetRate l now).rate l' =
      (db.rate l').map fun r => if r.Counts l then r.put 0 now else r := by
  unfold Database.rate Database.resetRate
  apply find_map_rates
  intro r
  split_ifs
  · exact put_counts 0 now
  · exact Iff.rfl

/-- The counter goes up by one, and shows the time. -/
theorem rate_count_self (db : Database) (l : Lookup) (now : Nat) :
    ∃ row, (db.countAttempt l now).rate l = some row ∧ row.attempts = db.attempts l + 1 ∧
      row.lastAttemptAt = now := by
  cases h : db.rate l with
  | some row =>
    obtain ⟨hmem, hcounts⟩ := rate_spec h
    have hany : db.rates.any (fun r => r.Counts l) = true :=
      List.any_eq_true.2 ⟨row, hmem, decide_eq_true hcounts⟩
    refine ⟨row.put (row.attempts + 1) now, ?_, ?_, rfl⟩
    · unfold Database.rate at h ⊢
      unfold Database.countAttempt
      dsimp only
      rw [if_pos hany, find_map_rates, h, Option.map_some, if_pos hcounts]
      intro r
      split_ifs
      · exact put_counts _ now
      · exact Iff.rfl
    · unfold Database.attempts
      rw [h]
      rfl
  | none =>
    have hnone := List.find?_eq_none.1 h
    have hany : ¬ db.rates.any (fun r => r.Counts l) = true := by
      intro hany
      obtain ⟨r, hr, hcounts⟩ := List.any_eq_true.1 hany
      exact hnone r hr hcounts
    refine ⟨⟨l.ip, l.phone, 1, now⟩, ?_, ?_, rfl⟩
    · unfold Database.rate at h ⊢
      unfold Database.countAttempt
      dsimp only
      rw [if_neg hany, List.find?_append, h, Option.none_or]
      have hown : (⟨l.ip, l.phone, 1, now⟩ : RateLimit).Counts l := ⟨rfl, rfl⟩
      rw [List.find?_cons, decide_eq_true hown]
    · unfold Database.attempts
      rw [h]
      rfl

theorem rate_count_other (db : Database) {l l' : Lookup} (h : ¬ l.SameSource l') (now : Nat) :
    (db.countAttempt l now).rate l' = db.rate l' := by
  have hno : ∀ r : RateLimit, r.Counts l' → ¬ r.Counts l := fun r hr' hr => h (hr.same hr')
  unfold Database.rate Database.countAttempt
  dsimp only
  split_ifs with hany
  · rw [find_map_rates]
    · cases hrate : db.rates.find? (fun r => decide (r.Counts l')) with
      | none => rfl
      | some row =>
        have hcounts := List.find?_some hrate
        simp only [decide_eq_true_eq] at hcounts
        rw [Option.map_some, if_neg (hno row hcounts)]
    · intro r
      split_ifs
      · exact put_counts _ now
      · exact Iff.rfl
  · rw [List.find?_append]
    have hown : ¬ (⟨l.ip, l.phone, 1, now⟩ : RateLimit).Counts l' := h
    rw [List.find?_cons, decide_eq_false hown]
    simp

/-! ### What the counters cover -/

/-- The lookups of one source in the last `window` seconds. -/
def recent (window now : Nat) (log : List Served) (l : Lookup) : Nat :=
  log.countP fun e => e.lookup.SameSource l ∧ now < e.second + window

/-- The counters cover the lookups of the last `window` seconds. -/
structure Covered (window : Nat) (s : Directory) (log : List Served) : Prop where
  past : ∀ e ∈ log, e.second ≤ s.clock / 1000
  last : ∀ e ∈ log, ∃ row, s.db.rate e.lookup = some row ∧ e.second ≤ row.lastAttemptAt
  counted : ∀ l, recent window (s.clock / 1000) log l ≤ s.db.attempts l

/-- Only the counters and the clock matter. -/
theorem Covered.congr {window : Nat} {s s' : Directory} {log : List Served} (h : Covered window s log)
    (hrate : ∀ l, s'.db.rate l = s.db.rate l) (hclock : s'.clock = s.clock) :
    Covered window s' log := by
  have hattempts : ∀ l, s'.db.attempts l = s.db.attempts l := by
    intro l
    unfold Database.attempts
    rw [hrate]
  refine ⟨fun e he => ?_, fun e he => ?_, fun l => ?_⟩
  · rw [hclock]
    exact h.past e he
  · rw [hrate]
    exact h.last e he
  · rw [hclock, hattempts]
    exact h.counted l

theorem recent_mono {window now now' : Nat} (h : now ≤ now') (log : List Served) (l : Lookup) :
    recent window now' log l ≤ recent window now log l := by
  apply List.countP_mono_left
  intro e _ he
  simp only [decide_eq_true_eq] at he ⊢
  exact ⟨he.1, Nat.lt_of_le_of_lt h he.2⟩

theorem Covered.tick {window : Nat} {s : Directory} {log : List Served} (h : Covered window s log)
    (ms : Nat) : Covered window { s with clock := s.clock + ms } log := by
  have hle : s.clock / 1000 ≤ (s.clock + ms) / 1000 := Nat.div_le_div_right (Nat.le_add_right _ _)
  refine ⟨fun e he => Nat.le_trans (h.past e he) hle, h.last, fun l => ?_⟩
  exact Nat.le_trans (recent_mono hle log l) (h.counted l)

/-- A reset that forgets nothing of the window. -/
theorem Covered.reset {window : Nat} {s : Directory} {log : List Served} (h : Covered window s log)
    {l : Lookup} (hold : ForgetsOnlyOld window s l) (requests : List Request) :
    Covered window ⟨s.db.resetRate l (s.clock / 1000), s.clock, requests⟩ log := by
  refine ⟨h.past, fun e he => ?_, fun l' => ?_⟩
  · obtain ⟨row, hrow, hle⟩ := h.last e he
    refine ⟨if row.Counts l then row.put 0 (s.clock / 1000) else row, ?_, ?_⟩
    · rw [rate_reset, hrow]
      rfl
    · split_ifs
      · exact h.past e he
      · exact hle
  · have hcounted := h.counted l'
    unfold Database.attempts at hcounted ⊢
    rw [rate_reset]
    cases hrow : s.db.rate l' with
    | none =>
      rw [hrow] at hcounted
      exact hcounted
    | some row =>
      rw [hrow] at hcounted
      rw [Option.map_some, Option.map_some, Option.getD_some]
      rw [Option.map_some, Option.getD_some] at hcounted
      by_cases hcounts : row.Counts l
      · -- the row is that of the reset: it stood at zero, or what it counted is old
        rw [if_pos hcounts]
        have hsame : l.SameSource l' := hcounts.same (rate_spec hrow).2
        have hrow' : s.db.rate l = some row := (rate_congr s.db hsame).trans hrow
        rcases hold row hrow' with hzero | hlast
        · rw [hzero] at hcounted
          exact hcounted
        · have hnone : recent window (s.clock / 1000) log l' = 0 := by
            apply List.countP_eq_zero.2
            intro e he hmatch
            simp only [decide_eq_true_eq] at hmatch
            obtain ⟨hsrc, hlt⟩ := hmatch
            obtain ⟨row', hrate, hle⟩ := h.last e he
            rw [rate_congr s.db hsrc, hrow] at hrate
            obtain rfl := Option.some.inj hrate
            omega
          show recent window (s.clock / 1000) log l' ≤ 0
          omega
      · rw [if_neg hcounts]
        exact hcounted

/-- A lookup that is counted when it is let through. -/
theorem Covered.count {window : Nat} {s : Directory} {log : List Served} (h : Covered window s log)
    (l : Lookup) (requests : List Request) :
    Covered window ⟨s.db.countAttempt l (s.clock / 1000), s.clock, requests⟩
      (log ++ [⟨l, s.clock / 1000⟩]) := by
  obtain ⟨row, hrow, hattempts, hlast⟩ := rate_count_self s.db l (s.clock / 1000)
  refine ⟨fun e he => ?_, fun e he => ?_, fun l' => ?_⟩
  · rcases List.mem_append.1 he with he | he
    · exact h.past e he
    · rw [List.mem_singleton.1 he]
  · rcases List.mem_append.1 he with he | he
    · by_cases hsame : l.SameSource e.lookup
      · refine ⟨row, (rate_congr _ hsame).symm.trans hrow, ?_⟩
        rw [hlast]
        exact h.past e he
      · obtain ⟨row', hrow', hle⟩ := h.last e he
        exact ⟨row', (rate_count_other s.db hsame _).trans hrow', hle⟩
    · rw [List.mem_singleton.1 he]
      exact ⟨row, hrow, by rw [hlast]⟩
  · have hcounted := h.counted l'
    unfold recent at hcounted ⊢
    dsimp only
    rw [List.countP_append]
    by_cases hsame : l.SameSource l'
    · have hnew : (s.db.countAttempt l (s.clock / 1000)).attempts l' = s.db.attempts l' + 1 := by
        rw [← attempts_congr _ hsame, ← attempts_congr _ hsame]
        unfold Database.attempts at hattempts ⊢
        rw [hrow]
        exact hattempts
      have hone := List.countP_le_length (p := fun e : Served =>
        decide (e.lookup.SameSource l' ∧ s.clock / 1000 < e.second + window)) (l := [⟨l, s.clock / 1000⟩])
      rw [List.length_singleton] at hone
      show _ ≤ (s.db.countAttempt l (s.clock / 1000)).attempts l'
      omega
    · have hold : (s.db.countAttempt l (s.clock / 1000)).attempts l' = s.db.attempts l' := by
        unfold Database.attempts
        rw [rate_count_other s.db hsame]
      have hzero : [(⟨l, s.clock / 1000⟩ : Served)].countP (fun e =>
          decide (e.lookup.SameSource l' ∧ s.clock / 1000 < e.second + window)) = 0 := by
        apply List.countP_eq_zero.2
        intro e he hmatch
        rw [List.mem_singleton.1 he] at hmatch
        simp only [decide_eq_true_eq] at hmatch
        exact hsame hmatch.1
      show _ ≤ (s.db.countAttempt l (s.clock / 1000)).attempts l'
      omega

/-! ### Steps and runs -/

/-- The log after a move of a request. -/
theorem served_turn {s : Directory} {i : Nat} {l : Lookup} {phase : Phase}
    (hi : s.requests[i]? = some ⟨l, phase⟩) (pick : Option Nat) (d : Decoy) (log : List Served) :
    served s (.turn i pick d) log =
      if phase.serves then log ++ [⟨l, s.clock / 1000⟩] else log := by
  unfold served
  dsimp only
  rw [hi]

/-- One step of the directory that keeps count. -/
theorem covered_step {window : Nat} {limit : Option Nat} {s s' : Directory} {a : DirectoryAction}
    {log : List Served} (h : Covered window s log) (hC : KeepsCount window limit s a)
    (hstep : directoryStep s a = some s') : Covered window s' (served s a log) := by
  rcases directoryStep_cases hstep with ⟨i, l, phase, phase', db, pick, d, rfl, hi, hmove, rfl⟩ |
    ⟨i, l, phase, rfl, hi, hnone, rfl⟩ | ⟨l, rfl, rfl⟩ | ⟨phone, safe, salt, iv, time, rfl, hs'⟩ |
    ⟨ms, rfl, rfl⟩
  · have hkeeps := hC l phase hi
    rw [served_turn hi]
    cases hmove with
    | reset => exact h.reset hkeeps _
    | decoy d => exact h.count l _
    | count safe => exact h.count l _
    | destroy safe d => exact absurd hkeeps id
    | consume safe => exact h.congr (fun _ => rfl) rfl
    | _ => exact h.congr (fun _ => rfl) rfl
  · exact h.congr (fun _ => rfl) rfl
  · exact h.congr (fun _ => rfl) rfl
  · rcases hs' with rfl | rfl
    · exact h
    · exact h.congr (fun _ => rfl) rfl
  · exact h.tick ms

/-- The lookup that is let through at this moment ends every window that it lies in. -/
theorem atMostThree_snoc {s : Directory} {log : List Served} (h : Covered tenMinuteSeconds s log)
    (hthree : AtMostThree log) {l : Lookup} (hlimit : s.db.attempts l < 3) :
    AtMostThree (log ++ [⟨l, s.clock / 1000⟩]) := by
  intro l' start
  rw [List.countP_append]
  by_cases hin : l.SameSource l' ∧ start ≤ s.clock / 1000 ∧ s.clock / 1000 < start + tenMinuteSeconds
  · obtain ⟨hsame, hstart, hend⟩ := hin
    have hle : log.countP (fun e => decide (e.lookup.SameSource l' ∧ start ≤ e.second ∧
        e.second < start + tenMinuteSeconds)) ≤
        recent tenMinuteSeconds (s.clock / 1000) log l' := by
      apply List.countP_mono_left
      intro e _ he
      simp only [decide_eq_true_eq] at he ⊢
      exact ⟨he.1, by omega⟩
    have hcounted := h.counted l'
    rw [← attempts_congr s.db hsame] at hcounted
    have hone := List.countP_le_length (p := fun e : Served => decide (e.lookup.SameSource l' ∧
      start ≤ e.second ∧ e.second < start + tenMinuteSeconds)) (l := [⟨l, s.clock / 1000⟩])
    rw [List.length_singleton] at hone
    omega
  · have hzero : [(⟨l, s.clock / 1000⟩ : Served)].countP (fun e => decide (e.lookup.SameSource l' ∧
        start ≤ e.second ∧ e.second < start + tenMinuteSeconds)) = 0 := by
      apply List.countP_eq_zero.2
      intro e he hmatch
      rw [List.mem_singleton.1 he] at hmatch
      simp only [decide_eq_true_eq] at hmatch
      exact hin hmatch
    have := hthree l' start
    omega

theorem atMostThree_step {s s' : Directory} {a : DirectoryAction} {log : List Served}
    (h : Covered tenMinuteSeconds s log) (hthree : AtMostThree log)
    (hC : KeepsCount tenMinuteSeconds (some 3) s a) (hstep : directoryStep s a = some s') :
    AtMostThree (served s a log) := by
  rcases directoryStep_cases hstep with ⟨i, l, phase, phase', db, pick, d, rfl, hi, hmove, rfl⟩ |
    ⟨i, l, phase, rfl, -⟩ | ⟨l, rfl, -⟩ | ⟨phone, safe, salt, iv, time, rfl, -⟩ | ⟨ms, rfl, -⟩
  · have hkeeps := hC l phase hi
    rw [served_turn hi]
    cases hmove with
    | decoy d => exact atMostThree_snoc h hthree (hkeeps 3 rfl)
    | count safe => exact atMostThree_snoc h hthree (hkeeps 3 rfl)
    | destroy safe d => exact absurd hkeeps id
    | _ => exact hthree
  all_goals exact hthree

/-- Every element of `l` is counted by some row. -/
theorem length_le_sum {ρ ε : Type} (p : ρ → ε → Bool) (rows : List ρ) {l : List ε}
    (h : ∀ e ∈ l, ∃ r ∈ rows, p r e = true) : l.length ≤ (rows.map fun r => l.countP (p r)).sum := by
  induction l with
  | nil => exact Nat.zero_le _
  | cons e l ih =>
    have hrest := ih fun e' he' => h e' (List.mem_cons_of_mem _ he')
    obtain ⟨r, hr, hre⟩ := h e (List.mem_cons_self ..)
    have hsplit : ∀ rs : List ρ, (rs.map fun r => (e :: l).countP (p r)).sum =
        (rs.map fun r => l.countP (p r)).sum + rs.countP fun r => p r e := by
      intro rs
      induction rs with
      | nil => rfl
      | cons r rs ihr =>
        rw [List.map_cons, List.map_cons, List.sum_cons, List.sum_cons, ihr, List.countP_cons,
          List.countP_cons]
        omega
    have hpos : 0 < rows.countP fun r => p r e := List.countP_pos_iff.2 ⟨r, hr, hre⟩
    rw [hsplit, List.length_cons]
    omega

theorem sum_filter_le {rates : List RateLimit} {q : RateLimit → Bool} {f : RateLimit → Nat}
    (h : ∀ r ∈ rates, f r ≤ if q r then r.attempts else 0) :
    (rates.map f).sum ≤ ((rates.filter q).map RateLimit.attempts).sum := by
  induction rates with
  | nil => exact Nat.le_refl _
  | cons r rates ih =>
    have hrest := ih fun r' hr' => h r' (List.mem_cons_of_mem _ hr')
    have hr := h r (List.mem_cons_self ..)
    rw [List.map_cons, List.sum_cons, List.filter_cons]
    split_ifs at hr ⊢ with hq
    · rw [List.map_cons, List.sum_cons]
      omega
    · omega

/-- The sum over the addresses covers the lookups of a day. -/
theorem countsAll_of_covered {s : Directory} {log : List Served} (h : Covered day s log) :
    CountsAll s log := by
  intro phone
  have hfilter : log.countP (fun e => decide (e.lookup.phone = phone ∧ s.clock / 1000 < e.second + day)) =
      (log.filter fun e => decide (e.lookup.phone = phone ∧ s.clock / 1000 < e.second + day)).length :=
    List.countP_eq_length_filter
  rw [hfilter]
  generalize hl : (log.filter fun e =>
    decide (e.lookup.phone = phone ∧ s.clock / 1000 < e.second + day)) = l
  have hmem : ∀ e ∈ l, e ∈ log ∧ e.lookup.phone = phone ∧ s.clock / 1000 < e.second + day := by
    intro e he
    rw [← hl] at he
    obtain ⟨he, hp⟩ := List.mem_filter.1 he
    exact ⟨he, of_decide_eq_true hp⟩
  have hrows : ∀ e ∈ l, ∃ r ∈ s.db.rates, decide (r.Counts e.lookup) = true := by
    intro e he
    obtain ⟨row, hrow, -⟩ := h.last e (hmem e he).1
    obtain ⟨hin, hcounts⟩ := rate_spec hrow
    exact ⟨row, hin, decide_eq_true hcounts⟩
  apply Nat.le_trans (length_le_sum (fun r e => decide (r.Counts e.lookup)) s.db.rates hrows)
  apply sum_filter_le
  intro r hr
  by_cases hsome : ∃ e ∈ l, r.Counts e.lookup
  · obtain ⟨e, he, hcounts⟩ := hsome
    obtain ⟨hin, hphone, hlate⟩ := hmem e he
    obtain ⟨row, hrow, hlast⟩ := h.last e hin
    have hown : s.db.rate e.lookup = some r := rate_of_mem hr hcounts
    rw [hown] at hrow
    obtain rfl := Option.some.inj hrow
    have hq : r.phoneNumber = phone ∧ s.clock / 1000 < r.lastAttemptAt + day :=
      ⟨hcounts.2.trans hphone, by omega⟩
    rw [decide_eq_true hq, if_pos rfl]
    have hcounted := h.counted e.lookup
    unfold Database.attempts at hcounted
    rw [hown, Option.map_some, Option.getD_some] at hcounted
    apply Nat.le_trans _ hcounted
    rw [← hl]
    unfold recent
    rw [List.countP_filter]
    apply List.countP_mono_left
    intro e' _ he'
    simp only [Bool.and_eq_true, decide_eq_true_eq] at he' ⊢
    exact ⟨he'.1.same hcounts, he'.2.2⟩
  · have hzero : l.countP (fun e => decide (r.Counts e.lookup)) = 0 := by
      apply List.countP_eq_zero.2
      intro e he hcounts
      exact hsome ⟨e, he, of_decide_eq_true hcounts⟩
    rw [hzero]
    exact Nat.zero_le _

/-- A run whose steps keep count of a window keeps the counters above the lookups of the window. -/
theorem covered_run {window : Nat} {limit : Option Nat} {s s' : Directory} {as : List DirectoryAction}
    {log : List Served}
    (hrun : runSteps (withHistory directoryStep served) (s, []) as = some (s', log))
    (hC : StepsMeet directoryStep (KeepsCount window limit) s as) : Covered window s' log := by
  have hstart : Covered window s [] :=
    ⟨nofun, nofun, fun l => Nat.zero_le _⟩
  have hstep : ∀ (p : Directory × List Served) (a : DirectoryAction) (p' : Directory × List Served),
      Covered window p.1 p.2 → KeepsCount window limit p.1 a →
      withHistory directoryStep served p a = some p' → Covered window p'.1 p'.2 := by
    intro p a p' h hkeeps hp
    obtain ⟨hs, hlog⟩ := withHistory_eq_some.1 hp
    rw [hlog]
    exact covered_step h hkeeps hs
  have hmeet : StepsMeet (withHistory directoryStep served) (fun p a => KeepsCount window limit p.1 a)
      (s, []) as :=
    Lib.stepsMeet_withHistory.2 hC
  exact Lib.runSteps_invariant_of_meet hstep hrun hmeet hstart

theorem atMostThree_run {s s' : Directory} {as : List DirectoryAction} {log : List Served}
    (hrun : runSteps (withHistory directoryStep served) (s, []) as = some (s', log))
    (hC : StepsMeet directoryStep (KeepsCount tenMinuteSeconds (some 3)) s as) : AtMostThree log := by
  have hstart : Covered tenMinuteSeconds s [] ∧ AtMostThree [] :=
    ⟨⟨nofun, nofun, fun l => Nat.zero_le _⟩, fun l start => Nat.zero_le _⟩
  have hstep : ∀ (p : Directory × List Served) (a : DirectoryAction) (p' : Directory × List Served),
      Covered tenMinuteSeconds p.1 p.2 ∧ AtMostThree p.2 →
      KeepsCount tenMinuteSeconds (some 3) p.1 a →
      withHistory directoryStep served p a = some p' →
      Covered tenMinuteSeconds p'.1 p'.2 ∧ AtMostThree p'.2 := by
    rintro p a p' ⟨h, hthree⟩ hkeeps hp
    obtain ⟨hs, hlog⟩ := withHistory_eq_some.1 hp
    rw [hlog]
    exact ⟨covered_step h hkeeps hs, atMostThree_step h hthree hkeeps hs⟩
  have hmeet : StepsMeet (withHistory directoryStep served)
      (fun p a => KeepsCount tenMinuteSeconds (some 3) p.1 a) (s, []) as :=
    Lib.stepsMeet_withHistory.2 hC
  exact (Lib.runSteps_invariant_of_meet hstep hrun hmeet hstart).2

/-- The limit of an address on a phone holds in the runs that keep count of ten minutes, and the counter
of a phone is right in those that keep count of a day. -/
theorem limits_hold {s s' : Directory} {as : List DirectoryAction} {log : List Served}
    (hrun : runSteps (withHistory directoryStep served) (s, []) as = some (s', log)) :
    (StepsMeet directoryStep (KeepsCount tenMinuteSeconds (some 3)) s as → AtMostThree log) ∧
      (StepsMeet directoryStep (KeepsCount day none) s as → CountsAll s' log) :=
  ⟨fun hC => atMostThree_run hrun hC, fun hC => countsAll_of_covered (covered_run hrun hC)⟩

/-- One lookup of a time without a safe. -/
def oneLookup : List DirectoryAction :=
  [.arrive lookup1836, .turn 0 none zeros, .turn 0 none zeros, .turn 0 none zeros, .turn 0 none zeros,
    .turn 0 none zeros]

/-- After one lookup. -/
def lookedUp : Directory :=
  alone (noSafe.countAttempt lookup1836 0) (.answered none (fakeAnswer zeros))

theorem oneLookup_keeps {window : Nat} {limit : Option Nat} (hlimit : ∀ n ∈ limit, 0 < n) :
    StepsMeet directoryStep (KeepsCount window limit) ⟨noSafe, 0, []⟩ oneLookup := by
  let look := DirectoryAction.turn 0 none zeros
  have h1 : directoryStep ⟨noSafe, 0, []⟩ (.arrive lookup1836) = some (alone noSafe .start) := rfl
  have h2 : directoryStep (alone noSafe .start) look = some (alone noSafe (.rated none)) := rfl
  have h3 : directoryStep (alone noSafe (.rated none)) look = some (alone noSafe .looking) := rfl
  have h4 : directoryStep (alone noSafe .looking) look = some (alone noSafe (.found none)) := rfl
  have h5 : directoryStep (alone noSafe (.found none)) look = some (alone noSafe (.counting none)) := rfl
  have h6 : directoryStep (alone noSafe (.counting none)) look = some lookedUp := rfl
  have hcounting : KeepsCount window limit (alone noSafe (.counting none)) look := by
    rintro l phase ⟨⟩
    exact hlimit
  refine Lib.stepsMeet_cons trivial h1 (Lib.stepsMeet_cons ?_ h2 (Lib.stepsMeet_cons ?_ h3
    (Lib.stepsMeet_cons ?_ h4 (Lib.stepsMeet_cons ?_ h5 (Lib.stepsMeet_cons hcounting h6 trivial)))))
  all_goals
    rintro l phase ⟨⟩
    trivial

theorem limits_hold_one : AtMostThree [⟨lookup1836, 0⟩] ∧ CountsAll lookedUp [⟨lookup1836, 0⟩] := by
  have hrun : runSteps (withHistory directoryStep served) (⟨noSafe, 0, []⟩, []) oneLookup =
      some (lookedUp, [⟨lookup1836, 0⟩]) := rfl
  obtain ⟨hthree, hall⟩ := limits_hold hrun
  have hlimit : ∀ n ∈ some 3, 0 < n := by
    intro n hn
    obtain rfl := Option.some.inj hn
    decide
  exact ⟨hthree (oneLookup_keeps hlimit), hall (oneLookup_keeps nofun)⟩

/-- Four lookups side by side that all read the counter before one of them is counted. -/
def fourLookups : List DirectoryAction :=
  let look := fun i => DirectoryAction.turn i none zeros
  [.arrive lookup1836, .arrive lookup1836, .arrive lookup1836, .arrive lookup1836,
    look 0, look 1, look 2, look 3, look 0, look 1, look 2, look 3, look 0, look 1, look 2, look 3,
    look 0, look 1, look 2, look 3, look 0, look 1, look 2, look 3]

/-- A lookup, and after ten minutes another one up to the reset of the counter. -/
def resetLookup : List DirectoryAction :=
  oneLookup ++ [.tick tenMinutes, .arrive lookup1836, .turn 1 none zeros, .turn 1 none zeros,
    .turn 1 none zeros]

/-- Four lookups pass in one moment, and a reset forgets a lookup of the same day. -/
theorem limits_fail :
    (¬ ∀ (s s' : Directory) (as : List DirectoryAction) (log : List Served), s.requests = [] →
      runSteps (withHistory directoryStep served) (s, []) as = some (s', log) → AtMostThree log) ∧
    ¬ ∀ (s s' : Directory) (as : List DirectoryAction) (log : List Served), s.requests = [] →
      runSteps (withHistory directoryStep served) (s, []) as = some (s', log) → CountsAll s' log := by
  constructor
  · intro h
    have hfour : (runSteps (withHistory directoryStep served) (⟨noSafe, 0, []⟩, []) fourLookups).map
        (fun p => p.2.countP (fun e => decide (e.lookup.SameSource lookup1836 ∧ 0 ≤ e.second ∧
          e.second < 0 + tenMinuteSeconds))) = some 4 := by
      decide
    obtain ⟨⟨s', log⟩, hrun, hcount⟩ := Option.map_eq_some_iff.1 hfour
    dsimp only at hcount
    have hthree := h _ s' fourLookups log rfl hrun lookup1836 0
    omega
  · intro h
    have hreset : (runSteps (withHistory directoryStep served) (⟨noSafe, 0, []⟩, []) resetLookup).map
        (fun p => (p.2.countP (fun e => decide (e.lookup.phone = lookup1836.phone ∧
          p.1.clock / 1000 < e.second + day)),
          p.1.db.globalAttempts lookup1836.phone (p.1.clock / 1000))) = some (1, 0) := by
      decide
    obtain ⟨⟨s', log⟩, hrun, hcount⟩ := Option.map_eq_some_iff.1 hreset
    obtain ⟨hone, hzero⟩ := Prod.mk.inj hcount
    have hall := h _ s' resetLookup log rfl hrun lookup1836.phone
    dsimp only at hone hzero
    omega

end Gafam.Frontend
