import Gafam.Android.LogShipper

/-!
# What the log queue keeps

As long as no exchange fails before the VPC has accepted its batch, every entry is in the queue, in the
hands of a flush, accepted, or dropped. As long as nothing is put back behind later entries, the queue is
sorted, so that the oldest entries are dropped, and a flush that runs alone sends what comes next.
-/

namespace Gafam.Android.LogShipper

open Gafam.Lib

/-- The call takes entries off the queue or has just done so. -/
def takes : LogCall → Bool
  | .flush _ => true
  | .execute _ => true
  | _ => false

/-! ## What a step does -/

inductive Effect (s : LogShipper) : LogShipper → Prop
  | begins (c : LogCall) (overlapped : Bool) (hc : c = .enqueue ∨ c = .flush [])
      (hover : overlapped = false →
        s.overlapped = false ∧ (c.flushes = true → s.calls.any LogCall.flushes = false)) :
      Effect s { s with calls := s.calls ++ [c], overlapped := overlapped }
  | move (i : Nat) (c c' : LogCall) (hc : s.calls[i]? = some c) (hbatch : c'.batch = c.batch)
      (hflushes : c'.flushes = true → c.flushes = true) (htakes : takes c' = true → takes c = true)
      (hsize : ∀ size, c' = .poll size → maxQueue ≤ size) : Effect s (s.goto i c')
  | drop (i size e : Nat) (rest : List Nat) (hc : s.calls[i]? = some (.poll size))
      (hqueue : s.queue = e :: rest) :
      Effect s { s.goto i .enqueue with queue := rest, dropped := s.dropped ++ [⟨e, rest, size⟩] }
  | offer (i : Nat) (hc : s.calls[i]? = some .offer) :
      Effect s { s.goto i .done with queue := s.queue ++ [s.offered], offered := s.offered + 1 }
  | take (i e : Nat) (batch rest : List Nat) (c' : LogCall) (hc : s.calls[i]? = some (.flush batch))
      (hqueue : s.queue = e :: rest) (hc' : c' = .execute (batch ++ [e]) ∨ c' = .flush (batch ++ [e])) :
      Effect s { s.goto i c' with queue := rest }
  | putBack (i e : Nat) (batch : List Nat) (hc : s.calls[i]? = some (.requeue (e :: batch)))
      (hlast : ∀ x ∈ s.queue, x < e) :
      Effect s { s.goto i (.requeue batch) with queue := s.queue ++ [e] }
  | accept (i : Nat) (batch : List Nat) (hc : s.calls[i]? = some (.execute batch)) :
      Effect s { s.goto i .done with accepted := s.accepted ++ batch }

theorem effect_go {s s' : LogShipper} {i : Nat} {c : LogCall} (hc : s.calls[i]? = some c)
    (h : s.go i c = some s') (hheeds : s.Heeds (.go i)) : Effect s s' := by
  cases c with
  | enqueue =>
    cases h
    refine .move i .enqueue _ hc ?_ ?_ ?_ ?_
    · split_ifs <;> rfl
    · split_ifs <;> exact Bool.false_ne_true.elim
    · split_ifs <;> exact Bool.false_ne_true.elim
    · intro size hsize
      split_ifs at hsize with hfull
      cases hsize
      exact hfull
  | poll size =>
    cases hq : s.queue with
    | nil =>
      simp only [go, hq] at h
      cases h
      exact .move i _ .enqueue hc rfl Bool.false_ne_true.elim Bool.false_ne_true.elim (by rintro _ ⟨⟩)
    | cons e rest =>
      simp only [go, hq] at h
      cases h
      exact .drop i size e rest hc hq
  | offer =>
    cases h
    exact .offer i hc
  | flush batch =>
    cases hq : s.queue with
    | nil =>
      simp only [go, hq] at h
      cases h
      refine .move i (.flush batch) _ hc ?_ (fun _ => rfl) (fun _ => rfl) ?_
      · split_ifs with hbatch
        · exact hbatch.symm
        · rfl
      · intro size hsize
        split_ifs at hsize
    | cons e rest =>
      simp only [go, hq] at h
      cases h
      refine .take i e batch rest _ hc hq ?_
      split_ifs
      · exact .inl rfl
      · exact .inr rfl
  | requeue batch =>
    cases batch with
    | nil =>
      cases h
      exact .move i _ .done hc rfl Bool.false_ne_true.elim Bool.false_ne_true.elim (by rintro _ ⟨⟩)
    | cons e batch =>
      cases h
      exact .putBack i e batch hc (hheeds e batch hc)
  | execute batch => cases h
  | done => cases h

theorem effect {s s' : LogShipper} {e : LogEvent} (h : step s e = some s') (hheeds : s.Heeds e) :
    Effect s s' := by
  cases e with
  | enqueue =>
    cases h
    exact .begins .enqueue s.overlapped (.inl rfl) fun hover => ⟨hover, Bool.false_ne_true.elim⟩
  | flush =>
    cases h
    refine .begins (.flush []) _ (.inr rfl) fun hover => ?_
    rw [Bool.or_eq_false_iff] at hover
    exact ⟨hover.1, fun _ => hover.2⟩
  | go i =>
    obtain ⟨c, hc, hgo⟩ := Option.bind_eq_some_iff.1 h
    exact effect_go hc hgo hheeds
  | exchange i outcome =>
    simp only [step] at h
    split at h
    · next batch hc =>
      cases h
      unfold exchange
      split_ifs with haccepts
      · exact .accept i batch hc
      · cases outcome with
        | response code =>
          exact .move i _ _ hc rfl (fun _ => rfl) Bool.false_ne_true.elim (by rintro _ ⟨⟩)
        | exception accepted =>
          cases accepted
          · exact absurd rfl hheeds
          · exact absurd rfl haccepts
    · cases h

/-! ## Calls -/

section Calls

variable {calls : List LogCall} {i : Nat} {c c' : LogCall}

theorem mem_set_self (hc : calls[i]? = some c) : c' ∈ calls.set i c' :=
  List.mem_set (List.getElem?_eq_some_iff.1 hc).1 c'

/-- What a call held, some call holds after a step of one of them, unless that one has given it away. -/
theorem held_set (hc : calls[i]? = some c) (n : LogCall) {e : Nat} (he : ∃ d ∈ calls, e ∈ d.batch) :
    (∃ d ∈ calls.set i n, e ∈ d.batch) ∨ e ∈ c.batch := by
  obtain ⟨d, hd, hed⟩ := he
  obtain ⟨j, hj⟩ := List.getElem?_of_mem hd
  by_cases hij : i = j
  · subst hij
    rw [hc] at hj
    cases hj
    exact .inr hed
  · refine .inl ⟨d, List.mem_of_getElem? (i := j) ?_, hed⟩
    rw [List.getElem?_set_ne hij]
    exact hj

/-- The calls after a step are those before it and the one that has moved. -/
theorem of_mem_set {d : LogCall} (hd : d ∈ calls.set i c') : d ∈ calls ∨ d = c' :=
  List.mem_or_eq_of_mem_set hd

end Calls

/-! ## The invariants -/

/-- The entry is somewhere. -/
def Accounted (s : LogShipper) (e : Nat) : Prop :=
  e ∈ s.queue ∨ (∃ c ∈ s.calls, e ∈ c.batch) ∨ e ∈ s.accepted ∨ ∃ d ∈ s.dropped, d.entry = e

/-- What is still on its way was offered before. -/
structure Below (s : LogShipper) : Prop where
  queue : ∀ e ∈ s.queue, e < s.offered
  batch : ∀ c ∈ s.calls, ∀ e ∈ c.batch, e < s.offered
  accepted : ∀ e ∈ s.accepted, e < s.offered

/-- The queue is in order, and its oldest entries are dropped. -/
structure Overflows (s : LogShipper) : Prop where
  queue : s.queue.Pairwise (· < ·)
  size : ∀ c ∈ s.calls, ∀ size, c = .poll size → maxQueue ≤ size
  dropped : ∀ d ∈ s.dropped, maxQueue ≤ d.size ∧ ∀ e ∈ d.rest, d.entry < e

/-- There is one flush at most, and what it holds stands between what has been accepted and the queue, until
it is put back. -/
structure Lined (s : LogShipper) : Prop where
  single : ∀ (i j : Nat) (c d : LogCall), s.calls[i]? = some c → s.calls[j]? = some d → c.flushes = true →
    d.flushes = true → i = j
  queue : (s.accepted ++ s.queue).Pairwise (· < ·)
  batch : ∀ c ∈ s.calls, (s.accepted ++ c.batch).Pairwise (· < ·)
  ahead : ∀ c ∈ s.calls, takes c = true → ∀ a ∈ c.batch, ∀ b ∈ s.queue, a < b

theorem accounted_effect {s s' : LogShipper} (h : ∀ e < s.offered, s.Accounted e) (heff : Effect s s') :
    ∀ e < s'.offered, s'.Accounted e := by
  cases heff with
  | begins c overlapped hc _ =>
    intro e he
    refine (h e he).imp_right (Or.imp_left ?_)
    rintro ⟨d, hd, hed⟩
    exact ⟨d, List.mem_append_left _ hd, hed⟩
  | move i c c' hc hbatch _ _ _ =>
    intro e he
    refine (h e he).imp_right (Or.imp_left fun hheld => ?_)
    refine (held_set hc c' hheld).elim id fun hec => ⟨c', mem_set_self hc, ?_⟩
    rwa [hbatch]
  | drop i size x rest hc hqueue =>
    intro e he
    rcases h e he with he | hheld | hacc | ⟨d, hd, hde⟩
    · rw [hqueue] at he
      rcases List.mem_cons.1 he with rfl | he
      · exact .inr (.inr (.inr ⟨_, List.mem_append_right _ (List.mem_singleton.2 rfl), rfl⟩))
      · exact .inl he
    · refine .inr (.inl ((held_set hc _ hheld).elim id fun hec => ?_))
      exact absurd hec List.not_mem_nil
    · exact .inr (.inr (.inl hacc))
    · exact .inr (.inr (.inr ⟨d, List.mem_append_left _ hd, hde⟩))
  | offer i hc =>
    intro e he
    rcases Nat.lt_or_ge e s.offered with hlt | hge
    · rcases h e hlt with he | hheld | hrest
      · exact .inl (List.mem_append_left _ he)
      · refine .inr (.inl ((held_set hc _ hheld).elim id fun hec => ?_))
        exact absurd hec List.not_mem_nil
      · exact .inr (.inr hrest)
    · have heq : e = s.offered := Nat.le_antisymm (Nat.lt_succ_iff.1 he) hge
      exact .inl (List.mem_append_right _ (List.mem_singleton.2 heq))
  | take i x batch rest c' hc hqueue hc' =>
    have hbatch : c'.batch = batch ++ [x] := by
      rcases hc' with rfl | rfl <;> rfl
    intro e he
    rcases h e he with he | hheld | hrest
    · rw [hqueue] at he
      rcases List.mem_cons.1 he with rfl | he
      · refine .inr (.inl ⟨c', mem_set_self hc, ?_⟩)
        rw [hbatch]
        exact List.mem_append_right _ (List.mem_singleton.2 rfl)
      · exact .inl he
    · refine .inr (.inl ((held_set hc c' hheld).elim id fun hec => ⟨c', mem_set_self hc, ?_⟩))
      rw [hbatch]
      exact List.mem_append_left _ hec
    · exact .inr (.inr hrest)
  | putBack i x batch hc _ =>
    intro e he
    rcases h e he with he | hheld | hrest
    · exact .inl (List.mem_append_left _ he)
    · rcases held_set hc (.requeue batch) hheld with hheld | hec
      · exact .inr (.inl hheld)
      · rcases List.mem_cons.1 hec with rfl | hec
        · exact .inl (List.mem_append_right _ (List.mem_singleton.2 rfl))
        · exact .inr (.inl ⟨_, mem_set_self hc, hec⟩)
    · exact .inr (.inr hrest)
  | accept i batch hc =>
    intro e he
    rcases h e he with he | hheld | hacc | hdrop
    · exact .inl he
    · rcases held_set hc .done hheld with hheld | hec
      · exact .inr (.inl hheld)
      · exact .inr (.inr (.inl (List.mem_append_right _ hec)))
    · exact .inr (.inr (.inl (List.mem_append_left _ hacc)))
    · exact .inr (.inr (.inr hdrop))

theorem below_effect {s s' : LogShipper} (h : Below s) (heff : Effect s s') : Below s' := by
  obtain ⟨hq, hb, ha⟩ := h
  cases heff with
  | begins c overlapped hc _ =>
    refine ⟨hq, fun d hd => ?_, ha⟩
    rcases List.mem_append.1 hd with hd | hd
    · exact hb d hd
    · rw [List.mem_singleton.1 hd]
      rcases hc with rfl | rfl <;> exact fun e he => absurd he List.not_mem_nil
  | move i c c' hc hbatch _ _ _ =>
    refine ⟨hq, fun d hd => ?_, ha⟩
    rcases of_mem_set hd with hd | rfl
    · exact hb d hd
    · rw [hbatch]
      exact hb c (List.mem_of_getElem? hc)
  | drop i size x rest hc hqueue =>
    refine ⟨fun e he => hq e (hqueue ▸ List.mem_cons_of_mem _ he), fun d hd => ?_, ha⟩
    rcases of_mem_set hd with hd | rfl
    · exact hb d hd
    · exact fun e he => absurd he List.not_mem_nil
  | offer i hc =>
    refine ⟨fun e he => ?_, fun d hd e he => ?_, fun e he => Nat.lt_succ_of_lt (ha e he)⟩
    · rcases List.mem_append.1 he with he | he
      · exact Nat.lt_succ_of_lt (hq e he)
      · rw [List.mem_singleton.1 he]
        exact Nat.lt_succ_self _
    · rcases of_mem_set hd with hd | rfl
      · exact Nat.lt_succ_of_lt (hb d hd e he)
      · exact absurd he List.not_mem_nil
  | take i x batch rest c' hc hqueue hc' =>
    have hbatch : c'.batch = batch ++ [x] := by
      rcases hc' with rfl | rfl <;> rfl
    refine ⟨fun e he => hq e (hqueue ▸ List.mem_cons_of_mem _ he), fun d hd e he => ?_, ha⟩
    rcases of_mem_set hd with hd | rfl
    · exact hb d hd e he
    · rw [hbatch] at he
      rcases List.mem_append.1 he with he | he
      · exact hb _ (List.mem_of_getElem? hc) e he
      · rw [List.mem_singleton.1 he]
        exact hq x (hqueue ▸ List.mem_cons_self ..)
  | putBack i x batch hc _ =>
    have hx := hb _ (List.mem_of_getElem? hc)
    refine ⟨fun e he => ?_, fun d hd e he => ?_, ha⟩
    · rcases List.mem_append.1 he with he | he
      · exact hq e he
      · rw [List.mem_singleton.1 he]
        exact hx x (List.mem_cons_self ..)
    · rcases of_mem_set hd with hd | rfl
      · exact hb d hd e he
      · exact hx e (List.mem_cons_of_mem _ he)
  | accept i batch hc =>
    refine ⟨hq, fun d hd e he => ?_, fun e he => ?_⟩
    · rcases of_mem_set hd with hd | rfl
      · exact hb d hd e he
      · exact absurd he List.not_mem_nil
    · rcases List.mem_append.1 he with he | he
      · exact ha e he
      · exact hb _ (List.mem_of_getElem? hc) e he

theorem pairwise_concat {l : List Nat} {x : Nat} :
    (l ++ [x]).Pairwise (· < ·) ↔ l.Pairwise (· < ·) ∧ ∀ a ∈ l, a < x := by
  simp [List.pairwise_append]

theorem overflows_effect {s s' : LogShipper} (hbelow : Below s) (h : Overflows s) (heff : Effect s s') :
    Overflows s' := by
  obtain ⟨hq, hs, hd⟩ := h
  have hset : ∀ {i : Nat} {c' : LogCall}, (∀ size, c' = .poll size → maxQueue ≤ size) →
      ∀ c ∈ s.calls.set i c', ∀ size, c = .poll size → maxQueue ≤ size := by
    intro i c' hc' c hc
    rcases of_mem_set hc with hc | rfl
    · exact hs c hc
    · exact hc'
  cases heff with
  | begins c overlapped hc _ =>
    refine ⟨hq, fun d hd => ?_, hd⟩
    rcases List.mem_append.1 hd with hd | hd
    · exact hs d hd
    · rw [List.mem_singleton.1 hd]
      rcases hc with rfl | rfl <;> rintro _ ⟨⟩
  | move i c c' hc _ _ _ hsize => exact ⟨hq, hset hsize, hd⟩
  | drop i size x rest hc hqueue =>
    rw [hqueue] at hq
    obtain ⟨hx, hrest⟩ := List.pairwise_cons.1 hq
    refine ⟨hrest, hset (by rintro _ ⟨⟩), fun d hd' => ?_⟩
    rcases List.mem_append.1 hd' with hd' | hd'
    · exact hd d hd'
    · rw [List.mem_singleton.1 hd']
      exact ⟨hs _ (List.mem_of_getElem? hc) size rfl, hx⟩
  | offer i hc => exact ⟨pairwise_concat.2 ⟨hq, hbelow.queue⟩, hset (by rintro _ ⟨⟩), hd⟩
  | take i x batch rest c' hc hqueue hc' =>
    rw [hqueue] at hq
    refine ⟨(List.pairwise_cons.1 hq).2, hset ?_, hd⟩
    rcases hc' with rfl | rfl <;> rintro _ ⟨⟩
  | putBack i x batch hc hlast => exact ⟨pairwise_concat.2 ⟨hq, hlast⟩, hset (by rintro _ ⟨⟩), hd⟩
  | accept i batch hc => exact ⟨hq, hset (by rintro _ ⟨⟩), hd⟩

theorem flushes_of_takes {c : LogCall} (h : takes c = true) : c.flushes = true := by
  cases c <;> first | rfl | cases h

/-- A flush that moves is the only one. -/
theorem Lined.alone {s : LogShipper} (h : Lined s) {i : Nat} {c c' d : LogCall} (hc : s.calls[i]? = some c)
    (hflushes : c.flushes = true) (hd : d ∈ s.calls.set i c') : d = c' ∨ d.flushes = false := by
  obtain ⟨j, hj⟩ := List.getElem?_of_mem hd
  by_cases hij : i = j
  · subst hij
    rw [List.getElem?_set_self (List.getElem?_eq_some_iff.1 hc).1] at hj
    exact .inl (Option.some.inj hj).symm
  · rw [List.getElem?_set_ne hij] at hj
    cases hf : d.flushes with
    | false => exact .inr rfl
    | true => exact absurd (h.single i j c d hc hj hflushes hf) hij

theorem batch_of_not_flushes {c : LogCall} (h : c.flushes = false) : c.batch = [] := by
  cases c <;> first | rfl | cases h

/-- There is still one flush at most when a call has moved. -/
theorem Lined.single_set {s : LogShipper} (h : Lined s) {i : Nat} {c c' : LogCall} (hc : s.calls[i]? = some c)
    (hflushes : c'.flushes = true → c.flushes = true) :
    ∀ (j k : Nat) (d e : LogCall), (s.calls.set i c')[j]? = some d → (s.calls.set i c')[k]? = some e →
      d.flushes = true → e.flushes = true → j = k := by
  have hlt := (List.getElem?_eq_some_iff.1 hc).1
  -- every flush stands where there was one before
  have hback : ∀ (j : Nat) (d : LogCall), (s.calls.set i c')[j]? = some d → d.flushes = true →
      ∃ d', s.calls[j]? = some d' ∧ d'.flushes = true := by
    intro j d hj hd
    by_cases hij : i = j
    · subst hij
      rw [List.getElem?_set_self hlt] at hj
      cases hj
      exact ⟨c, hc, hflushes hd⟩
    · rw [List.getElem?_set_ne hij] at hj
      exact ⟨d, hj, hd⟩
  intro j k d e hj hk hd he
  obtain ⟨d', hj', hd'⟩ := hback j d hj hd
  obtain ⟨e', hk', he'⟩ := hback k e hk he
  exact h.single j k d' e' hj' hk' hd' he'

theorem lined_effect {s s' : LogShipper} (hbelow : Below s) (hover : Overflows s)
    (h : s.overlapped = false → Lined s) (heff : Effect s s') : s'.overlapped = false → Lined s' := by
  cases heff with
  | begins c overlapped hc hnew =>
    intro hs'
    obtain ⟨hs, hnone⟩ := hnew hs'
    obtain ⟨hsingle, hq, hb, ha⟩ := h hs
    have hempty : c.batch = [] := by rcases hc with rfl | rfl <;> rfl
    refine ⟨?_, hq, fun d hd => ?_, fun d hd => ?_⟩
    · -- a new flush is the only one
      have hlast : ∀ (j k : Nat) (d e : LogCall), (s.calls ++ [c])[j]? = some d →
          (s.calls ++ [c])[k]? = some e → d.flushes = true → e.flushes = true →
          s.calls.length ≤ j → j = k := by
        intro j k d e hj hk hd he hle
        rw [List.getElem?_append_right hle] at hj
        have hd' := List.mem_singleton.1 (List.mem_of_getElem? hj)
        have hjlt := (List.getElem?_eq_some_iff.1 hj).1
        rw [List.length_singleton] at hjlt
        rcases Nat.lt_or_ge k s.calls.length with hlt | hge
        · rw [List.getElem?_append_left hlt] at hk
          subst hd'
          have hany := List.any_eq_false.1 (hnone hd) e (List.mem_of_getElem? hk)
          exact absurd he hany
        · rw [List.getElem?_append_right hge] at hk
          have hklt := (List.getElem?_eq_some_iff.1 hk).1
          rw [List.length_singleton] at hklt
          omega
      intro j k d e hj hk hd he
      rcases Nat.lt_or_ge j s.calls.length with hlt | hge
      · rcases Nat.lt_or_ge k s.calls.length with hlt' | hge'
        · rw [List.getElem?_append_left hlt] at hj
          rw [List.getElem?_append_left hlt'] at hk
          exact hsingle j k d e hj hk hd he
        · exact (hlast k j e d hk hj he hd hge').symm
      · exact hlast j k d e hj hk hd he hge
    · rcases List.mem_append.1 hd with hd | hd
      · exact hb d hd
      · rw [List.mem_singleton.1 hd, hempty, List.append_nil]
        exact (List.pairwise_append.1 hq).1
    · rcases List.mem_append.1 hd with hd | hd
      · exact ha d hd
      · rw [List.mem_singleton.1 hd, hempty]
        exact fun _ a ha => absurd ha List.not_mem_nil
  | move i c c' hc hbatch hflushes htakes _ =>
    intro hs
    have hl := h hs
    refine ⟨hl.single_set hc hflushes, hl.queue, fun d hd => ?_, fun d hd => ?_⟩
    · rcases of_mem_set hd with hd | rfl
      · exact hl.batch d hd
      · rw [hbatch]
        exact hl.batch c (List.mem_of_getElem? hc)
    · rcases of_mem_set hd with hd | rfl
      · exact hl.ahead d hd
      · rw [hbatch]
        exact fun ht => hl.ahead c (List.mem_of_getElem? hc) (htakes ht)
  | drop i size x rest hc hqueue =>
    intro hs
    have hl := h hs
    have hsub : rest.Sublist s.queue := by
      rw [hqueue]
      exact List.sublist_cons_self ..
    refine ⟨hl.single_set hc Bool.false_ne_true.elim, ?_, fun d hd => ?_, fun d hd => ?_⟩
    · exact hl.queue.sublist (hsub.append_left _)
    · rcases of_mem_set hd with hd | rfl
      · exact hl.batch d hd
      · rw [show LogCall.enqueue.batch = [] from rfl, List.append_nil]
        exact (List.pairwise_append.1 hl.queue).1
    · rcases of_mem_set hd with hd | rfl
      · exact fun ht a ha b hb => hl.ahead d hd ht a ha b (hsub.subset hb)
      · exact Bool.false_ne_true.elim
  | offer i hc =>
    intro hs
    have hl := h hs
    refine ⟨hl.single_set hc Bool.false_ne_true.elim, ?_, fun d hd => ?_, fun d hd => ?_⟩
    · rw [← List.append_assoc]
      refine pairwise_concat.2 ⟨hl.queue, fun a ha => ?_⟩
      exact (List.mem_append.1 ha).elim (hbelow.accepted a) (hbelow.queue a)
    · rcases of_mem_set hd with hd | rfl
      · exact hl.batch d hd
      · rw [show LogCall.done.batch = [] from rfl, List.append_nil]
        exact (List.pairwise_append.1 hl.queue).1
    · rcases of_mem_set hd with hd | rfl
      · intro ht a ha b hb
        rcases List.mem_append.1 hb with hb | hb
        · exact hl.ahead d hd ht a ha b hb
        · rw [List.mem_singleton.1 hb]
          exact hbelow.batch d hd a ha
      · exact Bool.false_ne_true.elim
  | take i x batch rest c' hc hqueue hc' =>
    intro hs
    have hl := h hs
    have hmem := List.mem_of_getElem? hc
    have hbatch : c'.batch = batch ++ [x] := by rcases hc' with rfl | rfl <;> rfl
    have hsorted := hover.queue
    rw [hqueue] at hsorted
    have hx : x ∈ s.queue := hqueue ▸ List.mem_cons_self ..
    have hsub : rest.Sublist s.queue := by
      rw [hqueue]
      exact List.sublist_cons_self ..
    have halone : ∀ d ∈ s.calls.set i c', d = c' ∨ d.flushes = false := fun d hd => hl.alone hc rfl hd
    refine ⟨hl.single_set hc fun _ => rfl, ?_, fun d hd => ?_, fun d hd ht => ?_⟩
    · exact hl.queue.sublist (hsub.append_left _)
    · rcases halone d hd with rfl | hf
      · rw [hbatch, ← List.append_assoc]
        refine pairwise_concat.2 ⟨hl.batch _ hmem, fun a ha => ?_⟩
        rcases List.mem_append.1 ha with ha | ha
        · exact (List.pairwise_append.1 hl.queue).2.2 a ha x hx
        · exact hl.ahead _ hmem rfl a ha x hx
      · rw [batch_of_not_flushes hf, List.append_nil]
        exact (List.pairwise_append.1 hl.queue).1
    · rcases halone d hd with rfl | hf
      · intro a ha b hb
        rw [hbatch] at ha
        rcases List.mem_append.1 ha with ha | ha
        · exact hl.ahead _ hmem rfl a ha b (hsub.subset hb)
        · rw [List.mem_singleton.1 ha]
          exact (List.pairwise_cons.1 hsorted).1 b hb
      · exact absurd (flushes_of_takes ht) (by rw [hf]; exact Bool.false_ne_true)
  | putBack i x batch hc hlast =>
    intro hs
    have hl := h hs
    have hmem := List.mem_of_getElem? hc
    have hheld := hl.batch _ hmem
    have halone : ∀ d ∈ s.calls.set i (.requeue batch), d = .requeue batch ∨ d.flushes = false :=
      fun d hd => hl.alone hc rfl hd
    refine ⟨hl.single_set hc fun _ => rfl, ?_, fun d hd => ?_, fun d hd ht => ?_⟩
    · rw [← List.append_assoc]
      refine pairwise_concat.2 ⟨hl.queue, fun a ha => ?_⟩
      rcases List.mem_append.1 ha with ha | ha
      · exact (List.pairwise_append.1 hheld).2.2 a ha x (List.mem_cons_self ..)
      · exact hlast a ha
    · rcases halone d hd with rfl | hf
      · exact hheld.sublist ((List.sublist_cons_self ..).append_left _)
      · rw [batch_of_not_flushes hf, List.append_nil]
        exact (List.pairwise_append.1 hl.queue).1
    · rcases halone d hd with rfl | hf
      · cases ht
      · exact absurd (flushes_of_takes ht) (by rw [hf]; exact Bool.false_ne_true)
  | accept i batch hc =>
    intro hs
    have hl := h hs
    have hmem := List.mem_of_getElem? hc
    have halone : ∀ d ∈ s.calls.set i .done, d.flushes = false := by
      intro d hd
      rcases hl.alone hc rfl hd with rfl | hf
      · rfl
      · exact hf
    have hacc := hl.batch _ hmem
    refine ⟨hl.single_set hc fun _ => rfl, ?_, fun d hd => ?_, fun d hd ht => ?_⟩
    · refine List.pairwise_append.2 ⟨hacc, hover.queue, fun a ha b hb => ?_⟩
      rcases List.mem_append.1 ha with ha | ha
      · exact (List.pairwise_append.1 hl.queue).2.2 a ha b hb
      · exact hl.ahead _ hmem rfl a ha b hb
    · rw [batch_of_not_flushes (halone d hd), List.append_nil]
      exact hacc
    · exact absurd (flushes_of_takes ht) (by rw [halone d hd]; exact Bool.false_ne_true)

/-! ## Runs -/

/-- All of it together. -/
structure Sound (s : LogShipper) : Prop where
  accounted : ∀ e < s.offered, s.Accounted e
  below : Below s
  overflows : Overflows s
  lined : s.overlapped = false → Lined s

theorem sound_start : Sound start where
  accounted := fun e he => absurd he (Nat.not_lt_zero e)
  below := ⟨fun e he => absurd he List.not_mem_nil, fun c hc => absurd hc List.not_mem_nil,
    fun e he => absurd he List.not_mem_nil⟩
  overflows := ⟨.nil, fun c hc => absurd hc List.not_mem_nil, fun d hd => absurd hd List.not_mem_nil⟩
  lined := fun _ => ⟨by rintro i j c d ⟨⟩, .nil, fun c hc => absurd hc List.not_mem_nil,
    fun c hc => absurd hc List.not_mem_nil⟩

theorem sound_effect {s s' : LogShipper} (h : Sound s) (heff : Effect s s') : Sound s' where
  accounted := accounted_effect h.accounted heff
  below := below_effect h.below heff
  overflows := overflows_effect h.below h.overflows heff
  lined := lined_effect h.below h.overflows h.lined heff

theorem Sound.losesByOverflow {s : LogShipper} (h : Sound s) : LosesByOverflow s where
  kept := h.accounted
  overflow := h.overflows.dropped
  ordered := fun hs => (List.pairwise_append.1 (h.lined hs).queue).1

/-- Where no exchange fails before its batch is accepted and nothing is put back behind later entries, the
queue loses entries by overflow only, and keeps their order. -/
theorem losesByOverflow_of_heeds {events : List LogEvent} {s : LogShipper}
    (hrun : runSteps step start events = some s) (hheeds : StepsMeet step Heeds start events) :
    LosesByOverflow s :=
  (runSteps_invariant_of_meet (fun _ _ _ h hC hs => sound_effect h (effect hs hC)) hrun hheeds
    sound_start).losesByOverflow

/-- An entry that the VPC refuses at first. -/
def refusedOnce : List LogEvent :=
  [.enqueue, .go 0, .go 0, .flush, .go 1, .go 1, .exchange 1 (.response 503), .go 1, .go 1,
    .flush, .go 2, .go 2, .exchange 2 (.response 200)]

theorem losesByOverflow_refusedOnce :
    ∃ s, runSteps step start refusedOnce = some s ∧ s.accepted = [0] ∧ LosesByOverflow s := by
  obtain ⟨s, hrun, hacc⟩ : ∃ s, runSteps step start refusedOnce = some s ∧ s.accepted = [0] := ⟨_, rfl, rfl⟩
  refine ⟨s, hrun, hacc, losesByOverflow_of_heeds hrun ?_⟩
  have hno : ∀ {s : LogShipper} {i : Nat} {c : LogCall}, s.calls[i]? = some c →
      (∀ batch, c ≠ .requeue batch) → s.Heeds (.go i) := by
    intro s i c hc hne e batch hreq
    rw [hc] at hreq
    exact absurd (Option.some.inj hreq) (hne _)
  refine stepsMeet_cons trivial rfl ?_
  refine stepsMeet_cons (hno rfl (by rintro _ ⟨⟩)) rfl ?_
  refine stepsMeet_cons (hno rfl (by rintro _ ⟨⟩)) rfl ?_
  refine stepsMeet_cons trivial rfl ?_
  refine stepsMeet_cons (hno rfl (by rintro _ ⟨⟩)) rfl ?_
  refine stepsMeet_cons (hno rfl (by rintro _ ⟨⟩)) rfl ?_
  refine stepsMeet_cons (by rintro ⟨⟩) rfl ?_
  refine stepsMeet_cons (fun e batch _ x hx => absurd hx List.not_mem_nil) rfl ?_
  refine stepsMeet_cons (by rintro e batch ⟨⟩) rfl ?_
  refine stepsMeet_cons trivial rfl ?_
  refine stepsMeet_cons (hno rfl (by rintro _ ⟨⟩)) rfl ?_
  refine stepsMeet_cons (hno rfl (by rintro _ ⟨⟩)) rfl ?_
  exact stepsMeet_cons (by rintro ⟨⟩) rfl trivial

/-- A batch is sent and the exchange fails. -/
theorem batch_lost : ¬ ∀ (events : List LogEvent) (s : LogShipper),
    runSteps step start events = some s → LosesByOverflow s := by
  intro h
  have hlost := (h [.enqueue, .go 0, .go 0, .flush, .go 1, .go 1, .exchange 1 (.exception false)] _ rfl).kept 0
    Nat.zero_lt_one
  rcases hlost with h | ⟨c, hc, h⟩ | h | ⟨d, hd, -⟩
  · cases h
  · rcases List.mem_pair.1 hc with rfl | rfl <;> cases h
  · cases h
  · cases hd

end Gafam.Android.LogShipper
