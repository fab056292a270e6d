import Gafam.Relay.DraftSync

/-!
# Proofs: what becomes of the text that is typed last

In an orderly run the text that was typed last is stored, or a timer or a request still waits with it, or a
request has failed; so that it is stored when everything has come to its end.
-/

namespace Gafam.Relay.DraftSync

open Gafam.Js
open Gafam.Lib (runSteps StepsMeet stepsMeet_iff_always)

/-! ## What is still to come -/

/-- The request stands for a text that is still to be stored. -/
def Request.Carries (t : JsString) (r : Request) : Prop :=
  r.since = true ∧
    (r.outcome = .failed ∨ (r.query.body = some t ∧ r.served = .waiting ∧ r.outcome = .underWay))

/-- A step that loses no timer and no request. -/
theorem Sync.Coming.mono {s s' : Sync} {typist : Device} {t : JsString} (h : s.Coming typist t)
    (hpending : t ∈ s.pending typist → s'.Coming typist t)
    (hrequests : ∀ r ∈ s.requests, r.Carries t → ∃ r' ∈ s'.requests, r'.Carries t) :
    s'.Coming typist t := by
  rcases h with h | ⟨r, hr, hc⟩
  · exact hpending h
  · exact .inr (hrequests r hr hc)

/-- An element is still there after another one was set, or it was the one in this place. -/
theorem mem_set_or_at {α : Type} {l : List α} {a : α} (ha : a ∈ l) (i : Nat) (b : α) :
    a ∈ l.set i b ∨ l[i]? = some a := by
  obtain ⟨j, hj, rfl⟩ := List.getElem_of_mem ha
  by_cases hij : i = j
  · subst hij
    exact .inr (List.getElem?_eq_getElem hj)
  · refine .inl (List.mem_of_getElem? (i := j) ?_)
    rw [List.getElem?_set_ne hij, List.getElem?_eq_getElem hj]

/-- A request in its place goes on, and carries on what it has carried. -/
theorem carries_set {requests : List Request} {i : Nat} {r r' : Request} {t : JsString}
    (hr : requests[i]? = some r) (hkeep : r.Carries t → r'.Carries t) {q : Request} (hq : q ∈ requests)
    (hc : q.Carries t) : ∃ q' ∈ requests.set i r', q'.Carries t := by
  rcases mem_set_or_at hq i r' with hmem | hat
  · exact ⟨q, hmem, hc⟩
  · rw [hr] at hat
    obtain rfl := Option.some.inj hat
    exact ⟨r', List.mem_set (List.getElem?_eq_some_iff.1 hr).1 _, hkeep hc⟩

/-! ## The end of a request -/

section Steps

variable {typist : Device} {s s' : Sync} {i : Nat}

theorem serve_of_step (h : step typist s (.serve i) = some s') :
    ∃ r, s.requests[i]? = some r ∧ s.serve i r = some s' := by
  unfold step at h
  simpa only [Option.bind_eq_bind, Option.bind_eq_some_iff] using h

/-- Only a request that is under way is answered. -/
theorem answer_of_step (h : step typist s (.answer i) = some s') :
    ∃ r, s.requests[i]? = some r ∧ r.outcome = .underWay ∧
      Sync.answer { s with requests := s.requests.set i { r with outcome := .succeeded } } r = some s' := by
  unfold step at h
  simp only [Option.bind_eq_bind, Option.bind_eq_some_iff] at h
  obtain ⟨r, hr, h⟩ := h
  obtain ⟨hunder, h⟩ := Option.ite_none_right_eq_some.1 h
  exact ⟨r, hr, hunder, h⟩

theorem fail_of_step (h : step typist s (.fail i) = some s') :
    ∃ r, s.requests[i]? = some r ∧ r.outcome = .underWay ∧
      s' = Sync.fail { s with requests := s.requests.set i { r with outcome := .failed } } r := by
  unfold step at h
  simp only [Option.bind_eq_bind, Option.bind_eq_some_iff] at h
  obtain ⟨r, hr, h⟩ := h
  obtain ⟨hunder, h⟩ := Option.ite_none_right_eq_some.1 h
  exact ⟨r, hr, hunder, (Option.some.inj h).symm⟩

end Steps

/-! ## The invariant -/

/-- The conversation is open on a device. -/
def Sync.isOpen (s : Sync) : Device → Bool
  | .web => s.page.selected
  | .phone => s.panel.opened

/-- What an orderly run keeps: the text stays, no opening empties the draft, and the text that was typed last
is stored or still to come. -/
structure Upheld (typist : Device) (s : Sync) : Prop where
  kept : ∀ t ∈ s.typed, s.text typist = t
  unemptied : s.emptied = false
  saved : ∀ t ∈ s.typed, s.draft.map Draft.body = some t ∨ s.Coming typist t

/-- At the end the text is stored. -/
theorem Upheld.safe {typist : Device} {s : Sync} (h : Upheld typist s) : Safe typist s where
  kept := h.kept
  unemptied := h.unemptied
  stored := by
    rintro ⟨hpending, hrequests⟩ t ht
    refine (h.saved t ht).resolve_right ?_
    rintro (hmem | ⟨r, hr, hsince, hc⟩)
    · rw [hpending] at hmem
      cases hmem
    · have hdone := hrequests r hr hsince
      rcases hc with hfailed | ⟨-, -, hunder⟩
      · rw [hdone] at hfailed
        cases hfailed
      · rw [hdone] at hunder
        cases hunder

/-- What holds after every step of an orderly run. Only where the conversation is open something is
typed. -/
structure Inv (typist : Device) (s : Sync) : Prop extends Upheld typist s where
  opened : s.typed ≠ none → s.isOpen typist = true

section Steps

variable {typist : Device} {s s' : Sync}

/-- A step that touches neither the text of the user nor what is stored or still to come. -/
theorem Inv.keep (h : Inv typist s) (htyped : s'.typed = s.typed) (hemptied : s'.emptied = s.emptied)
    (hdraft : s'.draft = s.draft) (htext : s.typed ≠ none → s'.text typist = s.text typist)
    (hopen : s.isOpen typist = true → s'.isOpen typist = true)
    (hcoming : ∀ t ∈ s.typed, s.Coming typist t → s'.Coming typist t) : Inv typist s' where
  kept := by
    intro t ht
    rw [htyped] at ht
    have hsome : s.typed ≠ none := by
      rw [show s.typed = some t from ht]
      nofun
    rw [htext hsome]
    exact h.kept t ht
  unemptied := hemptied.trans h.unemptied
  saved := by
    intro t ht
    rw [htyped] at ht
    rw [hdraft]
    exact (h.saved t ht).imp id (hcoming t ht)
  opened := by
    intro hne
    rw [htyped] at hne
    exact hopen (h.opened hne)

/-- A request is issued. -/
theorem Inv.send (h : Inv typist s) (d : Device) (query : Query) : Inv typist (s.send d query) := by
  have htext : (s.send d query).text typist = s.text typist := by cases typist <;> rfl
  have hopen : (s.send d query).isOpen typist = s.isOpen typist := by cases typist <;> rfl
  have hpending : (s.send d query).pending typist = s.pending typist := by cases typist <;> rfl
  refine h.keep rfl rfl rfl (fun _ => htext) (fun ho => hopen.trans ho) fun t _ hc => ?_
  refine hc.mono (fun hmem => .inl ?_) fun r hr hcarries => ⟨r, List.mem_append_left _ hr, hcarries⟩
  rw [hpending]
  exact hmem

theorem Inv.openChat (h : Inv typist s) {d : Device} (hstep : step typist s (.openChat d) = some s') :
    Inv typist s' := by
  cases d with
  | web =>
    unfold step at hstep
    by_cases hopen : s.page.selected = true
    · rw [if_pos hopen] at hstep
      cases hstep
    · rw [if_neg hopen] at hstep
      cases hstep
      refine Inv.send ?_ _ _
      cases typist with
      | web =>
        -- nothing can have been typed before
        have hnone : s.typed = none := by
          by_contra hne
          exact hopen (h.opened hne)
        refine h.keep rfl rfl rfl (fun hne => absurd hnone hne) (fun _ => rfl) fun t ht => ?_
        rw [hnone] at ht
        cases ht
      | phone => exact h.keep rfl rfl rfl (fun _ => rfl) id fun _ _ hc => hc
  | phone =>
    unfold step at hstep
    by_cases hopen : s.panel.opened = true
    · rw [if_pos hopen] at hstep
      cases hstep
    · rw [if_neg hopen] at hstep
      cases hstep
      refine Inv.send ?_ _ _
      cases typist with
      | web => exact h.keep rfl rfl rfl (fun _ => rfl) id fun _ _ hc => hc
      | phone => exact h.keep rfl rfl rfl (fun _ => rfl) (fun _ => rfl) fun _ _ hc => hc

theorem Inv.input (h : Inv typist s) {text : JsString} (hstep : step typist s (.input text) = some s') :
    Inv typist s' := by
  unfold step at hstep
  dsimp only at hstep
  cases typist with
  | web =>
    by_cases hopen : s.page.selected = true
    · rw [if_pos hopen] at hstep
      cases hstep
      refine ⟨⟨?_, h.unemptied, ?_⟩, fun _ => hopen⟩
      · rintro t ⟨⟩
        rfl
      · rintro t ⟨⟩
        refine .inr (.inl ?_)
        exact List.mem_map.2 ⟨⟨s.page.nextTimer, text, .typed⟩, List.mem_append_right _ (List.mem_singleton_self _), rfl⟩
    · rw [if_neg hopen] at hstep
      cases hstep
  | phone =>
    by_cases hopen : s.panel.opened = true
    · rw [if_pos hopen] at hstep
      cases hstep
      refine ⟨⟨?_, h.unemptied, ?_⟩, fun _ => hopen⟩
      · rintro t ⟨⟩
        rfl
      · rintro t ⟨⟩
        exact .inr (.inl (List.mem_singleton_self _))
    · rw [if_neg hopen] at hstep
      cases hstep

/-- A save that has been issued just now. -/
theorem carries_sent (s : Sync) (d : Device) (t : JsString) (source : Source) :
    ∃ r ∈ (s.send d (.save t source)).requests, r.Carries t :=
  ⟨⟨d, .save t source, .waiting, .underWay, true⟩, List.mem_append_right _ (List.mem_singleton_self _), rfl,
    .inr ⟨rfl, rfl, rfl⟩⟩

/-- The text of a timer that fires is in the request. -/
theorem Inv.fire (h : Inv typist s) {d : Device} (hstep : step typist s (.fire d) = some s') :
    Inv typist s' := by
  cases d with
  | web =>
    unfold step at hstep
    dsimp only at hstep
    cases htimers : s.page.timers with
    | nil =>
      rw [htimers] at hstep
      cases hstep
    | cons timer timers =>
      rw [htimers] at hstep
      cases hstep
      cases typist with
      | phone =>
        refine Inv.send ?_ _ _
        exact h.keep rfl rfl rfl (fun _ => rfl) id fun _ _ hc => hc
      | web =>
        refine h.keep rfl rfl rfl (fun _ => rfl) id fun t _ hc => ?_
        refine hc.mono (fun hmem => ?_) fun r hr hcarries => ⟨r, List.mem_append_left _ hr, hcarries⟩
        have hmem' : t ∈ s.page.timers.map SaveTimer.body := hmem
        rw [htimers] at hmem'
        rcases List.mem_cons.1 hmem' with rfl | hmem'
        · exact .inr (carries_sent _ _ _ _)
        · exact .inl hmem'
  | phone =>
    unfold step at hstep
    dsimp only at hstep
    cases htimer : s.panel.draftTimer with
    | none =>
      rw [htimer] at hstep
      cases hstep
    | some body =>
      rw [htimer] at hstep
      cases hstep
      cases typist with
      | web =>
        refine Inv.send ?_ _ _
        exact h.keep rfl rfl rfl (fun _ => rfl) id fun _ _ hc => hc
      | phone =>
        refine h.keep rfl rfl rfl (fun _ => rfl) id fun t _ hc => ?_
        refine hc.mono (fun hmem => ?_) fun r hr hcarries => ⟨r, List.mem_append_left _ hr, hcarries⟩
        have hmem' : t ∈ s.panel.draftTimer.toList := hmem
        rw [htimer] at hmem'
        obtain rfl := List.mem_singleton.1 hmem'
        exact .inr (carries_sent _ _ _ _)

theorem Inv.poll (h : Inv typist s) {d : Device} (hstep : step typist s (.poll d) = some s') :
    Inv typist s' := by
  cases d with
  | web =>
    unfold step at hstep
    dsimp only at hstep
    by_cases hc : s.page.selected = true ∧ s.page.draftTimer = none
    · rw [if_pos hc] at hstep
      cases hstep
      exact h.send _ _
    · rw [if_neg hc] at hstep
      cases hstep
  | phone =>
    unfold step at hstep
    dsimp only at hstep
    by_cases hc : s.panel.opened = true ∧ s.panel.draftDirty = false
    · rw [if_pos hc] at hstep
      cases hstep
      exact h.send _ _
    · rw [if_neg hc] at hstep
      cases hstep

/-- The VPC goes on with a request that carries nothing. -/
theorem Inv.serveOther (h : Inv typist s) {i : Nat} {r : Request} (hr : s.requests[i]? = some r)
    (hother : r.served ≠ .waiting ∨ r.query.body = none) (v : Served) :
    Inv typist { s with requests := s.requests.set i { r with served := v } } := by
  refine h.keep rfl rfl rfl (fun _ => by cases typist <;> rfl) (fun ho => by cases typist <;> exact ho) ?_
  intro t _ hc
  refine hc.mono (fun hmem => .inl (by cases typist <;> exact hmem)) fun q hq hcarries => ?_
  refine carries_set hr (fun hcr => ⟨hcr.1, hcr.2.imp id fun ⟨hbody, hwaiting, _⟩ => ?_⟩) hq hcarries
  rcases hother with hne | hnone
  · exact absurd hwaiting hne
  · rw [hnone] at hbody
    cases hbody

theorem Inv.serve (h : Inv typist s) {i : Nat} (hO : Orderly typist s (.serve i))
    (hstep : step typist s (.serve i) = some s') : Inv typist s' := by
  obtain ⟨r, hr, hstep⟩ := serve_of_step hstep
  obtain ⟨device, query, served, outcome, since⟩ := r
  cases served with
  | waiting =>
    cases query with
    | load opening =>
      cases hstep
      exact h.serveOther hr (.inr rfl) _
    | save body source =>
      cases hstep
      obtain ⟨hopening, hnewest⟩ := hO _ hr rfl body rfl
      refine ⟨⟨?_, ?_, ?_⟩, ?_⟩
      · intro t ht
        have hkept := h.kept t ht
        cases typist <;> exact hkept
      · have hempty : (decide (source = .opening ∧ body = []) && s.nonEmpty) = false := by
          by_cases hboth : source = .opening ∧ body = []
          · obtain ⟨rfl, rfl⟩ := hboth
            rw [hopening rfl, Bool.and_false]
          · rw [decide_eq_false hboth, Bool.false_and]
        show (s.emptied || (decide (source = .opening ∧ body = []) && s.nonEmpty)) = false
        rw [h.unemptied, hempty]
        rfl
      · intro t ht
        by_cases hbody : body = t
        · exact .inl (congrArg some hbody)
        · refine .inr (((hnewest t ht).resolve_left hbody).mono
            (fun hmem => .inl (by cases typist <;> exact hmem)) fun q hq hcarries => ?_)
          refine carries_set hr (fun hcr => ⟨hcr.1, hcr.2.imp id fun ⟨hsame, _⟩ => ?_⟩) hq hcarries
          exact absurd (Option.some.inj hsame) hbody
      · intro hne
        have hopen := h.opened hne
        cases typist <;> exact hopen
  | stored =>
    cases hstep
    exact h.serveOther hr (.inl nofun) _
  | saved updatedAt => cases hstep
  | loaded body updatedAt => cases hstep

/-- A device reacts to the end of a request. The page leaves the text of the user and the timers alone, and
the app leaves its text to the main thread. -/
theorem Inv.react (h : Inv typist s) {requests : List Request} {page : Page} {panel : Panel}
    (hrequests : ∀ t, ∀ r ∈ s.requests, r.Carries t → ∃ r' ∈ requests, r'.Carries t)
    (hpage : typist = .web → s.typed ≠ none →
      page.outboxBody = s.page.outboxBody ∧ page.timers = s.page.timers)
    (hselected : page.selected = s.page.selected)
    (hpanel : panel.text = s.panel.text ∧ panel.draftTimer = s.panel.draftTimer ∧
      panel.opened = s.panel.opened) :
    Inv typist { s with requests := requests, page := page, panel := panel } := by
  obtain ⟨htext, htimer, hopened⟩ := hpanel
  cases typist with
  | web =>
    refine h.keep rfl rfl rfl (fun hne => (hpage rfl hne).1) (fun ho => hselected.trans ho) fun t ht hc => ?_
    have hne : s.typed ≠ none := by
      rw [show s.typed = some t from ht]
      nofun
    refine hc.mono (fun hmem => .inl ?_) (hrequests t)
    show t ∈ page.timers.map SaveTimer.body
    rw [(hpage rfl hne).2]
    exact hmem
  | phone =>
    refine h.keep rfl rfl rfl (fun _ => htext) (fun ho => hopened.trans ho) fun t _ hc => ?_
    refine hc.mono (fun hmem => .inl ?_) (hrequests t)
    show t ∈ panel.draftTimer.toList
    rw [htimer]
    exact hmem

theorem Page.loadDraft_selected (p : Page) (body : JsString) (updatedAt : Option Nat) :
    (p.loadDraft body updatedAt).selected = p.selected := by
  unfold Page.loadDraft
  split_ifs <;> rfl

/-- A load that is harmless. -/
theorem Page.loadDraft_harmless {p : Page} {body : JsString} {updatedAt : Option Nat}
    (h : (Served.loaded body updatedAt).Harmless p) :
    (p.loadDraft body updatedAt).outboxBody = p.outboxBody ∧
      (p.loadDraft body updatedAt).timers = p.timers := by
  unfold Page.loadDraft
  by_cases hknown : updatedAt = none ∨ updatedAt = p.lastDraftVersion
  · rw [if_pos hknown]
    exact ⟨rfl, rfl⟩
  · have hbody : body = p.outboxBody := by
      rcases h with hnone | hversion | hbody
      · exact absurd (.inl hnone) hknown
      · exact absurd (.inr hversion) hknown
      · exact hbody
    rw [if_neg hknown, if_pos hbody]
    exact ⟨rfl, rfl⟩

theorem Panel.pollDraft_keeps (p : Panel) (body : JsString) (updatedAt : Option Nat) :
    (p.pollDraft body updatedAt).text = p.text ∧ (p.pollDraft body updatedAt).draftTimer = p.draftTimer ∧
      (p.pollDraft body updatedAt).opened = p.opened := by
  unfold Panel.pollDraft
  split_ifs <;> exact ⟨rfl, rfl, rfl⟩

theorem Inv.answer (h : Inv typist s) {i : Nat} (hO : Orderly typist s (.answer i))
    (hstep : step typist s (.answer i) = some s') : Inv typist s' := by
  obtain ⟨r, hr, hunder, hstep⟩ := answer_of_step hstep
  obtain ⟨device, query, served, outcome, since⟩ := r
  obtain rfl : outcome = .underWay := hunder
  -- a request that is answered does not wait any more
  have hcarries : served ≠ .waiting → ∀ t, ∀ q ∈ s.requests, q.Carries t →
      ∃ q' ∈ s.requests.set i ⟨device, query, served, .succeeded, since⟩, q'.Carries t := by
    intro hserved t q hq hc
    refine carries_set hr (fun hcr => ?_) hq hc
    rcases hcr.2 with hfailed | ⟨-, hwaiting, -⟩
    · cases hfailed
    · exact absurd hwaiting hserved
  have hsame : s.panel.text = s.panel.text ∧ s.panel.draftTimer = s.panel.draftTimer ∧
      s.panel.opened = s.panel.opened := ⟨rfl, rfl, rfl⟩
  cases served with
  | waiting => cases device <;> cases query <;> cases hstep
  | stored => cases device <;> cases query <;> cases hstep
  | saved updatedAt =>
    cases device with
    | web =>
      cases hstep
      exact h.react (hcarries nofun) (fun _ _ => ⟨rfl, rfl⟩) rfl hsame
    | phone =>
      cases query with
      | save body source =>
        cases hstep
        exact h.react (hcarries nofun) (fun _ _ => ⟨rfl, rfl⟩) rfl ⟨rfl, rfl, rfl⟩
      | load opening =>
        cases opening <;> cases hstep <;>
          exact h.react (hcarries nofun) (fun _ _ => ⟨rfl, rfl⟩) rfl ⟨rfl, rfl, rfl⟩
  | loaded body updatedAt =>
    cases device with
    | web =>
      cases hstep
      refine h.react (hcarries nofun) (fun hweb hne => ?_) (Page.loadDraft_selected ..) hsame
      exact Page.loadDraft_harmless (hO hweb hne _ hr rfl)
    | phone =>
      cases query with
      | save body source =>
        cases hstep
        exact h.react (hcarries nofun) (fun _ _ => ⟨rfl, rfl⟩) rfl (Panel.pollDraft_keeps ..)
      | load opening =>
        cases opening with
        | true =>
          cases hstep
          exact h.react (hcarries nofun) (fun _ _ => ⟨rfl, rfl⟩) rfl ⟨rfl, rfl, rfl⟩
        | false =>
          cases hstep
          exact h.react (hcarries nofun) (fun _ _ => ⟨rfl, rfl⟩) rfl (Panel.pollDraft_keeps ..)

theorem Inv.fail (h : Inv typist s) {i : Nat} (hstep : step typist s (.fail i) = some s') :
    Inv typist s' := by
  obtain ⟨r, hr, -, rfl⟩ := fail_of_step hstep
  have hcarries : ∀ t, ∀ q ∈ s.requests, q.Carries t →
      ∃ q' ∈ s.requests.set i { r with outcome := .failed }, q'.Carries t :=
    fun t q hq hc => carries_set hr (fun hcr => ⟨hcr.1, .inl rfl⟩) hq hc
  have hsame : s.panel.text = s.panel.text ∧ s.panel.draftTimer = s.panel.draftTimer ∧
      s.panel.opened = s.panel.opened := ⟨rfl, rfl, rfl⟩
  obtain ⟨device, query, served, outcome, since⟩ := r
  cases device with
  | web => cases query <;> exact h.react hcarries (fun _ _ => ⟨rfl, rfl⟩) rfl hsame
  | phone =>
    cases query with
    | save body source => exact h.react hcarries (fun _ _ => ⟨rfl, rfl⟩) rfl ⟨rfl, rfl, rfl⟩
    | load opening =>
      cases opening with
      | true => exact h.react hcarries (fun _ _ => ⟨rfl, rfl⟩) rfl ⟨rfl, rfl, rfl⟩
      | false => exact h.react hcarries (fun _ _ => ⟨rfl, rfl⟩) rfl (Panel.pollDraft_keeps ..)

/-- The main thread of the app sets a text. -/
theorem Inv.ui (h : Inv typist s) (hO : Orderly typist s .ui) (hstep : step typist s .ui = some s') :
    Inv typist s' := by
  unfold step at hstep
  dsimp only at hstep
  cases hui : s.panel.ui with
  | nil =>
    rw [hui] at hstep
    cases hstep
  | cons body rest =>
    rw [hui] at hstep
    cases hstep
    cases typist with
    | web => exact h.keep rfl rfl rfl (fun _ => rfl) id fun _ _ hc => hc
    | phone =>
      refine h.keep rfl rfl rfl (fun hne => ?_) id fun _ _ hc => hc
      have hbody : body ∈ s.panel.ui.head? := by
        rw [hui]
        rfl
      exact hO rfl hne body hbody

/-- One step of an orderly run. -/
theorem inv_step {a : SyncAction} (h : Inv typist s) (hO : Orderly typist s a)
    (hstep : step typist s a = some s') : Inv typist s' := by
  cases a with
  | tick ms =>
    cases hstep
    exact h.keep rfl rfl rfl (fun _ => by cases typist <;> rfl) (fun ho => by cases typist <;> exact ho)
      fun _ _ hc => by cases typist <;> exact hc
  | openChat d => exact h.openChat hstep
  | input text => exact h.input hstep
  | fire d => exact h.fire hstep
  | poll d => exact h.poll hstep
  | serve i => exact h.serve hO hstep
  | answer i => exact h.answer hO hstep
  | fail i => exact h.fail hstep
  | ui => exact h.ui hO hstep

end Steps

/-! ## Orderly runs -/

section Steps

variable {typist : Device} {s s' : Sync}

theorem Sync.answer_frame {r : Request} (h : s.answer r = some s') :
    s'.typed = s.typed ∧ s'.isOpen typist = s.isOpen typist := by
  obtain ⟨device, query, served, outcome, since⟩ := r
  have hpage : ∀ body updatedAt, (s.page.loadDraft body updatedAt).selected = s.page.selected :=
    Page.loadDraft_selected s.page
  have hpanel : ∀ body updatedAt, (s.panel.pollDraft body updatedAt).opened = s.panel.opened :=
    fun body updatedAt => (Panel.pollDraft_keeps s.panel body updatedAt).2.2
  unfold Sync.answer at h
  split at h <;> cases h <;> cases typist <;>
    first | exact ⟨rfl, rfl⟩ | exact ⟨rfl, hpage _ _⟩ | exact ⟨rfl, hpanel _ _⟩

theorem Sync.fail_frame (s : Sync) (typist : Device) (r : Request) :
    (s.fail r).typed = s.typed ∧ (s.fail r).isOpen typist = s.isOpen typist := by
  obtain ⟨device, query, served, outcome, since⟩ := r
  unfold Sync.fail
  dsimp only
  split <;> cases typist <;> exact ⟨rfl, rfl⟩

theorem Sync.serve_frame {i : Nat} {r : Request} (h : s.serve i r = some s') :
    s'.typed = s.typed ∧ s'.isOpen typist = s.isOpen typist := by
  unfold Sync.serve at h
  dsimp only at h
  split at h <;> cases h <;> cases typist <;> exact ⟨rfl, rfl⟩

/-- Only where the conversation is open something has been typed. -/
theorem opened_step {a : SyncAction} (h : s.typed ≠ none → s.isOpen typist = true)
    (hstep : step typist s a = some s') : s'.typed ≠ none → s'.isOpen typist = true := by
  have hframe : s'.typed = s.typed ∧ s'.isOpen typist = s.isOpen typist →
      s'.typed ≠ none → s'.isOpen typist = true := by
    rintro ⟨htyped, hopen⟩ hne
    rw [htyped] at hne
    exact hopen.trans (h hne)
  cases a with
  | tick ms =>
    cases hstep
    exact hframe (by cases typist <;> exact ⟨rfl, rfl⟩)
  | openChat d =>
    cases d <;> unfold step at hstep <;> dsimp only at hstep <;> split_ifs at hstep <;> cases hstep <;>
      cases typist <;> first | exact fun _ => rfl | exact h
  | input text =>
    cases typist <;> unfold step at hstep <;> dsimp only at hstep <;> split_ifs at hstep with hopen <;>
      cases hstep <;> exact fun _ => hopen
  | fire d =>
    cases d <;> unfold step at hstep <;> dsimp only at hstep <;> split at hstep <;> cases hstep <;>
      exact hframe (by cases typist <;> exact ⟨rfl, rfl⟩)
  | poll d =>
    cases d <;> unfold step at hstep <;> dsimp only at hstep <;> split_ifs at hstep <;> cases hstep <;>
      exact hframe (by cases typist <;> exact ⟨rfl, rfl⟩)
  | serve i =>
    obtain ⟨r, -, hstep⟩ := serve_of_step hstep
    exact hframe (Sync.serve_frame hstep)
  | answer i =>
    obtain ⟨r, -, -, hstep⟩ := answer_of_step hstep
    have hanswer := @Sync.answer_frame typist _ s' r hstep
    exact hframe ⟨hanswer.1, hanswer.2.trans (by cases typist <;> rfl)⟩
  | fail i =>
    obtain ⟨r, -, -, rfl⟩ := fail_of_step hstep
    have hfail := Sync.fail_frame { s with requests := s.requests.set i { r with outcome := .failed } } typist r
    exact hframe ⟨hfail.1, hfail.2.trans (by cases typist <;> rfl)⟩
  | ui =>
    unfold step at hstep
    dsimp only at hstep
    split at hstep <;> cases hstep
    exact hframe (by cases typist <;> exact ⟨rfl, rfl⟩)

/-- A step after which all is upheld was orderly. -/
theorem orderly_of_upheld {a : SyncAction} (h : Upheld typist s) (hstep : step typist s a = some s')
    (h' : Upheld typist s') : Orderly typist s a := by
  cases a with
  | answer i =>
    rintro rfl hne r hr hweb
    obtain ⟨t, ht⟩ := Option.ne_none_iff_exists'.1 hne
    obtain ⟨device, query, served, outcome, since⟩ := r
    obtain rfl : device = .web := hweb
    obtain ⟨r', hr', -, hstep⟩ := answer_of_step hstep
    obtain rfl := Option.some.inj (hr'.symm.trans hr)
    cases served with
    | loaded body updatedAt =>
      cases hstep
      by_cases hknown : updatedAt = none ∨ updatedAt = s.page.lastDraftVersion
      · exact hknown.imp id .inl
      · refine .inr (.inr ?_)
        by_contra hbody
        -- the page shows the text of the load
        have hshown : (s.page.loadDraft body updatedAt).outboxBody = body := by
          unfold Page.loadDraft
          rw [if_neg hknown, if_neg hbody]
          rfl
        have hnow : (s.page.loadDraft body updatedAt).outboxBody = t := h'.kept t ht
        have hbefore : s.page.outboxBody = t := h.kept t ht
        exact hbody (hshown.symm.trans (hnow.trans hbefore.symm))
    | _ => trivial
  | ui =>
    rintro rfl hne body hbody
    obtain ⟨t, ht⟩ := Option.ne_none_iff_exists'.1 hne
    obtain ⟨rest, hui⟩ := List.head?_eq_some_iff.1 hbody
    unfold step at hstep
    rw [hui] at hstep
    cases hstep
    have hnow : body = t := h'.kept t ht
    have hbefore : s.panel.text = t := h.kept t ht
    exact hnow.trans hbefore.symm
  | serve i =>
    rintro r hr hwaiting body hbody
    obtain ⟨device, query, served, outcome, since⟩ := r
    obtain rfl : served = .waiting := hwaiting
    obtain ⟨r', hr', hstep⟩ := serve_of_step hstep
    obtain rfl := Option.some.inj (hr'.symm.trans hr)
    cases query with
    | load opening => cases hbody
    | save body' source =>
      obtain rfl := Option.some.inj hbody
      cases hstep
      constructor
      · rintro ⟨⟩
        exact (Bool.or_eq_false_iff.1 h'.unemptied).2
      · intro t ht
        rcases h'.saved t ht with hstored | hcoming
        · exact .inl (Option.some.inj hstored)
        · refine .inr (hcoming.mono (fun hmem => .inl (by cases typist <;> exact hmem)) fun q hq hc => ?_)
          rcases List.mem_or_eq_of_mem_set hq with hq | rfl
          · exact ⟨q, hq, hc⟩
          · -- a request that is stored carries only a failure
            rcases hc.2 with hfailed | ⟨-, hwaits, -⟩
            · exact ⟨_, List.mem_of_getElem? hr, hc.1, .inl hfailed⟩
            · cases hwaits
  | _ => trivial

/-- A run is orderly exactly if all is upheld in every state that it reaches. -/
theorem orderly_iff {draft : Option Draft} {as : List SyncAction}
    (hrun : runSteps (step typist) (start draft) as = some s) :
    StepsMeet (step typist) (Orderly typist) (start draft) as ↔
      ∀ bs t, bs <+: as → runSteps (step typist) (start draft) bs = some t → Upheld typist t := by
  refine stepsMeet_iff_always (fun _ _ _ => opened_step)
    (fun u a u' hopen hup hstep => ⟨fun h' => ?_, fun hO => ?_⟩) hrun (fun h => absurd rfl h) ⟨nofun, rfl, nofun⟩
  · exact orderly_of_upheld hup hstep h'
  · exact (inv_step ⟨hup, hopen⟩ hO hstep).toUpheld

end Steps

/-- In every orderly run the text of the user stays, no opening empties the draft, and at the end the draft
is what was typed last. -/
theorem safe_of_orderly {typist : Device} {draft : Option Draft} {as : List SyncAction} {s : Sync}
    (hrun : runSteps (step typist) (start draft) as = some s)
    (hO : StepsMeet (step typist) (Orderly typist) (start draft) as) : Safe typist s := by
  have hend : Upheld typist s := (orderly_iff hrun).1 hO as s (List.prefix_refl as) hrun
  exact hend.safe

/-- The draft is loaded before the timer of the opening fires, and a text is typed and saved. -/
def typedOnce : List SyncAction :=
  [.tick 1000, .openChat .web, .serve 0, .answer 0, .tick 300, .fire .web, .serve 1, .serve 1, .answer 1,
    .input (ascii "on my way"), .tick 300, .fire .web, .serve 2, .serve 2, .answer 2, .poll .web, .serve 3,
    .answer 3]

theorem safe_typedOnce : ∃ s, runSteps (step .web) (start (some ⟨ascii "hello", 0⟩)) typedOnce = some s ∧
    s.draft.map Draft.body = some (ascii "on my way") ∧ Safe .web s := by
  obtain ⟨s, hrun, hdraft⟩ : ∃ s, runSteps (step .web) (start (some ⟨ascii "hello", 0⟩)) typedOnce = some s ∧
      s.draft.map Draft.body = some (ascii "on my way") := ⟨_, rfl, rfl⟩
  exact ⟨s, hrun, hdraft, safe_of_orderly hrun (by decide)⟩

/-- The timer of the opening fires before the draft is loaded, and stores the empty text over it. -/
theorem draft_emptied : ¬ ∀ (typist : Device) (draft : Option Draft) (as : List SyncAction) (s : Sync),
    runSteps (step typist) (start draft) as = some s → Safe typist s := by
  intro h
  obtain ⟨s, hrun, hemptied, hdraft⟩ : ∃ s, runSteps (step .phone) (start (some ⟨ascii "hello", 0⟩))
      [.tick 1000, .openChat .web, .tick 300, .fire .web, .serve 1] = some s ∧ s.emptied = true ∧
        s.draft = some ⟨[], 1300⟩ := ⟨_, rfl, rfl, rfl⟩
  have hunemptied := (h .phone _ _ s hrun).unemptied
  rw [hemptied] at hunemptied
  cases hunemptied

end Gafam.Relay.DraftSync
