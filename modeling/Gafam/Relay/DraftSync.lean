import Gafam.Js.Text
import Gafam.Lib.Steps

/-!
# Drafts that are typed on two devices

The page and the app each show the text of one conversation, save it 300 ms after it has changed, and ask
for the stored draft when the conversation is opened and every 1.5 s. The stored draft is one row of
`gafam_drafts`. Requests are served and answered in any order, or fail, and a request that has failed may
still be served later; every statement on the database is a step. The clock counts milliseconds, as
`updated_at` does.
-/

namespace Gafam.Relay.DraftSync

open Gafam.Js

inductive Device
  | web
  | phone
deriving DecidableEq

/-- A row of `gafam_drafts`. -/
structure Draft where
  body : JsString
  updatedAt : Nat
deriving DecidableEq

/-- Where the text of a save comes from: from the opening, which empties the field, from a load, or from
the user. -/
inductive Source
  | opening
  | loaded
  | typed
deriving DecidableEq

/-! ## The page -/

/-- A timer of `setTimeout`. -/
structure SaveTimer where
  id : Nat
  body : JsString
  source : Source
deriving DecidableEq

/-- The page. `timers` are those that have not fired, in the order in which they were set. -/
structure Page where
  selected : Bool
  outboxBody : JsString
  lastDraftVersion : Option Nat
  draftTimer : Option Nat
  timers : List SaveTimer
  nextTimer : Nat
deriving DecidableEq

/-- `clearTimeout(draftTimer)` and `draftTimer = setTimeout(…, 300)`. -/
def Page.setTimer (p : Page) (body : JsString) (source : Source) : Page :=
  { p with
    draftTimer := some p.nextTimer
    timers := p.timers.filter (fun t => p.draftTimer ≠ some t.id) ++ [⟨p.nextTimer, body, source⟩]
    nextTimer := p.nextTimer + 1 }

/-- The effects of a new conversation, up to the load. -/
def Page.switch (p : Page) : Page :=
  { p with selected := true, outboxBody := [], lastDraftVersion := none }.setTimer [] .opening

/-- `oninput`. The effect replaces the timer of `triggerDraftSave` by one of the same text. -/
def Page.input (p : Page) (text : JsString) : Page := { p with outboxBody := text }.setTimer text .typed

/-- The answer to `loadDraft`. The effect saves a text that has changed. -/
def Page.loadDraft (p : Page) (body : JsString) (updatedAt : Option Nat) : Page :=
  if updatedAt = none ∨ updatedAt = p.lastDraftVersion then p
  else if body = p.outboxBody then { p with lastDraftVersion := updatedAt }
  else { p with lastDraftVersion := updatedAt, outboxBody := body }.setTimer body .loaded

/-- The end of `saveDraft` and of the timer that has called it. -/
def Page.saveDraft (p : Page) (updatedAt : Option Nat) : Page :=
  { p with lastDraftVersion := updatedAt.or p.lastDraftVersion, draftTimer := none }

/-! ## The app -/

/-- The chat of `SmsPanel`. `ui` are the texts that wait for the main thread to be set. -/
structure Panel where
  opened : Bool
  text : JsString
  lastDraftVersion : Option Nat
  draftTimer : Option JsString
  draftDirty : Bool
  ui : List JsString
deriving DecidableEq

/-- `afterTextChanged`. -/
def Panel.afterTextChanged (p : Panel) (text : JsString) : Panel :=
  { p with text := text, draftDirty := true, draftTimer := some text }

/-- The callback of the load of `showChat`. -/
def Panel.showDraft (p : Panel) (draftBody : JsString) (updatedAt : Option Nat) : Panel :=
  { p with lastDraftVersion := updatedAt, ui := p.ui ++ [draftBody] }

/-- The callback of the load of `startDraftPoll`. -/
def Panel.pollDraft (p : Panel) (draftBody : JsString) (updatedAt : Option Nat) : Panel :=
  if updatedAt = none ∨ updatedAt = p.lastDraftVersion then p
  else if p.text = draftBody then { p with lastDraftVersion := updatedAt }
  else { p with lastDraftVersion := updatedAt, ui := p.ui ++ [draftBody] }

/-- The end of `saveDraftToVpc`. -/
def Panel.saveDraft (p : Panel) (updatedAt : Option Nat) : Panel :=
  { p with lastDraftVersion := updatedAt.or p.lastDraftVersion, draftDirty := false }

/-! ## Requests -/

/-- A PUT, or a GET, which may be that of an opening. -/
inductive Query
  | save (body : JsString) (source : Source)
  | load (opening : Bool)
deriving DecidableEq

/-- Where the VPC stands with a request. -/
inductive Served
  | waiting
  | stored
  | saved (updatedAt : Option Nat)
  | loaded (body : JsString) (updatedAt : Option Nat)
deriving DecidableEq

/-- What the device knows of its request. -/
inductive Outcome
  | underWay
  | succeeded
  | failed
deriving DecidableEq

/-- A request; `since` tells that it was issued after the latest input. -/
structure Request where
  device : Device
  query : Query
  served : Served
  outcome : Outcome
  since : Bool
deriving DecidableEq

/-- The request was issued before the latest input. -/
def Request.before (r : Request) : Request := { r with since := false }

/-- The VPC, the two devices and the requests; what was typed last since the opening, and whether an
opening has emptied the draft. -/
structure Sync where
  draft : Option Draft
  clock : Nat
  page : Page
  panel : Panel
  requests : List Request
  typed : Option JsString
  emptied : Bool
deriving DecidableEq

inductive SyncAction
  | tick (ms : Nat)
  | openChat (d : Device)
  | input (text : JsString)
  | fire (d : Device)
  | poll (d : Device)
  | serve (i : Nat)
  | answer (i : Nat)
  | fail (i : Nat)
  | ui

/-- A request is issued. -/
def Sync.send (s : Sync) (d : Device) (query : Query) : Sync :=
  { s with requests := s.requests ++ [⟨d, query, .waiting, .underWay, true⟩] }

/-- There is a draft, and it is not empty. -/
def Sync.nonEmpty (s : Sync) : Bool := s.draft.any fun d => d.body ≠ []

/-- The next statement of the VPC for a request. -/
def Sync.serve (s : Sync) (i : Nat) (r : Request) : Option Sync :=
  let served := fun (v : Served) => s.requests.set i { r with served := v }
  match r.served, r.query with
  | .waiting, .save body source =>
    some { s with
      draft := some ⟨body, s.clock⟩
      requests := served .stored
      emptied := s.emptied || (decide (source = .opening ∧ body = []) && s.nonEmpty) }
  | .waiting, .load _ =>
    some { s with
      requests := served (.loaded ((s.draft.map Draft.body).getD []) (s.draft.map Draft.updatedAt)) }
  | .stored, _ => some { s with requests := served (.saved (s.draft.map Draft.updatedAt)) }
  | _, _ => none

/-- The device has the answer to its request. -/
def Sync.answer (s : Sync) (r : Request) : Option Sync :=
  match r.device, r.query, r.served with
  | .web, _, .saved updatedAt => some { s with page := s.page.saveDraft updatedAt }
  | .phone, _, .saved updatedAt => some { s with panel := s.panel.saveDraft updatedAt }
  | .web, _, .loaded body updatedAt => some { s with page := s.page.loadDraft body updatedAt }
  | .phone, .load true, .loaded body updatedAt => some { s with panel := s.panel.showDraft body updatedAt }
  | .phone, _, .loaded body updatedAt => some { s with panel := s.panel.pollDraft body updatedAt }
  | _, _, _ => none

/-- The request of the device fails. The app takes a load that fails for an empty draft. -/
def Sync.fail (s : Sync) (r : Request) : Sync :=
  match r.device, r.query with
  | .web, .save _ _ => { s with page := s.page.saveDraft none }
  | .web, .load _ => s
  | .phone, .save _ _ => { s with panel := s.panel.saveDraft none }
  | .phone, .load true => { s with panel := s.panel.showDraft [] none }
  | .phone, .load false => { s with panel := s.panel.pollDraft [] none }

/-- One step, when the user types on this device. -/
def step (typist : Device) (s : Sync) : SyncAction → Option Sync
  | .tick ms => some { s with clock := s.clock + ms }
  | .openChat .web =>
    if s.page.selected then none else some (Sync.send { s with page := s.page.switch } .web (.load true))
  | .openChat .phone =>
    if s.panel.opened then none
    else some (Sync.send { s with panel := { s.panel with opened := true } } .phone (.load true))
  | .input text =>
    let s := { s with requests := s.requests.map Request.before, typed := some text }
    match typist with
    | .web => if s.page.selected then some { s with page := s.page.input text } else none
    | .phone => if s.panel.opened then some { s with panel := s.panel.afterTextChanged text } else none
  | .fire .web =>
    match s.page.timers with
    | t :: timers =>
      some (Sync.send { s with page := { s.page with timers := timers } } .web (.save t.body t.source))
    | [] => none
  | .fire .phone =>
    match s.panel.draftTimer with
    | some body =>
      some (Sync.send { s with panel := { s.panel with draftTimer := none } } .phone (.save body .typed))
    | none => none
  | .poll .web =>
    if s.page.selected ∧ s.page.draftTimer = none then some (s.send .web (.load false)) else none
  | .poll .phone =>
    if s.panel.opened ∧ s.panel.draftDirty = false then some (s.send .phone (.load false)) else none
  | .serve i => do
    let r ← s.requests[i]?
    s.serve i r
  | .answer i => do
    let r ← s.requests[i]?
    if r.outcome = .underWay then
      Sync.answer { s with requests := s.requests.set i { r with outcome := .succeeded } } r
    else none
  | .fail i => do
    let r ← s.requests[i]?
    if r.outcome = .underWay then
      some (Sync.fail { s with requests := s.requests.set i { r with outcome := .failed } } r)
    else none
  | .ui =>
    match s.panel.ui with
    | body :: rest => some { s with panel := { s.panel with text := body, ui := rest } }
    | [] => none

/-- A conversation that is not open yet, with this draft. -/
def start (draft : Option Draft) : Sync :=
  ⟨draft, 0, ⟨false, [], none, none, [], 0⟩, ⟨false, [], none, none, false, []⟩, [], none, false⟩

/-! ## Safety -/

/-- The text on a device. -/
def Sync.text (s : Sync) : Device → JsString
  | .web => s.page.outboxBody
  | .phone => s.panel.text

/-- The texts that wait for a save timer on a device. -/
def Sync.pending (s : Sync) : Device → List JsString
  | .web => s.page.timers.map SaveTimer.body
  | .phone => s.panel.draftTimer.toList

/-- The timers have fired, and every request issued since the latest input has succeeded. -/
def Sync.Settled (s : Sync) (typist : Device) : Prop :=
  s.pending typist = [] ∧ ∀ r ∈ s.requests, r.since = true → r.outcome = .succeeded

/-- The text that the user has typed stays, no opening empties the draft, and at the end the draft is the
text that was typed last. -/
structure Safe (typist : Device) (s : Sync) : Prop where
  kept : ∀ t ∈ s.typed, s.text typist = t
  unemptied : s.emptied = false
  stored : s.Settled typist → ∀ t ∈ s.typed, s.draft.map Draft.body = some t

/-- The text of a save. -/
def Query.body : Query → Option JsString
  | .save body _ => some body
  | .load _ => none

/-- The text is still to be stored: a timer or a request waits with it; or a request has failed. -/
def Sync.Coming (s : Sync) (typist : Device) (t : JsString) : Prop :=
  t ∈ s.pending typist ∨ ∃ r ∈ s.requests, r.since = true ∧
    (r.outcome = .failed ∨ (r.query.body = some t ∧ r.served = .waiting ∧ r.outcome = .underWay))

instance (s : Sync) (typist : Device) (t : JsString) : Decidable (s.Coming typist t) :=
  inferInstanceAs (Decidable (_ ∨ _))

/-- The page ignores the draft, takes it for the version that it knows, or shows its text already. -/
def Served.Harmless (p : Page) : Served → Prop
  | .loaded body updatedAt => updatedAt = none ∨ updatedAt = p.lastDraftVersion ∨ body = p.outboxBody
  | _ => True

instance (p : Page) : (v : Served) → Decidable (v.Harmless p)
  | .waiting => isTrue trivial
  | .stored => isTrue trivial
  | .saved _ => isTrue trivial
  | .loaded _ _ => inferInstanceAs (Decidable (_ ∨ _ ∨ _))

/-- No load brings another text after the user has typed; what an opening saves empty is not stored over a
draft; and another text than the one typed last is stored only while that one is still to come. -/
def Orderly (typist : Device) (s : Sync) : SyncAction → Prop
  | .answer i => typist = .web → s.typed ≠ none → ∀ r ∈ s.requests[i]?, r.device = .web →
      r.served.Harmless s.page
  | .ui => typist = .phone → s.typed ≠ none → ∀ body ∈ s.panel.ui.head?, body = s.panel.text
  | .serve i => ∀ r ∈ s.requests[i]?, r.served = .waiting → ∀ body ∈ r.query.body,
      (r.query = .save [] .opening → s.nonEmpty = false) ∧
        ∀ t ∈ s.typed, body = t ∨ s.Coming typist t
  | _ => True

instance (typist : Device) (s : Sync) : (a : SyncAction) → Decidable (Orderly typist s a)
  | .answer _ => inferInstanceAs (Decidable (_ → _))
  | .ui => inferInstanceAs (Decidable (_ → _))
  | .serve _ => inferInstanceAs (Decidable (∀ _ ∈ _, _))
  | .tick _ => isTrue trivial
  | .openChat _ => isTrue trivial
  | .input _ => isTrue trivial
  | .fire _ => isTrue trivial
  | .poll _ => isTrue trivial
  | .fail _ => isTrue trivial

end Gafam.Relay.DraftSync
