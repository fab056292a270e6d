import Gafam.Android.Outbox

/-!
# What the phone sends, and how often

As long as the trim of the claims drops no id whose row may come up again, `SmsManager` accepts every row at most
once.
-/

namespace Gafam.Android.Phone

open Gafam.Lib

/-! ## Ids -/

theorem ids_sublist {rows rows' : List OutboxRow} (h : rows.Sublist rows') : (ids rows).Sublist (ids rows') := h.map _

/-! ## What a step leaves alone -/

/-- A sent-report is dropped, or is the first of its id and reported. -/
theorem onReceive_cases (s : Phone) (i : SentIntent) (resultCode : Int) :
    (i.outboxId = 0 ∨ i.outboxId ∈ s.reported) ∧ s.onReceive i resultCode = s ∨
    i.outboxId ∉ s.reported ∧ s.onReceive i resultCode =
      ({ s with reported := i.outboxId :: s.reported } : Phone).reportStatus i.outboxId i.smsId
        (if resultCode = resultOk then .sent else .failed) := by
  unfold onReceive markReportedIfNew
  by_cases hzero : i.outboxId = 0
  · exact .inl ⟨.inl hzero, by rw [if_pos hzero]⟩
  · rw [if_neg hzero]
    by_cases hmem : i.outboxId ∈ s.reported
    · exact .inl ⟨.inr hmem, by rw [if_pos hmem]⟩
    · exact .inr ⟨hmem, by rw [if_neg hmem]⟩

theorem sentFallback_cases (s : Phone) (i : SentIntent) :
    i.outboxId ∈ s.reported ∧ s.sentFallback i = s ∨
    i.outboxId ∉ s.reported ∧ s.sentFallback i =
      ({ s with reported := i.outboxId :: s.reported } : Phone).reportStatus i.outboxId i.smsId .sent := by
  unfold sentFallback markReportedIfNew
  by_cases hmem : i.outboxId ∈ s.reported
  · exact .inl ⟨hmem, by rw [if_pos hmem]⟩
  · exact .inr ⟨hmem, by rw [if_neg hmem]⟩

/-- The prune changes only the claims and what is in flight. -/
theorem prune_eq (s : Phone) (answer : List OutboxRow) :
    ∃ claimedIds inFlight, s.prune answer = { s with claimedIds := claimedIds, inFlightOutbox := inFlight } ∧
      (claimedIds = s.claimedIds ∨ s.inFlightOutbox ≠ [] ∧ claimedIds = s.inFlightOutbox.filter (· ∈ ids answer)) := by
  unfold prune persistClaimedOutboxIds
  by_cases hnil : s.inFlightOutbox = []
  · exact ⟨_, _, if_pos hnil, .inl rfl⟩
  · rw [if_neg hnil]
    by_cases hlen : (s.inFlightOutbox.filter (· ∈ ids answer)).length ≠ s.inFlightOutbox.length
    · exact ⟨_, _, if_pos hlen, .inr ⟨hnil, rfl⟩⟩
    · exact ⟨_, _, if_neg hlen, .inl rfl⟩

/-! ## The invariant -/

end Gafam.Android.Phone

namespace Gafam.Android

/-- The rows that the loop has still to take up. -/
def Poll.rest : Poll → List OutboxRow
  | .idle => []
  | .rows rest => rest
  | .claimed _ rest => rest
  | .accepted _ rest => rest
  | .thrown _ rest => rest

/-- The row that is claimed and not accepted. -/
def Poll.unsent : Poll → Option OutboxRow
  | .claimed row _ => some row
  | .thrown row _ => some row
  | _ => none

end Gafam.Android

namespace Gafam.Android.Phone

open Gafam.Lib

/-- The row is guarded before it is sent. -/
structure Unsent (s : Phone) (row : OutboxRow) : Prop where
  fresh : row.id ∉ s.acceptedIds
  le : row.id ≤ s.lastId
  notRest : row.id ∉ ids s.poll.rest
  held : row.id ∈ s.inFlightOutbox
  claimed : row.id ∈ ids s.outbox → row.id ∈ s.claimedIds

/-- An accepted row that may come up again is claimed, and in flight as soon as anything is. -/
structure Guarded (s : Phone) : Prop where
  once : s.acceptedIds.Nodup
  acceptedLe : ∀ id ∈ s.acceptedIds, id ≤ s.lastId
  outboxLe : ∀ id ∈ ids s.outbox, id ≤ s.lastId
  outboxNodup : (ids s.outbox).Nodup
  restLe : ∀ id ∈ ids s.poll.rest, id ≤ s.lastId
  restNodup : (ids s.poll.rest).Nodup
  claimed : ∀ id ∈ s.acceptedIds, id ∈ ids s.outbox ∨ id ∈ ids s.poll.rest → id ∈ s.claimedIds
  held : ∀ id ∈ s.acceptedIds, id ∈ ids s.outbox →
    id ∈ s.inFlightOutbox ∨ id ∈ ids s.poll.rest ∨ s.poll = .idle ∧ s.inFlightOutbox = []
  unsent : ∀ row, s.poll.unsent = some row → s.Unsent row

theorem guarded_start : Guarded start where
  once := List.nodup_nil
  acceptedLe := by simp [start]
  outboxLe := by simp [start, ids]
  outboxNodup := List.nodup_nil
  restLe := by simp [start, ids, Poll.rest]
  restNodup := List.nodup_nil
  claimed := by simp [start]
  held := by simp [start]
  unsent := by simp [start, Poll.unsent]

/-- Rows may vanish. -/
theorem Guarded.frame {s t : Phone} (h : Guarded s) (houtbox : t.outbox.Sublist s.outbox) (hlast : t.lastId = s.lastId)
    (hclaimed : t.claimedIds = s.claimedIds) (hheld : t.inFlightOutbox = s.inFlightOutbox) (hpoll : t.poll = s.poll)
    (haccepted : t.acceptedIds = s.acceptedIds) : Guarded t := by
  have hsub : ∀ id ∈ ids t.outbox, id ∈ ids s.outbox := fun id hid => (ids_sublist houtbox).subset hid
  constructor
  · rw [haccepted]
    exact h.once
  · rw [haccepted, hlast]
    exact h.acceptedLe
  · rw [hlast]
    exact fun id hid => h.outboxLe id (hsub id hid)
  · exact h.outboxNodup.sublist (ids_sublist houtbox)
  · rw [hpoll, hlast]
    exact h.restLe
  · rw [hpoll]
    exact h.restNodup
  · rw [haccepted, hpoll, hclaimed]
    exact fun id hid hrow => h.claimed id hid (hrow.imp_left (hsub id))
  · rw [haccepted, hpoll, hheld]
    exact fun id hid hrow => h.held id hid (hsub id hrow)
  · rw [hpoll]
    intro row hrow
    obtain ⟨hfresh, hle, hrest, hin, hcl⟩ := h.unsent row hrow
    refine ⟨?_, ?_, ?_, ?_, ?_⟩
    · rwa [haccepted]
    · rwa [hlast]
    · rwa [hpoll]
    · rwa [hheld]
    · rw [hclaimed]
      exact fun hid => hcl (hsub _ hid)

theorem guarded_queue {s : Phone} (h : Guarded s) (smsId : Int) (recipient body : String) :
    Guarded { s with outbox := s.outbox ++ [⟨s.lastId + 1, smsId, recipient, body⟩], lastId := s.lastId + 1 } := by
  have hids : ∀ id, id ∈ ids (s.outbox ++ [⟨s.lastId + 1, smsId, recipient, body⟩]) ↔
      id ∈ ids s.outbox ∨ id = s.lastId + 1 := by simp [ids]
  have hnew : ∀ id ∈ s.acceptedIds, id ≠ s.lastId + 1 := by
    intro id hid
    have := h.acceptedLe id hid
    omega
  constructor
  · exact h.once
  · intro id hid
    have := h.acceptedLe id hid
    show id ≤ s.lastId + 1
    omega
  · intro id hid
    show id ≤ s.lastId + 1
    rcases (hids id).1 hid with hid | rfl
    · have := h.outboxLe id hid
      omega
    · exact le_refl _
  · show (ids (s.outbox ++ [_])).Nodup
    unfold ids
    rw [List.map_append]
    refine List.nodup_append.2 ⟨h.outboxNodup, List.nodup_singleton _, ?_⟩
    intro a ha b hb hab
    have := h.outboxLe a ha
    simp at hb
    omega
  · intro id hid
    have := h.restLe id hid
    show id ≤ s.lastId + 1
    omega
  · exact h.restNodup
  · intro id hid hrow
    refine h.claimed id hid (hrow.imp_left fun hrow => ?_)
    exact ((hids id).1 hrow).resolve_right (hnew id hid)
  · intro id hid hrow
    exact h.held id hid (((hids id).1 hrow).resolve_right (hnew id hid))
  · intro row hrow
    obtain ⟨hfresh, hle, hrest, hin, hcl⟩ := h.unsent row hrow
    refine ⟨hfresh, ?_, hrest, hin, fun hid => hcl (((hids row.id).1 hid).resolve_right ?_)⟩
    · show row.id ≤ s.lastId + 1
      omega
    · omega

/-- The rows of the answer are those of the outbox; what is in flight is still in the outbox. -/
theorem guarded_poll {s : Phone} (h : Guarded s) (hidle : s.poll = .idle) {answer : List OutboxRow}
    (hperm : answer.Perm s.outbox) : Guarded { s.prune answer with poll := .rows answer } := by
  have hmem : ∀ id, id ∈ ids answer ↔ id ∈ ids s.outbox := fun id => (hperm.map _).mem_iff
  obtain ⟨claimedIds, inFlight, hprune, hclaims⟩ := prune_eq s answer
  rw [hprune]
  -- an accepted row of the outbox stays claimed, since it is in flight if anything is
  have hkeep : ∀ id ∈ s.acceptedIds, id ∈ ids s.outbox → id ∈ claimedIds := by
    intro id hid hrow
    rcases hclaims with rfl | ⟨hnil, rfl⟩
    · exact h.claimed id hid (.inl hrow)
    · refine List.mem_filter.2 ⟨?_, by simpa using (hmem id).2 hrow⟩
      have hheld := h.held id hid hrow
      rw [hidle] at hheld
      rcases hheld with hheld | hrest | ⟨-, hnil'⟩
      · exact hheld
      · cases hrest
      · exact absurd hnil' hnil
  constructor
  · exact h.once
  · exact h.acceptedLe
  · exact h.outboxLe
  · exact h.outboxNodup
  · exact fun id hid => h.outboxLe id ((hmem id).1 hid)
  · exact (hperm.map _).nodup_iff.2 h.outboxNodup
  · exact fun id hid hrow => hkeep id hid (hrow.elim (fun hrow => hrow) (hmem id).1)
  · exact fun id _ hrow => .inr (.inl ((hmem id).2 hrow))
  · intro row hrow
    cases hrow

/-- The next row goes on in the loop. -/
theorem Guarded.advance {s : Phone} (h : Guarded s) {row : OutboxRow} {rest : List OutboxRow}
    (hpoll : s.poll = .rows (row :: rest)) (hheld : row.id ∈ s.inFlightOutbox) :
    Guarded { s with poll := .rows rest } := by
  have hrest : ids s.poll.rest = row.id :: ids rest := by rw [hpoll]; rfl
  constructor
  · exact h.once
  · exact h.acceptedLe
  · exact h.outboxLe
  · exact h.outboxNodup
  · intro id hid
    exact h.restLe id (by rw [hrest]; exact List.mem_cons_of_mem _ hid)
  · have hnodup := h.restNodup
    rw [hrest] at hnodup
    exact (List.nodup_cons.1 hnodup).2
  · intro id hid hrow
    refine h.claimed id hid (hrow.imp_right fun hrow => ?_)
    rw [hrest]
    exact List.mem_cons_of_mem _ hrow
  · intro id hid hrow
    rcases h.held id hid hrow with hin | hin | ⟨hidle, -⟩
    · exact .inl hin
    · rw [hrest] at hin
      rcases List.mem_cons.1 hin with rfl | hin
      · exact .inl hheld
      · exact .inr (.inl hin)
    · rw [hpoll] at hidle
      cases hidle
  · intro row' hrow'
    cases hrow'

/-- A row that is not in flight is put there, and claimed or cleared. -/
theorem guarded_takeUp {s : Phone} (h : Guarded s) {row : OutboxRow} {rest : List OutboxRow}
    (hpoll : s.poll = .rows (row :: rest)) (hC : Remembers s .take) : Guarded (s.takeUp row rest) := by
  unfold takeUp
  by_cases hin : row.id ∈ s.inFlightOutbox
  · rw [if_pos hin]
    exact h.advance hpoll hin
  · rw [if_neg hin]
    -- the row put in flight
    have h' : Guarded { s with inFlightOutbox := row.id :: s.inFlightOutbox } := by
      obtain ⟨honce, hacc, hout, houtN, hrest, hrestN, hcl, hheld, hun⟩ := h
      refine ⟨honce, hacc, hout, houtN, hrest, hrestN, hcl, ?_, ?_⟩
      · intro id hid hrow
        rcases hheld id hid hrow with hin | hin | ⟨hidle, -⟩
        · exact .inl (List.mem_cons_of_mem _ hin)
        · exact .inr (.inl hin)
        · rw [hpoll] at hidle
          cases hidle
      · intro row' hrow'
        change s.poll.unsent = some row' at hrow'
        rw [hpoll] at hrow'
        cases hrow'
    have hgo : Guarded { s with inFlightOutbox := row.id :: s.inFlightOutbox, poll := .rows rest } :=
      h'.advance hpoll (List.mem_cons_self ..)
    by_cases hclaimed : row.id ∈ s.claimedIds
    · simp only [hclaimed, if_true]
      exact hgo.frame (List.Sublist.refl _) rfl rfl rfl rfl rfl
    · simp only [hclaimed, if_false]
      have hrest : ids s.poll.rest = row.id :: ids rest := by rw [hpoll]; rfl
      have hforget := hC row rest hpoll hin hclaimed
      -- what is dropped does not come up again
      have hkeep : ∀ id ∈ s.claimedIds.insert row.id, id ∈ s.acceptedIds ∨ id = row.id →
          id ∈ ids s.outbox ∨ id ∈ ids rest → id ∈ claimIn s.claimedIds row.id := by
        intro id hid hacc hrow
        by_contra hdrop
        obtain ⟨hout, hrest⟩ := hforget id hid hdrop hacc
        exact hrow.elim hout hrest
      constructor
      · exact h.once
      · exact h.acceptedLe
      · exact h.outboxLe
      · exact h.outboxNodup
      · exact hgo.restLe
      · exact hgo.restNodup
      · intro id hid hrow
        exact hkeep id (List.mem_insert_of_mem (hgo.claimed id hid hrow)) (.inl hid) hrow
      · intro id hid hrow
        rcases hgo.held id hid hrow with hin | hin | ⟨hidle, -⟩
        · exact .inl hin
        · exact .inr (.inl hin)
        · cases hidle
      · intro row' hrow'
        cases hrow'
        refine ⟨?_, ?_, ?_, List.mem_cons_self .., ?_⟩
        · intro hacc
          refine hclaimed (h.claimed _ hacc (.inr ?_))
          rw [hrest]
          exact List.mem_cons_self ..
        · refine h.restLe row.id ?_
          rw [hrest]
          exact List.mem_cons_self ..
        · have hnodup := h.restNodup
          rw [hrest] at hnodup
          exact (List.nodup_cons.1 hnodup).1
        · intro hrow
          exact hkeep row.id (List.mem_insert_self ..) (.inr rfl) (.inl hrow)

theorem guarded_accept {s : Phone} (h : Guarded s) {row : OutboxRow} {rest : List OutboxRow}
    (hpoll : s.poll = .claimed row rest) (intents : List SentIntent) :
    Guarded { s with
      awaited := intents
      acceptedIds := row.id :: s.acceptedIds
      poll := .accepted row rest } := by
  have hrest : s.poll.rest = rest := by rw [hpoll]; rfl
  obtain ⟨hfresh, hle, hnot, hheld, hclaimed⟩ := h.unsent row (by rw [hpoll]; rfl)
  rw [hrest] at hnot
  constructor
  · exact List.nodup_cons.2 ⟨hfresh, h.once⟩
  · intro id hid
    rcases List.mem_cons.1 hid with rfl | hid
    · exact hle
    · exact h.acceptedLe id hid
  · exact h.outboxLe
  · exact h.outboxNodup
  · exact fun id hid => h.restLe id (by rw [hrest]; exact hid)
  · exact hrest ▸ h.restNodup
  · intro id hid hrow
    rcases List.mem_cons.1 hid with rfl | hid
    · exact hclaimed (hrow.resolve_right hnot)
    · exact h.claimed id hid (by rw [hrest]; exact hrow)
  · intro id hid hrow
    rcases List.mem_cons.1 hid with rfl | hid
    · exact .inl hheld
    · rcases h.held id hid hrow with hin | hin | ⟨hidle, -⟩
      · exact .inl hin
      · exact .inr (.inl (by rw [hrest] at hin; exact hin))
      · rw [hpoll] at hidle
        cases hidle
  · intro row' hrow'
    cases hrow'

/-- The loop goes on behind a row that is sent, or that was released. -/
theorem Guarded.next {s t : Phone} (h : Guarded s) (hbusy : s.poll ≠ .idle) (houtbox : t.outbox = s.outbox)
    (hlast : t.lastId = s.lastId) (haccepted : t.acceptedIds = s.acceptedIds) (hrest : t.poll.rest = s.poll.rest)
    (hclaimed : ∀ id ∈ s.acceptedIds, id ∈ s.claimedIds → id ∈ t.claimedIds)
    (hheld : ∀ id ∈ s.acceptedIds, id ∈ s.inFlightOutbox → id ∈ t.inFlightOutbox)
    (hunsent : ∀ row, t.poll.unsent = some row → t.Unsent row) : Guarded t := by
  constructor
  · rw [haccepted]
    exact h.once
  · rw [haccepted, hlast]
    exact h.acceptedLe
  · rw [houtbox, hlast]
    exact h.outboxLe
  · rw [houtbox]
    exact h.outboxNodup
  · rw [hrest, hlast]
    exact h.restLe
  · rw [hrest]
    exact h.restNodup
  · rw [haccepted, houtbox, hrest]
    exact fun id hid hrow => hclaimed id hid (h.claimed id hid hrow)
  · rw [haccepted, houtbox, hrest]
    intro id hid hrow
    rcases h.held id hid hrow with hin | hin | ⟨hidle, -⟩
    · exact .inl (hheld id hid hin)
    · exact .inr (.inl hin)
    · exact absurd hidle hbusy
  · exact hunsent

theorem guarded_throw {s : Phone} (h : Guarded s) {row : OutboxRow} {rest : List OutboxRow}
    (hpoll : s.poll = .claimed row rest) (thrownIds : List Int) :
    Guarded { s with thrownIds := thrownIds, poll := .thrown row rest } := by
  have hbusy : s.poll ≠ .idle := by simp [hpoll]
  have hun := h.unsent row (by rw [hpoll]; rfl)
  refine h.next hbusy rfl rfl rfl (by rw [hpoll]; rfl) (fun _ _ hid => hid) (fun _ _ hid => hid) ?_
  rintro row' ⟨⟩
  refine ⟨hun.fresh, hun.le, ?_, hun.held, hun.claimed⟩
  have hnot := hun.notRest
  rw [hpoll] at hnot
  exact hnot

theorem guarded_release {s : Phone} (h : Guarded s) {row : OutboxRow} {rest : List OutboxRow}
    (hpoll : s.poll = .thrown row rest) :
    Guarded { (s.releaseOutboxClaim row.id).reportStatus row.id row.smsId .failed with poll := .rows rest } := by
  have hbusy : s.poll ≠ .idle := by simp [hpoll]
  have hfresh := (h.unsent row (by rw [hpoll]; rfl)).fresh
  have hother : ∀ id ∈ s.acceptedIds, id ≠ row.id := fun id hid heq => hfresh (heq ▸ hid)
  refine h.next hbusy rfl rfl rfl (by rw [hpoll]; rfl) ?_ ?_ ?_
  · exact fun id hacc hid => List.mem_filter.2 ⟨hid, by simpa using hother id hacc⟩
  · exact fun id hacc hid => List.mem_filter.2 ⟨hid, by simpa using hother id hacc⟩
  · rintro row' ⟨⟩

theorem guarded_idle {s : Phone} (h : Guarded s) (hpoll : s.poll = .rows []) : Guarded { s with poll := .idle } := by
  have hbusy : s.poll ≠ .idle := by simp [hpoll]
  refine h.next hbusy rfl rfl rfl (by rw [hpoll]; rfl) (fun _ _ hid => hid) (fun _ _ hid => hid) ?_
  rintro row' ⟨⟩

/-- The claims survive the process. -/
theorem guarded_die {s : Phone} (h : Guarded s) : Guarded s.die where
  once := h.once
  acceptedLe := h.acceptedLe
  outboxLe := h.outboxLe
  outboxNodup := h.outboxNodup
  restLe := by simp [die, Poll.rest, ids]
  restNodup := List.nodup_nil
  claimed := fun id hid hrow => h.claimed id hid (.inl (hrow.resolve_right (by simp [die, Poll.rest, ids])))
  held := fun _ _ _ => .inr (.inr ⟨rfl, rfl⟩)
  unsent := by simp [die, Poll.unsent]

/-! ## Runs -/

variable {divideMessage : String → List String}

theorem guarded_step {s s' : Phone} {e : Event} (h : Guarded s) (hC : Remembers s e)
    (hstep : step divideMessage s e = some s') : Guarded s' := by
  have hrefl := List.Sublist.refl s.outbox
  cases e with
  | queue smsId recipient body =>
    cases hstep
    exact guarded_queue h smsId recipient body
  | vanish id =>
    cases hstep
    exact h.frame List.filter_sublist rfl rfl rfl rfl rfl
  | poll answer =>
    simp only [step] at hstep
    split at hstep
    · next hidle =>
      obtain ⟨hperm, hs'⟩ := Option.ite_none_right_eq_some.1 hstep
      cases hs'
      exact guarded_poll h hidle hperm
    · cases hstep
  | take =>
    simp only [step] at hstep
    split at hstep
    · next row rest hpoll =>
      cases hstep
      exact guarded_takeUp h hpoll hC
    · next hpoll =>
      cases hstep
      exact guarded_idle h hpoll
    · cases hstep
  | accept =>
    simp only [step] at hstep
    split at hstep
    · next row rest hpoll =>
      cases hstep
      exact guarded_accept h hpoll _
    · cases hstep
  | throw =>
    simp only [step] at hstep
    split at hstep
    · next row rest hpoll =>
      cases hstep
      exact guarded_throw h hpoll _
    · cases hstep
  | settle =>
    simp only [step] at hstep
    split at hstep
    · next row rest hpoll =>
      cases hstep
      refine h.next (by simp [hpoll]) rfl rfl rfl (by rw [hpoll]; rfl) (fun _ _ hid => hid)
        (fun _ _ hid => hid) ?_
      rintro row' ⟨⟩
    · cases hstep
  | release =>
    simp only [step] at hstep
    split at hstep
    · next row rest hpoll =>
      cases hstep
      exact guarded_release h hpoll
    · cases hstep
  | sentReport i resultCode =>
    obtain ⟨-, hs'⟩ := Option.ite_none_right_eq_some.1 hstep
    cases hs'
    rcases onReceive_cases s i resultCode with ⟨-, heq⟩ | ⟨-, heq⟩
    · rw [heq]
      exact h.frame hrefl rfl rfl rfl rfl rfl
    · rw [heq]
      exact h.frame hrefl rfl rfl rfl rfl rfl
  | fallback i =>
    obtain ⟨-, hs'⟩ := Option.ite_none_right_eq_some.1 hstep
    cases hs'
    rcases sentFallback_cases s i with ⟨-, heq⟩ | ⟨-, heq⟩
    · rw [heq]
      exact h.frame hrefl rfl rfl rfl rfl rfl
    · rw [heq]
      exact h.frame hrefl rfl rfl rfl rfl rfl
  | arrive r deleted =>
    obtain ⟨-, hs'⟩ := Option.ite_none_right_eq_some.1 hstep
    cases hs'
    refine h.frame ?_ rfl rfl rfl rfl rfl
    cases deleted
    · exact hrefl
    · exact List.filter_sublist
  | lose r =>
    obtain ⟨-, hs'⟩ := Option.ite_none_right_eq_some.1 hstep
    cases hs'
    exact h.frame hrefl rfl rfl rfl rfl rfl
  | finish =>
    obtain ⟨-, hs'⟩ := Option.ite_none_right_eq_some.1 hstep
    cases hs'
    exact h.frame hrefl rfl rfl rfl rfl rfl
  | die =>
    cases hstep
    exact guarded_die h

/-- `SmsManager` accepts no row twice, however the phone dies and whatever requests fail. -/
theorem accepted_nodup {s : Phone} {es : List Event} (hrun : runSteps (step divideMessage) start es = some s)
    (hmeet : StepsMeet (step divideMessage) Remembers start es) : s.acceptedIds.Nodup := by
  have hguarded : Guarded s :=
    runSteps_invariant_of_meet (fun s e s' h hC hstep => guarded_step h hC hstep) hrun hmeet guarded_start
  exact hguarded.once

/-- A row whose DELETE is lost is cleared after a restart. -/
def restarted : List Event :=
  let row : OutboxRow := ⟨1, 0, "0612345678", "hello"⟩
  [.queue 0 "0612345678" "hello", .poll [row], .take, .accept, .die, .poll [row], .take]

theorem accepted_nodup_restart : ∃ s, runSteps (step fun body => [body]) start restarted = some s ∧
    s.acceptedIds = [1] ∧ s.acceptedIds.Nodup := by
  have hrun : ∃ s, runSteps (step fun body => [body]) start restarted = some s ∧ s.acceptedIds = [1] :=
    ⟨_, rfl, rfl⟩
  obtain ⟨s, hs, hids⟩ := hrun
  refine ⟨s, hs, hids, accepted_nodup hs ?_⟩
  refine stepsMeet_cons trivial rfl (stepsMeet_cons trivial rfl (stepsMeet_cons ?_ rfl (stepsMeet_cons trivial rfl
    (stepsMeet_cons trivial rfl (stepsMeet_cons trivial rfl (stepsMeet_cons ?_ rfl trivial))))))
  · rintro row rest ⟨⟩ - - id hid hdrop
    exact absurd hid hdrop
  · rintro row rest ⟨⟩ - hclaimed
    exact absurd (by decide) hclaimed

/-- 201 rows are sent in one poll while every DELETE is lost, and the process dies before the next one. -/
def crowded : List Event :=
  let rows := (List.range 201).map fun n => (⟨n + 1, 0, "0612345678", "hello"⟩ : OutboxRow)
  rows.map (fun row => .queue row.smsId row.recipient row.body) ++ [.poll rows] ++
    rows.flatMap (fun _ => [.take, .accept, .settle]) ++ [.die, .poll rows, .take, .accept]

theorem crowded_resent : ∃ s, runSteps (step fun body => [body]) start crowded = some s ∧ ¬ s.acceptedIds.Nodup := by
  have hcount : (runSteps (step fun body => [body]) start crowded).map (fun s => s.acceptedIds.count 1) = some 2 := by
    decide +kernel
  obtain ⟨s, hs, htwice⟩ := Option.map_eq_some_iff.1 hcount
  refine ⟨s, hs, fun hnodup => ?_⟩
  have hone := List.nodup_iff_count_le_one.1 hnodup 1
  omega

/-!
## What the phone tells the VPC

As long as the poll takes up nothing that was told or went wrong before, `reported` knows the ids that were told, and
the bad sent-reports come before the good ones, the VPC gets one status an id, and not a wrong `sent`.
-/

/-- The statuses that the VPC has, or may still get. -/
def statuses (s : Phone) : List StatusReport := s.received ++ s.wire

theorem statuses_reportStatus (s : Phone) (outboxId smsId : Int) (status : Status) :
    (s.reportStatus outboxId smsId status).statuses = s.statuses ++ [⟨outboxId, smsId, status⟩] :=
  (List.append_assoc ..).symm

/-- A status that arrives is one of the wire. -/
theorem statuses_arrive {s : Phone} {r : StatusReport} (h : r ∈ s.wire) :
    ((s.received ++ [r]) ++ s.wire.erase r).Perm s.statuses := by
  rw [List.append_assoc]
  exact (List.perm_cons_erase h).symm.append_left _

theorem statuses_lose (s : Phone) (r : StatusReport) : (s.received ++ s.wire.erase r).Subperm s.statuses :=
  ((List.Sublist.refl _).append List.erase_sublist).subperm

/-! ### The invariant -/

structure Faithful (s : Phone) : Prop where
  once : ∀ id, (s.statuses.filter (·.outboxId = id)).length ≤ 1
  honest : ∀ r ∈ s.statuses, r.status = .sent → r.outboxId ∉ s.thrownIds ∧ r.outboxId ∉ s.badIds
  sent : ∀ r ∈ s.statuses, r.status = .sent →
    r.outboxId ∈ s.goodIds ∨ r.outboxId ∈ s.fallenIds ∨ r.outboxId ∉ s.reported
  reported : ∀ id ∈ s.reported, id ∈ s.goodIds ∨ id ∈ s.badIds ∨ id ∈ s.fallenIds
  owed : ∀ i, i ∈ s.awaited ∨ i ∈ s.fallbacks → i.outboxId ∈ s.acceptedIds ∧ i.outboxId ∉ s.thrownIds
  claimed : ∀ row rest, s.poll = .claimed row rest →
    ¬ s.Told row.id ∧ row.id ∉ s.acceptedIds ∧ row.id ∉ s.thrownIds
  thrown : ∀ row rest, s.poll = .thrown row rest → ¬ s.Told row.id ∧ row.id ∉ s.acceptedIds
  accepted : ∀ row rest, s.poll = .accepted row rest → row.id ∈ s.acceptedIds ∧ row.id ∉ s.thrownIds

theorem faithful_start : Faithful start where
  once := fun _ => Nat.zero_le _
  honest := by simp [start, statuses]
  sent := by simp [start, statuses]
  reported := by simp [start]
  owed := by simp [start]
  claimed := by simp [start]
  thrown := by simp [start]
  accepted := by simp [start]

/-- Statuses may be lost, ids forgotten, and the poll may go on in its loop. -/
theorem Faithful.frame {s t : Phone} (h : Faithful s) (hstatuses : t.statuses.Subperm s.statuses)
    (hreported : ∀ id ∈ t.reported, id ∈ s.reported)
    (howed : ∀ i, i ∈ t.awaited ∨ i ∈ t.fallbacks → i ∈ s.awaited ∨ i ∈ s.fallbacks)
    (hpoll : t.poll = s.poll ∨ t.poll = .idle ∨ ∃ rest, t.poll = .rows rest)
    (haccepted : t.acceptedIds = s.acceptedIds) (hthrown : t.thrownIds = s.thrownIds)
    (hgood : t.goodIds = s.goodIds) (hbad : t.badIds = s.badIds) (hfallen : t.fallenIds = s.fallenIds) :
    Faithful t := by
  have hmem : ∀ r ∈ t.statuses, r ∈ s.statuses := fun r hr => hstatuses.subset hr
  have htold : ∀ id, t.Told id → s.Told id := fun id ⟨r, hr, hid⟩ => ⟨r, hmem r hr, hid⟩
  constructor
  · exact fun id => (hstatuses.filter _).length_le.trans (h.once id)
  · rw [hthrown, hbad]
    exact fun r hr => h.honest r (hmem r hr)
  · rw [hgood, hfallen]
    intro r hr hsent
    rcases h.sent r (hmem r hr) hsent with hr' | hr' | hr'
    · exact .inl hr'
    · exact .inr (.inl hr')
    · exact .inr (.inr fun hin => hr' (hreported _ hin))
  · rw [hgood, hbad, hfallen]
    exact fun id hid => h.reported id (hreported id hid)
  · rw [haccepted, hthrown]
    exact fun i hi => h.owed i (howed i hi)
  · rw [haccepted, hthrown]
    intro row rest hrow
    rcases hpoll with hpoll | hpoll | ⟨rest', hpoll⟩
    · obtain ⟨hnot, hfresh, hno⟩ := h.claimed row rest (hpoll ▸ hrow)
      exact ⟨fun ht => hnot (htold _ ht), hfresh, hno⟩
    · rw [hpoll] at hrow
      cases hrow
    · rw [hpoll] at hrow
      cases hrow
  · rw [haccepted]
    intro row rest hrow
    rcases hpoll with hpoll | hpoll | ⟨rest', hpoll⟩
    · obtain ⟨hnot, hfresh⟩ := h.thrown row rest (hpoll ▸ hrow)
      exact ⟨fun ht => hnot (htold _ ht), hfresh⟩
    · rw [hpoll] at hrow
      cases hrow
    · rw [hpoll] at hrow
      cases hrow
  · rw [haccepted, hthrown]
    intro row rest hrow
    rcases hpoll with hpoll | hpoll | ⟨rest', hpoll⟩
    · exact h.accepted row rest (hpoll ▸ hrow)
    · rw [hpoll] at hrow
      cases hrow
    · rw [hpoll] at hrow
      cases hrow

/-- A status of an id that had none. -/
theorem Faithful.report {s : Phone} (h : Faithful s) {id : Int} (smsId : Int) {status : Status} (hnew : ¬ s.Told id)
    (hsent : status = .sent → (id ∉ s.thrownIds ∧ id ∉ s.badIds) ∧
      (id ∈ s.goodIds ∨ id ∈ s.fallenIds ∨ id ∉ s.reported))
    (hclaimed : ∀ row rest, s.poll = .claimed row rest → row.id ≠ id)
    (hthrown : ∀ row rest, s.poll = .thrown row rest → row.id ≠ id) : Faithful (s.reportStatus id smsId status) := by
  have hmem : ∀ r ∈ (s.reportStatus id smsId status).statuses, r ∈ s.statuses ∨ r = ⟨id, smsId, status⟩ := by
    intro r hr
    rw [statuses_reportStatus] at hr
    exact (List.mem_append.1 hr).imp_right List.mem_singleton.1
  have htold : ∀ row : OutboxRow, row.id ≠ id → ¬ s.Told row.id → ¬ (s.reportStatus id smsId status).Told row.id := by
    rintro row hne hnot ⟨r, hr, hid⟩
    rcases hmem r hr with hr | rfl
    · exact hnot ⟨r, hr, hid⟩
    · exact hne hid.symm
  constructor
  · intro other
    rw [statuses_reportStatus, List.filter_append, List.length_append]
    by_cases hid : id = other
    · subst hid
      have hnone : s.statuses.filter (·.outboxId = id) = [] := by
        rw [List.filter_eq_nil_iff]
        intro r hr hrid
        exact hnew ⟨r, hr, of_decide_eq_true hrid⟩
      simp [hnone]
    · simpa [hid] using h.once other
  · intro r hr hstatus
    rcases hmem r hr with hr | rfl
    · exact h.honest r hr hstatus
    · exact (hsent hstatus).1
  · intro r hr hstatus
    rcases hmem r hr with hr | rfl
    · exact h.sent r hr hstatus
    · exact (hsent hstatus).2
  · exact h.reported
  · exact h.owed
  · intro row rest hrow
    obtain ⟨hnot, hrest⟩ := h.claimed row rest hrow
    exact ⟨htold row (hclaimed row rest hrow) hnot, hrest⟩
  · intro row rest hrow
    obtain ⟨hnot, hrest⟩ := h.thrown row rest hrow
    exact ⟨htold row (hthrown row rest hrow) hnot, hrest⟩
  · exact h.accepted

/-- A sent-report or a fallback has come. -/
theorem Faithful.note {s : Phone} (h : Faithful s) (awaited fallbacks : List SentIntent) (good bad fallen : List Int)
    (howed : ∀ i, i ∈ awaited ∨ i ∈ fallbacks → i ∈ s.awaited ∨ i ∈ s.fallbacks)
    (hgood : ∀ id ∈ s.goodIds, id ∈ good) (hbad : ∀ id ∈ s.badIds, id ∈ bad) (hfallen : ∀ id ∈ s.fallenIds, id ∈ fallen)
    (hnew : ∀ id ∈ bad, id ∈ s.badIds ∨ ∀ r ∈ s.statuses, r.outboxId = id → r.status ≠ .sent) :
    Faithful { s with
      awaited := awaited
      fallbacks := fallbacks
      goodIds := good
      badIds := bad
      fallenIds := fallen } := by
  constructor
  · exact h.once
  · intro r hr hsent
    obtain ⟨hthrown, hnot⟩ := h.honest r hr hsent
    refine ⟨hthrown, fun hin => ?_⟩
    rcases hnew _ hin with hin | hnone
    · exact hnot hin
    · exact hnone r hr rfl hsent
  · intro r hr hsent
    exact (h.sent r hr hsent).imp (hgood _) (Or.imp_left (hfallen _))
  · intro id hid
    exact (h.reported id hid).imp (hgood _) (Or.imp (hbad _) (hfallen _))
  · exact fun i hi => h.owed i (howed i hi)
  · exact h.claimed
  · exact h.thrown
  · exact h.accepted

/-- An id that has no status is marked for its first one. -/
theorem Faithful.mark {s : Phone} (h : Faithful s) {id : Int} (hnew : ¬ s.Told id)
    (hid : id ∈ s.goodIds ∨ id ∈ s.badIds ∨ id ∈ s.fallenIds) :
    Faithful { s with reported := id :: s.reported } := by
  constructor
  · exact h.once
  · exact h.honest
  · intro r hr hsent
    refine (h.sent r hr hsent).imp_right (Or.imp_right fun hout hin => ?_)
    rcases List.mem_cons.1 hin with rfl | hin
    · exact hnew ⟨r, hr, rfl⟩
    · exact hout hin
  · intro other hother
    rcases List.mem_cons.1 hother with rfl | hother
    · exact hid
    · exact h.reported other hother
  · exact h.owed
  · exact h.claimed
  · exact h.thrown
  · exact h.accepted

/-! ### The reports -/

/-- A bad sent-report before the fallback finds no status `sent`. -/
theorem Faithful.not_sent {s : Phone} (h : Faithful s) {id : Int} (hknown : s.Told id → id ∈ s.reported)
    (hgood : id ∉ s.goodIds) (hfallen : id ∉ s.fallenIds) : ∀ r ∈ s.statuses, r.outboxId = id → r.status ≠ .sent := by
  rintro r hr rfl hsent
  rcases h.sent r hr hsent with hin | hin | hout
  · exact hgood hin
  · exact hfallen hin
  · exact hout (hknown ⟨r, hr, rfl⟩)

/-- The rows that the poll holds unsent await nothing. -/
theorem Faithful.claimed_ne {s : Phone} (h : Faithful s) {i : SentIntent} (hi : i ∈ s.awaited ∨ i ∈ s.fallbacks)
    {row : OutboxRow} {rest : List OutboxRow} (hrow : s.poll = .claimed row rest) : row.id ≠ i.outboxId := by
  intro heq
  exact (h.claimed row rest hrow).2.1 (heq ▸ (h.owed i hi).1)

theorem Faithful.thrown_ne {s : Phone} (h : Faithful s) {i : SentIntent} (hi : i ∈ s.awaited ∨ i ∈ s.fallbacks)
    {row : OutboxRow} {rest : List OutboxRow} (hrow : s.poll = .thrown row rest) : row.id ≠ i.outboxId := by
  intro heq
  exact (h.thrown row rest hrow).2 (heq ▸ (h.owed i hi).1)

theorem faithful_sentReport {s : Phone} (h : Faithful s) {i : SentIntent} {resultCode : Int}
    (hC : Consistent s (.sentReport i resultCode)) (hi : i ∈ s.awaited) :
    Faithful { s.onReceive i resultCode with
      awaited := s.awaited.erase i
      goodIds := if resultCode = resultOk then i.outboxId :: s.goodIds else s.goodIds
      badIds :=
        if resultCode ≠ resultOk ∧ i.outboxId ∉ s.fallenIds then i.outboxId :: s.badIds else s.badIds } := by
  obtain ⟨hknown, horder⟩ := hC
  have hnote := h.note (s.awaited.erase i) s.fallbacks
    (if resultCode = resultOk then i.outboxId :: s.goodIds else s.goodIds)
    (if resultCode ≠ resultOk ∧ i.outboxId ∉ s.fallenIds then i.outboxId :: s.badIds else s.badIds) s.fallenIds
    (fun j hj => hj.imp_left List.mem_of_mem_erase) (by split_ifs <;> simp +contextual)
    (by split_ifs <;> simp +contextual) (fun _ hid => hid) ?_
  · rcases onReceive_cases s i resultCode with ⟨-, heq⟩ | ⟨hnew, heq⟩
    · rw [heq]
      exact hnote
    · have hnot : ¬ s.Told i.outboxId := fun ht => hnew (hknown ht)
      rw [heq]
      refine (hnote.mark hnot ?_).report i.smsId hnot ?_ (fun row rest => h.claimed_ne (.inl hi))
        (fun row rest => h.thrown_ne (.inl hi))
      · by_cases hok : resultCode = resultOk
        · exact .inl (by simp [hok])
        · by_cases hfall : i.outboxId ∈ s.fallenIds
          · exact .inr (.inr hfall)
          · exact .inr (.inl (by simp [hok, hfall]))
      · intro hstatus
        have hok : resultCode = resultOk := by
          by_contra hne
          rw [if_neg hne] at hstatus
          cases hstatus
        rw [if_pos hok] at horder
        refine ⟨⟨(h.owed i (.inl hi)).2, ?_⟩, .inl ?_⟩
        · simpa [hok] using horder hnew
        · simp [hok]
  · intro id hid
    split_ifs at hid with hbad
    · rcases List.mem_cons.1 hid with rfl | hid
      · rw [if_neg hbad.1] at horder
        exact .inr (h.not_sent hknown (horder hbad.2) hbad.2)
      · exact .inl hid
    · exact .inl hid

theorem faithful_fallback {s : Phone} (h : Faithful s) {i : SentIntent} (hC : Consistent s (.fallback i))
    (hi : i ∈ s.fallbacks) :
    Faithful { s.sentFallback i with
      fallbacks := s.fallbacks.erase i
      fallenIds := i.outboxId :: s.fallenIds } := by
  obtain ⟨hknown, hgood⟩ := hC
  have hnote := h.note s.awaited (s.fallbacks.erase i) s.goodIds s.badIds (i.outboxId :: s.fallenIds)
    (fun j hj => hj.imp_right List.mem_of_mem_erase) (fun _ hid => hid) (fun _ hid => hid) (fun _ hid => List.mem_cons_of_mem _ hid) (fun _ hid => .inl hid)
  rcases sentFallback_cases s i with ⟨-, heq⟩ | ⟨hnew, heq⟩
  · rw [heq]
    exact hnote
  · have hnot : ¬ s.Told i.outboxId := fun ht => hnew (hknown ht)
    have hfell : i.outboxId ∈ i.outboxId :: s.fallenIds := List.mem_cons_self ..
    rw [heq]
    refine (hnote.mark hnot (.inr (.inr hfell))).report i.smsId hnot (fun _ => ?_)
      (fun row rest => h.claimed_ne (.inr hi)) (fun row rest => h.thrown_ne (.inr hi))
    exact ⟨⟨(h.owed i (.inr hi)).2, hgood hnew⟩, .inr (.inl hfell)⟩

/-! ### The poll -/

theorem faithful_takeUp {s : Phone} (h : Faithful s) {row : OutboxRow} {rest : List OutboxRow}
    (hpoll : s.poll = .rows (row :: rest)) (hC : Consistent s .take) : Faithful (s.takeUp row rest) := by
  have hfree : (∀ r l, s.poll = .claimed r l → r.id ≠ row.id) ∧ ∀ r l, s.poll = .thrown r l → r.id ≠ row.id := by
    constructor <;> simp [hpoll]
  have hrows : (∃ l, Poll.rows rest = .rows l) := ⟨rest, rfl⟩
  have hrefl := List.Subperm.refl s.statuses
  unfold takeUp
  by_cases hin : row.id ∈ s.inFlightOutbox
  · rw [if_pos hin]
    exact h.frame hrefl (fun _ hid => hid) (fun _ hi => hi) (.inr (.inr hrows)) rfl rfl rfl rfl rfl
  · rw [if_neg hin]
    obtain ⟨hnot, hthrown, hbad, hfresh⟩ := hC row rest hpoll hin
    by_cases hclaimed : row.id ∈ s.claimedIds
    · simp only [hclaimed, if_true]
      -- a row that was claimed by an earlier process counts as sent
      have hknown : row.id ∈ s.goodIds ∨ row.id ∈ s.fallenIds ∨ row.id ∉ s.reported := by
        by_cases hrep : row.id ∈ s.reported
        · rcases h.reported _ hrep with hid | hid | hid
          · exact .inl hid
          · exact absurd hid hbad
          · exact .inr (.inl hid)
        · exact .inr (.inr hrep)
      have hreport : Faithful (s.reportStatus row.id row.smsId .sent) :=
        h.report row.smsId hnot (fun _ => ⟨⟨hthrown, hbad⟩, hknown⟩) hfree.1 hfree.2
      exact hreport.frame (List.Subperm.refl _) (fun _ hid => hid) (fun _ hi => hi) (.inr (.inr hrows)) rfl rfl rfl
        rfl rfl
    · simp only [hclaimed, if_false]
      constructor
      · exact h.once
      · exact h.honest
      · exact h.sent
      · exact h.reported
      · exact h.owed
      · rintro r l ⟨⟩
        exact ⟨hnot, hfresh hclaimed, hthrown⟩
      · rintro r l ⟨⟩
      · rintro r l ⟨⟩

theorem mem_sentIntents {divideMessage : String → List String} {row : OutboxRow} {i : SentIntent}
    (h : i ∈ sentIntents divideMessage row) : i.outboxId = row.id := by
  unfold sentIntents at h
  simp only at h
  split_ifs at h with hone
  · rw [List.mem_singleton.1 h]
    rfl
  · obtain ⟨part, -, rfl⟩ := List.mem_map.1 h
    rfl

theorem faithful_accept {divideMessage : String → List String} {s : Phone} (h : Faithful s) {row : OutboxRow}
    {rest : List OutboxRow} (hpoll : s.poll = .claimed row rest) :
    Faithful { s with
      awaited := s.awaited ++ sentIntents divideMessage row
      acceptedIds := row.id :: s.acceptedIds
      poll := .accepted row rest } := by
  obtain ⟨-, -, hthrown⟩ := h.claimed row rest hpoll
  have hrow : row.id ∈ row.id :: s.acceptedIds := List.mem_cons_self ..
  constructor
  · exact h.once
  · exact h.honest
  · exact h.sent
  · exact h.reported
  · intro i hi
    have hold : i ∈ s.awaited ∨ i ∈ s.fallbacks → i.outboxId ∈ row.id :: s.acceptedIds ∧ i.outboxId ∉ s.thrownIds :=
      fun hi => ⟨List.mem_cons_of_mem _ (h.owed i hi).1, (h.owed i hi).2⟩
    rcases hi with hi | hi
    · rcases List.mem_append.1 hi with hi | hi
      · exact hold (.inl hi)
      · rw [mem_sentIntents hi]
        exact ⟨hrow, hthrown⟩
    · exact hold (.inr hi)
  · rintro r l ⟨⟩
  · rintro r l ⟨⟩
  · rintro r l ⟨⟩
    exact ⟨hrow, hthrown⟩

theorem faithful_throw {s : Phone} (h : Faithful s) {row : OutboxRow} {rest : List OutboxRow}
    (hpoll : s.poll = .claimed row rest) :
    Faithful { s with thrownIds := row.id :: s.thrownIds, poll := .thrown row rest } := by
  obtain ⟨hnot, hfresh, -⟩ := h.claimed row rest hpoll
  constructor
  · exact h.once
  · intro r hr hsent
    obtain ⟨hthrown, hbad⟩ := h.honest r hr hsent
    refine ⟨fun hin => ?_, hbad⟩
    rcases List.mem_cons.1 hin with heq | hin
    · exact hnot ⟨r, hr, heq⟩
    · exact hthrown hin
  · exact h.sent
  · exact h.reported
  · intro i hi
    obtain ⟨hacc, hthrown⟩ := h.owed i hi
    refine ⟨hacc, fun hin => ?_⟩
    rcases List.mem_cons.1 hin with heq | hin
    · exact hfresh (heq ▸ hacc)
    · exact hthrown hin
  · rintro r l ⟨⟩
  · rintro r l ⟨⟩
    exact ⟨hnot, hfresh⟩
  · rintro r l ⟨⟩

theorem faithful_settle {s : Phone} (h : Faithful s) {row : OutboxRow} {rest : List OutboxRow}
    (hpoll : s.poll = .accepted row rest) :
    Faithful { s with fallbacks := buildSentIntent row :: s.fallbacks, poll := .rows rest } := by
  constructor
  · exact h.once
  · exact h.honest
  · exact h.sent
  · exact h.reported
  · rintro i (hi | hi)
    · exact h.owed i (.inl hi)
    · rcases List.mem_cons.1 hi with rfl | hi
      · exact h.accepted row rest hpoll
      · exact h.owed i (.inr hi)
  · rintro r l ⟨⟩
  · rintro r l ⟨⟩
  · rintro r l ⟨⟩

theorem faithful_release {s : Phone} (h : Faithful s) {row : OutboxRow} {rest : List OutboxRow}
    (hpoll : s.poll = .thrown row rest) :
    Faithful { (s.releaseOutboxClaim row.id).reportStatus row.id row.smsId .failed with poll := .rows rest } := by
  obtain ⟨hnot, -⟩ := h.thrown row rest hpoll
  -- the loop goes on before the thread of the report starts
  have hgo : Faithful { s.releaseOutboxClaim row.id with poll := .rows rest } :=
    h.frame (List.Subperm.refl _) (fun _ hid => hid) (fun _ hi => hi) (.inr (.inr ⟨rest, rfl⟩)) rfl rfl rfl rfl rfl
  exact hgo.report row.smsId hnot (by simp) (by rintro r l ⟨⟩) (by rintro r l ⟨⟩)

theorem faithful_poll {s : Phone} (h : Faithful s) (answer : List OutboxRow) :
    Faithful { s.prune answer with poll := .rows answer } := by
  obtain ⟨claimedIds, inFlight, hprune, -⟩ := prune_eq s answer
  rw [hprune]
  exact h.frame (List.Subperm.refl _) (fun _ hid => hid) (fun _ hi => hi) (.inr (.inr ⟨answer, rfl⟩)) rfl rfl rfl rfl
    rfl

/-! ### Runs -/

variable {divideMessage : String → List String}

theorem faithful_step {s s' : Phone} {e : Event} (h : Faithful s) (hC : Consistent s e)
    (hstep : step divideMessage s e = some s') : Faithful s' := by
  have hrefl := List.Subperm.refl s.statuses
  cases e with
  | queue smsId recipient body =>
    cases hstep
    exact h.frame hrefl (fun _ hid => hid) (fun _ hi => hi) (.inl rfl) rfl rfl rfl rfl rfl
  | vanish id =>
    cases hstep
    exact h.frame hrefl (fun _ hid => hid) (fun _ hi => hi) (.inl rfl) rfl rfl rfl rfl rfl
  | poll answer =>
    simp only [step] at hstep
    split at hstep
    · obtain ⟨-, hs'⟩ := Option.ite_none_right_eq_some.1 hstep
      cases hs'
      exact faithful_poll h answer
    · cases hstep
  | take =>
    simp only [step] at hstep
    split at hstep
    · next row rest hpoll =>
      cases hstep
      exact faithful_takeUp h hpoll hC
    · cases hstep
      exact h.frame hrefl (fun _ hid => hid) (fun _ hi => hi) (.inr (.inl rfl)) rfl rfl rfl rfl rfl
    · cases hstep
  | accept =>
    simp only [step] at hstep
    split at hstep
    · next row rest hpoll =>
      cases hstep
      exact faithful_accept h hpoll
    · cases hstep
  | throw =>
    simp only [step] at hstep
    split at hstep
    · next row rest hpoll =>
      cases hstep
      exact faithful_throw h hpoll
    · cases hstep
  | settle =>
    simp only [step] at hstep
    split at hstep
    · next row rest hpoll =>
      cases hstep
      exact faithful_settle h hpoll
    · cases hstep
  | release =>
    simp only [step] at hstep
    split at hstep
    · next row rest hpoll =>
      cases hstep
      exact faithful_release h hpoll
    · cases hstep
  | sentReport i resultCode =>
    obtain ⟨hi, hs'⟩ := Option.ite_none_right_eq_some.1 hstep
    cases hs'
    exact faithful_sentReport h hC hi
  | fallback i =>
    obtain ⟨hi, hs'⟩ := Option.ite_none_right_eq_some.1 hstep
    cases hs'
    exact faithful_fallback h hC hi
  | arrive r deleted =>
    obtain ⟨hr, hs'⟩ := Option.ite_none_right_eq_some.1 hstep
    cases hs'
    exact h.frame (statuses_arrive hr).subperm (fun _ hid => hid) (fun _ hi => hi) (.inl rfl) rfl rfl rfl rfl rfl
  | lose r =>
    obtain ⟨-, hs'⟩ := Option.ite_none_right_eq_some.1 hstep
    cases hs'
    exact h.frame (statuses_lose s r) (fun _ hid => hid) (fun _ hi => hi) (.inl rfl) rfl rfl rfl rfl rfl
  | finish =>
    obtain ⟨-, hs'⟩ := Option.ite_none_right_eq_some.1 hstep
    cases hs'
    refine h.frame hrefl ?_ (fun _ hi => hi) (.inl rfl) rfl rfl rfl rfl rfl
    intro id hid
    simp only [finishReport] at hid
    split_ifs at hid
    · cases hid
    · exact hid
  | die =>
    cases hstep
    refine h.frame hrefl (by simp [die]) ?_ (.inr (.inl rfl)) rfl rfl rfl rfl rfl
    exact fun i hi => .inl (hi.resolve_right (by simp [die]))

theorem Faithful.truthful {s : Phone} (h : Faithful s) (id : Int) : s.Truthful id where
  once := by
    have honce := h.once id
    rw [statuses, List.filter_append, List.length_append] at honce
    omega
  honest := by
    rintro hwrong r hr rfl hsent
    obtain ⟨hthrown, hbad⟩ := h.honest r (List.mem_append_left _ hr) hsent
    exact hwrong.elim hthrown hbad

/-- The VPC gets one status an outbox id at most, and `sent` only for what was not seen to fail. -/
theorem truthful_of_consistent {s : Phone} {es : List Event} (hrun : runSteps (step divideMessage) start es = some s)
    (hmeet : StepsMeet (step divideMessage) Consistent start es) : ∀ id, s.Truthful id := by
  have hfaithful : Faithful s :=
    runSteps_invariant_of_meet (fun s e s' h hC hstep => faithful_step h hC hstep) hrun hmeet faithful_start
  exact hfaithful.truthful

/-- A message of two parts, the first of which fails. -/
def secondGood : List Event :=
  let row : OutboxRow := ⟨1, 7, "0612345678", "hello"⟩
  let intent : SentIntent := ⟨1, 7⟩
  [.queue 7 "0612345678" "hello", .poll [row], .take, .accept, .settle, .sentReport intent 1,
    .sentReport intent resultOk, .arrive ⟨1, 7, .failed⟩ true, .fallback intent]

theorem truthful_secondGood : ∃ s, runSteps (step fun body => [body, body]) start secondGood = some s ∧
    s.received = [⟨1, 7, .failed⟩] ∧ ∀ id, s.Truthful id := by
  have hrun : ∃ s, runSteps (step fun body => [body, body]) start secondGood = some s ∧
      s.received = [⟨1, 7, .failed⟩] := ⟨_, rfl, rfl⟩
  obtain ⟨s, hs, hreceived⟩ := hrun
  refine ⟨s, hs, hreceived, truthful_of_consistent hs ?_⟩
  refine stepsMeet_cons trivial rfl (stepsMeet_cons trivial rfl (stepsMeet_cons ?_ rfl (stepsMeet_cons trivial rfl
    (stepsMeet_cons trivial rfl (stepsMeet_cons ?_ rfl (stepsMeet_cons ?_ rfl (stepsMeet_cons trivial rfl
    (stepsMeet_cons ?_ rfl trivial))))))))
  · rintro row rest ⟨⟩ -
    exact ⟨by decide, by decide, by decide, fun _ => by decide⟩
  · exact ⟨fun htold => absurd htold (by decide), by decide⟩
  · exact ⟨fun _ => by decide, by decide⟩
  · exact ⟨fun _ => by decide, by decide⟩

/-- A message of two parts, the second of which fails. -/
def secondBad : List Event :=
  let row : OutboxRow := ⟨1, 7, "0612345678", "hello"⟩
  let intent : SentIntent := ⟨1, 7⟩
  [.queue 7 "0612345678" "hello", .poll [row], .take, .accept, .settle, .sentReport intent resultOk,
    .sentReport intent 1, .arrive ⟨1, 7, .sent⟩ true]

theorem secondBad_sent : ∃ s, runSteps (step fun body => [body, body]) start secondBad = some s ∧
    ¬ s.Truthful 1 := by
  have hrun : ∃ s, runSteps (step fun body => [body, body]) start secondBad = some s ∧
      s.received = [⟨1, 7, .sent⟩] ∧ 1 ∈ s.badIds := ⟨_, rfl, rfl, by decide⟩
  obtain ⟨s, hs, hreceived, hbad⟩ := hrun
  refine ⟨s, hs, fun h => h.honest (.inr hbad) ⟨1, 7, .sent⟩ ?_ rfl rfl⟩
  rw [hreceived]
  exact List.mem_singleton.2 rfl

end Gafam.Android.Phone
