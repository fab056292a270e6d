import Gafam.Frontend.Submissions
import Gafam.Frontend.Proofs.RequestProofs

/-!
# Proofs: how often a request is executed

What a proxy has written and the server has read is in the server's hands, so that the exchange must
not throw any more. It throws when a write or a read fails, and in the SMS route also when the reply
cannot be made into an answer.
-/

namespace Gafam.Frontend

open Gafam.Go Gafam.Js
open Gafam.Relay (textEncode)

/-- `POST` makes an answer of this reply: it has no end of a head, or it has the status 200 and a body
in JSON, or another status that an answer can have. -/
def SmsReplyTaken (raw : JsString) : Prop :=
  indexOf (newline ++ newline) raw = none ∨
    (statusCode raw = some 200 ∧ ∃ bodyStart, indexOf (newline ++ newline) raw = some bodyStart ∧
      (jsonParse (trim (raw.drop (bodyStart + 4)))).isSome) ∨
    (statusCode raw ≠ some 200 ∧ TakesStatus (statusCode raw))

/-- The proxy makes an answer of this reply. -/
def Submission.ReplyTaken (raw : JsString) : Submission → Prop
  | .smsPost _ _ _ => SmsReplyTaken raw
  | _ => True

/-- The bytes that the proxy would write for a request. -/
def Submission.bytes (p : Platform) : Submission → Option GoString
  | .smsPost vpcUrl token text => do
    let url ← (p.parseUrl (← given vpcUrl)).toOption
    postBytes url (← given token) (← text.toOption)
  | .smsDelete vpcUrl token => do
    let url ← (p.parseUrl (← given vpcUrl)).toOption
    logoutBytes url (← given token)
  | .vpc vpcUrl token method pathAndQuery body e2e => do
    let url ← (p.parseUrl vpcUrl).toOption
    return textEncode (requestText url.hostname token method pathAndQuery body e2e)
  | .missionPost vpcUrl token action id qid text => do
    let url ← (p.parseUrl (← given vpcUrl)).toOption
    let token ← given token
    let path ← (missionPath ((given action).getD (ascii "create")) (id.getD []) (qid.getD [])
      token).toOption
    return missionBytes url.hostname token (ascii "POST") (← path) (given (some (← text)))
  | .missionDelete vpcUrl token id => do
    let url ← (p.parseUrl (← given vpcUrl)).toOption
    let token ← given token
    return missionBytes url.hostname token (ascii "DELETE") (← missionUrl (← given id) [] token) none

/-! ## Counting -/

/-- The executions are at most one however `fetch` ends just when they are at most one with every
`fetch` arriving. -/
theorem executions_le_one_iff {α : Type} (r : Run α) (x : Exchange) :
    (∀ arrives, r.executions x arrives ≤ 1) ↔
      (r.wrote.filter x.receives).toList.length + r.fetches.length ≤ 1 := by
  constructor
  · intro h
    have hall := h fun _ => true
    unfold Run.executions at hall
    rw [List.countP_true] at hall
    exact hall
  · intro h arrives
    have hle : r.fetches.countP arrives ≤ r.fetches.length := List.countP_le_length
    unfold Run.executions
    omega

/-- A run that has written nothing and calls `fetch` at most once. -/
theorem executions_unwritten {α : Type} {r : Run α} (hw : r.wrote = none) (hf : r.fetches.length ≤ 1)
    (x : Exchange) (arrives : FetchRequest → Bool) : r.executions x arrives ≤ 1 := by
  revert arrives
  rw [executions_le_one_iff, hw]
  simpa using hf

theorem receives_connectFails (message : JsString) (bytes : GoString) :
    (Exchange.connectFails message).receives bytes = false := rfl

/-- The exchange ends as it should, and the reply is answered. -/
theorem throughSocket_taken {α : Type} {n : Nat} {values : List GoString} {bytes : GoString}
    {take : JsString → Option α} {fallback : Fallback α} {answer : α}
    (h : take (TextDecoder.new.readAll values) = some answer) :
    throughSocket (.closes n values) bytes take fallback = ⟨some bytes, [], answer⟩ := by
  unfold throughSocket
  dsimp only
  rw [h]

/-- The exchange ends as it should, and the reply makes the route throw. -/
theorem throughSocket_thrown {α : Type} {n : Nat} {values : List GoString} {bytes : GoString}
    {take : JsString → Option α} {fallback : Fallback α}
    (h : take (TextDecoder.new.readAll values) = none) :
    throughSocket (.closes n values) bytes take fallback = ⟨some bytes, fallback.1, fallback.2⟩ := by
  unfold throughSocket
  dsimp only
  rw [h]

/-- Bytes that were written with a `fetch` after them. -/
theorem resubmitted_le_one_iff {α : Type} (x : Exchange) (bytes : GoString) {fallback : Fallback α}
    (hf : fallback.1.length = 1) :
    (∀ arrives, (Run.mk (some bytes) fallback.1 fallback.2).executions x arrives ≤ 1) ↔
      x.receives bytes = false := by
  rw [executions_le_one_iff, hf]
  by_cases hr : x.receives bytes <;> simp [hr]

/-- The `try` and its `catch`: what the server has read must be answered. -/
theorem executions_throughSocket {α : Type} (x : Exchange) (bytes : GoString)
    (take : JsString → Option α) {fallback : Fallback α} (hf : fallback.1.length = 1) :
    (∀ arrives, (throughSocket x bytes take fallback).executions x arrives ≤ 1) ↔
      (x.receives bytes → ∃ n values, x = .closes n values ∧
        (take (TextDecoder.new.readAll values)).isSome) := by
  cases x with
  | connectFails message =>
    have hone : ∀ arrives, (throughSocket (.connectFails message) bytes take fallback).executions
        (.connectFails message) arrives ≤ 1 := executions_unwritten rfl (Nat.le_of_eq hf) _
    simp [hone, receives_connectFails]
  | writeFails n message =>
    have := resubmitted_le_one_iff (.writeFails n message) bytes hf
    simpa [throughSocket] using this
  | readFails n values message =>
    have := resubmitted_le_one_iff (.readFails n values message) bytes hf
    simpa [throughSocket] using this
  | closes n values =>
    cases htake : take (TextDecoder.new.readAll values) with
    | none =>
      rw [throughSocket_thrown htake, resubmitted_le_one_iff _ _ hf]
      simp [htake]
    | some answer =>
      have hone : ∀ arrives, (throughSocket (.closes n values) bytes take fallback).executions
          (.closes n values) arrives ≤ 1 := by
        rw [throughSocket_taken htake, executions_le_one_iff]
        have hle : ((some bytes).filter (Exchange.closes n values).receives).toList.length ≤ 1 := by
          rw [Option.length_toList]
          split <;> omega
        exact hle
      simp [hone, htake]

/-! ## The proxies -/

theorem isSome_json (data : JsonValue) (status : Option Int) :
    (json data status).isSome ↔ TakesStatus status := by
  unfold json
  split_ifs with h <;> simp [h]

/-- What `POST` can make an answer of. -/
theorem isSome_smsReply (raw : JsString) : (smsReply raw).isSome ↔ SmsReplyTaken raw := by
  unfold smsReply SmsReplyTaken
  cases hend : indexOf (newline ++ newline) raw with
  | none =>
    simp only [isSome_json, true_or, iff_true]
    decide
  | some bodyStart =>
    by_cases hstatus : statusCode raw = some 200
    · simp [hstatus]
    · simp [hstatus, isSome_json]

/-- What is known of a run: nothing was written, or it is an exchange with a second attempt that calls
`fetch` once. -/
inductive Submits (p : Platform) (x : Exchange) (s : Submission) : Prop
  | refused (hbytes : s.bytes p = none) (hwrote : (s.run p x).wrote = none)
      (hfetches : (s.run p x).fetches.length ≤ 1)
  | tried (bytes : GoString) (take : JsString → Option Unit) (fallback : Fallback Unit)
      (hbytes : s.bytes p = some bytes) (hrun : s.run p x = throughSocket x bytes take fallback)
      (hfetches : fallback.1.length = 1) (htake : ∀ raw, (take raw).isSome ↔ s.ReplyTaken raw)

theorem forget_throughSocket {α : Type} (x : Exchange) (bytes : GoString) (take : JsString → Option α)
    (fallback : Fallback α) :
    (throughSocket x bytes take fallback).forget =
      throughSocket x bytes (fun raw => (take raw).map fun _ => ()) (fallback.1, ()) := by
  cases x with
  | closes n values =>
    cases htake : take (TextDecoder.new.readAll values) with
    | none =>
      have hunit : ((take (TextDecoder.new.readAll values)).map fun _ => ()) = none := by
        rw [htake]; rfl
      rw [throughSocket_thrown htake, throughSocket_thrown hunit]
      rfl
    | some answer =>
      have hunit : ((take (TextDecoder.new.readAll values)).map fun _ => ()) = some () := by
        rw [htake]; rfl
      rw [throughSocket_taken htake, throughSocket_taken hunit]
      rfl
  | _ => rfl

/-- A request that is answered before anything is sent. -/
theorem submits_refused {p : Platform} {x : Exchange} {s : Submission} (hbytes : s.bytes p = none)
    (hrun : s.run p x = .refuse ()) : Submits p x s := by
  apply Submits.refused hbytes
  · rw [hrun]; rfl
  · rw [hrun]; exact Nat.zero_le 1

/-- An exchange with a second attempt, up to its answer. -/
theorem submits_throughSocket {α : Type} {p : Platform} {x : Exchange} {s : Submission}
    {bytes : GoString} {take : JsString → Option α} {fallback : Fallback α}
    (hbytes : s.bytes p = some bytes)
    (hrun : s.run p x = (throughSocket x bytes take fallback).forget)
    (hfetches : fallback.1.length = 1) (htake : ∀ raw, (take raw).isSome ↔ s.ReplyTaken raw) :
    Submits p x s := by
  rw [forget_throughSocket] at hrun
  apply Submits.tried bytes _ _ hbytes hrun hfetches
  intro raw
  rw [Option.isSome_map, htake]

theorem length_vpcFallback (p : Platform) (x : Exchange) (request : FetchRequest) :
    (vpcFallback p x request).1.length = 1 := by
  unfold vpcFallback
  split <;> rfl

theorem length_missionFallback (p : Platform) (x : Exchange) (request : FetchRequest) :
    (missionFallback p x request).1.length = 1 := by
  unfold missionFallback
  split <;> rfl

theorem length_tokenFallback {token t : JsString} (h : encodeURIComponent token = some t)
    (request : JsString → FetchRequest) (answer : FetchRequest → JsonResponse) :
    (tokenFallback request token answer).1.length = 1 := by
  unfold tokenFallback
  rw [h]
  rfl

theorem tokenFallback_none {token : JsString} (h : encodeURIComponent token = none)
    (request : JsString → FetchRequest) (answer : FetchRequest → JsonResponse) :
    tokenFallback request token answer = ([], bothFailed) := by
  unfold tokenFallback
  rw [h]

theorem submits_vpc (p : Platform) (x : Exchange) (vpcUrl token method pathAndQuery : JsString)
    (body : Option JsString) (e2e : Bool) :
    Submits p x (.vpc vpcUrl token method pathAndQuery body e2e) := by
  cases hurl : p.parseUrl vpcUrl with
  | error e =>
    apply submits_refused
    · simp [Submission.bytes, hurl, Except.toOption]
    · simp [Submission.run, hurl]
  | ok url =>
    apply submits_throughSocket
    · simp only [Submission.bytes, hurl, Except.toOption]
      rfl
    · simp only [Submission.run, hurl]
      rfl
    · exact length_vpcFallback _ _ _
    · exact fun raw => ⟨fun _ => trivial, fun _ => rfl⟩

/-- What the routes with an address and a token in their query do without them, or with an address
that is none. -/
theorem given_or_missing {p : Platform} (vpcUrl token : Option JsString) :
    (given vpcUrl = none ∨ given token = none) ∨
      ∃ v t, given vpcUrl = some v ∧ given token = some t ∧
        ((∃ e, p.parseUrl v = .error e) ∨ ∃ url, p.parseUrl v = .ok url) := by
  cases given vpcUrl with
  | none => exact Or.inl (Or.inl rfl)
  | some v =>
    cases given token with
    | none => exact Or.inl (Or.inr rfl)
    | some t =>
      refine Or.inr ⟨v, t, rfl, rfl, ?_⟩
      cases p.parseUrl v with
      | error e => exact Or.inl ⟨e, rfl⟩
      | ok url => exact Or.inr ⟨url, rfl⟩

theorem submits_smsPost (p : Platform) (x : Exchange) (vpcUrl token : Option JsString)
    (text : Except JsString JsString) : Submits p x (.smsPost vpcUrl token text) := by
  rcases @given_or_missing p vpcUrl token with hmissing | ⟨v, t, hv, ht, hurl⟩
  · apply submits_refused
    · rcases hmissing with h | h <;> simp [Submission.bytes, h]
    · rcases hmissing with h | h <;> simp [Submission.run, smsPost, h, Run.refuse, Run.forget]
  rcases hurl with ⟨e, he⟩ | ⟨url, hurl⟩
  · apply submits_refused
    · simp [Submission.bytes, hv, he, Except.toOption]
    · simp [Submission.run, smsPost, hv, ht, he, Run.refuse, Run.forget]
  cases text with
  | error e =>
    apply submits_refused
    · simp [Submission.bytes, Except.toOption]
    · simp [Submission.run, smsPost, hv, ht, hurl, Run.refuse, Run.forget]
  | ok payload =>
    cases henc : encodeURIComponent t with
    | none =>
      apply submits_refused
      · simp [Submission.bytes, hv, ht, Except.toOption, postBytes, henc]
      · simp [Submission.run, smsPost, hv, ht, hurl, postBytes, henc, tokenFallback_none henc,
          Run.refuse, Run.forget]
    | some encoded =>
      obtain ⟨bytes, hbytes⟩ : ∃ bytes, postBytes url t payload = some bytes := by
        unfold postBytes
        rw [henc]
        exact ⟨_, rfl⟩
      have hwrites : (Submission.smsPost vpcUrl token (.ok payload)).bytes p = some bytes := by
        simp [Submission.bytes, hv, ht, hurl, Except.toOption, hbytes]
      apply submits_throughSocket hwrites
      · simp only [Submission.run, smsPost, hv, ht, hurl, hbytes]
        rfl
      · exact length_tokenFallback henc _ _
      · exact isSome_smsReply

theorem submits_smsDelete (p : Platform) (x : Exchange) (vpcUrl token : Option JsString) :
    Submits p x (.smsDelete vpcUrl token) := by
  rcases @given_or_missing p vpcUrl token with hmissing | ⟨v, t, hv, ht, hurl⟩
  · apply submits_refused
    · rcases hmissing with h | h <;> simp [Submission.bytes, h]
    · rcases hmissing with h | h <;> simp [Submission.run, smsDelete, h, Run.refuse, Run.forget]
  rcases hurl with ⟨e, he⟩ | ⟨url, hurl⟩
  · apply submits_refused
    · simp [Submission.bytes, hv, he, Except.toOption]
    · simp [Submission.run, smsDelete, hv, ht, he, Run.refuse, Run.forget]
  cases henc : encodeURIComponent t with
  | none =>
    apply submits_refused
    · simp [Submission.bytes, hv, ht, Except.toOption, logoutBytes, henc]
    · simp [Submission.run, smsDelete, hv, ht, hurl, logoutBytes, henc, tokenFallback_none henc,
        Run.refuse, Run.forget]
  | some encoded =>
    obtain ⟨bytes, hbytes⟩ : ∃ bytes, logoutBytes url t = some bytes := by
      unfold logoutBytes
      rw [henc]
      exact ⟨_, rfl⟩
    have hwrites : (Submission.smsDelete vpcUrl token).bytes p = some bytes := by
      simp [Submission.bytes, hv, ht, hurl, Except.toOption, hbytes]
    apply submits_throughSocket hwrites
    · simp only [Submission.run, smsDelete, hv, ht, hurl, hbytes]
      rfl
    · exact length_tokenFallback henc _ _
    · exact fun raw => ⟨fun _ => trivial, fun _ => rfl⟩

/-- An exchange of the mission route. -/
theorem submits_mission {p : Platform} {x : Exchange} {s : Submission} {url : Url}
    {vpcUrl token method pathAndQuery : JsString} {body : Option JsString}
    (hbytes : s.bytes p = some (missionBytes url.hostname token method pathAndQuery body))
    (hrun : s.run p x = (missionRequest p x url vpcUrl token method pathAndQuery body).forget)
    (htake : ∀ raw, s.ReplyTaken raw) : Submits p x s := by
  apply submits_throughSocket hbytes hrun
  · exact length_missionFallback _ _ _
  · exact fun raw => ⟨fun _ => htake raw, fun _ => rfl⟩

theorem submits_missionPost (p : Platform) (x : Exchange)
    (vpcUrl token action id qid text : Option JsString) :
    Submits p x (.missionPost vpcUrl token action id qid text) := by
  rcases @given_or_missing p vpcUrl token with hmissing | ⟨v, t, hv, ht, hurl⟩
  · apply submits_refused
    · rcases hmissing with h | h <;> simp [Submission.bytes, h]
    · rcases hmissing with h | h <;> simp [Submission.run, missionPost, h, Run.refuse, Run.forget]
  cases text with
  | none =>
    apply submits_refused
    · simp [Submission.bytes]
    · simp [Submission.run, missionPost, hv, ht, Run.refuse, Run.forget]
  | some body =>
    cases hpath : missionPath ((given action).getD (ascii "create")) (id.getD []) (qid.getD []) t with
    | error e =>
      apply submits_refused
      · simp [Submission.bytes, ht, hpath, Except.toOption]
      · simp [Submission.run, missionPost, hv, ht, hpath, Run.refuse, Run.forget]
    | ok path =>
      cases path with
      | none =>
        apply submits_refused
        · simp [Submission.bytes, ht, hpath, Except.toOption]
        · simp [Submission.run, missionPost, hv, ht, hpath, Run.refuse, Run.forget]
      | some path =>
        rcases hurl with ⟨e, he⟩ | ⟨url, hurl⟩
        · apply submits_refused
          · simp [Submission.bytes, hv, he, Except.toOption]
          · simp [Submission.run, missionPost, hv, ht, hpath, he, Run.refuse, Run.forget]
        · have hwrites : (Submission.missionPost vpcUrl token action id qid (some body)).bytes p =
              some (missionBytes url.hostname t (ascii "POST") path (given (some body))) := by
            simp [Submission.bytes, hv, ht, hurl, hpath, Except.toOption]
          apply submits_mission hwrites
          · simp only [Submission.run, missionPost, hv, ht, hpath, hurl]
            rfl
          · exact fun raw => trivial

theorem submits_missionDelete (p : Platform) (x : Exchange) (vpcUrl token id : Option JsString) :
    Submits p x (.missionDelete vpcUrl token id) := by
  rcases @given_or_missing p vpcUrl token with hmissing | ⟨v, t, hv, ht, hurl⟩
  · apply submits_refused
    · rcases hmissing with h | h <;> simp [Submission.bytes, h]
    · rcases hmissing with h | h <;> simp [Submission.run, missionDelete, h, Run.refuse, Run.forget]
  cases hid : given id with
  | none =>
    apply submits_refused
    · simp [Submission.bytes, hid]
    · simp [Submission.run, missionDelete, hid, Run.refuse, Run.forget]
  | some i =>
    cases hpath : missionUrl i [] t with
    | none =>
      apply submits_refused
      · simp [Submission.bytes, ht, hid, hpath]
      · simp [Submission.run, missionDelete, hv, ht, hid, hpath, Run.refuse, Run.forget]
    | some path =>
      rcases hurl with ⟨e, he⟩ | ⟨url, hurl⟩
      · apply submits_refused
        · simp [Submission.bytes, hv, he, Except.toOption]
        · simp [Submission.run, missionDelete, hv, ht, hid, hpath, he, Run.refuse, Run.forget]
      · have hwrites : (Submission.missionDelete vpcUrl token id).bytes p =
            some (missionBytes url.hostname t (ascii "DELETE") path none) := by
          simp [Submission.bytes, hv, ht, hid, hurl, hpath, Except.toOption]
        apply submits_mission hwrites
        · simp only [Submission.run, missionDelete, hv, ht, hid, hpath, hurl]
          rfl
        · exact fun raw => trivial

/-- Every request is refused, or tried over the socket and perhaps once more. -/
theorem submits (p : Platform) (x : Exchange) (s : Submission) : Submits p x s := by
  cases s with
  | smsPost vpcUrl token text => exact submits_smsPost p x vpcUrl token text
  | smsDelete vpcUrl token => exact submits_smsDelete p x vpcUrl token
  | vpc vpcUrl token method pathAndQuery body e2e =>
    exact submits_vpc p x vpcUrl token method pathAndQuery body e2e
  | missionPost vpcUrl token action id qid text =>
    exact submits_missionPost p x vpcUrl token action id qid text
  | missionDelete vpcUrl token id => exact submits_missionDelete p x vpcUrl token id

/-- However `fetch` ends, a request is executed at most once just when an exchange whose request the
server has read comes to its end, with a reply that the proxy makes an answer of. -/
theorem executedOnce_iff (p : Platform) (x : Exchange) (s : Submission) :
    (∀ arrives, (s.run p x).executions x arrives ≤ 1) ↔
      ∀ bytes, s.bytes p = some bytes → x.receives bytes →
        ∃ n values, x = .closes n values ∧ s.ReplyTaken (TextDecoder.new.readAll values) := by
  cases submits p x s with
  | refused hbytes hwrote hfetches =>
    have hone := executions_unwritten hwrote hfetches x
    simp [hbytes, hone]
  | tried bytes take fallback hbytes hrun hfetches htake =>
    rw [hrun, executions_throughSocket x bytes take hfetches, hbytes]
    simp only [Option.some.injEq, forall_eq', htake]

/-- The relay answers an SMS that it has queued with the status 200 and no body: it is queued again. -/
theorem smsPost_twice : ¬ ∀ p x s arrives, (Submission.run p x s).executions x arrives ≤ 1 := by
  intro h
  have htwo := h
    ⟨fun _ => .ok ⟨ascii "vpc", [], forall_of_all (by decide)⟩, fun _ => none⟩
    (.closes 200 [str "HTTP/1.1 200 OK" ++ crlf ++ crlf])
    (.smsPost (some (ascii "u")) (some (ascii "t")) (.ok (ascii "1"))) (fun _ => true)
  revert htwo
  decide

/-! ## Beside the count -/

end Gafam.Frontend
