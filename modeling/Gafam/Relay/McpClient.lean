import Gafam.Go.Text
import Gafam.Lib.Steps

/-!
# The client of the browser sidecar

The relay keeps one session with the sidecar. A sidecar that is started again, or that closes a session, does not know
it any more. A call whose error speaks of a session connects and tries once more.

Given with each call are the answers that it meets: whether the browser wakes up, whether the sidecar can be connected
to, what the tool comes to in each of the two attempts, and the text of the error of a session that is lost.
-/

namespace Gafam.Relay

open Gafam.Go Gafam.Lib

/-- A part of `res.Content`; an image with its size, anything else with its type. -/
inductive McpContent
  | text (s : GoString)
  | image (mime : GoString) (size : Nat)
  | other (type : GoString)
deriving DecidableEq

inductive McpReply
  | result (content : List McpContent)
  | error (text : GoString)
deriving DecidableEq

/-- `mcpSession`, by the number under which the sidecar has opened it; how many sessions it has opened, which of them
it has lost, and those that `CallTool` was invoked on. -/
structure McpState where
  session : Option Nat
  opened : Nat
  lost : List Nat
  called : List Nat

def McpState.initial : McpState := ⟨none, 0, [], []⟩

structure ToolCall where
  wake : Option GoString
  connects : Bool
  first : McpReply
  second : McpReply
  lostText : GoString

/-- `connectBrowserMCP`, and whether it returns no error. -/
def connectBrowserMCP (s : McpState) (connects : Bool) : Bool × McpState :=
  if s.session.isSome then (true, s)
  else if connects then (true, { s with session := some s.opened, opened := s.opened + 1 })
  else (false, s)

/-- `mcpCallOnce`. -/
def mcpCallOnce (s : McpState) (lostText : GoString) (reply : McpReply) : McpReply × McpState :=
  match s.session with
  | none => (.error "mcp: not connected", s)
  | some n => (if n ∈ s.lost then .error lostText else reply, { s with called := s.called ++ [n] })

/-- The text of a result. -/
def renderContent (content : List McpContent) : GoString := content.flatMap fun
  | .text s => s
  | .image mime size => str "[image " ++ mime ++ str ": " ++ itoa size ++ str " bytes]"
  | .other type => str "[content " ++ type ++ str "]"

/-- The error speaks of a session. -/
def sessionError : McpReply → Bool
  | .result _ => false
  | .error text => contains (toLower text) "session"

/-- The two attempts of `mcpCallTool`. -/
def mcpAttempts (s : McpState) (c : ToolCall) : McpReply × McpState :=
  let once := mcpCallOnce s c.lostText c.first
  if sessionError once.1 then
    let again := connectBrowserMCP once.2 c.connects
    if again.1 then mcpCallOnce again.2 c.lostText c.second else (once.1, again.2)
  else once

def renderReply : McpReply → Except GoString GoString
  | .result content => .ok (renderContent content)
  | .error text => .error text

/-- `mcpCallTool`. -/
def mcpCallTool (s : McpState) (c : ToolCall) : Except GoString GoString × McpState :=
  match c.wake with
  | some e => (.error (str "browser wake: " ++ e), s)
  | none => (renderReply (mcpAttempts s c).1, (mcpAttempts s c).2)

inductive McpEvent
  /-- An attempt of `initBrowserMCP`. -/
  | connect (connects : Bool)
  /-- The sidecar loses sessions; a restart loses all of them. -/
  | lose (sessions : List Nat)
  | call (c : ToolCall)

def mcpStep (s : McpState) : McpEvent → Option McpState
  | .connect connects => some (connectBrowserMCP s connects).2
  | .lose sessions => some { s with lost := s.lost ++ sessions }
  | .call c => some (mcpCallTool s c).2

/-! ## What a call is to do -/

/-- The session that the relay keeps is one that the sidecar does not know any more. -/
def McpState.Stale (s : McpState) : Prop := ∃ n, s.session = some n ∧ n ∈ s.lost

/-- The call has the sidecar open a session, keeps it, and invokes the tool on it last. -/
def Recovers (s s' : McpState) : Prop :=
  s'.session = some s.opened ∧ s'.opened = s.opened + 1 ∧ s'.called.getLast? = some s.opened

/-!
## Sessions that stay lost

Connecting does nothing as long as there is a session, and nothing takes the session away. So the second attempt
meets the session that the first one has met, and so do all later calls.
-/

variable {s s' s'' : McpState}

/-- The relay keeps the session that it has, no session is opened, and none comes back. -/
structure KeepsSession (s s' : McpState) : Prop where
  session_eq : s'.session = s.session
  opened_eq : s'.opened = s.opened
  lost_le : ∀ n ∈ s.lost, n ∈ s'.lost

theorem KeepsSession.refl (s : McpState) : KeepsSession s s := ⟨rfl, rfl, fun _ h => h⟩

theorem KeepsSession.trans (h : KeepsSession s s') (h' : KeepsSession s' s'') : KeepsSession s s'' :=
  ⟨h'.session_eq.trans h.session_eq, h'.opened_eq.trans h.opened_eq, fun n hn => h'.lost_le n (h.lost_le n hn)⟩

theorem connect_keeps (h : s.session.isSome) (connects : Bool) : KeepsSession s (connectBrowserMCP s connects).2 := by
  rw [connectBrowserMCP, if_pos h]
  exact .refl s

theorem callOnce_keeps (lostText : GoString) (reply : McpReply) :
    KeepsSession s (mcpCallOnce s lostText reply).2 := by
  unfold mcpCallOnce
  split
  · exact .refl s
  · exact ⟨rfl, rfl, fun _ h => h⟩

theorem attempts_keeps (h : s.session.isSome) (c : ToolCall) : KeepsSession s (mcpAttempts s c).2 := by
  have honce := callOnce_keeps (s := s) c.lostText c.first
  have hagain := connect_keeps (by rw [honce.session_eq]; exact h) c.connects
  rw [mcpAttempts]
  dsimp only
  split_ifs
  · exact (honce.trans hagain).trans (callOnce_keeps c.lostText c.second)
  · exact honce.trans hagain
  · exact honce

theorem callTool_keeps (h : s.session.isSome) (c : ToolCall) : KeepsSession s (mcpCallTool s c).2 := by
  rw [mcpCallTool]
  cases c.wake with
  | some e => exact .refl s
  | none => exact attempts_keeps h c

theorem step_keeps {e : McpEvent} (h : s.session.isSome) (hstep : mcpStep s e = some s') : KeepsSession s s' := by
  cases e with
  | connect connects =>
    obtain rfl := Option.some.inj hstep
    exact connect_keeps h connects
  | lose sessions =>
    obtain rfl := Option.some.inj hstep
    exact ⟨rfl, rfl, fun n hn => List.mem_append_left _ hn⟩
  | call c =>
    obtain rfl := Option.some.inj hstep
    exact callTool_keeps h c

theorem McpState.Stale.isSome (h : s.Stale) : s.session.isSome := by
  obtain ⟨n, hn, -⟩ := h
  rw [hn]
  rfl

theorem KeepsSession.stale (h : KeepsSession s s') (hs : s.Stale) : s'.Stale := by
  obtain ⟨n, hn, hlost⟩ := hs
  exact ⟨n, h.session_eq.trans hn, h.lost_le n hlost⟩

/-- A session that is lost stays lost. -/
theorem stale_runSteps {es : List McpEvent} (hrun : runSteps mcpStep s es = some s') (hs : s.Stale) : s'.Stale :=
  runSteps_invariant (fun _ _ _ hs hstep => (step_keeps hs.isSome hstep).stale hs) hrun hs

/-- Once the session is lost, no call recovers, whatever happens in between. -/
theorem mcpCallTool_never_recovers {es es' : List McpEvent} (_ : runSteps mcpStep .initial es = some s)
    (hs : s.Stale) (hrun : runSteps mcpStep s es' = some s') (c : ToolCall) :
    ¬ Recovers s' (mcpCallTool s' c).2 := by
  intro h
  have hopened := (callTool_keeps (stale_runSteps hrun hs).isSome c).opened_eq
  rw [h.2.1] at hopened
  omega

/-- A call that finds the sidecar again. -/
def navigate : ToolCall where
  wake := none
  connects := true
  first := .result [.text "ok"]
  second := .result [.text "ok"]
  lostText := "404: session not found"

theorem restarted_never_recovers :
    runSteps mcpStep .initial [.connect true, .lose [0]] = some ⟨some 0, 1, [0], []⟩ ∧
      ¬ Recovers ⟨some 0, 1, [0], []⟩ (mcpCallTool ⟨some 0, 1, [0], []⟩ navigate).2 :=
  ⟨rfl, @mcpCallTool_never_recovers _ _ [.connect true, .lose [0]] [] rfl ⟨0, rfl, List.mem_singleton_self 0⟩ rfl
    navigate⟩

set_option maxRecDepth 8000 in
/-- The call ends with the error of the lost session, on which it has tried twice. -/
theorem restarted_fails :
    runSteps mcpStep .initial [.connect true, .lose [0]] = some ⟨some 0, 1, [0], []⟩ ∧
      mcpCallTool ⟨some 0, 1, [0], []⟩ navigate =
        (.error "404: session not found", ⟨some 0, 1, [0], [0, 0]⟩) ∧
      ¬ Recovers ⟨some 0, 1, [0], []⟩ ⟨some 0, 1, [0], [0, 0]⟩ := by
  refine ⟨rfl, rfl, fun h => ?_⟩
  exact absurd h.2.1 (by decide)

end Gafam.Relay
