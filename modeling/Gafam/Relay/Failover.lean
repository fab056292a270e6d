import Gafam.Orchestrator.Levels
import Gafam.Relay.Settings

/-!
# The engine router

`chatWithEngine` asks the engines of a scope one after the other. It goes on after an error only if the text of the error
holds one of the marks of `isTransientError`, and the texts are written where the engines are called.
-/

namespace Gafam.Relay

open Gafam.Go
open Gafam.Orchestrator (truncateStr)

/-! ## Requests and replies -/

structure ChatMessage where
  role : GoString
  content : GoString
deriving DecidableEq

/-- The payload of a request. The temperatures are constants and are left out. -/
inductive EngineBody
  | chat (model : Option GoString) (messages : List ChatMessage) (maxTokens : Int)
  | completion (prompt : GoString) (nPredict : Int)
deriving DecidableEq

structure EngineRequest where
  url : GoString
  apiKey : Option GoString
  body : EngineBody
deriving DecidableEq

structure ChatChoice where
  content : GoString
  reasoningContent : GoString

/-- What `json.Unmarshal` fills the fields of a reply with. -/
structure Completion where
  choices : List ChatChoice
  content : GoString

/-- What comes of a request: `http.NewRequestWithContext` fails, `client.Do` fails, or there is a status and a body,
with what comes of decoding it. -/
inductive EngineReply
  | malformed (e : GoString)
  | refused (e : GoString)
  | http (status : Nat) (raw : GoString) (decoded : Except GoString Completion)

/-- `chatResult`. The measured latency is left out. -/
structure ChatResult where
  content : GoString
  engine : GoString
  model : GoString
deriving DecidableEq

/-- `messages`: there is a system message unless it is empty. -/
def chatMessages (system prompt : GoString) : List ChatMessage :=
  (if system = [] then [] else [⟨"system", system⟩]) ++ [⟨"user", prompt⟩]

/-- `strings.TrimRight(s, "/")`. -/
def trimSlashes (s : GoString) : GoString := (s.reverse.dropWhile (· = 0x2F)).reverse

/-! ## Providers -/

def providerRequest (p : LLMProvider) (system prompt : GoString) (maxTokens : Int) : EngineRequest :=
  ⟨trimSlashes p.baseURL ++ "/chat/completions", some p.apiKey,
    .chat (some p.model) (chatMessages system prompt) maxTokens⟩

def chatProviderOnce (net : EngineRequest → EngineReply) (p : LLMProvider) (system prompt : GoString)
    (maxTokens : Int) : Except GoString ChatResult :=
  match net (providerRequest p system prompt maxTokens) with
  | .malformed e => .error e
  | .refused e => .error (str "provider " ++ p.name ++ str " unreachable: " ++ e)
  | .http status raw decoded =>
    if 400 ≤ status then
      .error (str "provider " ++ p.name ++ str " HTTP " ++ itoa status ++ str ": " ++ truncateStr raw 300)
    else
      match decoded with
      | .error e => .error (str "provider " ++ p.name ++ str ": bad response: " ++ e)
      | .ok out =>
        match out.choices with
        | [] => .error (str "provider " ++ p.name ++ str ": empty choices")
        | msg :: _ =>
          let content := trimSpace msg.content
          if content = [] ∧ trimSpace msg.reasoningContent ≠ [] then
            .error (str "provider " ++ p.name ++
              str ": empty content (reasoning model consumed the token budget — raise max_tokens)")
          else .ok ⟨content, providerEngine p.id, p.model⟩

/-- The error that is tried again with a larger budget. -/
def budgetConsumed (e : GoString) : Bool :=
  contains e "empty content (reasoning model consumed the token budget"

/-- The budget of the second request. -/
def biggerBudget (maxTokens : Int) : Int := if 32768 < maxTokens * 4 then 32768 else maxTokens * 4

/-- `chatProvider`. The requests of a call are numbered. -/
def chatProvider (net : Nat → EngineRequest → EngineReply) (p : LLMProvider) (system prompt : GoString)
    (maxTokens : Int) : Except GoString ChatResult :=
  match chatProviderOnce (net 0) p system prompt maxTokens with
  | .ok res => .ok res
  | .error e =>
    if budgetConsumed e then chatProviderOnce (net 1) p system prompt (biggerBudget maxTokens) else .error e

/-! ## The VPC -/

def vpcChatRequest (qwenURL system prompt : GoString) (maxTokens : Int) : EngineRequest :=
  ⟨qwenURL ++ "/v1/chat/completions", none, .chat none (chatMessages system prompt) maxTokens⟩

/-- The request of the fallback, with the system prompt in front. -/
def vpcCompletionRequest (qwenURL system prompt : GoString) (maxTokens : Int) : EngineRequest :=
  let full := if system = [] then prompt else system ++ str "\n\n" ++ prompt
  ⟨qwenURL ++ "/completion", none, .completion full maxTokens⟩

def sidecarAsleep : GoString :=
  "vpc engine: qwen sidecar not running — run a Suparna reading first or pick another engine"

/-- The content that attempt 1 returns: that of the first choice, if the status is no error and the body can be decoded. -/
def firstContent (status : Nat) (decoded : Except GoString Completion) : Option GoString :=
  if status < 400 then
    match decoded with
    | .error _ => none
    | .ok out => out.choices.head?.map ChatChoice.content
  else none

/-- Attempt 2 of `chatVPC`. -/
def vpcCompletion (reply : EngineReply) : Except GoString ChatResult :=
  match reply with
  | .malformed e => .error e
  | .refused _ => .error sidecarAsleep
  | .http status _ decoded =>
    if 400 ≤ status then .error (str "vpc engine: qwen HTTP " ++ itoa status ++ str " (model still loading?)")
    else
      match decoded with
      | .error e => .error (str "vpc engine: bad response: " ++ e)
      | .ok out => .ok ⟨trimSpace out.content, "vpc", "qwen-gguf"⟩

def chatVPC (qwenURL : GoString) (net : Nat → EngineRequest → EngineReply) (system prompt : GoString)
    (maxTokens : Int) : Except GoString ChatResult :=
  match net 0 (vpcChatRequest qwenURL system prompt maxTokens) with
  | .malformed e => .error e
  | .refused _ => .error sidecarAsleep
  | .http status _ decoded =>
    match firstContent status decoded with
    | some content => .ok ⟨trimSpace content, "vpc", "qwen-gguf"⟩
    | none => vpcCompletion (net 1 (vpcCompletionRequest qwenURL system prompt maxTokens))

/-! ## The router -/

/-- What a call finds: the settings at the time, and how each of its requests is answered. -/
structure Availability where
  settings : Settings
  qwenURL : GoString
  net : Nat → EngineRequest → EngineReply

def callOneEngine (a : Availability) (engine system prompt : GoString) (maxTokens : Int) :
    Except GoString ChatResult :=
  if engine = "vpc" then chatVPC a.qwenURL a.net system prompt maxTokens
  else if engine = "phone" then
    .error "phone engine is not wired for orchestrator chat yet — use /api/web/edge/infer directly"
  else if hasPrefix engine "provider:" then
    match findProvider (engine.drop (str "provider:").length) a.settings with
    | none => .error (str "provider not found: " ++ engine)
    | some p =>
      if !p.enabled then .error (str "provider " ++ p.name ++ str " is disabled")
      else if p.apiKey = [] then .error (str "provider " ++ p.name ++ str " has no API key")
      else chatProvider a.net p system prompt maxTokens
  else .error (str "unknown engine: " ++ engine)

def transientMarks : List GoString :=
  ["unreachable", "timeout", "429", "503", "502", "EOF", "connection refused", "context deadline exceeded"]

def isTransientError (e : GoString) : Bool := transientMarks.any (contains e)

/-- The loop over the candidates. `i` counts them, the empty ones too, and `lastErr` is the error of the last call. -/
def tryEngines (scope : GoString) (call : Nat → GoString → Except GoString ChatResult) (i : Nat)
    (lastErr : Option GoString) : List GoString → Except GoString ChatResult
  | [] =>
    match lastErr with
    | some e => .error (str "scope=" ++ scope ++ str ": all engines exhausted: " ++ e)
    | none => .error (str "scope=" ++ scope ++ str ": no engines configured")
  | engine :: rest =>
    if engine = [] then tryEngines scope call (i + 1) lastErr rest
    else
      match call i engine with
      | .ok res => .ok res
      | .error e => if isTransientError e then tryEngines scope call (i + 1) (some e) rest else .error e

/-- `candidates`. -/
def engineCandidates (r : ScopeRouting) : List GoString := r.primary :: r.fallbacks

/-- The default of `maxTokens`. -/
def tokenBudget (maxTokens : Int) : Int := if maxTokens ≤ 0 then 1024 else maxTokens

/-- `chatWithEngine`. The routing is read from `s`; the call of candidate `i` finds `a i`. -/
def chatWithEngine (s : Settings) (a : Nat → Availability) (scope system prompt : GoString) (maxTokens : Int) :
    Except GoString ChatResult :=
  tryEngines scope (fun i engine => callOneEngine (a i) engine system prompt (tokenBudget maxTokens)) 0 none
    (engineCandidates (getScopeRouting s scope))

/-! ## Engines that are down -/

/-- The last request of `chatProvider`, answered. -/
def providerLast (net : Nat → EngineRequest → EngineReply) (p : LLMProvider) (system prompt : GoString)
    (maxTokens : Int) : EngineReply :=
  match chatProviderOnce (net 0) p system prompt maxTokens with
  | .ok _ => net 0 (providerRequest p system prompt maxTokens)
  | .error e =>
    if budgetConsumed e then net 1 (providerRequest p system prompt (biggerBudget maxTokens))
    else net 0 (providerRequest p system prompt maxTokens)

/-- The last request of `chatVPC`, answered. -/
def vpcLast (qwenURL : GoString) (net : Nat → EngineRequest → EngineReply) (system prompt : GoString)
    (maxTokens : Int) : EngineReply :=
  match net 0 (vpcChatRequest qwenURL system prompt maxTokens) with
  | .http status raw decoded =>
    match firstContent status decoded with
    | some _ => .http status raw decoded
    | none => net 1 (vpcCompletionRequest qwenURL system prompt maxTokens)
  | reply => reply

/-- Nothing answers. -/
def Silent : EngineReply → Prop
  | .refused _ => True
  | _ => False

/-- Nothing answers, or a gateway in front says so. -/
def Unavailable : EngineReply → Prop
  | .refused _ => True
  | .http status _ _ => status = 502 ∨ status = 503
  | .malformed _ => False

/-- The engine can be called, and its last request finds it unavailable. -/
inductive Down (a : Availability) (system prompt : GoString) (maxTokens : Int) : GoString → Prop
  | vpc (h : Unavailable (vpcLast a.qwenURL a.net system prompt maxTokens)) : Down a system prompt maxTokens "vpc"
  | provider (id : GoString) (p : LLMProvider) (hfind : findProvider id a.settings = some p)
      (henabled : p.enabled = true) (hkey : p.apiKey ≠ [])
      (h : Unavailable (providerLast a.net p system prompt maxTokens)) :
      Down a system prompt maxTokens (providerEngine id)

/-- The VPC is asked, and its last request finds nothing that answers. -/
def Asleep (a : Availability) (system prompt : GoString) (maxTokens : Int) (engine : GoString) : Prop :=
  engine = "vpc" ∧ Silent (vpcLast a.qwenURL a.net system prompt maxTokens)

end Gafam.Relay
