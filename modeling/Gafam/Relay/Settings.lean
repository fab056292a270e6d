import Gafam.Go.Encoding
import Gafam.Go.Text
import Gafam.Lib.Cells

/-!
# Settings that are kept as JSON

Circles, LLM providers and the routing of scopes are rows of `gafam_settings`, each a JSON value that its
handler loads as a whole, changes and stores as a whole. Everything in such a value was decoded from JSON
before, so storing and loading give it back as it was, and the rows are modelled by the decoded values.
-/

namespace Gafam.Relay

open Gafam.Go Gafam.Lib

/-! ## The rows -/

/-- `Circle`. -/
structure Circle where
  name : GoString
  phones : List GoString
deriving DecidableEq

/-- `LLMProvider`. -/
structure LLMProvider where
  id : GoString
  name : GoString
  baseURL : GoString
  apiKey : GoString
  keyHint : GoString
  model : GoString
  enabled : Bool
deriving DecidableEq

/-- `ScopeRouting`. -/
structure ScopeRouting where
  primary : GoString
  fallbacks : List GoString
deriving DecidableEq

inductive Setting
  | circles
  | llmProviders
  | llmEngine
  | llmScopes
deriving DecidableEq

/-- What is read from a row. A map is given by its lookups. -/
@[reducible] def Setting.Value : Setting → Type
  | .circles => List Circle
  | .llmProviders => List LLMProvider
  | .llmEngine => GoString
  | .llmScopes => GoString → Option ScopeRouting

/-- What is read from a row that is missing, or that `getSetting` fails to read. -/
def Setting.blank : ∀ k : Setting, k.Value
  | .circles => []
  | .llmProviders => []
  | .llmEngine => []
  | .llmScopes => fun _ => none

instance (k : Setting) : Inhabited k.Value := ⟨k.blank⟩

abbrev Settings := ∀ k : Setting, k.Value

/-- An error answer. -/
structure Refusal where
  code : Nat
  text : GoString
deriving DecidableEq

abbrev SettingRequest := Rmw Refusal Setting.Value

/-! ## Circles -/

/-- The loop over the circles, and `append` when it finds none of the name. -/
def upsertCircle (c : Circle) : List Circle → List Circle
  | [] => [c]
  | existing :: rest => if existing.name = c.name then c :: rest else existing :: upsertCircle c rest

/-- `POST` of `circlesHandler`; a body that cannot be decoded is `none`. The error of the store is dropped. -/
def circlesPost (body : Option Circle) : Except Refusal SettingRequest :=
  match body with
  | none => .error ⟨400, "name required"⟩
  | some c =>
    if c.name = [] then .error ⟨400, "name required"⟩
    else
      let c := { c with name := trimSpace c.name }
      .ok ⟨.circles, fun circles => .ok (upsertCircle c circles), false⟩

/-- `DELETE` of `circlesHandler`. -/
def circlesDelete (name : GoString) : Except Refusal SettingRequest :=
  if name = [] then .error ⟨400, "missing name"⟩
  else .ok ⟨.circles, fun circles => .ok (circles.filter fun c => c.name ≠ name), false⟩

/-! ## Providers -/

/-- `newProviderID`, from the four bytes that it draws. -/
def newProviderID (draw : GoString) : GoString := str "p_" ++ hexEncode draw

/-- The loop over the providers: the first one of the id is replaced, and its key stays if the form sent
none. -/
def replaceProvider (p : LLMProvider) : List LLMProvider → Option (List LLMProvider)
  | [] => none
  | q :: rest =>
    if q.id = p.id then some ((if p.apiKey = [] then { p with apiKey := q.apiKey } else p) :: rest)
    else (replaceProvider p rest).map (q :: ·)

def upsertProvider (draw : GoString) (p : LLMProvider) (list : List LLMProvider) :
    Except Refusal (List LLMProvider) :=
  if p.id = [] then .ok (list ++ [{ p with id := newProviderID draw }])
  else
    match replaceProvider p list with
    | none => .error ⟨404, str "provider not found: " ++ p.id⟩
    | some list => .ok list

def deleteProvider (id : GoString) (list : List LLMProvider) : Except Refusal (List LLMProvider) :=
  if list.any fun p => p.id = id then .ok (list.filter fun p => p.id ≠ id)
  else .error ⟨404, str "provider not found: " ++ id⟩

/-- `POST` of `llmProvidersHandler`, with the bytes drawn for a new id. -/
def providersPost (draw : GoString) (body : Option LLMProvider) : Except Refusal SettingRequest :=
  match body with
  | none => .error ⟨400, "invalid JSON"⟩
  | some p =>
    let p := { p with name := trimSpace p.name, baseURL := trimSpace p.baseURL, model := trimSpace p.model }
    if p.name = [] ∨ p.baseURL = [] ∨ p.model = [] then
      .error ⟨400, "name, base_url and model are required"⟩
    else .ok ⟨.llmProviders, upsertProvider draw p, true⟩

/-- `DELETE` of `llmProvidersHandler` up to the store. -/
def providersDelete (id : GoString) : Except Refusal SettingRequest :=
  if id = [] then .error ⟨400, "missing id"⟩ else .ok ⟨.llmProviders, deleteProvider id, true⟩

/-! ## Scopes -/

/-- The body of an update of a scope. -/
structure ScopeUpdate where
  scope : GoString
  primary : GoString
  fallbacks : Option (List GoString)

/-- `POST` of `llmScopesHandler`. -/
def scopesPost (body : Option ScopeUpdate) : Except Refusal SettingRequest :=
  match body with
  | none => .error ⟨400, "scope required"⟩
  | some u =>
    if u.scope = [] then .error ⟨400, "scope required"⟩
    else
      let routing : ScopeRouting := ⟨u.primary, u.fallbacks.getD []⟩
      .ok ⟨.llmScopes, fun scopes => .ok (Function.update scopes u.scope (some routing)), true⟩

/-! ## The handlers side by side -/

inductive SettingsCall
  | circlesPost (body : Option Circle)
  | circlesDelete (name : GoString)
  | providersPost (draw : GoString) (body : Option LLMProvider)
  | providersDelete (id : GoString)
  | scopesPost (body : Option ScopeUpdate)

/-- The request of a call, or the refusal before anything is read. -/
def SettingsCall.request : SettingsCall → Except Refusal SettingRequest
  | .circlesPost body => Relay.circlesPost body
  | .circlesDelete name => Relay.circlesDelete name
  | .providersPost draw body => Relay.providersPost draw body
  | .providersDelete id => Relay.providersDelete id
  | .scopesPost body => Relay.scopesPost body

/-- The rows, with the requests on their way. -/
abbrev SettingsServer := Cells Refusal Setting.Value

/-- A call comes in, or a request that has come in goes on. -/
inductive SettingsAction
  | call (c : SettingsCall)
  | load (i : Nat)
  | misload (i : Nat)
  | store (i : Nat)
  | misstore (i : Nat)

/-- What the action is for the rows; nothing if a call is refused before anything is read. -/
def SettingsAction.onCells : SettingsAction → Option (CellsAction Refusal Setting.Value)
  | .call c =>
    match c.request with
    | .error _ => none
    | .ok r => some (.arrive r)
  | .load i => some (.load i)
  | .misload i => some (.misload i)
  | .store i => some (.store i)
  | .misstore i => some (.misstore i)

def settingsStep (s : SettingsServer) (a : SettingsAction) : Option SettingsServer :=
  match a.onCells with
  | none => some s
  | some b => s.step b

/-- A request that stores its row finds there what it has loaded, and the store of a circle does not fail. -/
def Unraced (s : SettingsServer) (a : SettingsAction) : Prop := ∀ b, a.onCells = some b → s.Current b

/-!
## The engine that answers a scope

A scope is answered by the VPC, by the phone or by a provider, `provider:` and its id. The engine picked for
everything is a setting of its own, and so is the routing of single scopes; both may name a provider, and
the provider may be deleted later.
-/

/-- `"provider:" + id`. -/
def providerEngine (id : GoString) : GoString := str "provider:" ++ id

/-! ### What is read -/

/-- `findProvider`. -/
def findProvider (id : GoString) (s : Settings) : Option LLMProvider :=
  (s .llmProviders).find? fun p => p.id = id

/-- `activeEngine`. -/
def activeEngine (s : Settings) : GoString := if s .llmEngine = [] then "vpc" else s .llmEngine

/-- The default of a scope of the platform: the first provider that is enabled and has a key. -/
def platformRouting (s : Settings) : ScopeRouting :=
  match (s .llmProviders).find? fun p => p.enabled && p.apiKey ≠ [] with
  | some p => ⟨providerEngine p.id, ["vpc"]⟩
  | none => ⟨"vpc", []⟩

/-- `getScopeRouting`. -/
def getScopeRouting (s : Settings) (scope : GoString) : ScopeRouting :=
  match s .llmScopes scope with
  | some r => r
  | none =>
    if scope = "orchestrator" ∨ scope = "light_task" then platformRouting s
    else if scope = "read_only" then ⟨"vpc", []⟩
    else ⟨activeEngine s, []⟩

/-! ### What is written -/

/-- A request that comes in and is answered before the next. -/
def handle (r : Except Refusal SettingRequest) (s : Settings) : Except Refusal Settings :=
  r.bind fun r => Cells.apply s r

/-- `DELETE` of `llmProvidersHandler`: if the provider was the active engine, the VPC is from now on. -/
def llmProvidersDelete (id : GoString) (s : Settings) : Except Refusal Settings :=
  (handle (providersDelete id) s).map fun s =>
    if activeEngine s = providerEngine id then Function.update s .llmEngine (str "vpc") else s

/-- `POST` of `llmEngineHandler`. -/
def llmEnginePost (body : Option GoString) (s : Settings) : Except Refusal Settings :=
  match body with
  | none => .error ⟨400, "invalid JSON"⟩
  | some engine =>
    if engine ≠ "vpc" ∧ engine ≠ "phone" ∧ hasPrefix engine "provider:" = false then
      .error ⟨400, "invalid engine"⟩
    else if hasPrefix engine "provider:" then
      match findProvider (engine.drop (str "provider:").length) s with
      | none => .error ⟨404, "provider not found"⟩
      | some p =>
        if !p.enabled then .error ⟨400, "provider is disabled"⟩
        else .ok (Function.update s .llmEngine engine)
    else .ok (Function.update s .llmEngine engine)

/-- The calls that change what a scope is answered by. -/
inductive EngineCall
  | providersPost (draw : GoString) (body : Option LLMProvider)
  | providersDelete (id : GoString)
  | enginePost (body : Option GoString)
  | scopesPost (body : Option ScopeUpdate)

def EngineCall.exec : EngineCall → Settings → Except Refusal Settings
  | .providersPost draw body, s => handle (Relay.providersPost draw body) s
  | .providersDelete id, s => llmProvidersDelete id s
  | .enginePost body, s => llmEnginePost body s
  | .scopesPost body, s => handle (Relay.scopesPost body) s

/-- A call that is refused changes nothing. -/
def engineStep (s : Settings) (c : EngineCall) : Option Settings :=
  match c.exec s with
  | .error _ => some s
  | .ok s' => some s'

/-! ### Engines that exist -/

/-- No engine at all, the VPC, or a provider of the list. -/
def IsVpcOrProvider (s : Settings) (engine : GoString) : Prop :=
  engine = [] ∨ engine = "vpc" ∨ ∃ p ∈ s .llmProviders, engine = providerEngine p.id

/-- The engines that `activeEngine` announces, or none. -/
def EngineExists (s : Settings) (engine : GoString) : Prop :=
  engine = "phone" ∨ IsVpcOrProvider s engine

/-- An update of the scope names an engine that exists, and no deletion takes the provider that the stored
routing of the scope names. -/
def KeepsScope (scope : GoString) (s : Settings) : EngineCall → Prop
  | .scopesPost (some u) => u.scope = scope → EngineExists s u.primary
  | .providersDelete id => ∀ r, s .llmScopes scope = some r → r.primary ≠ providerEngine id
  | _ => True

/-- The engine that is stored for the scope exists, if one is. -/
def StoredExists (scope : GoString) (s : Settings) : Prop :=
  ∀ r, s .llmScopes scope = some r → EngineExists s r.primary

end Gafam.Relay
