import Gafam.Relay.Failover
import Gafam.Go.Proofs.TextProofs

/-!
# Engines that are down

The router passes over an engine that is down if the text of its error has a mark. A provider that nothing answers is
`unreachable`, and a gateway leaves its status in the text. The text for a sidecar that is asleep has no mark, so the
router stops there.
-/

namespace Gafam.Relay

open Gafam.Go
open Gafam.Orchestrator (truncateStr)

/-! ## Marks -/

theorem contains_iff {s sub : GoString} (hsub : sub ≠ []) : contains s sub = true ↔ sub <:+: s := by
  rw [contains, Option.isSome_iff_ne_none, Ne, index_eq_none_iff hsub, not_not]

theorem transientMarks_ne_nil : ∀ mark ∈ transientMarks, mark ≠ [] := by
  decide

theorem isTransientError_of_mark {e mark : GoString} (hmark : mark ∈ transientMarks) (h : mark <:+: e) :
    isTransientError e = true :=
  List.any_eq_true.2 ⟨mark, hmark, (contains_iff (transientMarks_ne_nil mark hmark)).2 h⟩

set_option maxRecDepth 8000 in
theorem sidecarAsleep_lasting : isTransientError sidecarAsleep = false := rfl

/-- The status that a gateway answers with is a mark. -/
theorem gateway_mark {status : Nat} (h : status = 502 ∨ status = 503) : itoa status ∈ transientMarks := by
  rcases h with rfl | rfl
  · decide
  · decide

theorem gateway_error {status : Nat} (h : status = 502 ∨ status = 503) : 400 ≤ status := by
  omega

/-! ## Providers -/

theorem chatProviderOnce_unavailable {net : EngineRequest → EngineReply} {p : LLMProvider}
    {system prompt : GoString} {maxTokens : Int}
    (h : Unavailable (net (providerRequest p system prompt maxTokens))) :
    ∃ e, chatProviderOnce net p system prompt maxTokens = .error e ∧ isTransientError e = true := by
  rw [chatProviderOnce]
  cases hreply : net (providerRequest p system prompt maxTokens) with
  | malformed e =>
    rw [hreply] at h
    exact h.elim
  | refused e =>
    refine ⟨_, rfl, @isTransientError_of_mark _ (str "unreachable") (by decide) ?_⟩
    exact ⟨str "provider " ++ p.name ++ str " ", str ": " ++ e, by simp [str]⟩
  | http status raw decoded =>
    rw [hreply] at h
    dsimp only
    rw [if_pos (gateway_error h)]
    refine ⟨_, rfl, isTransientError_of_mark (gateway_mark h) ?_⟩
    exact ⟨str "provider " ++ p.name ++ str " HTTP ", str ": " ++ truncateStr raw 300, by simp⟩

/-- A provider that its last request finds unavailable is passed over. -/
theorem chatProvider_unavailable {net : Nat → EngineRequest → EngineReply} {p : LLMProvider}
    {system prompt : GoString} {maxTokens : Int} (h : Unavailable (providerLast net p system prompt maxTokens)) :
    ∃ e, chatProvider net p system prompt maxTokens = .error e ∧ isTransientError e = true := by
  rw [providerLast] at h
  rw [chatProvider]
  cases hfirst : chatProviderOnce (net 0) p system prompt maxTokens with
  | ok res =>
    -- an engine that answers is not unavailable
    rw [hfirst] at h
    obtain ⟨e, he, -⟩ := chatProviderOnce_unavailable h
    rw [hfirst] at he
    cases he
  | error e =>
    rw [hfirst] at h
    dsimp only at h ⊢
    by_cases hbudget : budgetConsumed e = true
    · rw [if_pos hbudget] at h ⊢
      exact chatProviderOnce_unavailable h
    · rw [if_neg hbudget] at h ⊢
      obtain ⟨e', he', htransient⟩ := chatProviderOnce_unavailable h
      obtain rfl : e = e' := Except.error.inj (hfirst.symm.trans he')
      exact ⟨e, rfl, htransient⟩

/-! ## The VPC -/

theorem firstContent_status {status : Nat} {decoded : Except GoString Completion} {content : GoString}
    (h : firstContent status decoded = some content) : status < 400 := by
  unfold firstContent at h
  by_cases hstatus : status < 400
  · exact hstatus
  · rw [if_neg hstatus] at h
    cases h

theorem vpcCompletion_silent {reply : EngineReply} (h : Silent reply) :
    vpcCompletion reply = .error sidecarAsleep := by
  cases reply with
  | malformed e => exact h.elim
  | refused e => rfl
  | http status raw decoded => exact h.elim

theorem vpcCompletion_unavailable {reply : EngineReply} (h : Unavailable reply) (hsilent : ¬ Silent reply) :
    ∃ e, vpcCompletion reply = .error e ∧ isTransientError e = true := by
  cases reply with
  | malformed e => exact h.elim
  | refused e => exact absurd trivial hsilent
  | http status raw decoded =>
    unfold vpcCompletion
    dsimp only
    rw [if_pos (gateway_error h)]
    refine ⟨_, rfl, isTransientError_of_mark (gateway_mark h) ?_⟩
    exact ⟨str "vpc engine: qwen HTTP ", str " (model still loading?)", rfl⟩

/-- A sidecar that is asleep is announced by the one text. -/
theorem chatVPC_silent {qwenURL : GoString} {net : Nat → EngineRequest → EngineReply} {system prompt : GoString}
    {maxTokens : Int} (h : Silent (vpcLast qwenURL net system prompt maxTokens)) :
    chatVPC qwenURL net system prompt maxTokens = .error sidecarAsleep := by
  rw [vpcLast] at h
  rw [chatVPC]
  cases hfirst : net 0 (vpcChatRequest qwenURL system prompt maxTokens) with
  | malformed e =>
    rw [hfirst] at h
    exact h.elim
  | refused e => rfl
  | http status raw decoded =>
    rw [hfirst] at h
    dsimp only at h ⊢
    cases hcontent : firstContent status decoded with
    | some content =>
      rw [hcontent] at h
      exact h.elim
    | none =>
      rw [hcontent] at h
      exact vpcCompletion_silent h

theorem chatVPC_unavailable {qwenURL : GoString} {net : Nat → EngineRequest → EngineReply} {system prompt : GoString}
    {maxTokens : Int} (h : Unavailable (vpcLast qwenURL net system prompt maxTokens))
    (hsilent : ¬ Silent (vpcLast qwenURL net system prompt maxTokens)) :
    ∃ e, chatVPC qwenURL net system prompt maxTokens = .error e ∧ isTransientError e = true := by
  rw [vpcLast] at h hsilent
  rw [chatVPC]
  cases hfirst : net 0 (vpcChatRequest qwenURL system prompt maxTokens) with
  | malformed e =>
    rw [hfirst] at h
    exact h.elim
  | refused e =>
    rw [hfirst] at hsilent
    exact absurd trivial hsilent
  | http status raw decoded =>
    rw [hfirst] at h hsilent
    dsimp only at h hsilent ⊢
    cases hcontent : firstContent status decoded with
    | some content =>
      -- attempt 1 has answered
      rw [hcontent] at h
      have hstatus := firstContent_status hcontent
      have hgateway : status = 502 ∨ status = 503 := h
      omega
    | none =>
      rw [hcontent] at h hsilent
      exact vpcCompletion_unavailable h hsilent

/-! ## One call -/

theorem providerEngine_ne (id : GoString) {engine : GoString} (h : engine.take 2 ≠ str "pr") :
    providerEngine id ≠ engine :=
  fun heq => h (congrArg (List.take 2) heq).symm

/-- What `callOneEngine` makes of a provider that can be called. -/
theorem callOneEngine_provider {a : Availability} {id : GoString} {p : LLMProvider} {system prompt : GoString}
    {maxTokens : Int} (hfind : findProvider id a.settings = some p) (henabled : p.enabled = true)
    (hkey : p.apiKey ≠ []) :
    callOneEngine a (providerEngine id) system prompt maxTokens =
      chatProvider a.net p system prompt maxTokens := by
  have hvpc : providerEngine id ≠ "vpc" := providerEngine_ne id (by decide)
  have hphone : providerEngine id ≠ "phone" := providerEngine_ne id (by decide)
  have hprovider : hasPrefix (providerEngine id) "provider:" = true :=
    List.isPrefixOf_iff_prefix.2 (List.prefix_append ..)
  have hid : (providerEngine id).drop (str "provider:").length = id := List.drop_left
  rw [callOneEngine, if_neg hvpc, if_neg hphone, if_pos hprovider, hid, hfind]
  simp [henabled, hkey]

/-- An engine that is down fails, and is passed over unless it is the sidecar that is asleep. -/
theorem Down.fails {a : Availability} {system prompt : GoString} {maxTokens : Int} {engine : GoString}
    (h : Down a system prompt maxTokens engine) :
    ∃ e, callOneEngine a engine system prompt maxTokens = .error e ∧
      (isTransientError e = true ↔ ¬ Asleep a system prompt maxTokens engine) := by
  cases h with
  | vpc h =>
    have hcall : callOneEngine a "vpc" system prompt maxTokens = chatVPC a.qwenURL a.net system prompt maxTokens :=
      if_pos rfl
    by_cases hsilent : Silent (vpcLast a.qwenURL a.net system prompt maxTokens)
    · refine ⟨sidecarAsleep, hcall.trans (chatVPC_silent hsilent), ?_⟩
      rw [sidecarAsleep_lasting]
      exact ⟨fun h => absurd h Bool.false_ne_true, fun h => absurd ⟨rfl, hsilent⟩ h⟩
    · obtain ⟨e, he, htransient⟩ := chatVPC_unavailable h hsilent
      exact ⟨e, hcall.trans he, fun _ hasleep => hsilent hasleep.2, fun _ => htransient⟩
  | provider id p hfind henabled hkey h =>
    obtain ⟨e, he, htransient⟩ := chatProvider_unavailable h
    refine ⟨e, (callOneEngine_provider hfind henabled hkey).trans he, fun _ hasleep => ?_, fun _ => htransient⟩
    exact providerEngine_ne id (by decide) hasleep.1

theorem callOneEngine_nil (a : Availability) (system prompt : GoString) (maxTokens : Int) :
    callOneEngine a [] system prompt maxTokens = .error (str "unknown engine: ") :=
  rfl

/-! ## The loop -/

theorem forall_getElem?_cons {α : Type} {P : Nat → α → Prop} {x : α} {l : List α} :
    (∀ k e, (x :: l)[k]? = some e → P k e) ↔ P 0 x ∧ ∀ k e, l[k]? = some e → P (k + 1) e := by
  constructor
  · exact fun h => ⟨h 0 x rfl, fun k e hk => h (k + 1) e hk⟩
  · rintro ⟨hx, hl⟩ k e hk
    cases k with
    | zero =>
      obtain rfl : x = e := Option.some.inj hk
      exact hx
    | succ k => exact hl k e hk

/-- An engine that answers is asked if and only if every error in front of it is passed over. The induction is on the
engines in front. -/
theorem tryEngines_eq_ok_iff {scope : GoString} {call : Nat → GoString → Except GoString ChatResult}
    {engine : GoString} {res : ChatResult} (hengine : engine ≠ []) (after before : List GoString) (i : Nat)
    (lastErr : Option GoString)
    (hfail : ∀ k e, before[k]? = some e → e ≠ [] → ∃ t, call (i + k) e = .error t)
    (hanswer : call (i + before.length) engine = .ok res) :
    tryEngines scope call i lastErr (before ++ engine :: after) = .ok res ↔
      ∀ k e, before[k]? = some e → e ≠ [] → ∀ t, call (i + k) e = .error t → isTransientError t = true := by
  induction before generalizing i lastErr with
  | nil =>
    rw [List.length_nil, Nat.add_zero] at hanswer
    rw [List.nil_append, tryEngines, if_neg hengine, hanswer]
    exact ⟨fun _ k e hk => (Option.some_ne_none e (hk.symm.trans List.getElem?_nil)).elim, fun _ => rfl⟩
  | cons first before ih =>
    have hnext : ∀ k, call (i + (k + 1)) = call (i + 1 + k) := fun k => congrArg call (by omega)
    rw [List.length_cons, hnext] at hanswer
    rw [forall_getElem?_cons] at hfail ⊢
    simp only [hnext, Nat.add_zero] at hfail ⊢
    rw [List.cons_append, tryEngines]
    by_cases hfirst : first = []
    · rw [if_pos hfirst, ih (i + 1) lastErr hfail.2 hanswer]
      exact ⟨fun h => ⟨fun hne => absurd hfirst hne, h⟩, fun h => h.2⟩
    · obtain ⟨t, ht⟩ := hfail.1 hfirst
      rw [if_neg hfirst, ht]
      dsimp only
      by_cases htransient : isTransientError t = true
      · rw [if_pos htransient, ih (i + 1) (some t) hfail.2 hanswer]
        refine ⟨fun h => ⟨fun _ t' ht' => ?_, h⟩, fun h => h.2⟩
        obtain rfl : t = t' := Except.error.inj ht'
        exact htransient
      · rw [if_neg htransient]
        constructor
        · rintro ⟨⟩
        · exact fun h => absurd (h.1 hfirst t rfl) htransient

/-- The engines in front of one that answers are down: it is asked if and only if none of them is the sidecar, asleep. -/
theorem chatWithEngine_failover_iff {s : Settings} {a : Nat → Availability} {scope system prompt : GoString}
    {maxTokens : Int} {before after : List GoString} {engine : GoString} {res : ChatResult}
    (hchain : engineCandidates (getScopeRouting s scope) = before ++ engine :: after)
    (hdown : ∀ k e, before[k]? = some e → e ≠ [] → Down (a k) system prompt (tokenBudget maxTokens) e)
    (hanswer : callOneEngine (a before.length) engine system prompt (tokenBudget maxTokens) = .ok res) :
    chatWithEngine s a scope system prompt maxTokens = .ok res ↔
      ∀ k e, before[k]? = some e → ¬ Asleep (a k) system prompt (tokenBudget maxTokens) e := by
  have hengine : engine ≠ [] := by
    rintro rfl
    rw [callOneEngine_nil] at hanswer
    cases hanswer
  have hcall : ∀ k, 0 + k = k := Nat.zero_add
  rw [chatWithEngine, hchain, tryEngines_eq_ok_iff hengine after before 0 none]
  · constructor
    · intro h k e hk hasleep
      have he : e ≠ [] := hasleep.1 ▸ by decide
      obtain ⟨t, ht, hpassed⟩ := (hdown k e hk he).fails
      exact hpassed.1 (h k e hk he t ((hcall k).symm ▸ ht)) hasleep
    · intro h k e hk he t ht
      obtain ⟨t', ht', hpassed⟩ := (hdown k e hk he).fails
      rw [hcall k] at ht
      obtain rfl : t = t' := Except.error.inj (ht.symm.trans ht')
      exact hpassed.2 (h k e hk)
  · intro k e hk he
    obtain ⟨t, ht, -⟩ := (hdown k e hk he).fails
    exact ⟨t, (hcall k).symm ▸ ht⟩
  · exact (hcall before.length).symm ▸ hanswer

/-! ## Two chains of a provider and the VPC -/

def acme : LLMProvider := ⟨"p_1", "acme", "https://acme.test/v1", "k", "", "m", true⟩

/-- The routing of the scope is stored. -/
def routedTo (r : ScopeRouting) : Settings
  | .circles => []
  | .llmProviders => [acme]
  | .llmEngine => []
  | .llmScopes => fun scope => if scope = "light_task" then some r else none

def hello : EngineReply := .http 200 [] (.ok ⟨[⟨"hello", []⟩], []⟩)

/-- The sidecar answers, which is asked without a key, and no provider does. -/
def sidecarOnly (r : ScopeRouting) : Availability :=
  ⟨routedTo r, "http://gafam-qwen:8080", fun _ request =>
    if request.apiKey = none then hello else .refused "connection refused"⟩

/-- The providers answer, and the sidecar is asleep. -/
def providersOnly (r : ScopeRouting) : Availability :=
  ⟨routedTo r, "http://gafam-qwen:8080", fun _ request =>
    if request.apiKey = none then .refused "connection refused" else hello⟩

def vpcLastInLine : ScopeRouting := ⟨providerEngine "p_1", ["vpc"]⟩

def vpcFirstInLine : ScopeRouting := ⟨"vpc", [providerEngine "p_1"]⟩

/-- The VPC answers for a provider that is down. -/
theorem vpcLastInLine_answers :
    chatWithEngine (routedTo vpcLastInLine) (fun _ => sidecarOnly vpcLastInLine) "light_task" [] "hi" 0 =
      .ok ⟨"hello", "vpc", "qwen-gguf"⟩ := by
  have hchain : engineCandidates (getScopeRouting (routedTo vpcLastInLine) "light_task") =
      [providerEngine "p_1"] ++ str "vpc" :: [] := rfl
  have hdown : Down (sidecarOnly vpcLastInLine) [] "hi" (tokenBudget 0) (providerEngine "p_1") :=
    .provider "p_1" acme rfl rfl (by decide) trivial
  refine (chatWithEngine_failover_iff hchain (fun k e hk _ => ?_) rfl).2 fun k e hk => ?_
  · obtain rfl := List.mem_singleton.1 (List.mem_of_getElem? hk)
    exact hdown
  · obtain rfl := List.mem_singleton.1 (List.mem_of_getElem? hk)
    exact fun hasleep => providerEngine_ne "p_1" (by decide) hasleep.1

/-- No provider answers for a sidecar that is asleep. -/
theorem vpcFirstInLine_stops :
    engineCandidates (getScopeRouting (routedTo vpcFirstInLine) "light_task") =
        [str "vpc"] ++ providerEngine "p_1" :: [] ∧
      Down (providersOnly vpcFirstInLine) [] "hi" (tokenBudget 0) "vpc" ∧
      callOneEngine (providersOnly vpcFirstInLine) (providerEngine "p_1") [] "hi" (tokenBudget 0) =
        .ok ⟨"hello", providerEngine "p_1", "m"⟩ ∧
      chatWithEngine (routedTo vpcFirstInLine) (fun _ => providersOnly vpcFirstInLine) "light_task" [] "hi" 0 =
        .error sidecarAsleep := by
  refine ⟨rfl, .vpc trivial, rfl, ?_⟩
  rw [chatWithEngine]
  have hcall : callOneEngine (providersOnly vpcFirstInLine) "vpc" [] "hi" (tokenBudget 0) = .error sidecarAsleep := rfl
  have hchain : engineCandidates (getScopeRouting (routedTo vpcFirstInLine) "light_task") =
      str "vpc" :: [providerEngine "p_1"] := rfl
  rw [hchain, tryEngines, if_neg (by decide), hcall]
  dsimp only
  rw [sidecarAsleep_lasting]
  rfl

end Gafam.Relay
