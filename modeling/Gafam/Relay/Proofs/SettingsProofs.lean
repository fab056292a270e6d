import Gafam.Relay.Settings
import Mathlib.Data.List.Permutation

/-!
# Proofs: settings under concurrent requests

As long as no request stores a row that has changed since it loaded it, the rows are what the acknowledged
requests make of them one after the other. Nothing in the handlers keeps two requests from loading the same
row before either stores it, and then the update of the first one is lost.
-/

namespace Gafam.Relay

open Gafam.Go Gafam.Lib

/-- One step keeps the rows what the acknowledged requests make of them. -/
theorem settingsStep_applyAll {v₀ : Settings} {s s' : SettingsServer} {a : SettingsAction}
    (h : Cells.applyAll v₀ s.acked = .ok s.values) (hfree : Unraced s a)
    (hstep : settingsStep s a = some s') : Cells.applyAll v₀ s'.acked = .ok s'.values := by
  unfold settingsStep at hstep
  cases ha : a.onCells with
  | none =>
    rw [ha] at hstep
    cases hstep
    exact h
  | some b =>
    rw [ha] at hstep
    exact Cells.applyAll_step h (hfree b ha) hstep

/-- The rows after a run without races are the outcome of the acknowledged requests, one after the other. -/
theorem settings_serial {v₀ : Settings} {s : SettingsServer} {acts : List SettingsAction}
    (hrun : runSteps settingsStep (Cells.start Refusal v₀) acts = some s)
    (hfree : StepsMeet settingsStep Unraced (Cells.start Refusal v₀) acts) : s.Serial v₀ := by
  have hacked : Cells.applyAll v₀ s.acked = .ok s.values :=
    runSteps_invariant_of_meet (P := fun s => Cells.applyAll v₀ s.acked = .ok s.values)
      (fun _ _ _ h hC hstep => settingsStep_applyAll h hC hstep) hrun hfree rfl
  exact ⟨s.acked, .refl _, hacked⟩

/-! ## Two requests that load before either stores -/

/-- Both calls load before either stores. -/
def bothLoad (c d : SettingsCall) : List SettingsAction :=
  [.call c, .call d, .load 0, .load 1, .store 0, .store 1]

section BothLoad

variable {v₀ : Settings} {c d : SettingsCall} {r q : SettingRequest} {v : r.cell.Value} {w : q.cell.Value}

/-- Each request makes its change to what the row was at first. -/
theorem bothLoad_run (hc : c.request = .ok r) (hd : d.request = .ok q)
    (hr : r.edit (v₀ r.cell) = .ok v) (hq : q.edit (v₀ q.cell) = .ok w) :
    runSteps settingsStep (Cells.start Refusal v₀) (bothLoad c d) =
      some ⟨Function.update (Function.update v₀ r.cell v) q.cell w,
        [⟨r, .finished⟩, ⟨q, .finished⟩], [r, q]⟩ := by
  simp [bothLoad, runSteps, settingsStep, SettingsAction.onCells, hc, hd, Cells.step, Cells.start,
    Cells.write, Cells.finish, hr, hq]

/-- On two rows they do not race. -/
theorem bothLoad_unraced (hc : c.request = .ok r) (hd : d.request = .ok q)
    (hr : r.edit (v₀ r.cell) = .ok v) (hcell : q.cell ≠ r.cell) :
    StepsMeet settingsStep Unraced (Cells.start Refusal v₀) (bothLoad c d) := by
  simp only [bothLoad, StepsMeet, Unraced, settingsStep, SettingsAction.onCells, hc, hd, Cells.step,
    Cells.start, Cells.write, Cells.finish, hr, Cells.Current, Option.some.injEq, forall_eq', List.nil_append,
    List.cons_append, List.set_cons_zero, List.set_cons_succ, List.getElem?_cons_zero,
    List.getElem?_cons_succ, true_and, and_true, implies_true]
  constructor
  · intro r' seen h
    cases h
    rfl
  · intro q' seen h
    cases h
    exact (Function.update_of_ne hcell v v₀).symm

end BothLoad

/-- A call that stores a circle without members. -/
def circleCall (name : GoString) : SettingsCall := .circlesPost (some ⟨name, []⟩)

/-- Its request, if the name is trimmed. -/
def circleRequest (name : GoString) : SettingRequest :=
  ⟨.circles, fun circles => .ok (upsertCircle ⟨name, []⟩ circles), false⟩

theorem circleCall_request (name : GoString) (hne : name ≠ []) (htrim : trimSpace name = name) :
    (circleCall name).request = .ok (circleRequest name) := by
  simp [circleCall, SettingsCall.request, circlesPost, circleRequest, hne, htrim]

/-- A circle and a scope stored side by side. -/
theorem settings_serial_rows : ∃ s : SettingsServer,
    runSteps settingsStep (Cells.start Refusal Setting.blank)
      (bothLoad (circleCall "a") (.scopesPost (some ⟨"chat", "vpc", none⟩))) = some s ∧
    s.Serial Setting.blank := by
  have hc := circleCall_request "a" (by decide) (by decide)
  have hd : (SettingsCall.scopesPost (some ⟨"chat", "vpc", none⟩)).request = .ok ⟨.llmScopes, _, true⟩ := rfl
  refine ⟨_, bothLoad_run hc hd rfl rfl, ?_⟩
  exact settings_serial (bothLoad_run hc hd rfl rfl) (bothLoad_unraced hc hd rfl (by decide))

/-- Of two circles stored at the same time the second is left. -/
theorem circle_lost : ∃ s : SettingsServer,
    runSteps settingsStep (Cells.start Refusal Setting.blank)
      (bothLoad (circleCall "a") (circleCall "b")) = some s ∧
    s.acked = [circleRequest "a", circleRequest "b"] ∧ s.values .circles = [⟨"b", []⟩] ∧
    ¬ s.Serial Setting.blank := by
  have ha := circleCall_request "a" (by decide) (by decide)
  have hb := circleCall_request "b" (by decide) (by decide)
  refine ⟨_, bothLoad_run ha hb rfl rfl, rfl, rfl, ?_⟩
  rintro ⟨l, hl, happ⟩
  have hcircles := congrArg (fun x => x.toOption.map fun v : Settings => v .circles) happ
  rcases List.perm_pair.1 hl with rfl | rfl
  · exact absurd hcircles (by decide)
  · exact absurd hcircles (by decide)

/-!
## Proofs: the engine that answers a scope

The engine picked for everything always exists: picking one asks for the provider, and deleting a provider
that was picked goes back to the VPC. The routing stored for a scope is not looked at in either place, so it
stays good only as long as nobody stores an engine that is not there, or deletes the one that is stored.
-/

/-! ### The list of providers -/

theorem replaceProvider_ids {p : LLMProvider} {list list' : List LLMProvider}
    (h : replaceProvider p list = some list') : list'.map LLMProvider.id = list.map LLMProvider.id := by
  induction list generalizing list' with
  | nil => cases h
  | cons q rest ih =>
    unfold replaceProvider at h
    split at h
    · next hid =>
      cases h
      rw [List.map_cons, List.map_cons, hid]
      split <;> rfl
    · obtain ⟨rest', hrest, rfl⟩ := Option.map_eq_some_iff.1 h
      rw [List.map_cons, List.map_cons, ih hrest]

/-- An upsert takes no provider away. -/
theorem upsertProvider_ids {draw : GoString} {p : LLMProvider} {list list' : List LLMProvider}
    (h : upsertProvider draw p list = .ok list') :
    list.map LLMProvider.id ⊆ list'.map LLMProvider.id := by
  unfold upsertProvider at h
  split at h
  · cases h
    rw [List.map_append]
    exact List.subset_append_left ..
  · split at h
    · cases h
    · next l hl =>
      cases h
      rw [replaceProvider_ids hl]
      exact List.Subset.refl _

/-- A deletion takes the providers of the id, and no others. -/
theorem deleteProvider_eq {id : GoString} {list list' : List LLMProvider}
    (h : deleteProvider id list = .ok list') : list' = list.filter fun p => p.id ≠ id := by
  unfold deleteProvider at h
  split at h
  · cases h
    rfl
  · cases h

/-! ### What a call changes -/

/-- A request that is granted changes its own row. -/
theorem handle_ok {x : Except Refusal SettingRequest} {s s' : Settings} (h : handle x s = .ok s') :
    ∃ r v, x = .ok r ∧ r.edit (s r.cell) = .ok v ∧ s' = Function.update s r.cell v := by
  unfold handle at h
  cases x with
  | error e => cases h
  | ok r =>
    change Cells.apply s r = .ok s' at h
    unfold Cells.apply at h
    cases hv : r.edit (s r.cell) with
    | error e =>
      rw [hv] at h
      cases h
    | ok v =>
      rw [hv] at h
      cases h
      exact ⟨r, v, rfl, hv, rfl⟩

theorem providersPost_ok {draw : GoString} {body : Option LLMProvider} {r : SettingRequest}
    (h : providersPost draw body = .ok r) : ∃ p, r = ⟨.llmProviders, upsertProvider draw p, true⟩ := by
  unfold providersPost at h
  split at h
  · cases h
  · dsimp only at h
    split at h
    · cases h
    · cases h
      exact ⟨_, rfl⟩

theorem providersDelete_ok {id : GoString} {r : SettingRequest} (h : providersDelete id = .ok r) :
    r = ⟨.llmProviders, deleteProvider id, true⟩ := by
  unfold providersDelete at h
  split at h
  · cases h
  · cases h
    rfl

theorem handle_providersPost {draw : GoString} {body : Option LLMProvider} {s s' : Settings}
    (h : handle (providersPost draw body) s = .ok s') :
    ∃ list, (s .llmProviders).map LLMProvider.id ⊆ list.map LLMProvider.id ∧
      s' = Function.update s .llmProviders list := by
  obtain ⟨r, list, hr, hlist, rfl⟩ := handle_ok h
  obtain ⟨p, rfl⟩ := providersPost_ok hr
  exact ⟨list, upsertProvider_ids hlist, rfl⟩

theorem handle_providersDelete {id : GoString} {s s' : Settings}
    (h : handle (providersDelete id) s = .ok s') :
    s' = Function.update s .llmProviders ((s .llmProviders).filter fun p => p.id ≠ id) := by
  obtain ⟨r, list, hr, hlist, rfl⟩ := handle_ok h
  obtain rfl := providersDelete_ok hr
  rw [deleteProvider_eq hlist]

theorem handle_scopesPost {body : Option ScopeUpdate} {s s' : Settings}
    (h : handle (scopesPost body) s = .ok s') : ∃ u, body = some u ∧
      s' = Function.update s .llmScopes
        (Function.update (s .llmScopes) u.scope (some ⟨u.primary, u.fallbacks.getD []⟩)) := by
  obtain ⟨r, scopes, hr, hscopes, rfl⟩ := handle_ok h
  unfold scopesPost at hr
  split at hr
  · cases hr
  · next u =>
    split at hr
    · cases hr
    · cases hr
      cases hscopes
      exact ⟨u, rfl, rfl⟩

theorem llmProvidersDelete_ok {id : GoString} {s s' : Settings} (h : llmProvidersDelete id s = .ok s') :
    ∃ t, handle (providersDelete id) s = .ok t ∧
      s' = if activeEngine t = providerEngine id then Function.update t .llmEngine (str "vpc") else t := by
  unfold llmProvidersDelete at h
  cases ht : handle (providersDelete id) s with
  | error e =>
    rw [ht] at h
    cases h
  | ok t =>
    rw [ht] at h
    cases h
    exact ⟨t, rfl, rfl⟩

/-- The engine that is picked exists. -/
theorem llmEnginePost_ok {body : Option GoString} {s s' : Settings} (h : llmEnginePost body s = .ok s') :
    ∃ engine, EngineExists s engine ∧ s' = Function.update s .llmEngine engine := by
  unfold llmEnginePost at h
  split at h
  · cases h
  · next engine =>
    split at h
    · cases h
    · next hknown =>
      split at h
      · next hpre =>
        split at h
        · cases h
        · next p hp =>
          split at h
          · cases h
          · cases h
            unfold findProvider at hp
            refine ⟨engine, .inr (.inr (.inr ⟨p, List.mem_of_find?_eq_some hp, ?_⟩)), rfl⟩
            obtain ⟨id, rfl⟩ := List.isPrefixOf_iff_prefix.1 hpre
            rw [List.drop_left] at hp
            have hfound := List.find?_some hp
            have hid : p.id = id := of_decide_eq_true hfound
            rw [hid]
            rfl
      · next hpre =>
        cases h
        refine ⟨engine, ?_, rfl⟩
        by_cases hvpc : engine = "vpc"
        · exact .inr (.inr (.inl hvpc))
        · by_cases hphone : engine = "phone"
          · exact .inl hphone
          · exact absurd ⟨hvpc, hphone, eq_false_of_ne_true hpre⟩ hknown

/-! ### One call -/

/-- An engine other than the providers that are taken away still exists. -/
theorem engineExists_of_ids {s s' : Settings} {engine : GoString} (h : EngineExists s engine)
    (hids : ∀ id ∈ (s .llmProviders).map LLMProvider.id, engine = providerEngine id →
      id ∈ (s' .llmProviders).map LLMProvider.id) : EngineExists s' engine := by
  rcases h with hphone | hnone | hvpc | ⟨p, hp, hengine⟩
  · exact .inl hphone
  · exact .inr (.inl hnone)
  · exact .inr (.inr (.inl hvpc))
  · obtain ⟨q, hq, hid⟩ := List.mem_map.1 (hids p.id (List.mem_map_of_mem hp) hengine)
    exact .inr (.inr (.inr ⟨q, hq, by rw [hid, hengine]⟩))

/-- An engine whose provider is not the one deleted still exists. -/
theorem engineExists_delete {s s' : Settings} {id engine : GoString} (h : EngineExists s engine)
    (hne : engine ≠ providerEngine id)
    (hs' : s' .llmProviders = (s .llmProviders).filter fun p => p.id ≠ id) : EngineExists s' engine := by
  refine engineExists_of_ids h fun i hi hengine => ?_
  obtain ⟨p, hp, rfl⟩ := List.mem_map.1 hi
  rw [hs']
  refine List.mem_map_of_mem (List.mem_filter.2 ⟨hp, decide_eq_true ?_⟩)
  intro hid
  rw [hid] at hengine
  exact hne hengine

/-- A call that leaves the providers alone leaves the engines alone. -/
theorem engineExists_congr {s s' : Settings} {engine : GoString}
    (hs' : s' .llmProviders = s .llmProviders) : EngineExists s' engine ↔ EngineExists s engine := by
  unfold EngineExists IsVpcOrProvider
  rw [hs']

/-- A call that is granted takes the state where it says, any other leaves it as it is. -/
theorem engineStep_of_exec {P : Settings → Prop} {s s' : Settings} {c : EngineCall} (h : P s)
    (hexec : ∀ t, c.exec s = .ok t → P t) (hstep : engineStep s c = some s') : P s' := by
  unfold engineStep at hstep
  split at hstep
  · cases hstep
    exact h
  · next t ht =>
    cases hstep
    exact hexec _ ht

/-- The deletion of the provider that was picked picks the VPC. -/
theorem active_providersDelete {id : GoString} {s s' : Settings} (h : EngineExists s (s .llmEngine))
    (hcall : llmProvidersDelete id s = .ok s') : EngineExists s' (s' .llmEngine) := by
  obtain ⟨t, ht, rfl⟩ := llmProvidersDelete_ok hcall
  have hlist := handle_providersDelete ht
  split
  · exact .inr (.inr (.inl rfl))
  · next hother =>
    by_cases hnone : t .llmEngine = []
    · exact .inr (.inl hnone)
    · have hactive : activeEngine t = t .llmEngine := if_neg hnone
      have hsame : t .llmEngine = s .llmEngine := by rw [hlist]; rfl
      rw [hactive, hsame] at hother
      rw [hsame]
      exact engineExists_delete h hother (by rw [hlist]; rfl)

/-- Every call keeps an engine for everything that exists. -/
theorem active_step {s s' : Settings} {c : EngineCall} (h : EngineExists s (s .llmEngine))
    (hcall : c.exec s = .ok s') : EngineExists s' (s' .llmEngine) := by
  cases c with
  | providersPost draw body =>
    obtain ⟨list, hids, rfl⟩ := handle_providersPost hcall
    exact engineExists_of_ids h fun i hi _ => hids hi
  | providersDelete id => exact active_providersDelete h hcall
  | enginePost body =>
    obtain ⟨engine, hengine, rfl⟩ := llmEnginePost_ok hcall
    exact (engineExists_congr rfl).2 hengine
  | scopesPost body =>
    obtain ⟨u, -, rfl⟩ := handle_scopesPost hcall
    exact (engineExists_congr rfl).2 h

theorem stored_providersDelete {scope id : GoString} {s s' : Settings} (h : StoredExists scope s)
    (hkeeps : ∀ r, s .llmScopes scope = some r → r.primary ≠ providerEngine id)
    (hcall : llmProvidersDelete id s = .ok s') : StoredExists scope s' := by
  obtain ⟨t, ht, rfl⟩ := llmProvidersDelete_ok hcall
  have hlist := handle_providersDelete ht
  have hstored : StoredExists scope t := by
    intro r hr
    rw [hlist] at hr
    exact engineExists_delete (h r hr) (hkeeps r hr) (by rw [hlist]; rfl)
  split
  · exact fun r hr => (engineExists_congr rfl).2 (hstored r hr)
  · exact hstored

/-- The update of another scope leaves this one alone. -/
theorem stored_scopesPost {scope : GoString} {body : Option ScopeUpdate} {s s' : Settings}
    (h : StoredExists scope s) (hkeeps : KeepsScope scope s (.scopesPost body))
    (hcall : handle (scopesPost body) s = .ok s') : StoredExists scope s' := by
  obtain ⟨u, rfl, rfl⟩ := handle_scopesPost hcall
  intro r hr
  refine (engineExists_congr rfl).2 ?_
  rw [Function.update_self] at hr
  by_cases hscope : u.scope = scope
  · subst hscope
    rw [Function.update_self] at hr
    cases hr
    exact hkeeps rfl
  · rw [Function.update_of_ne (Ne.symm hscope)] at hr
    exact h r hr

theorem stored_step {scope : GoString} {s s' : Settings} {c : EngineCall} (h : StoredExists scope s)
    (hkeeps : KeepsScope scope s c) (hcall : c.exec s = .ok s') : StoredExists scope s' := by
  cases c with
  | providersPost draw body =>
    obtain ⟨list, hids, rfl⟩ := handle_providersPost hcall
    exact fun r hr => engineExists_of_ids (h r hr) fun i hi _ => hids hi
  | providersDelete id => exact stored_providersDelete h hkeeps hcall
  | enginePost body =>
    obtain ⟨engine, -, rfl⟩ := llmEnginePost_ok hcall
    exact fun r hr => (engineExists_congr rfl).2 (h r hr)
  | scopesPost body => exact stored_scopesPost h hkeeps hcall

/-! ### Runs -/

/-- The engine for everything exists after any calls. -/
theorem active_exists {calls : List EngineCall} {s : Settings}
    (hrun : runSteps engineStep Setting.blank calls = some s) : EngineExists s (s .llmEngine) :=
  runSteps_invariant (P := fun s => EngineExists s (s .llmEngine))
    (fun _ _ _ h hstep => engineStep_of_exec (P := fun s => EngineExists s (s .llmEngine)) h
      (fun _ hexec => active_step h hexec) hstep) hrun (.inr (.inl rfl))

theorem stored_exists {scope : GoString} {calls : List EngineCall} {s s' : Settings}
    (hrun : runSteps engineStep s calls = some s')
    (hkeeps : StepsMeet engineStep (KeepsScope scope) s calls) (h : StoredExists scope s) :
    StoredExists scope s' :=
  runSteps_invariant_of_meet
    (fun _ _ _ h hC hstep => engineStep_of_exec h (fun _ hexec => stored_step h hC hexec) hstep)
    hrun hkeeps h

theorem platformRouting_exists (s : Settings) : EngineExists s (platformRouting s).primary := by
  unfold platformRouting
  split
  · next p hp => exact .inr (.inr (.inr ⟨p, List.mem_of_find?_eq_some hp, rfl⟩))
  · exact .inr (.inr (.inl rfl))

/-- The routing of a scope names the stored engine, a provider of the list, or the engine for everything. -/
theorem getScopeRouting_exists {scope : GoString} {s : Settings} (hactive : EngineExists s (s .llmEngine))
    (hstored : StoredExists scope s) : EngineExists s (getScopeRouting s scope).primary := by
  unfold getScopeRouting
  split
  · next r hr => exact hstored r hr
  · split
    · exact platformRouting_exists s
    · split
      · exact .inr (.inr (.inl rfl))
      · unfold activeEngine
        split
        · exact .inr (.inr (.inl rfl))
        · exact hactive

/-- After any calls, the engine of a scope exists, if the one stored for the scope did at some time (none is
stored at first), and since then no call has set it to one that does not, or deleted its provider. -/
theorem scope_engine_exists {scope : GoString} {before calls : List EngineCall} {s s' : Settings}
    (hbefore : runSteps engineStep Setting.blank before = some s) (hstored : StoredExists scope s)
    (hrun : runSteps engineStep s calls = some s')
    (hkeeps : StepsMeet engineStep (KeepsScope scope) s calls) :
    EngineExists s' (getScopeRouting s' scope).primary :=
  getScopeRouting_exists (active_exists (runSteps_append_eq_some.2 ⟨s, hbefore, hrun⟩))
    (stored_exists hrun hkeeps hstored)

/-- A scope that was routed to a provider that does not exist, and then to the VPC. -/
def mendedCalls : List EngineCall :=
  [.scopesPost (some ⟨"chat", "provider:p_00000001", none⟩), .scopesPost (some ⟨"chat", "vpc", none⟩)]

/-- A provider is stored, the scope is routed to it, and another provider is deleted. -/
def kimiCalls : List EngineCall :=
  [.providersPost [0, 0, 0, 1] (some ⟨[], "kimi", "https://kimi", "key", [], "k3", true⟩),
    .scopesPost (some ⟨"chat", "provider:p_00000001", none⟩), .providersDelete "p_00000002"]

theorem kimi_answers : ∃ s, runSteps engineStep Setting.blank (mendedCalls ++ kimiCalls) = some s ∧
    EngineExists s (getScopeRouting s "chat").primary := by
  obtain ⟨s, hbefore⟩ : ∃ s, runSteps engineStep Setting.blank mendedCalls = some s := ⟨_, rfl⟩
  obtain ⟨s', hrun⟩ : ∃ s', runSteps engineStep s kimiCalls = some s' := by
    cases hbefore
    exact ⟨_, rfl⟩
  refine ⟨s', runSteps_append_eq_some.2 ⟨s, hbefore, hrun⟩, scope_engine_exists hbefore ?_ hrun ?_⟩
  · cases hbefore
    intro r hr
    cases hr
    exact .inr (.inr (.inl rfl))
  · refine ⟨trivial, fun s hs => ?_⟩
    cases hs
    refine ⟨fun _ => .inr (.inr (.inr ⟨_, List.mem_append_right _ (List.mem_singleton_self _), ?_⟩)), ?_⟩
    · decide
    · intro s hs
      cases hs
      refine ⟨fun r hr => ?_, fun _ _ => trivial⟩
      cases hr
      decide

/-- The phone is an engine that can be picked. -/
theorem phone_answers : ∃ s, runSteps engineStep Setting.blank [.enginePost (some "phone")] = some s ∧
    ¬ IsVpcOrProvider s (getScopeRouting s "chat").primary := by
  refine ⟨_, rfl, ?_⟩
  rintro (h | h | ⟨p, hp, -⟩)
  · exact absurd h (by decide)
  · exact absurd h (by decide)
  · exact absurd hp List.not_mem_nil

end Gafam.Relay
