import Gafam.Karaka.Registry

/-!
# When a permission does not depend on the order

`CheckPermission` takes the first wildcard that matches in the order of the visit, which may be any of
them. So it follows its documentation exactly if the wildcards that match give one answer. For the
tables that the relay registers they do.
-/

namespace Gafam.Karaka

open Gafam.Go

variable {r : Registry} {k : Karaka} {karakaID toolID : GoString}

/-! ## The wildcards that match -/

theorem wildcardMatches_iff {key : GoString} :
    wildcardMatches toolID key = true ↔ ∃ start, key = start ++ str "*" ∧ start <+: toolID := by
  unfold wildcardMatches trimSuffix
  rw [Bool.and_eq_true]
  constructor
  · rintro ⟨hstar, hstart⟩
    rw [if_pos hstar] at hstart
    obtain ⟨start, rfl⟩ := List.isSuffixOf_iff_suffix.1 hstar
    have htake : (start ++ str "*").take ((start ++ str "*").length - (str "*").length) = start := by
      rw [List.length_append, Nat.add_sub_cancel, List.take_left]
    rw [htake] at hstart
    exact ⟨start, rfl, List.isPrefixOf_iff_prefix.1 hstart⟩
  · rintro ⟨start, rfl, hstart⟩
    have hstar : hasSuffix (start ++ str "*") "*" = true :=
      List.isSuffixOf_iff_suffix.2 (List.suffix_append ..)
    refine ⟨hstar, ?_⟩
    rw [if_pos hstar, List.length_append, Nat.add_sub_cancel, List.take_left]
    exact List.isPrefixOf_iff_prefix.2 hstart

/-- Of two wildcards that match, one goes on where the other ends. -/
theorem wildcards_nested {key key' : GoString} (h : wildcardMatches toolID key = true)
    (h' : wildcardMatches toolID key' = true) (hle : key.length ≤ key'.length) :
    ∃ start rest, key = start ++ str "*" ∧ key' = start ++ rest ++ str "*" := by
  obtain ⟨start, rfl, hstart⟩ := wildcardMatches_iff.1 h
  obtain ⟨start', rfl, hstart'⟩ := wildcardMatches_iff.1 h'
  rw [List.length_append, List.length_append, Nat.add_le_add_iff_right] at hle
  obtain ⟨rest, rfl⟩ := List.prefix_of_prefix_length_le hstart hstart' hle
  exact ⟨start, rest, rfl, rfl⟩

/-- A tool has at most one matching wildcard of each length. -/
theorem wildcards_unique {e e' : Entry} (he : e ∈ k.tools.entries) (he' : e' ∈ k.tools.entries)
    (h : wildcardMatches toolID e.1 = true) (h' : wildcardMatches toolID e'.1 = true)
    (hlen : e.1.length = e'.1.length) : e = e' := by
  obtain ⟨start, rest, hkey, hkey'⟩ := wildcards_nested h h' (Nat.le_of_eq hlen)
  have hrest : rest = [] := by
    rw [hkey, hkey'] at hlen
    simp only [List.length_append] at hlen
    exact List.length_eq_zero_iff.1 (by omega)
  rw [hrest, List.append_nil] at hkey'
  exact k.tools.nodupKeys.eq_of_fst_eq he he' (hkey.trans hkey'.symm)

theorem mostSpecific_spec {l : List Entry}
    {e : Entry} (h : mostSpecific toolID l = some e) :
    e ∈ l ∧ wildcardMatches toolID e.1 = true ∧
      ∀ e' ∈ l, wildcardMatches toolID e'.1 = true → e'.1.length ≤ e.1.length := by
  obtain ⟨hmem, hmatch⟩ := List.mem_filter.1 (List.argmax_mem h)
  refine ⟨hmem, hmatch, fun e' he' hmatch' => ?_⟩
  have hlong := List.le_of_mem_argmax (f := fun e : Entry => e.1.length)
    (List.mem_filter.2 ⟨he', hmatch'⟩) h
  exact hlong

theorem mostSpecific_eq_none {l : List Entry} :
    mostSpecific toolID l = none ↔ ∀ e ∈ l, ¬ wildcardMatches toolID e.1 = true := by
  unfold mostSpecific
  rw [List.argmax_eq_none, List.filter_eq_nil_iff]

/-- The most specific wildcard does not depend on the order. -/
theorem mostSpecific_ranges {order : List Entry} (horder : Ranges k.tools order) :
    mostSpecific toolID order = mostSpecific toolID k.tools.entries := by
  cases hbest : mostSpecific toolID k.tools.entries with
  | none =>
    have hnone := mostSpecific_eq_none.1 hbest
    exact mostSpecific_eq_none.2 fun e he => hnone e (horder.mem_iff.1 he)
  | some e =>
    obtain ⟨hmem, hmatch, hlong⟩ := mostSpecific_spec hbest
    cases hbest' : mostSpecific toolID order with
    | none => exact absurd hmatch (mostSpecific_eq_none.1 hbest' e (horder.mem_iff.2 hmem))
    | some e' =>
      obtain ⟨hmem', hmatch', hlong'⟩ := mostSpecific_spec hbest'
      have hlen := Nat.le_antisymm (hlong e' (horder.mem_iff.1 hmem') hmatch')
        (hlong' e (horder.mem_iff.2 hmem) hmatch)
      rw [wildcards_unique (horder.mem_iff.1 hmem') hmem hmatch' hmatch hlen]

/-- Where the wildcards agree, the first one of any visit gives the permission of the longest. -/
theorem first_of_agree (h : WildcardsAgree k toolID)
    {order : List Entry} (horder : Ranges k.tools order) :
    (order.find? fun e => wildcardMatches toolID e.1).map Sigma.snd =
      (mostSpecific toolID k.tools.entries).map Sigma.snd := by
  cases hbest : mostSpecific toolID k.tools.entries with
  | none =>
    have hnone := mostSpecific_eq_none.1 hbest
    rw [List.find?_eq_none.2 fun e he => hnone e (horder.mem_iff.1 he)]
  | some e =>
    obtain ⟨hmem, hmatch, -⟩ := mostSpecific_spec hbest
    cases hfirst : order.find? fun e => wildcardMatches toolID e.1 with
    | none => exact absurd hmatch (List.find?_eq_none.1 hfirst e (horder.mem_iff.2 hmem))
    | some e' =>
      have hmem' := horder.mem_iff.1 (List.mem_of_find?_eq_some hfirst)
      have hmatch' : wildcardMatches toolID e'.1 = true :=
        List.find?_some (p := fun e : Entry => wildcardMatches toolID e.1) hfirst
      exact congrArg some (h e' hmem' e hmem hmatch' hmatch)

/-- Any wildcard that matches may be the first. -/
theorem exists_order {e : Entry} (he : e ∈ k.tools.entries)
    (hmatch : wildcardMatches toolID e.1 = true) :
    ∃ order, Ranges k.tools order ∧
      (order.find? fun e => wildcardMatches toolID e.1) = some e := by
  obtain ⟨before, after, hsplit⟩ := List.append_of_mem he
  refine ⟨e :: (before ++ after), ?_, List.find?_cons_of_pos hmatch⟩
  unfold Ranges
  rw [hsplit]
  exact List.perm_middle.symm

/-! ## The resolution -/

/-- `CheckPermission` follows the documented resolution in every order of the visit exactly if the
kāraka is not registered, or has a permission for the tool itself, or its wildcards that match agree. -/
theorem checkPermission_documented_iff (r : Registry) (karakaID toolID : GoString) :
    (∀ order, (∀ k, r.karakaList.lookup karakaID = some k → Ranges k.tools order) →
      checkPermission r order karakaID toolID = documentedPermission r karakaID toolID) ↔
    ∀ k, r.karakaList.lookup karakaID = some k → k.tools.lookup toolID = none →
      WildcardsAgree k toolID := by
  constructor
  · intro h k hk hno e he e' he' hmatch hmatch'
    have hfirst : ∀ e ∈ k.tools.entries, wildcardMatches toolID e.1 = true →
        e.2 = documentedPermission r karakaID toolID := by
      intro e he hmatch
      obtain ⟨order, horder, hfind⟩ := exists_order he hmatch
      have hcheck := h order fun k' hk' => Option.some.inj (hk.symm.trans hk') ▸ horder
      rw [← hcheck]
      simp only [checkPermission, hk, hno, hfind]
    rw [hfirst e he hmatch, hfirst e' he' hmatch']
  · intro h order horder
    unfold checkPermission documentedPermission
    cases hk : r.karakaList.lookup karakaID with
    | none => rfl
    | some k =>
      cases hno : k.tools.lookup toolID with
      | some perm => simp only [hno]
      | none =>
        have hagree := first_of_agree (h k hk hno) (horder k hk)
        simp only [hno]
        cases hfirst : order.find? fun e => wildcardMatches toolID e.1 with
        | none =>
          cases hbest : mostSpecific toolID k.tools.entries with
          | none => rfl
          | some e => rw [hfirst, hbest] at hagree; cases hagree
        | some e =>
          cases hbest : mostSpecific toolID k.tools.entries with
          | none => rw [hfirst, hbest] at hagree; cases hagree
          | some e' =>
            rw [hfirst, hbest] at hagree
            exact Option.some.inj hagree

/-- Wildcards of which one goes on where the other ends give the same permission. -/
def nestedAgree (l : List Entry) : Bool :=
  l.all fun e => l.all fun e' =>
    !(hasSuffix e.1 "*" && hasSuffix e'.1 "*" && hasPrefix e'.1 (trimSuffix e.1 "*")) || e.2 == e'.2

theorem agree_of_nested (h : nestedAgree k.tools.entries = true) (toolID : GoString) :
    WildcardsAgree k toolID := by
  have hshort : ∀ e ∈ k.tools.entries, ∀ e' ∈ k.tools.entries, wildcardMatches toolID e.1 = true →
      wildcardMatches toolID e'.1 = true → e.1.length ≤ e'.1.length → e.2 = e'.2 := by
    intro e he e' he' hmatch hmatch' hle
    have hpair := List.all_eq_true.1 (List.all_eq_true.1 h e he) e' he'
    obtain ⟨start, rest, hkey, hkey'⟩ := wildcards_nested hmatch hmatch' hle
    have hstar : hasSuffix e.1 "*" = true := (Bool.and_eq_true_iff.1 hmatch).1
    have hstar' : hasSuffix e'.1 "*" = true := (Bool.and_eq_true_iff.1 hmatch').1
    have htrim : trimSuffix e.1 "*" = start := by
      unfold trimSuffix
      rw [if_pos hstar, hkey, List.length_append, Nat.add_sub_cancel, List.take_left]
    have hstart : hasPrefix e'.1 start = true := by
      rw [hkey', List.append_assoc]
      exact List.isPrefixOf_iff_prefix.2 (List.prefix_append ..)
    rw [hstar, hstar', htrim, hstart] at hpair
    exact eq_of_beq hpair
  intro e he e' he' hmatch hmatch'
  rcases Nat.le_total e.1.length e'.1.length with hle | hle
  · exact hshort e he e' he' hmatch hmatch' hle
  · exact (hshort e' he' e he hmatch' hmatch hle).symm

/-- The registry of the relay. -/
def registered : Registry :=
  registerMCPPermissions (registerActionToolPermissions (registerDefaultKarakas .empty))

/-- In the tables of the relay the wildcards of every kāraka agree on every tool. -/
theorem registered_agree (toolID : GoString) (hk : registered.karakaList.lookup karakaID = some k) :
    WildcardsAgree k toolID := by
  apply agree_of_nested
  have hall : (registered.karakaList.entries.all fun e => nestedAgree e.2.tools.entries) = true := by
    decide
  exact List.all_eq_true.1 hall ⟨karakaID, k⟩ (AList.mem_lookup_iff.1 hk)

/-- A kāraka that may use the browser, but has to ask for the tools of the shared window. -/
def askingPhone : Registry :=
  registerKaraka ⟨"edge_l2_phone", stringMap [("browser.*", "allow"), ("browser.mcp_*", "ask")]⟩
    (registerTool ⟨"browser.mcp_click", "browser"⟩ .empty)

/-- The order in which the permissions are visited decides. -/
theorem checkPermission_differs : ¬ ∀ r karakaID toolID order,
    (∀ k, r.karakaList.lookup karakaID = some k → Ranges k.tools order) →
    checkPermission r order karakaID toolID = documentedPermission r karakaID toolID := by
  intro hall
  have h := hall askingPhone "edge_l2_phone" "browser.mcp_click"
    [⟨str "browser.*", str "allow"⟩, ⟨str "browser.mcp_*", str "ask"⟩] fun k hk => by
      cases hk
      exact List.Perm.swap ..
  revert h
  decide

end Gafam.Karaka
