import Gafam.Go.Text
import Mathlib.Data.List.AList
import Mathlib.Data.List.MinMax

/-!
# The registry of tools and kāraka

A kāraka has a permission for each tool it may use, by the id of the tool or by a wildcard. Go visits a
map in an order that changes from run to run, so that the order in which `CheckPermission` visits the
permissions is a parameter.
-/

namespace Gafam.Karaka

open Gafam.Go

/-- A map with strings as keys. -/
abbrev StringMap (β : Type) := AList fun _ : GoString => β

/-- The entries of a map, in one of the orders in which `range` may visit them. -/
def Ranges {β : Type} (m : StringMap β) (order : List (Sigma fun _ : GoString => β)) : Prop :=
  order.Perm m.entries

/-- A permission with its key. -/
abbrev Entry := Sigma fun _ : GoString => GoString

structure Tool where
  id : GoString
  category : GoString

structure Karaka where
  id : GoString
  tools : StringMap GoString

structure Registry where
  tools : StringMap Tool
  karakaList : StringMap Karaka

/-- The registry before anything is registered. -/
def Registry.empty : Registry := ⟨∅, ∅⟩

/-- `RegisterTool`. -/
def registerTool (t : Tool) (r : Registry) : Registry := { r with tools := r.tools.insert t.id t }

/-- `RegisterKaraka`. -/
def registerKaraka (k : Karaka) (r : Registry) : Registry :=
  { r with karakaList := r.karakaList.insert k.id k }

/-- `SetPermissions`. -/
def setPermissions (karakaID : GoString) (perms : StringMap GoString) (r : Registry) : Registry :=
  match r.karakaList.lookup karakaID with
  | none => r
  | some k =>
    let k := { k with tools := perms.entries.foldl (fun m e => m.insert e.1 e.2) k.tools }
    { r with karakaList := r.karakaList.insert karakaID k }

/-- A key that ends in a star, and what stands before the star begins the id of the tool. -/
def wildcardMatches (toolID key : GoString) : Bool :=
  hasSuffix key "*" && hasPrefix toolID (trimSuffix key "*")

/-- The category of a tool, empty for a tool that is not registered. -/
def Registry.category (r : Registry) (toolID : GoString) : GoString :=
  match r.tools.lookup toolID with
  | some t => t.category
  | none => []

/-- `CheckPermission`, when `range` visits the permissions of the kāraka in this order. -/
def checkPermission (r : Registry) (order : List Entry)
    (karakaID toolID : GoString) : GoString :=
  match r.karakaList.lookup karakaID with
  | none => "deny"
  | some k =>
    match k.tools.lookup toolID with
    | some perm => perm
    | none =>
      match order.find? fun e => wildcardMatches toolID e.1 with
      | some e => e.2
      | none => (k.tools.lookup (r.category toolID ++ str ".*")).getD "deny"

/-! ## The documented resolution -/

/-- The matching wildcard with the longest key. -/
def mostSpecific (toolID : GoString) (l : List Entry) :
    Option Entry :=
  (l.filter fun e => wildcardMatches toolID e.1).argmax fun e => e.1.length

/-- The resolution that the comment on `CheckPermission` describes: the exact id, then the most specific
wildcard, then the category. -/
def documentedPermission (r : Registry) (karakaID toolID : GoString) : GoString :=
  match r.karakaList.lookup karakaID with
  | none => "deny"
  | some k =>
    match k.tools.lookup toolID with
    | some perm => perm
    | none =>
      match mostSpecific toolID k.tools.entries with
      | some e => e.2
      | none => (k.tools.lookup (r.category toolID ++ str ".*")).getD "deny"

/-- All wildcards of a kāraka that match a tool give the same permission. -/
def WildcardsAgree (k : Karaka) (toolID : GoString) : Prop :=
  ∀ e ∈ k.tools.entries, ∀ e' ∈ k.tools.entries, wildcardMatches toolID e.1 = true →
    wildcardMatches toolID e'.1 = true → e.2 = e'.2

/-! ## The tables of the relay -/

/-- A map with these entries. -/
def stringMap (l : List (GoString × GoString)) : StringMap GoString :=
  l.foldl (fun m e => m.insert e.1 e.2) ∅

/-- `RegisterDefaultKarakas`. -/
def registerDefaultKarakas (r : Registry) : Registry :=
  registerKaraka
    ⟨"edge_l2_phone", stringMap
      [("sandbox.*", "allow"), ("browser.*", "allow"), ("research.*", "allow"), ("llm.chat", "allow")]⟩
    (registerKaraka
      ⟨"suparna_vpc", stringMap
        [("sandbox.exec", "ask"), ("sandbox.shell", "ask"), ("sandbox.tree", "allow"),
          ("sandbox.file_read", "allow"), ("sandbox.file_list", "allow"),
          ("sandbox.file_write", "ask"), ("sandbox.storage", "allow"), ("browser.fetch", "allow"),
          ("browser.sense", "allow"), ("browser.navigate", "ask"), ("browser.window", "allow"),
          ("browser.status", "allow"), ("browser.input", "ask"), ("browser.cdp_click", "allow"),
          ("browser.cdp_type", "allow"), ("browser.cdp_eval", "allow"), ("browser.cdp_text", "allow"),
          ("browser.cdp_nav", "allow"), ("research.search", "allow"), ("research.notes", "allow"),
          ("research.fetch", "ask"), ("research.note", "allow"), ("llm.chat", "allow"),
          ("karaka.delegate", "allow")]⟩ r)

/-- `registerActionToolPermissions`. -/
def registerActionToolPermissions (r : Registry) : Registry :=
  setPermissions "edge_l2_phone"
    (stringMap
      [("sms.*", "ask"), ("contacts.*", "allow"), ("feed.*", "ask"), ("vault.*", "allow"),
        ("custom.*", "allow"), ("memory.*", "allow")])
    (setPermissions "suparna_vpc"
      (stringMap
        [("sms.send", "ask"), ("sms.history", "allow"), ("contacts.search", "allow"),
          ("feed.publish", "ask"), ("vault.remember", "allow"), ("custom.*", "allow"),
          ("memory.*", "allow"), ("contacts.auto_analyze", "allow")]) r)

/-- The permissions that `registerMCPTools` sets for the tools of the browser. -/
def registerMCPPermissions (r : Registry) : Registry :=
  setPermissions "edge_l2_phone" (stringMap [("browser.mcp_*", "allow")])
    (setPermissions "suparna_vpc" (stringMap [("browser.mcp_*", "allow")]) r)

end Gafam.Karaka
