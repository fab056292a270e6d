import Gafam.Relay.Discovery
import Gafam.Frontend.Proofs.DirectoryProofs

/-!
# What the relay learns from the directory

No answer of the route has a field `vpc_url` or `public_key`, so that the relay learns nothing; and a
request without a time takes the session token of the phone.
-/

namespace Gafam.Relay

open Gafam.Go Gafam.Frontend
open Gafam.Js (JsString JsonValue utf8Decode ascii)

/-! ## Strings -/

theorem codePoints_ne_nil {s : JsString} (h : s ≠ []) : codePoints s ≠ [] := by
  rcases s with _ | ⟨u, _ | ⟨v, s⟩⟩
  · exact absurd rfl h
  · exact List.cons_ne_nil _ _
  · unfold codePoints
    split_ifs <;> exact List.cons_ne_nil _ _

theorem decoded_ne_nil {s : JsString} (h : s ≠ []) : decoded s ≠ [] := by
  obtain ⟨r, rs, hr⟩ := List.exists_cons_of_ne_nil (codePoints_ne_nil h)
  unfold decoded
  rw [hr, List.flatMap_cons]
  exact fun hnil => encodeRune_ne_nil r (List.append_eq_nil_iff.1 hnil).1

/-! ## The answers -/

/-- A field that no member is meant for stays empty. -/
theorem decodeField_nil {name : GoString} {body : List (JsString × JsonValue)}
    (h : ∀ f ∈ body.map Prod.fst, isField name (decoded f) = false) : decodeField name body = [] := by
  unfold decodeField
  induction body with
  | nil => rfl
  | cons m body ih =>
    have hm := h m.1 (List.mem_map_of_mem (List.mem_cons_self ..))
    rw [List.foldl_cons, hm]
    exact ih fun f hf => h f (List.mem_cons_of_mem _ hf)

/-- The names of the members that the answers of the route have. -/
def answerFields : List JsString :=
  [ascii "error", ascii "success", ascii "reason", ascii "vpcUrl", ascii "sessionToken",
    ascii "certFingerprint", ascii "encrypted_safe", ascii "salt", ascii "iv", ascii "is_fake",
    ascii "locked_down_correct_time"]

theorem answerFields_foreign : ∀ f ∈ answerFields,
    isField "vpc_url" (decoded f) = false ∧ isField "public_key" (decoded f) = false :=
  forall_of_all (by decide)

theorem outcome_fields {db : Database} {clock : Nat} {l : Lookup} {r : Response}
    (h : Outcome db clock l r) : ∀ f ∈ r.fields, f ∈ answerFields := by
  have hsafe : ∀ f ∈ [ascii "success", ascii "encrypted_safe", ascii "salt", ascii "iv", ascii "is_fake",
      ascii "locked_down_correct_time"], f ∈ answerFields := forall_of_all (by decide)
  have hmany : ∀ f ∈ [ascii "error"], f ∈ answerFields := forall_of_all (by decide)
  intro f hf
  cases h with
  | refused _ => exact hmany f hf
  | real _ _ s => exact hsafe f (List.mem_append_left [ascii "is_fake", ascii "locked_down_correct_time"] hf)
  | lockdown _ _ d =>
    refine hsafe f ?_
    have hf : f ∈ [ascii "success", ascii "encrypted_safe", ascii "salt", ascii "iv"] ++
        [ascii "locked_down_correct_time"] := hf
    exact (List.mem_append.1 hf).elim (List.mem_append_left _)
      fun h => List.mem_append_right [_, _, _, _, _] h
  | fake _ _ d =>
    exact hsafe f (List.mem_append_left [ascii "locked_down_correct_time"] hf)

theorem legacy_fields (cloud : Cloud) (phone : JsString) :
    ∀ f ∈ (legacyGet cloud phone).2.fields, f ∈ answerFields := by
  have hlogin : ∀ f ∈ [ascii "success", ascii "vpcUrl", ascii "sessionToken", ascii "certFingerprint"],
      f ∈ answerFields := forall_of_all (by decide)
  have hspent : ∀ f ∈ [ascii "success", ascii "reason"], f ∈ answerFields := forall_of_all (by decide)
  intro f hf
  unfold legacyGet at hf
  split at hf
  · exact hspent f (List.mem_append_left [ascii "reason"] hf)
  · split at hf
    · exact hspent f hf
    · exact hlogin f hf

/-- No answer of the route has a member besides these. -/
theorem gets_fields {cloud cloud' : Cloud} {ip : JsString} {phone time : Option JsString} {r : Response}
    (h : Gets cloud ip phone time cloud' r) : ∀ f ∈ r.fields, f ∈ answerFields := by
  cases h with
  | missing _ => exact forall_of_all (by decide)
  | legacy _ _ => exact legacy_fields cloud _
  | lookup _ _ hlook =>
    obtain ⟨choices, safe, hrun⟩ := hlook
    exact outcome_fields (replies_outcome ⟨choices, _, safe, hrun⟩)

/-! ## The relay -/

/-- The relay learns nothing from the route. -/
theorem readAnswer_nothing {r : Response} (h : ∀ f ∈ r.fields, f ∈ answerFields) :
    readAnswer r = ([], []) := by
  unfold readAnswer
  split_ifs
  · rfl
  · rw [decodeField_nil fun f hf => (answerFields_foreign f (h f hf)).1,
      decodeField_nil fun f hf => (answerFields_foreign f (h f hf)).2]

theorem discovers_nothing {cloud cloud' : Cloud} {selfPhone phone : GoString} {result : GoString × GoString}
    (h : Discovers cloud selfPhone phone cloud' result) : result = ([], []) := by
  cases h with
  | own _ => rfl
  | failed _ => rfl
  | lost _ _ => rfl
  | answered _ hget => exact readAnswer_nothing (gets_fields hget)

/-- A request without a time takes the token of the phone. -/
theorem legacy_spends {cloud : Cloud} {l : Listing} {token : JsString} (hl : l ∈ cloud.listings)
    (htoken : l.sessionToken = some token) (hne : token ≠ []) :
    l ∉ (legacyGet cloud l.phoneNumber).1.listings := by
  have hfind : cloud.listings.find? (fun m => m.phoneNumber = l.phoneNumber) = some l := by
    cases hm : cloud.listings.find? fun m => m.phoneNumber = l.phoneNumber with
    | none => exact absurd (decide_eq_true rfl) (List.find?_eq_none.1 hm l hl)
    | some m =>
      have hphone : m.phoneNumber = l.phoneNumber := by simpa using List.find?_some hm
      rw [List.inj_on_of_nodup_map cloud.unique (List.mem_of_find?_eq_some hm) hl hphone]
  have hlive : l.sessionToken.filter (fun t => t ≠ []) = some token := by
    rw [htoken]
    exact Option.filter_some_pos (decide_eq_true hne)
  unfold legacyGet
  rw [hfind]
  simp only [hlive]
  intro hmem
  obtain ⟨m, -, hm⟩ := List.mem_map.1 hmem
  -- a row that keeps its token is not one of this phone
  split_ifs at hm with hphone
  · rw [← hm] at htoken
    cases htoken
  · exact hphone (congrArg Listing.phoneNumber hm)

/-- No call of `discoverVpcURL` does what it should, for no registered phone and no tables. -/
theorem never_agrees {cloud cloud' : Cloud} {l : Listing} {selfPhone phone : GoString}
    {result : GoString × GoString} (hlisted : Listed cloud phone l)
    (h : Discovers cloud selfPhone phone cloud' result) : ¬Agrees cloud l cloud' result := by
  intro hagree
  have hurl := hagree.vpcURL
  rw [discovers_nothing h] at hurl
  exact decoded_ne_nil hlisted.url hurl.symm

/-! ## One phone -/

/-- A phone with a URL and a token. -/
def listing0612 : Listing :=
  ⟨ascii "0612345678", ascii "http://203.0.113.7:5150", some (ascii "6f1d"), none⟩

theorem noRates_unique : ([] : List RateLimit).Pairwise fun r r' =>
    ¬ (r.ipAddress = r'.ipAddress ∧ r.phoneNumber = r'.phoneNumber) := List.Pairwise.nil

def noSafes : Database := ⟨Lib.Table.empty, [], noRates_unique⟩

/-- The tables with this phone, and without safes. -/
def oneListing : Cloud := ⟨[listing0612], List.nodup_singleton _, noSafes, 0⟩

theorem listed_0612 : Listed oneListing "0612345678" listing0612 :=
  ⟨List.mem_singleton.2 rfl, by decide, by decide⟩

/-- The request of another relay about the phone. -/
theorem gets_0612 : Gets oneListing (ascii "203.0.113.8")
    (getParam (directoryQuery "0698765432" "0612345678") (ascii "phone"))
    (getParam (directoryQuery "0698765432" "0612345678") (ascii "time"))
    (legacyGet oneListing listing0612.phoneNumber).1
    (legacyGet oneListing listing0612.phoneNumber).2 := by
  have hphone : getParam (directoryQuery "0698765432" "0612345678") (ascii "phone") =
      some listing0612.phoneNumber := by decide
  have htime : getParam (directoryQuery "0698765432" "0612345678") (ascii "time") = none := by
    decide
  rw [hphone, htime]
  exact .legacy (by decide) rfl

theorem never_agrees_0612 : ¬Agrees oneListing listing0612
    (legacyGet oneListing listing0612.phoneNumber).1
    (readAnswer (legacyGet oneListing listing0612.phoneNumber).2) :=
  never_agrees listed_0612 (.answered (by decide) gets_0612)

/-- The route answers with `200`, the relay reads no URL in the answer, and the token is gone. -/
theorem discovery_spends_token : ∃ cloud' result,
    Discovers oneListing "0698765432" "0612345678" cloud' result ∧
      Listed oneListing "0612345678" listing0612 ∧ result ≠ (decoded listing0612.vpcUrl, []) ∧
      listing0612 ∉ cloud'.listings := by
  refine ⟨_, _, .answered (by decide) gets_0612, listed_0612, by decide, ?_⟩
  exact legacy_spends (List.mem_singleton.2 rfl) rfl (by decide)

end Gafam.Relay
