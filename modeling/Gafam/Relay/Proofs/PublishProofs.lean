import Gafam.Go.Proofs.MarshalProofs
import Gafam.Relay.Proofs.SigningProofs

/-!
# From publishing to verifying

An envelope that is served comes back with its texts re-encoded, and nothing else changed. So its
signature still holds exactly when its texts are UTF-8, and the text about a mission is, unless it is
cut inside a character.
-/

namespace Gafam.Relay

open Gafam.Go Gafam.Lib

/-! ## A feed that is served and decoded -/

/-- What arrives of an envelope. -/
def Envelope.received (e : Envelope) : Envelope :=
  { e with
    authorPhone := reencode e.authorPhone
    recipientPhone := reencode e.recipientPhone
    content := reencode e.content
    signature := reencode e.signature
    createdAt := reencode e.createdAt }

/-- The members of an envelope with their values. -/
def Envelope.values (e : Envelope) : List (GoString × GoString × JsonTree) :=
  [(str "id", itoa e.id.toInt, .num (itoa e.id.toInt)),
    (str "author_phone", marshalString e.authorPhone, .str (reencode e.authorPhone)),
    (str "recipient_phone", marshalString e.recipientPhone, .str (reencode e.recipientPhone)),
    (str "content", marshalString e.content, .str (reencode e.content))] ++
  (if e.signature = [] then []
    else [(str "signature", marshalString e.signature, .str (reencode e.signature))]) ++
  (if e.signedTs = 0 then []
    else [(str "signed_ts", itoa e.signedTs.toInt, .num (itoa e.signedTs.toInt))]) ++
  [(str "created_at", marshalString e.createdAt, .str (reencode e.createdAt))]

theorem written_values (e : Envelope) : written e.values = e.members := by
  unfold written Envelope.values Envelope.members
  by_cases hsig : e.signature = [] <;> by_cases hts : e.signedTs = 0 <;> simp [hsig, hts]

theorem parses_values (e : Envelope) : ∀ m ∈ e.values, Parses 0 m.2.1 m.2.2 := by
  intro m hm
  unfold Envelope.values at hm
  simp only [List.mem_append, List.mem_cons, List.not_mem_nil, or_false] at hm
  rcases hm with (((rfl | rfl | rfl | rfl) | hm) | hm) | rfl
  · exact parses_int 0 _
  · exact parses_string 0 _
  · exact parses_string 0 _
  · exact parses_string 0 _
  · split_ifs at hm
    · cases hm
    · rw [List.mem_singleton.1 hm]
      exact parses_string 0 _
  · split_ifs at hm
    · cases hm
    · rw [List.mem_singleton.1 hm]
      exact parses_int 0 _
  · exact parses_string 0 _

section Members

variable (e : Envelope) (v : JsonTree)

theorem member_id :
    e.member (reencode (str "id"), v) = { e with id := decodeInt64 e.id v } := by
  unfold Envelope.member
  dsimp only
  rw [if_pos (by decide)]

theorem member_authorPhone :
    e.member (reencode (str "author_phone"), v) = { e with authorPhone := decodeString e.authorPhone v } := by
  unfold Envelope.member
  dsimp only
  rw [if_neg (by decide), if_pos (by decide)]

theorem member_recipientPhone :
    e.member (reencode (str "recipient_phone"), v) = { e with recipientPhone := decodeString e.recipientPhone v } := by
  unfold Envelope.member
  dsimp only
  rw [if_neg (by decide), if_neg (by decide), if_pos (by decide)]

theorem member_content :
    e.member (reencode (str "content"), v) = { e with content := decodeString e.content v } := by
  unfold Envelope.member
  dsimp only
  rw [if_neg (by decide), if_neg (by decide), if_neg (by decide), if_pos (by decide)]

theorem member_signature :
    e.member (reencode (str "signature"), v) = { e with signature := decodeString e.signature v } := by
  unfold Envelope.member
  dsimp only
  rw [if_neg (by decide), if_neg (by decide), if_neg (by decide), if_neg (by decide),
    if_pos (by decide)]

theorem member_signedTs :
    e.member (reencode (str "signed_ts"), v) = { e with signedTs := decodeInt64 e.signedTs v } := by
  unfold Envelope.member
  dsimp only
  rw [if_neg (by decide), if_neg (by decide), if_neg (by decide), if_neg (by decide),
    if_neg (by decide), if_pos (by decide)]

theorem member_createdAt :
    e.member (reencode (str "created_at"), v) = { e with createdAt := decodeString e.createdAt v } := by
  unfold Envelope.member
  dsimp only
  rw [if_neg (by decide), if_neg (by decide), if_neg (by decide), if_neg (by decide),
    if_neg (by decide), if_neg (by decide), if_pos (by decide)]

end Members

theorem decodeInt64_itoa (old n : Int64) : decodeInt64 old (.num (itoa n.toInt)) = n := by
  unfold decodeInt64
  dsimp only
  rw [atoi_toInt]
  exact Int64.ofInt_toInt n

/-- An envelope is decoded from its members. -/
theorem decode_values (e : Envelope) :
    Envelope.zero.decode (.obj (readBack e.values)) = e.received := by
  unfold Envelope.decode Envelope.values readBack Envelope.received
  by_cases hsig : e.signature = [] <;> by_cases hts : e.signedTs = 0 <;>
    simp [hsig, hts, member_id, member_authorPhone, member_recipientPhone, member_content,
      member_signature, member_signedTs, member_createdAt, decodeInt64_itoa, decodeString,
      Envelope.zero]

theorem decodeElements_nil (l : List JsonTree) :
    decodeElements l [] = l.map Envelope.zero.decode := by
  induction l with
  | nil => rfl
  | cons v l ih =>
    unfold decodeElements
    rw [ih, List.map_cons]

theorem decode_slice (l : List JsonTree) :
    (EnvelopeSlice.decode ⟨[], 0⟩ (.arr l)).toList = l.map Envelope.zero.decode := by
  cases l with
  | nil => rfl
  | cons v l =>
    have hdecode : EnvelopeSlice.decode ⟨[], 0⟩ (.arr (v :: l)) =
        ⟨decodeElements (v :: l) [], (v :: l).length⟩ := rfl
    rw [hdecode, decodeElements_nil]
    exact List.take_of_length_le (by rw [List.length_map])

/-- The elements of a feed with their values. -/
def feedElements (envelopes : List Envelope) : List (GoString × JsonTree) :=
  envelopes.map fun e => (marshalObject e.members, .obj (readBack e.values))

/-- The member of a feed with its value. -/
def feedValues (envelopes : List Envelope) : List (GoString × GoString × JsonTree) :=
  [(str "envelopes", marshalArray ((feedElements envelopes).map Prod.fst),
    .arr ((feedElements envelopes).map Prod.snd))]

theorem parses_feedValues (envelopes : List Envelope) :
    ∀ m ∈ feedValues envelopes, Parses 2 m.2.1 m.2.2 := by
  intro m hm
  rw [List.mem_singleton.1 hm]
  refine parses_array fun p hp => ?_
  obtain ⟨e, -, rfl⟩ := List.mem_map.1 hp
  have h := parses_object (parses_values e)
  rw [written_values] at h
  exact h

theorem marshalFeed_eq (envelopes : List Envelope) :
    marshalFeed envelopes = marshalObject (written (feedValues envelopes)) := by
  unfold marshalFeed written feedValues feedElements
  rw [List.map_map]
  rfl

theorem decodeFeed_parse {body rest : GoString} {members : List (GoString × JsonTree)}
    (hfit : body.length ≤ feedLimit)
    (h : parseValue 0 (feedLimit + 1) body = some (.obj members, rest)) :
    decodeFeed body =
      (members.foldl (fun s m => if isField "envelopes" m.1 then EnvelopeSlice.decode s m.2 else s)
        ⟨[], 0⟩).toList := by
  unfold decodeFeed
  rw [List.take_of_length_le hfit, h]

theorem decode_feedValues (envelopes : List Envelope) :
    ((readBack (feedValues envelopes)).foldl
        (fun s m => if isField "envelopes" m.1 then EnvelopeSlice.decode s m.2 else s)
        ⟨[], 0⟩).toList = envelopes.map Envelope.received := by
  have hfield : isField (str "envelopes") (reencode (str "envelopes")) = true := by decide
  rw [show readBack (feedValues envelopes) =
    [(reencode (str "envelopes"), .arr ((feedElements envelopes).map Prod.snd))] from rfl]
  rw [List.foldl_cons, List.foldl_nil, if_pos hfield, decode_slice]
  unfold feedElements
  rw [List.map_map, List.map_map]
  refine List.map_congr_left fun e _ => ?_
  simp only [Function.comp_apply]
  rw [decode_values]

/-- A feed that fits into what is read arrives with its texts re-encoded. -/
theorem decodeFeed_marshal {envelopes : List Envelope}
    (hfit : (marshalFeed envelopes).length ≤ feedLimit) :
    decodeFeed (marshalFeed envelopes) = envelopes.map Envelope.received := by
  have hfuel : (marshalObject (written (feedValues envelopes))).length < feedLimit + 1 := by
    rw [← marshalFeed_eq]
    exact Nat.lt_succ_of_le hfit
  have hdepth : 0 + (2 + 1) ≤ maxNestingDepth := by decide
  have hparse := parseValue_object (parses_feedValues envelopes) hdepth hfuel []
  rw [List.append_nil, ← marshalFeed_eq] at hparse
  rw [decodeFeed_parse hfit hparse, decode_feedValues]

/-! ## An envelope that is served and verified -/

/-- The envelope at this place of the answer verifies. -/
def Accepted (E : Ed25519) (pub body : GoString) (i : Nat) : Prop :=
  ∃ e, (decodeFeed body)[i]? = some e ∧ verifyEnvelope E (hexEncode pub) e = true

/-- No text gets shorter on the way, so the message arrives only if every text does. -/
theorem payload_received_iff (e : Envelope) :
    e.received.payload = e.payload ↔
      validString e.authorPhone = true ∧ validString e.recipientPhone = true ∧
        validString e.content = true := by
  obtain ⟨hauthor, hauthor'⟩ := length_reencode e.authorPhone
  obtain ⟨hrecipient, hrecipient'⟩ := length_reencode e.recipientPhone
  obtain ⟨hcontent, hcontent'⟩ := length_reencode e.content
  constructor
  · intro h
    have hlen := congrArg List.length h
    unfold Envelope.payload envelopePayload Envelope.received at hlen
    simp only [List.length_append, List.length_cons] at hlen
    exact ⟨hauthor' (by omega), hrecipient' (by omega), hcontent' (by omega)⟩
  · rintro ⟨ha, hr, hc⟩
    unfold Envelope.payload Envelope.received
    dsimp only
    rw [reencode_valid ha, reencode_valid hr, reencode_valid hc]

theorem validString_hexEncode (s : GoString) : validString (hexEncode s) = true := by
  refine validString_ascii fun c hc => ?_
  obtain ⟨n, hn, rfl⟩ := mem_hexEncode hc
  have hall : ∀ n, n < 16 → (hexDigit n).toNat < 0x80 := by decide
  exact hall n hn

/-- A signed envelope is accepted at the other end exactly when its texts are UTF-8. -/
theorem accepted_iff {E : Ed25519} {pub priv : GoString} {e : Envelope}
    (hideal : E.Ideal pub priv e.payload) (hsig : e.signature = hexEncode (E.sign priv e.payload))
    {before after : List Envelope}
    (hfit : (marshalFeed (before ++ e :: after)).length ≤ feedLimit) :
    Accepted E pub (marshalFeed (before ++ e :: after)) before.length ↔
      validString e.authorPhone = true ∧ validString e.recipientPhone = true ∧
        validString e.content = true := by
  have hget : (decodeFeed (marshalFeed (before ++ e :: after)))[before.length]? = some e.received := by
    rw [decodeFeed_marshal hfit, List.map_append, List.map_cons,
      List.getElem?_append_right (by rw [List.length_map]), List.length_map, Nat.sub_self]
    rfl
  have hreceived : hexDecode e.received.signature = some (E.sign priv e.payload) := by
    unfold Envelope.received
    dsimp only
    rw [hsig, reencode_valid (validString_hexEncode _), hexDecode_encode]
  unfold Accepted
  rw [hget]
  constructor
  · rintro ⟨e', he', hverify⟩
    cases he'
    exact (payload_received_iff e).1 ((verifyEnvelope_iff hideal hreceived).1 hverify)
  · intro h
    exact ⟨_, rfl, (verifyEnvelope_iff hideal hreceived).2 ((payload_received_iff e).2 h)⟩

/-- What the handler publishes is accepted at the other end when its texts are UTF-8, as those of a JSON
body are. -/
theorem feedPublishHandler_accepted_iff {E : Ed25519} {pub priv : GoString} {now : Int64}
    {seconds : Nat} {selfPhone recipientPhone content : GoString} {envelopes envelopes' : Table Published}
    (hp : feedPublishHandler E priv now seconds selfPhone (some (recipientPhone, content)) envelopes =
      .ok envelopes') :
    ∃ p, envelopes' = envelopes.insert p ∧
      (E.Ideal pub priv (envelopePayload p.authorPhone p.recipientPhone p.signedTs p.content) →
        ∀ (format : Nat → GoString) (id : Nat) (before after : List Envelope),
          (marshalFeed (before ++ Published.envelope format ⟨id, p⟩ :: after)).length ≤ feedLimit →
          (Accepted E pub (marshalFeed (before ++ Published.envelope format ⟨id, p⟩ :: after))
              before.length ↔
            validString selfPhone = true ∧ validString recipientPhone = true ∧
              validString content = true)) := by
  unfold feedPublishHandler at hp
  by_cases hself : selfPhone = []
  · rw [if_pos hself] at hp
    cases hp
  rw [if_neg hself] at hp
  dsimp only at hp
  by_cases hcontent : content = []
  · rw [if_pos hcontent] at hp
    cases hp
  rw [if_neg hcontent] at hp
  cases hp
  refine ⟨_, rfl, fun hideal format id before after hfit => ?_⟩
  have h := accepted_iff (e := Published.envelope format ⟨id, _⟩) hideal rfl hfit
  have hrecipient : validString (if recipientPhone = [] then str "*" else recipientPhone) =
      validString recipientPhone := by
    split_ifs with hempty
    · rw [hempty]
      decide
    · rfl
  rw [← hrecipient]
  exact h

/-! ## The text about a mission -/

theorem validString_itoa (n : Nat) : validString (itoa n) = true := by
  refine validString_ascii fun c hc => ?_
  have := (mem_itoa hc).2
  omega

theorem validString_status (s : Moksa.MissionStatus) : validString s.text = true := by
  cases s <;> decide

/-- The text about a mission is UTF-8 when the texts of the mission are. -/
theorem validString_missionResult {missionID : GoString} {m : Moksa.Mission}
    (hid : validString missionID = true) (hinstruction : validString m.instruction = true)
    (hsummary : validString m.summary = true) :
    validString (missionResult missionID m) = true := by
  unfold missionResult
  rw [validString_concat (by decide), validString_concat hid, validString_concat (by decide),
    validString_concat hinstruction, validString_concat (by decide),
    validString_concat (validString_status _), validString_concat (by decide),
    validString_concat (validString_itoa _), validString_concat (by decide),
    validString_concat (validString_itoa _), validString_concat (by decide)]
  exact hsummary

/-- The text is short enough, or a character begins where it is cut. -/
def CutsBetween (content : GoString) : Prop :=
  content.length ≤ maxContent ∨ ∀ b, content[cutAt]? = some b → runeStart b = true

theorem validString_truncate {content : GoString} (h : validString content = true) :
    validString (truncate content) = true ↔ CutsBetween content := by
  unfold truncate CutsBetween
  by_cases hlen : maxContent < content.length
  · have hcut : cutAt < content.length := Nat.lt_trans (by decide) hlen
    have htake := validString_take h hcut (c := 0x2E) (by decide) (t := [0x2E, 0x2E]) (by decide)
    rw [if_pos hlen, or_iff_right (Nat.not_le_of_gt hlen)]
    exact htake
  · rw [if_neg hlen]
    exact iff_of_true h (.inl (Nat.le_of_not_lt hlen))

/-- What is published about a mission is accepted at the other end exactly when the phones are UTF-8 and
the text is not cut inside a character. -/
theorem publishMissionResult_accepted_iff {E : Ed25519} {pub priv : GoString} {now : Int64}
    {seconds : Nat} {getMission : GoString → Option Moksa.Mission}
    {selfPhone missionID recipientPhone : GoString} {m : Moksa.Mission} {p : Published}
    (hmission : getMission missionID = some m)
    (hid : validString missionID = true) (hinstruction : validString m.instruction = true)
    (hsummary : validString m.summary = true)
    (hp : publishMissionResult E priv now seconds getMission selfPhone missionID recipientPhone = some p)
    (hideal :
      E.Ideal pub priv (envelopePayload p.authorPhone p.recipientPhone p.signedTs p.content))
    (format : Nat → GoString) (id : Nat) {before after : List Envelope}
    (hfit : (marshalFeed (before ++ Published.envelope format ⟨id, p⟩ :: after)).length ≤ feedLimit) :
    Accepted E pub (marshalFeed (before ++ Published.envelope format ⟨id, p⟩ :: after))
        before.length ↔
      validString selfPhone = true ∧ validString recipientPhone = true ∧
        CutsBetween (missionResult missionID m) := by
  unfold publishMissionResult at hp
  rw [hmission] at hp
  dsimp only at hp
  by_cases hself : selfPhone = []
  · rw [if_pos hself] at hp
    cases hp
  rw [if_neg hself] at hp
  cases hp
  have hvalid := validString_missionResult hid hinstruction hsummary
  have h := accepted_iff (e := Published.envelope format ⟨id, _⟩) hideal rfl hfit
  rw [← validString_truncate hvalid]
  exact h

/-! ## Two missions -/

/-- A finished mission. -/
def sampleMission (instruction : GoString) : Moksa.Mission where
  id := "m1"
  instruction := instruction
  quests := []
  status := .done
  mode := []
  summary := "ok"
  judge := none
  createdAt := 0
  updatedAt := 0

/-- The message that is signed about it. -/
def sampleMessage (m : Moksa.Mission) : GoString :=
  envelopePayload "+33600000000" "*" 1 (truncate (missionResult "m1" m))

/-- What is published about it. -/
def samplePublished (m : Moksa.Mission) (signature : GoString) : Published :=
  ⟨"+33600000000", "*", truncate (missionResult "m1" m), hexEncode signature, 1, 0⟩

/-- It is served alone. -/
def sampleServed (m : Moksa.Mission) (signature : GoString) : List Envelope :=
  [] ++ Published.envelope (fun _ => "2026-01-01T00:00:00Z") ⟨1, samplePublished m signature⟩ :: []

/-- A mission with a short instruction. -/
def hiMission : Moksa.Mission := sampleMission "hi"

/-- The signature about it. -/
def hiSignature : GoString :=
  (hexDecode ("10ae2ed89a24f2f342bdb2d1c3966b5d908d81427dce7e5dfc30764680717915" ++
    str "db1296d2a4b9efede8e9128b7f6bf7738fa46c2f1eb8f18ff27105fa69a26900")).getD []

/-- A mission with an instruction of 1001 characters. -/
def longMission : Moksa.Mission := sampleMission ("a" ++ (List.replicate 1000 (str "é")).flatten)

/-- The signature about it. -/
def longSignature : GoString :=
  (hexDecode ("2292955fd6d50a9567008af9a6acdba208ea745e909bc2dc82eedd6103bf6fcc" ++
    str "c41e13b9d61df71244f45aeb437067925c71ed09c9a834eb2ef60165b557490e")).getD []

theorem publish_sample (m : Moksa.Mission) (signature : GoString) :
    publishMissionResult (sampleEd25519 (sampleMessage m) signature) samplePrivate 1 0
        (fun _ => some m) "+33600000000" "m1" "*" = some (samplePublished m signature) := by
  unfold publishMissionResult
  exact if_neg (by decide)

theorem accepted_sample {m : Moksa.Mission} {signature : GoString}
    (hlen : signature.length = signatureSize)
    (hfit : (marshalFeed (sampleServed m signature)).length ≤ feedLimit) :
    Accepted (sampleEd25519 (sampleMessage m) signature) samplePublic
        (marshalFeed (sampleServed m signature)) 0 ↔
      validString "+33600000000" = true ∧ validString "*" = true ∧
        validString (truncate (missionResult "m1" m)) = true :=
  accepted_iff (e := Published.envelope _ ⟨1, samplePublished m signature⟩)
    (sampleEd25519_ideal hlen) rfl hfit

set_option maxRecDepth 8000 in
theorem publishHi_accepted_iff :
    Accepted (sampleEd25519 (sampleMessage hiMission) hiSignature) samplePublic
        (marshalFeed (sampleServed hiMission hiSignature)) 0 ↔
      validString "+33600000000" = true ∧ validString "*" = true ∧
        CutsBetween (missionResult "m1" hiMission) :=
  publishMissionResult_accepted_iff rfl (by decide) (by decide) (by decide)
    (publish_sample hiMission hiSignature) (sampleEd25519_ideal (by decide)) _ 1
    (by decide)

/-- What is published about the long instruction is rejected at the other end. -/
theorem publishLong_rejected :
    validString longMission.instruction = true ∧ validString longMission.summary = true ∧
      (sampleEd25519 (sampleMessage longMission) longSignature).Ideal samplePublic samplePrivate
        (sampleMessage longMission) ∧
      publishMissionResult (sampleEd25519 (sampleMessage longMission) longSignature) samplePrivate 1 0
        (fun _ => some longMission) "+33600000000" "m1" "*" =
        some (samplePublished longMission longSignature) ∧
      (decodeFeed (marshalFeed (sampleServed longMission longSignature))).length = 1 ∧
      ¬ Accepted (sampleEd25519 (sampleMessage longMission) longSignature) samplePublic
        (marshalFeed (sampleServed longMission longSignature)) 0 := by
  have hinstruction : validString longMission.instruction = true := by decide +kernel
  have hsummary : validString longMission.summary = true := by decide
  have hlen : longSignature.length = signatureSize := by decide +kernel
  have hfit : (marshalFeed (sampleServed longMission longSignature)).length ≤ feedLimit := by
    decide +kernel
  refine ⟨hinstruction, hsummary, sampleEd25519_ideal hlen, publish_sample _ _, ?_, ?_⟩
  · rw [decodeFeed_marshal hfit]
    rfl
  · intro haccepted
    have h := ((accepted_sample hlen hfit).1 haccepted).2.2
    have hvalid : validString (missionResult "m1" longMission) = true :=
      validString_missionResult (by decide) hinstruction hsummary
    rcases (validString_truncate hvalid).1 h with hshort | hstart
    · exact absurd hshort (by decide +kernel)
    · have hbyte : (missionResult "m1" longMission)[cutAt]? = some 0xA9 := by decide +kernel
      exact absurd (hstart 0xA9 hbyte) (by decide)

end Gafam.Relay
