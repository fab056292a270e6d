import Gafam.Go.Proofs.EncodingProofs
import Gafam.Relay.Transport
import Gafam.Go.Proofs.TimeProofs

/-!
# What the handler gets

The browser seals a body under the hash of the session token, and the middleware tries to open it under
the hash of another text. An envelope that it cannot open it passes on as it is.
-/

namespace Gafam.Relay

open Gafam.Go

/-! ## The envelope -/

/-- An envelope of plain texts is read back. -/
theorem parseJson_stringify {p : EncryptedPayload} (hdata : ∀ c ∈ p.encryptedData, isPlain c = true)
    (hiv : ∀ c ∈ p.iv, isPlain c = true) :
    parseJson p.stringify =
      some (.obj [(str "encrypted_data", .str p.encryptedData), (str "iv", .str p.iv)]) := by
  have hkey : ∀ c ∈ str "encrypted_data", isPlain c = true := forall_of_all (by decide)
  have hkey' : ∀ c ∈ str "iv", isPlain c = true := forall_of_all (by decide)
  obtain ⟨n, hn⟩ : ∃ n, p.stringify.length = n + 4 := by
    refine ⟨p.stringify.length - 4, ?_⟩
    unfold EncryptedPayload.stringify
    simp only [List.length_cons, List.length_append]
    omega
  -- the second member, and then the first one
  have hsecond : parseMembers 1 (n + 3) (quote "iv" ++ 0x3A :: (quote p.iv ++ [0x7D])) =
      some ([(str "iv", .str p.iv)], []) := by
    rw [parseMembers_quote hkey' (parseValue_quote hiv [0x7D] 1 (n + 1))]
    rfl
  have hfirst : parseMembers 1 (n + 4) (quote "encrypted_data" ++ 0x3A :: (quote p.encryptedData ++
      0x2C :: (quote "iv" ++ 0x3A :: (quote p.iv ++ [0x7D])))) =
      some ([(str "encrypted_data", .str p.encryptedData), (str "iv", .str p.iv)], []) := by
    rw [parseMembers_quote hkey (parseValue_quote hdata _ 1 (n + 2))]
    have hclose : expect 0x7D (0x2C :: (quote "iv" ++ 0x3A :: (quote p.iv ++ [0x7D]))) = none := rfl
    have hcomma : expect 0x2C (0x2C :: (quote "iv" ++ 0x3A :: (quote p.iv ++ [0x7D]))) =
        some (quote "iv" ++ 0x3A :: (quote p.iv ++ [0x7D])) := rfl
    rw [hclose, hcomma]
    dsimp only
    rw [Option.bind_some, hsecond]
    rfl
  have hvalue : parseValue 0 (p.stringify.length + 1) p.stringify =
      some (.obj [(str "encrypted_data", .str p.encryptedData), (str "iv", .str p.iv)], []) := by
    rw [hn]
    unfold EncryptedPayload.stringify
    generalize htext : quote "encrypted_data" ++ 0x3A :: (quote p.encryptedData ++
      0x2C :: (quote "iv" ++ 0x3A :: (quote p.iv ++ [0x7D]))) = text at hfirst ⊢
    have hopen : skipSpace (0x7B :: text) = 0x7B :: text := rfl
    have hnext : expect 0x7D text = none := by rw [← htext]; rfl
    unfold parseValue
    rw [hopen]
    dsimp only
    rw [if_neg (by decide), if_pos rfl, if_neg (by decide), hnext]
    dsimp only
    rw [hfirst]
    rfl
  unfold parseJson
  rw [hvalue]
  rfl

theorem unmarshal_stringify {p : EncryptedPayload} (hdata : ∀ c ∈ p.encryptedData, isPlain c = true)
    (hiv : ∀ c ∈ p.iv, isPlain c = true) : EncryptedPayload.unmarshal p.stringify = some p := by
  unfold EncryptedPayload.unmarshal
  rw [parseJson_stringify hdata hiv]
  rfl

/-- An envelope is longer than what is in it. -/
theorem length_stringify (p : EncryptedPayload) : p.encryptedData.length < p.stringify.length := by
  have hquote : p.encryptedData.length ≤ (quote p.encryptedData).length := by
    have hbytes : ∀ s : GoString, s.length ≤ (s.flatMap quoteByte).length := by
      intro s
      induction s with
      | nil => exact Nat.le_refl _
      | cons c s ih =>
        have hone : 1 ≤ (quoteByte c).length := by
          have hne : quoteByte c ≠ [] := by
            unfold quoteByte
            split_ifs <;> exact List.cons_ne_nil _ _
          exact List.length_pos_of_ne_nil hne
        rw [List.flatMap_cons, List.length_append, List.length_cons]
        omega
    have h := hbytes p.encryptedData
    unfold quote
    simp only [List.length_cons, List.length_append]
    omega
  unfold EncryptedPayload.stringify
  simp only [List.length_cons, List.length_append]
  omega

/-! ## The middleware -/

theorem textEncode_ne_nil {s : List UInt16} (h : s ≠ []) : textEncode s ≠ [] := by
  match s with
  | [] => exact absurd rfl h
  | [u] => exact encodeRune_ne_nil _
  | u :: v :: rest =>
    unfold textEncode
    cases decodeSurrogates u.toNat v.toNat with
    | some r => exact List.append_ne_nil_of_left_ne_nil (encodeRune_ne_nil r) _
    | none => exact List.append_ne_nil_of_left_ne_nil (encodeRune_ne_nil _) _

/-- A request with a session reaches the decryption layer. -/
theorem sessionMiddleware_loggedIn {C : Cipher}
    {query : GoString → Except (Option GoString) SessionRow} {now : Nat} {r : Request}
    (htoken : r.token ≠ []) (hsession : LoggedIn query now r.token) :
    sessionMiddleware C query now r = .next (openBody C r.token r) := by
  obtain ⟨session, hquery, hstatus, hexpired⟩ := hsession
  unfold sessionMiddleware
  dsimp only
  rw [if_neg htoken, hquery]
  dsimp only
  rw [if_neg (not_not.2 hstatus), if_neg hexpired]

/-- An envelope is opened under the transport key of the token, or passed on as it is. -/
theorem openBody_envelope {C : Cipher} (token : GoString) {secret iv plaintext : GoString} {r : Request}
    (he2e : r.e2e = "1") (hbody : r.body = (encryptAESGCM C iv plaintext secret).stringify)
    (hlength : r.contentLength = r.body.length)
    (hbox : C.encrypt (C.deriveKey secret) iv plaintext ≠ []) :
    openBody C token r =
      match (if iv.length ≠ nonceSize then none
        else C.decrypt (C.deriveKey ("e2e:" ++ token)) iv (C.encrypt (C.deriveKey secret) iv plaintext))
      with
      | none => r
      | some text => { r with body := text, contentLength := text.length } := by
  have hunmarshal := unmarshal_stringify (p := encryptAESGCM C iv plaintext secret)
    (base64Encode_plain _) (base64Encode_plain _)
  have hpos : 0 < r.contentLength := by
    have hlen := length_stringify (encryptAESGCM C iv plaintext secret)
    rw [← hbody] at hlen
    omega
  have hdata : (encryptAESGCM C iv plaintext secret).encryptedData ≠ [] := base64Encode_ne_nil hbox
  have hdecrypt : ∀ key, decryptAESGCM C key (encryptAESGCM C iv plaintext secret).encryptedData
      (encryptAESGCM C iv plaintext secret).iv =
      if iv.length ≠ nonceSize then none
      else C.decrypt key iv (C.encrypt (C.deriveKey secret) iv plaintext) := by
    intro key
    unfold decryptAESGCM encryptAESGCM
    dsimp only
    rw [base64Decode_encode, base64Decode_encode]
    rfl
  unfold openBody
  rw [if_pos ⟨he2e, hpos⟩, hbody, hunmarshal]
  dsimp only
  rw [if_neg hdata]
  exact hdecrypt _ ▸ rfl

/-- A body that is sealed under the transport key reaches the handler. -/
theorem handlerGets_transport {C : Cipher} {query : GoString → Except (Option GoString) SessionRow}
    {now : Nat} {token iv plaintext : GoString} {r : Request} (htoken : token ≠ [])
    (hsession : LoggedIn query now token) (hiv : iv.length = nonceSize)
    (hbox : C.encrypt (C.deriveKey ("e2e:" ++ token)) iv plaintext ≠ [])
    (hopen : C.decrypt (C.deriveKey ("e2e:" ++ token)) iv
      (C.encrypt (C.deriveKey ("e2e:" ++ token)) iv plaintext) = some plaintext)
    (hr : Forwards ⟨"1", (encryptAESGCM C iv plaintext ("e2e:" ++ token)).stringify⟩ token r) :
    HandlerGets (sessionMiddleware C query now r) plaintext := by
  have hlength : r.contentLength = r.body.length := by rw [hr.contentLength, hr.body]
  have hbody := openBody_envelope r.token hr.e2e hr.body hlength hbox
  rw [hr.token, if_neg (not_not.2 hiv), hopen] at hbody
  refine ⟨_, sessionMiddleware_loggedIn (by rw [hr.token]; exact htoken)
    (by rw [hr.token]; exact hsession), ?_⟩
  rw [hr.token, hbody]

/-- With AES-GCM that adds its tag, and does not take what was sealed under another key for authentic,
the handler gets the body that the browser has sealed if and only if that is empty. -/
theorem e2e_roundTrip_iff {C : Cipher} {query : GoString → Except (Option GoString) SessionRow}
    {now : Nat} {iv : GoString} {token body : List UInt16} {r : Request} (htoken : token ≠ [])
    (hsession : LoggedIn query now (textEncode token))
    (htag : (C.encrypt (C.deriveKey (textEncode token)) iv (textEncode body)).length =
      (textEncode body).length + 16)
    (hauthentic : C.decrypt (C.deriveKey ("e2e:" ++ textEncode token)) iv
      (C.encrypt (C.deriveKey (textEncode token)) iv (textEncode body)) = none)
    (hr : Forwards (e2eFetch C iv token body false) (textEncode token) r) :
    HandlerGets (sessionMiddleware C query now r) (textEncode body) ↔ body = [] := by
  have htoken' : r.token ≠ [] := by
    rw [hr.token]
    exact textEncode_ne_nil htoken
  have hgo : sessionMiddleware C query now r = .next (openBody C r.token r) :=
    sessionMiddleware_loggedIn htoken' (by rw [hr.token]; exact hsession)
  have hgets : HandlerGets (sessionMiddleware C query now r) (textEncode body) ↔
      (openBody C r.token r).body = textEncode body := by
    rw [hgo]
    constructor
    · rintro ⟨r', heq, hbody⟩
      cases heq
      exact hbody
    · exact fun h => ⟨_, rfl, h⟩
  rw [hgets]
  by_cases hempty : body = []
  · subst hempty
    have hsent : e2eFetch C iv token [] false = ⟨"1", []⟩ := by
      unfold e2eFetch
      rw [if_pos ⟨htoken, Bool.false_ne_true⟩]
      rfl
    have hkept : openBody C r.token r = r := by
      unfold openBody
      rw [if_neg]
      rintro ⟨-, hpos⟩
      rw [hr.contentLength, hsent] at hpos
      exact absurd hpos (by decide)
    rw [hkept, hr.body, hsent]
    exact ⟨fun _ => rfl, fun _ => rfl⟩
  · have hsent : e2eFetch C iv token body false =
        ⟨"1", (encryptAESGCM C iv (textEncode body) (textEncode token)).stringify⟩ := by
      unfold e2eFetch
      rw [if_pos ⟨htoken, Bool.false_ne_true⟩, if_pos hempty]
    have hbox : C.encrypt (C.deriveKey (textEncode token)) iv (textEncode body) ≠ [] := by
      intro hnil
      rw [hnil] at htag
      exact absurd htag (by simp)
    have hbody : r.body = (encryptAESGCM C iv (textEncode body) (textEncode token)).stringify := by
      rw [hr.body, hsent]
    have he2e : r.e2e = "1" := by rw [hr.e2e, hsent]
    have hlength : r.contentLength = r.body.length := by rw [hr.contentLength, hr.body]
    have hkept : openBody C r.token r = r := by
      rw [openBody_envelope r.token he2e hbody hlength hbox, hr.token, hauthentic]
      rw [ite_self]
    rw [hkept]
    refine ⟨fun heq => ?_, fun h => absurd h hempty⟩
    -- the envelope is longer than the body
    have hlong := length_stringify (encryptAESGCM C iv (textEncode body) (textEncode token))
    have hdata : (C.encrypt (C.deriveKey (textEncode token)) iv (textEncode body)).length ≤
        (encryptAESGCM C iv (textEncode body) (textEncode token)).encryptedData.length :=
      length_le_base64Encode _
    rw [← hbody, heq] at hlong
    omega

/-- SHA-256 of `t`. -/
def sampleKey : GoString :=
  [227, 185, 138, 77, 163, 26, 18, 125, 75, 222, 110, 67, 3, 63, 102, 186, 39, 76, 171, 14, 183, 235,
    28, 112, 236, 65, 64, 43, 246, 39, 61, 216]

/-- SHA-256 of `e2e:t`. -/
def sampleTransportKey : GoString :=
  [110, 231, 128, 118, 19, 191, 18, 233, 18, 3, 178, 243, 107, 229, 207, 156, 110, 157, 106, 111, 104,
    125, 22, 193, 212, 213, 232, 22, 241, 55, 177, 131]

/-- An initialization vector. -/
def sampleIV : GoString := [0, 1, 2, 3, 4, 5, 6, 7, 8, 9, 10, 11]

/-- What AES-GCM makes of `hi` under the key `sampleKey`. -/
def sampleBox : GoString :=
  [168, 255, 249, 88, 75, 119, 73, 107, 216, 229, 96, 21, 162, 91, 149, 131, 43, 146]

/-- SHA-256 and AES-GCM as far as a session with the token `t` needs them to send `hi`. -/
def sampleCipher : Cipher where
  sha256 s := if s = "t" then sampleKey else if s = "e2e:t" then sampleTransportKey else []
  encrypt key iv text := if key = sampleKey ∧ iv = sampleIV ∧ text = "hi" then sampleBox else []
  decrypt key iv box := if key = sampleKey ∧ iv = sampleIV ∧ box = sampleBox then some "hi" else none

/-- The request in which the browser sends `hi` with the token `t`. -/
def sampleRequest : Request where
  queryToken := []
  authorization := "Bearer t"
  e2e := "1"
  body := (e2eFetch sampleCipher sampleIV [0x74] [0x68, 0x69] false).body
  contentLength := (e2eFetch sampleCipher sampleIV [0x74] [0x68, 0x69] false).body.length

/-- The session of the token `t`. -/
def sampleSessions (token : GoString) : Except (Option GoString) SessionRow :=
  if token = "t" then .ok ⟨"confirmed", none⟩ else .error none

theorem e2e_roundTrip_iff_hi :
    Forwards (e2eFetch sampleCipher sampleIV [0x74] [0x68, 0x69] false) (textEncode [0x74])
        sampleRequest ∧
      (HandlerGets (sessionMiddleware sampleCipher sampleSessions 0 sampleRequest)
        (textEncode [0x68, 0x69]) ↔ ([0x68, 0x69] : List UInt16) = []) := by
  have hr : Forwards (e2eFetch sampleCipher sampleIV [0x74] [0x68, 0x69] false) (textEncode [0x74])
      sampleRequest := ⟨by decide, by decide, rfl, rfl⟩
  have hsession : LoggedIn sampleSessions 0 (textEncode [0x74]) :=
    ⟨⟨"confirmed", none⟩, rfl, rfl, fun ⟨_, h, _⟩ => nomatch h⟩
  exact ⟨hr, e2e_roundTrip_iff (by decide) hsession (by decide) (by decide) hr⟩

/-- The handler gets the envelope, although AES-GCM opens it under the key of the browser. -/
theorem hi_passed_on :
    sampleCipher.decrypt (sampleCipher.deriveKey (textEncode [0x74])) sampleIV
        (sampleCipher.encrypt (sampleCipher.deriveKey (textEncode [0x74])) sampleIV
          (textEncode [0x68, 0x69])) = some (textEncode [0x68, 0x69]) ∧
      LoggedIn sampleSessions 0 sampleRequest.token ∧
      ¬ HandlerGets (sessionMiddleware sampleCipher sampleSessions 0 sampleRequest)
        (textEncode [0x68, 0x69]) := by
  refine ⟨by decide, ⟨⟨"confirmed", none⟩, rfl, rfl, fun ⟨_, h, _⟩ => nomatch h⟩, ?_⟩
  rintro ⟨r, heq, hbody⟩
  cases heq
  exact absurd hbody (by decide)

/-!
## When a session ends

The text that is stored is read back as the local time of the end, taken for UTC. That is the end itself
exactly where the offset is zero, unless the duration or the year is too large.
-/

/-! ### The middleware -/

/-- What `generateToken` draws: a text that is not empty and that no session has. -/
structure Fresh (sessions : List SessionEntry) (token : GoString) : Prop where
  nonempty : token ≠ []
  unused : ∀ s ∈ sessions, s.sessionToken ≠ token

theorem querySession_new {sessions : List SessionEntry} {s : SessionEntry}
    (hfresh : Fresh sessions s.sessionToken) : querySession (sessions ++ [s]) s.sessionToken = scanSession s := by
  have hnone : sessions.find? (fun t => t.sessionToken == s.sessionToken) = none :=
    List.find?_eq_none.2 fun t ht => by simpa using hfresh.unused t ht
  simp [querySession, List.find?_append, hnone]

/-- A confirmed session whose end is written as a local time. -/
theorem accepts_iff {C : Cipher} {sessions : List SessionEntry} {s : SessionEntry} {secs : Int}
    (hfresh : Fresh sessions s.sessionToken) (hstatus : s.status = "confirmed")
    (hend : s.expiresAt = some (formatDateTime secs)) {now : Nat} {r : Request} (hr : r.token = s.sessionToken) :
    Accepts C (sessions ++ [s]) now r ↔
      (0 ≤ yearOf secs ∧ yearOf secs ≤ 9999) ∧ now ≤ secs.toNat * 10 ^ 9 := by
  unfold Accepts sessionMiddleware
  rw [hr, if_neg hfresh.nonempty, querySession_new hfresh]
  simp only [scanSession, hend, parseDateTime_formatDateTime]
  by_cases hyear : 0 ≤ yearOf secs ∧ yearOf secs ≤ 9999
  · simp only [if_pos hyear, hstatus, ne_eq, not_true_eq_false, if_false]
    by_cases hnow : secs.toNat * 10 ^ 9 < now
    · rw [if_pos ⟨_, rfl, hnow⟩]
      refine iff_of_false ?_ fun h => absurd h.2 (Nat.not_le.2 hnow)
      rintro ⟨r', ⟨⟩⟩
    · rw [if_neg]
      · exact iff_of_true ⟨_, rfl⟩ ⟨hyear, Nat.not_lt.1 hnow⟩
      · rintro ⟨t, ⟨⟩, ht⟩
        exact hnow ht
  · simp only [if_neg hyear]
    refine iff_of_false ?_ fun h => hyear h.1
    rintro ⟨r', ⟨⟩⟩

/-! ### Durations -/

theorem toInt_minutesDuration (minutes : Int64) :
    (minutesDuration minutes).toInt = (minutes.toInt * 60000000000).bmod (2 ^ 64) := by
  rw [minutesDuration, Int64.toInt_mul]
  rfl

/-- A duration that overflows is too short by `2 ^ 64` nanoseconds at least. -/
theorem minutesDuration_cases {minutes : Int64} (h : 0 < minutes) :
    (minutes.toInt.toNat * 60000000000 < 2 ^ 63 ∧
      (minutesDuration minutes).toInt = (minutes.toInt.toNat * 60000000000 : Nat)) ∨
      (2 ^ 63 ≤ minutes.toInt.toNat * 60000000000 ∧
        (minutesDuration minutes).toInt + 2 ^ 64 ≤ (minutes.toInt.toNat * 60000000000 : Nat)) := by
  have hpos : 0 < minutes.toInt := Int64.lt_iff_toInt_lt.1 h
  rw [toInt_minutesDuration]
  have hmod := Int.emod_add_mul_ediv (minutes.toInt * 60000000000 - (minutes.toInt * 60000000000).bmod (2 ^ 64)) (2 ^ 64)
  rcases Nat.lt_or_ge (minutes.toInt.toNat * 60000000000) (2 ^ 63) with hlt | hge
  · refine .inl ⟨hlt, ?_⟩
    rw [Int.bmod_eq_of_le] <;> omega
  · refine .inr ⟨hge, ?_⟩
    have hle : (minutes.toInt * 60000000000).bmod (2 ^ 64) < 2 ^ 63 := by
      have := @Int.bmod_lt (minutes.toInt * 60000000000) (2 ^ 64) (by decide)
      omega
    have hdvd : ((2 ^ 64 : Nat) : Int) ∣ minutes.toInt * 60000000000 - (minutes.toInt * 60000000000).bmod (2 ^ 64) :=
      Int.dvd_self_sub_bmod
    obtain ⟨k, hk⟩ := hdvd
    omega

theorem yearOf_nonneg {secs : Int} (h : 0 ≤ secs) : 0 ≤ yearOf secs := by
  unfold yearOf dateOf
  dsimp only
  unfold eraDays
  omega

/-! ### Lives -/

/-- The session lasts so long exactly if the text says its end in UTC. -/
theorem lastsFor_iff_text {C : Cipher} {sessions : List SessionEntry} {s : SessionEntry} {secs : Int}
    {created minutes : Nat} (hminutes : 0 < minutes) (hfresh : Fresh sessions s.sessionToken)
    (hstatus : s.status = "confirmed") (hend : s.expiresAt = some (formatDateTime secs)) :
    LastsFor C (sessions ++ [s]) s.sessionToken created minutes ↔
      secs = (deadline created minutes / 10 ^ 9 : Nat) ∧ yearOf secs ≤ 9999 := by
  have hlater : created ≤ deadline created minutes := by
    unfold deadline
    omega
  have hround : deadline created minutes / 10 ^ 9 * 10 ^ 9 = deadline created minutes := by
    unfold deadline
    omega
  have hpos : 0 < deadline created minutes / 10 ^ 9 := by
    unfold deadline
    omega
  constructor
  · intro h
    have hiff : ∀ now, created ≤ now →
        (((0 ≤ yearOf secs ∧ yearOf secs ≤ 9999) ∧ now ≤ secs.toNat * 10 ^ 9) ↔ now ≤ deadline created minutes) := by
      intro now hnow
      obtain ⟨r, hr⟩ : ∃ r : Request, r.token = s.sessionToken :=
        ⟨⟨s.sessionToken, [], [], [], 0⟩, if_pos hfresh.nonempty⟩
      exact (accepts_iff hfresh hstatus hend hr).symm.trans (h now hnow r hr)
    obtain ⟨hyear, hle⟩ := (hiff _ hlater).2 (Nat.le_refl _)
    have hge := (hiff _ (hlater.trans hle)).1 ⟨hyear, Nat.le_refl _⟩
    refine ⟨?_, hyear.2⟩
    omega
  · rintro ⟨rfl, hyear⟩ now - r hr
    rw [accepts_iff hfresh hstatus hend hr, Int.toNat_natCast, hround]
    exact ⟨fun h => h.2, fun h => ⟨⟨yearOf_nonneg (Int.natCast_nonneg _), hyear⟩, h⟩⟩

theorem endsInUTC_iff (zone : Zone) (created : Nat) {minutes : Int64} (h : 0 < minutes) :
    ((created + (minutesDuration minutes).toInt) / 10 ^ 9 + zone.offset (created + (minutesDuration minutes).toInt) =
        (deadline created minutes.toInt.toNat / 10 ^ 9 : Nat) ∧
      yearOf ((created + (minutesDuration minutes).toInt) / 10 ^ 9 +
        zone.offset (created + (minutesDuration minutes).toInt)) ≤ 9999) ↔
      EndsInUTC zone created minutes.toInt.toNat := by
  have hdeadline : deadline created minutes.toInt.toNat / 10 ^ 9 =
      (created + minutes.toInt.toNat * 60000000000) / 10 ^ 9 := by
    unfold deadline
    omega
  have hbound := zone.bound (created + (minutesDuration minutes).toInt)
  rw [hdeadline]
  rcases minutesDuration_cases h with ⟨hlt, hduration⟩ | ⟨hge, hduration⟩
  · rw [hduration]
    have hsum : (created : Int) + (minutes.toInt.toNat * 60000000000 : Nat) =
        (created + minutes.toInt.toNat * 60000000000 : Nat) := (Int.natCast_add ..).symm
    rw [hsum]
    constructor
    · rintro ⟨hsecs, hyear⟩
      have hoffset : zone.offset (created + minutes.toInt.toNat * 60000000000 : Nat) = 0 := by omega
      refine ⟨hlt, hoffset, ?_⟩
      rw [hdeadline, ← hsecs]
      exact hyear
    · rintro ⟨-, hoffset, hyear⟩
      rw [hdeadline] at hyear
      rw [hoffset]
      have hsecs : ((created + minutes.toInt.toNat * 60000000000 : Nat) : Int) / 10 ^ 9 + 0 =
          ((created + minutes.toInt.toNat * 60000000000) / 10 ^ 9 : Nat) := by omega
      rw [hsecs]
      exact ⟨rfl, hyear⟩
  · refine iff_of_false (fun h => ?_) fun h => absurd h.duration (Nat.not_lt.2 hge)
    have hsecs := h.1
    omega

/-- Both handlers: the session lasts for its minutes exactly if it ends in UTC. -/
theorem lastsFor_iff (C : Cipher) (zone : Zone) {sessions : List SessionEntry} {token : GoString}
    (hfresh : Fresh sessions token) (created : Nat) (sessionID phone : GoString) :
    (∀ ttlMinutes : Int64, 0 < ttlMinutes →
      (LastsFor C (sessions ++ [challengeSession zone created sessionID phone token ttlMinutes]) token created
          ttlMinutes.toInt.toNat ↔
        EndsInUTC zone created ttlMinutes.toInt.toNat)) ∧
      (LastsFor C (sessions ++ [emergencySession zone created sessionID phone token]) token created 15 ↔
        EndsInUTC zone created 15) := by
  constructor
  · intro ttlMinutes h
    have hpos : 0 < ttlMinutes.toInt := Int64.lt_iff_toInt_lt.1 h
    rw [← endsInUTC_iff zone created h]
    exact lastsFor_iff_text (s := challengeSession zone created sessionID phone token ttlMinutes) (by omega) hfresh
      rfl (if_pos h)
  · have h := @endsInUTC_iff zone created 15 (by decide)
    rw [show (15 : Int64).toInt.toNat = 15 from rfl] at h
    rw [← h]
    exact lastsFor_iff_text (s := emergencySession zone created sessionID phone token) (by decide) hfresh rfl rfl

/-- A zone that is always so many seconds ahead of UTC. -/
def ahead (secs : Nat) (h : secs < 2 ^ 31) : Zone := ⟨fun _ => secs, fun _ => by omega⟩

/-- A cipher that leaves everything as it is. -/
def plainCipher : Cipher := ⟨id, fun _ _ plaintext => plaintext, fun _ _ ciphertext => some ciphertext⟩

/-- The evening of 1 June 2026, in nanoseconds. -/
def june : Nat := 63947563200 * 10 ^ 9

/-- A quarter of an hour on a server that runs in UTC. -/
theorem lastsFor_utc :
    LastsFor plainCipher [challengeSession (ahead 0 (by decide)) june "s" "+33612345678" "token" 15] "token" june 15 :=
  have hfresh : Fresh [] "token" := ⟨by decide, fun _ hs => absurd hs List.not_mem_nil⟩
  ((lastsFor_iff plainCipher (ahead 0 (by decide)) hfresh june "s" "+33612345678").1 15 (by decide)).2
    ⟨by decide, rfl, by decide⟩

/-- A quarter of an hour on a server that runs in the summer time of Paris: it lasts two hours longer. -/
theorem lastsFor_paris :
    ¬ ∀ (C : Cipher) (zone : Zone) (sessions : List SessionEntry) (token : GoString), Fresh sessions token →
      ∀ (created : Nat) (sessionID phone : GoString) (ttlMinutes : Int64), 0 < ttlMinutes →
        LastsFor C (sessions ++ [challengeSession zone created sessionID phone token ttlMinutes]) token created
          ttlMinutes.toInt.toNat := by
  intro h
  have hfresh : Fresh [] "token" := ⟨by decide, fun _ hs => absurd hs List.not_mem_nil⟩
  have hlasts := h plainCipher (ahead 7200 (by decide)) [] "token" hfresh june "s" "+33612345678" 15 (by decide)
  have htext := (lastsFor_iff_text (s := challengeSession (ahead 7200 (by decide)) june "s" "+33612345678" "token" 15)
    (by decide) hfresh rfl rfl).1 hlasts
  have hends := (@endsInUTC_iff (ahead 7200 (by decide)) june 15 (by decide)).1 htext
  exact absurd hends.offset (by decide)

end Gafam.Relay
