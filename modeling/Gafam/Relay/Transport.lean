import Gafam.Go.Encoding
import Gafam.Go.Json
import Gafam.Go.Time

/-!
# The encrypted transport between the browser and the relay

`e2eFetch` of the browser seals a request body under a key derived from the session token, and
`sessionMiddleware` of the relay opens it before it calls the handler. Both derive a key by hashing a
text with SHA-256; the bodies go through a proxy that forwards them as they are.
-/

namespace Gafam.Relay

open Gafam.Go

/-! ## Cryptography -/

/-- SHA-256 and AES-GCM: `encrypt key iv plaintext`, and `decrypt key iv ciphertext`, which fails when
the ciphertext is not authentic. -/
structure Cipher where
  sha256 : GoString → GoString
  encrypt : GoString → GoString → GoString → GoString
  decrypt : GoString → GoString → GoString → Option GoString

/-- `deriveKey`, the same function in the browser and in the relay. -/
def Cipher.deriveKey (C : Cipher) (secret : GoString) : GoString := C.sha256 secret

/-- `NonceSize` of GCM. -/
def nonceSize : Nat := 12

/-- The payload of an encrypted request. -/
structure EncryptedPayload where
  encryptedData : GoString
  iv : GoString

/-- `encryptAESGCM` of the browser, `iv` being the random bytes it draws. -/
def encryptAESGCM (C : Cipher) (iv plaintext secret : GoString) : EncryptedPayload :=
  ⟨base64Encode (C.encrypt (C.deriveKey secret) iv plaintext), base64Encode iv⟩

/-- `decryptAESGCM` of the relay, `none` being any of its errors. -/
def decryptAESGCM (C : Cipher) (key : GoString) (encryptedBase64 ivBase64 : GoString) :
    Option GoString := do
  let ciphertext ← base64Decode encryptedBase64
  let iv ← base64Decode ivBase64
  if iv.length ≠ nonceSize then none else C.decrypt key iv ciphertext

/-! ## The browser -/

/-- `TextEncoder.encode` of a JavaScript string. Half a surrogate pair becomes `runeError`. -/
def textEncode : List UInt16 → GoString
  | [] => []
  | [u] => encodeRune (if isSurrogate u.toNat then runeError else u.toNat)
  | u :: v :: rest =>
    match decodeSurrogates u.toNat v.toNat with
    | some r => encodeRune r ++ textEncode rest
    | none =>
      encodeRune (if isSurrogate u.toNat then runeError else u.toNat) ++ textEncode (v :: rest)

/-- `JSON.stringify` of a payload. -/
def EncryptedPayload.stringify (p : EncryptedPayload) : GoString :=
  0x7B :: (quote "encrypted_data" ++ 0x3A :: (quote p.encryptedData ++
    0x2C :: (quote "iv" ++ 0x3A :: (quote p.iv ++ [0x7D]))))

/-- What `e2eFetch` hands to `fetch`: the header `X-GAFAM-E2E` and the bytes of the body. -/
structure Sent where
  e2e : GoString
  body : GoString

/-- `e2eFetch` up to `fetch`, for a body that is a string. -/
def e2eFetch (C : Cipher) (iv : GoString) (sessionToken body : List UInt16) (skipE2E : Bool) : Sent :=
  if sessionToken ≠ [] ∧ ¬ skipE2E then
    if body ≠ [] then
      ⟨"1", (encryptAESGCM C iv (textEncode body) (textEncode sessionToken)).stringify⟩
    else ⟨"1", []⟩
  else ⟨[], textEncode body⟩

/-! ## The relay -/

/-- What the relay reads of a request. A body of unknown length has the content length -1. -/
structure Request where
  queryToken : GoString
  authorization : GoString
  e2e : GoString
  body : GoString
  contentLength : Int

/-- What the middleware reads of a row of `gafam_sessions`. -/
structure SessionRow where
  status : GoString
  expiresAt : Option Nat

/-- The answer of the middleware: an error of its own, or the handler with this request. -/
inductive Answer
  | error (status : Nat) (message : GoString)
  | next (r : Request)

/-- The session token of a request. -/
def Request.token (r : Request) : GoString :=
  if r.queryToken ≠ [] then r.queryToken
  else if r.authorization ≠ [] then
    match r.authorization.splitOn 0x20 with
    | [scheme, token] => if scheme = "Bearer" then token else []
    | _ => []
  else []

/-- One member of an object that is decoded into a payload. -/
def EncryptedPayload.member (p : EncryptedPayload) (m : GoString × JsonTree) :
    Option EncryptedPayload :=
  let data := equalFoldAscii m.1 "encrypted_data"
  let iv := equalFoldAscii m.1 "iv"
  match m.2 with
  | .str s => if data then some { p with encryptedData := s } else if iv then some { p with iv := s } else some p
  | .null => some p
  | _ => if data || iv then none else some p

/-- `json.Unmarshal` into a payload. -/
def EncryptedPayload.unmarshal (s : GoString) : Option EncryptedPayload :=
  match parseJson s with
  | some (.obj members) => members.foldlM member ⟨[], []⟩
  | some .null => some ⟨[], []⟩
  | _ => none

/-- The decryption layer of `sessionMiddleware`. -/
def openBody (C : Cipher) (token : GoString) (r : Request) : Request :=
  if r.e2e = "1" ∧ 0 < r.contentLength then
    match EncryptedPayload.unmarshal r.body with
    | none => r
    | some payload =>
      if payload.encryptedData = [] then r
      else
        match decryptAESGCM C (C.deriveKey ("e2e:" ++ token)) payload.encryptedData payload.iv with
        | none => r
        | some plaintext => { r with body := plaintext, contentLength := plaintext.length }
  else r

/-- `sessionMiddleware`. The query for a session fails with a message, `none` being `sql.ErrNoRows`. -/
def sessionMiddleware (C : Cipher) (query : GoString → Except (Option GoString) SessionRow) (now : Nat)
    (r : Request) : Answer :=
  let token := r.token
  if token = [] then .error 401 "Missing session token"
  else
    match query token with
    | .error none => .error 403 "Invalid session"
    | .error (some _) => .error 500 "Database error"
    | .ok session =>
      if session.status ≠ "confirmed" then .error 403 "Session not confirmed"
      else if ∃ t ∈ session.expiresAt, t < now then .error 403 "Session expired"
      else .next (openBody C token r)

/-! ## A request on its way -/

/-- The request that reaches the relay when a proxy forwards what the browser has sent, with the
session token. -/
structure Forwards (sent : Sent) (token : GoString) (r : Request) : Prop where
  token : r.token = token
  e2e : r.e2e = sent.e2e
  body : r.body = sent.body
  contentLength : r.contentLength = sent.body.length

/-- The session of the token is confirmed, and has not expired. -/
def LoggedIn (query : GoString → Except (Option GoString) SessionRow) (now : Nat) (token : GoString) :
    Prop :=
  ∃ session, query token = .ok session ∧ session.status = "confirmed" ∧
    ¬ ∃ t ∈ session.expiresAt, t < now

/-- The handler is called with this body. -/
def HandlerGets (a : Answer) (body : GoString) : Prop := ∃ r, a = .next r ∧ r.body = body

/-!
## How long a session lasts

The handlers that create a session write its end as a text, in the local time of the server and without a
zone. The database driver reads such a text as a time of UTC, and the middleware compares it with the
clock. Instants are in nanoseconds since the start of the year 0.
-/

/-- The local time zone: its offset from UTC at an instant, in seconds. The offsets in the files of the
time zone database have 32 bits. -/
structure Zone where
  offset : Int → Int
  bound : ∀ t, -2 ^ 31 ≤ offset t ∧ offset t < 2 ^ 31

/-- `t.Format("2006-01-02 15:04:05")` in the local zone. -/
def Zone.format (zone : Zone) (t : Int) : GoString := formatDateTime (t / 10 ^ 9 + zone.offset t)

/-- `time.Duration(minutes) * time.Minute`, in nanoseconds. -/
def minutesDuration (minutes : Int64) : Int64 := minutes * 60000000000

/-- A row of `gafam_sessions`. -/
structure SessionEntry where
  sessionID : GoString
  phone : GoString
  status : GoString
  sessionToken : GoString
  expiresAt : Option GoString

/-- What `challengeAuthHandler` writes; without a positive number of minutes the session is eternal. -/
def challengeSession (zone : Zone) (now : Nat) (sessionID phone sessionToken : GoString) (ttlMinutes : Int64) :
    SessionEntry where
  sessionID := sessionID
  phone := phone
  status := "confirmed"
  sessionToken := sessionToken
  expiresAt := if 0 < ttlMinutes then some (zone.format (now + (minutesDuration ttlMinutes).toInt)) else none

/-- What `generateEmergencyChallenge` writes. -/
def emergencySession (zone : Zone) (now : Nat) (sessionID phone sessionToken : GoString) : SessionEntry where
  sessionID := sessionID
  phone := phone
  status := "confirmed"
  sessionToken := sessionToken
  expiresAt := some (zone.format (now + (minutesDuration 15).toInt))

/-- The columns of a row as the driver and `Scan` give them; a text that is no time is an error. -/
def scanSession (s : SessionEntry) : Except (Option GoString) SessionRow :=
  match s.expiresAt with
  | none => .ok ⟨s.status, none⟩
  | some text =>
    match parseDateTime text with
    | some secs => .ok ⟨s.status, some (secs.toNat * 10 ^ 9)⟩
    | none => .error (some "Scan error on column expires_at")

/-- `SELECT status, expires_at FROM gafam_sessions WHERE session_token = ?` -/
def querySession (sessions : List SessionEntry) (token : GoString) : Except (Option GoString) SessionRow :=
  match sessions.find? fun s => s.sessionToken == token with
  | none => .error none
  | some s => scanSession s

/-- `sessionMiddleware` lets the request pass. -/
def Accepts (C : Cipher) (sessions : List SessionEntry) (now : Nat) (r : Request) : Prop :=
  ∃ r', sessionMiddleware C (querySession sessions) now r = .next r'

/-! ### Purpose -/

/-- The end of a life of so many minutes, to the second. -/
def deadline (created minutes : Nat) : Nat := (created + minutes * 60000000000) / 10 ^ 9 * 10 ^ 9

/-- A session that was created at this instant lasts so many minutes. -/
def LastsFor (C : Cipher) (sessions : List SessionEntry) (token : GoString) (created minutes : Nat) : Prop :=
  ∀ now, created ≤ now → ∀ r : Request, r.token = token →
    (Accepts C sessions now r ↔ now ≤ deadline created minutes)

/-- At the end of the life the local time is UTC, in a year of four digits, and the duration has not
overflowed. -/
structure EndsInUTC (zone : Zone) (created minutes : Nat) : Prop where
  duration : minutes * 60000000000 < 2 ^ 63
  offset : zone.offset (created + minutes * 60000000000 : Nat) = 0
  year : yearOf (deadline created minutes / 10 ^ 9 : Nat) ≤ 9999

end Gafam.Relay
