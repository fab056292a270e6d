import Gafam.Frontend.Directory
import Gafam.Frontend.VpcProxy
import Gafam.Frontend.Tunnel
import Gafam.Go.Json

/-!
# A login by challenge

The relay seals its address and a session token under a time and a number of clicks, and deposits the
safe in the directory. The page of the phone looks the time up and tries to open the one safe that it
is given. From time to time the relay deposits honeypots, which look the same.
-/

namespace Gafam.Frontend

open Gafam.Go Gafam.Js
open Gafam.Relay (textEncode)
open Gafam.Lib (Row Table runSteps)

/-! ## The relay -/

/-- PBKDF2 with AES-GCM: as the relay seals, and as the browser opens what it reads in base64. What was
sealed is opened with its passphrase, it is never empty, and there is noise that opens with none. -/
structure Vault where
  encrypt (passphrase salt iv plaintext : GoString) : GoString
  decrypt (passphrase salt iv encryptedSafe : JsString) : Option GoString
  decrypt_encrypt : ∀ passphrase salt iv plaintext,
    decrypt passphrase (btoa salt) (btoa iv) (btoa (encrypt (textEncode passphrase) salt iv plaintext)) =
      some plaintext
  encrypt_ne_nil : ∀ passphrase salt iv plaintext, encrypt passphrase salt iv plaintext ≠ []
  noise : ∃ d : Decoy, ∀ passphrase, decrypt passphrase (btoa d.salt) (btoa d.iv) (btoa d.safe) = none

/-- A character that `json.Marshal` writes as it is. -/
def IsAddressChar (c : UInt8) : Prop :=
  0x20 < c ∧ c < 0x7F ∧ c ≠ 0x22 ∧ c ≠ 0x5C ∧ c ≠ 0x3C ∧ c ≠ 0x3E ∧ c ≠ 0x26

instance (c : UInt8) : Decidable (IsAddressChar c) := by unfold IsAddressChar; infer_instance

/-- What is drawn for a safe, and the address that it names. -/
structure Draws where
  sessionToken : GoString
  publicIP : GoString
  port : GoString
  salt : GoString
  iv : GoString
  token_chars : sessionToken ≠ [] ∧ ∀ c ∈ sessionToken, IsAddressChar c
  address_chars : ∀ c ∈ publicIP ++ port, IsAddressChar c
  salt_length : salt.length = 16
  iv_length : iv.length = 12

/-- `http://%s:%s`. -/
def Draws.vpcUrl (d : Draws) : GoString := "http://" ++ d.publicIP ++ str ":" ++ d.port

/-- The safe in the clear; `json.Marshal` sorts the keys. -/
def Draws.safeJSON (d : Draws) : GoString :=
  marshalObject [("sessionToken", marshalString d.sessionToken), ("vpcUrl", marshalString d.vpcUrl)]

/-- `%s-%d`, and in the page `${challengeTimeStr}-${challengeClicks}`. -/
def passphrase (time : JsString) (clicks : Int) : JsString := time ++ ascii "-" ++ ascii (itoa clicks)

/-- `depositSafeOnCloudflare` of what `encryptAESGCM` has made. -/
def depositSafe (V : Vault) (phone time : JsString) (clicks : Int) (d : Draws) : DirectoryAction :=
  .deposit phone (btoa (V.encrypt (textEncode (passphrase time clicks)) d.salt d.iv d.safeJSON))
    (btoa d.salt) (btoa d.iv) time

/-- A request to program a challenge. -/
structure ChallengeRequest where
  phone : JsString
  challengeTime : JsString
  challengeClicks : Int

/-- `challengeAuthHandler`, `none` when it refuses. -/
def challengeAuthHandler (V : Vault) (req : ChallengeRequest) (d : Draws) : Option DirectoryAction :=
  if req.phone = [] ∨ req.challengeTime = [] ∨ req.challengeClicks < 1 ∨ req.challengeClicks > 8 then none
  else some (depositSafe V req.phone req.challengeTime req.challengeClicks d)

/-- `%02d`. -/
def paddedTwo (n : Nat) : GoString := if n < 10 then "0" ++ itoa n else itoa n

/-- One round of `startHoneypotGenerator`, `phone` being that of the latest session. -/
def honeypot (V : Vault) (phone : JsString) (hour : Fin 24) (minute : Fin 60) (clicks : Fin 8)
    (d : Draws) : Option DirectoryAction :=
  if phone = [] then none
  else some (depositSafe V phone (ascii (paddedTwo hour ++ paddedTwo minute)) (1 + clicks) d)

/-! ## The page asks -/

/-- A byte after `%` and two hexadecimal digits; any other `%` stands for itself. -/
def percentDecode : GoString → GoString
  | 0x25 :: a :: b :: rest =>
    match Go.hexValue a, Go.hexValue b with
    | some x, some y => UInt8.ofNat (x * 16 + y) :: percentDecode rest
    | _, _ => 0x25 :: percentDecode (a :: b :: rest)
  | c :: rest => c :: percentDecode rest
  | [] => []

/-- The pieces of a text between the separators. -/
def splitOn (c : UInt16) : JsString → List JsString
  | [] => [[]]
  | u :: s =>
    if u = c then [] :: splitOn c s
    else
      match splitOn c s with
      | piece :: pieces => (u :: piece) :: pieces
      | [] => [[u]]

/-- A name or a value of a query. -/
def formDecode (s : JsString) : JsString :=
  utf8Decode (percentDecode (textEncode (s.map fun u => if u = 0x2B then 0x20 else u)))

/-- The query of an address that is written behind `?`: tabs and line ends are left out, and `#` ends
it. -/
def queryOf (text : JsString) : JsString :=
  (text.filter fun u => u ≠ 0x09 ∧ u ≠ 0x0A ∧ u ≠ 0x0D).takeWhile fun u => u ≠ 0x23

/-- `url.searchParams.get(name)`, empty when there is none. -/
def searchParam (name query : JsString) : JsString :=
  let pieces := (splitOn 0x26 query).filter fun p => p ≠ []
  let params := pieces.map fun p =>
    (formDecode (p.takeWhile fun u => u ≠ 0x3D), formDecode ((p.dropWhile fun u => u ≠ 0x3D).drop 1))
  (params.lookup name).getD []

/-- The lookup that arrives when the page of a phone fetches
`/api/directory?phone=${phone}&time=${challengeTimeStr}`. -/
def pageLookup (ip phone challengeTimeStr : JsString) : Lookup :=
  let query := queryOf (ascii "phone=" ++ phone ++ ascii "&time=" ++ challengeTimeStr)
  ⟨ip, searchParam (ascii "phone") query, searchParam (ascii "time") query⟩

/-! ## The page opens the safe -/

/-- A value that a condition takes for true. A number is, unless its digits are zeros. -/
def JsonTruthy : JsonValue → Bool
  | .null => false
  | .bool b => b
  | .num text => (text.takeWhile fun u => u ≠ 0x65 ∧ u ≠ 0x45).any fun u => 0x31 ≤ u ∧ u ≤ 0x39
  | .str s => s ≠ []
  | .arr _ => true
  | .obj _ => true

/-- A member of an object, the last one of its name. -/
def jsonMember (name : JsString) : JsonValue → Option JsonValue
  | .obj members => members.reverse.lookup name
  | _ => none

/-- What a safe holds when it is opened: an address and a session token. -/
def safeContents (V : Vault) (time : JsString) (clicks : Int) (encryptedSafe salt iv : JsString) :
    Option (JsonValue × JsonValue) := do
  let decrypted ← V.decrypt (passphrase time clicks) salt iv encryptedSafe
  let safeData ← jsonParse (textDecode decrypted)
  let vpcUrl ← jsonMember (ascii "vpcUrl") safeData
  let sessionToken ← jsonMember (ascii "sessionToken") safeData
  if JsonTruthy vpcUrl ∧ JsonTruthy sessionToken then some (vpcUrl, sessionToken) else none

/-- What becomes of the page. -/
inductive LoginResult
  | tooMany
  | failed
  | lockedDown
  | connected (vpcUrl sessionToken : JsonValue)

/-- A text in an answer. -/
def Response.text (r : Response) (name : JsString) : Option JsString :=
  match r.body.lookup name with
  | some (.str s) => some s
  | _ => none

/-- The safe was destroyed. -/
def Response.LockedDown (r : Response) : Prop := ascii "locked_down_correct_time" ∈ r.fields

instance (r : Response) : Decidable r.LockedDown := inferInstanceAs (Decidable (_ ∈ _))

/-- `processChallenge` from the answer on. -/
def processChallenge (V : Vault) (challengeTimeStr : JsString) (challengeClicks : Int) (r : Response) :
    LoginResult :=
  if r.status = 429 then .tooMany
  else if ¬ ∃ v ∈ r.body.lookup (ascii "success"), JsonTruthy v then .failed
  else
    let contents := do
      safeContents V challengeTimeStr challengeClicks (← r.text (ascii "encrypted_safe"))
        (← r.text (ascii "salt")) (← r.text (ascii "iv"))
    match contents with
    | some (vpcUrl, sessionToken) => .connected vpcUrl sessionToken
    | none => if r.LockedDown then .lockedDown else .failed

/-! ## The lookup among all others -/

/-- The directory, and where the lookup of the page stands. -/
structure Login where
  world : Directory
  phase : Phase

/-- Something else happens in the directory, or the lookup takes its next step. -/
inductive LoginAction
  | others (a : DirectoryAction)
  | own (pick : Option Nat) (decoy : Decoy)

/-- One step of the directory with the lookup `l` of the page. -/
def loginStep (l : Lookup) (s : Login) : LoginAction → Option Login
  | .others a => (directoryStep s.world a).map fun world => ⟨world, s.phase⟩
  | .own pick decoy =>
    (lookupStep s.world.db s.world.clock l pick decoy s.phase).map fun p =>
      ⟨⟨p.1, s.world.clock, s.world.requests⟩, p.2⟩

/-- A directory in which nothing has happened. -/
def Directory.empty : Directory := ⟨⟨Table.empty, [], unique_nil⟩, 0, []⟩

/-- The lookup asks for this phone and this time. -/
def Lookup.AsksFor (l : Lookup) (phone time : JsString) : Prop := l.phone = phone ∧ l.time = time

instance (l : Lookup) (phone time : JsString) : Decidable (l.AsksFor phone time) :=
  inferInstanceAs (Decidable (_ ∧ _))

/-- Nobody else looks this time up. -/
def LoginAction.Quiet (phone time : JsString) : LoginAction → Prop
  | .others (.arrive l) => ¬ l.AsksFor phone time
  | _ => True

/-- An answered lookup. -/
def Phase.isAnswered : Phase → Bool
  | .answered _ _ => true
  | _ => false

/-- From where the lookup of the page selects a safe: it always gets an answer in the end, and whichever
it gets, the page connects to this address with this token, unless the safe is destroyed. Without a phone
or a time the directory gives no safe. -/
structure LogsIn (V : Vault) (req : ChallengeRequest) (d : Draws) (l : Lookup) (s : Login) : Prop where
  asks : l.phone ≠ [] ∧ l.time ≠ []
  goesOn : ∀ as s', runSteps (loginStep l) s as = some s' → s'.phase.isAnswered = false →
    ∃ pick decoy, (loginStep l s' (.own pick decoy)).isSome
  connects : ∀ pick decoy as s' safe r, runSteps (loginStep l) s (.own pick decoy :: as) = some s' →
    s'.phase = .answered safe r → ¬ r.LockedDown →
    processChallenge V req.challengeTime req.challengeClicks r =
      .connected (.str (ascii d.vpcUrl)) (.str (ascii d.sessionToken))

end Gafam.Frontend
