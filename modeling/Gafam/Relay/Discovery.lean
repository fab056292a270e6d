import Gafam.Frontend.Directory
import Gafam.Go.Json
import Gafam.Go.Net

/-!
# Looking up the VPC of a phone

The relay asks the directory of gafam.cloud for the URL of another phone's VPC. The route that it asks
also hands out session tokens to old clients, from the table `directory` that came before `directory_v2`:
a request without a time is such a login.
-/

namespace Gafam.Relay

open Gafam.Go Gafam.Frontend
open Gafam.Js (JsString JsonValue utf8Decode ascii)

/-! ## The parameters of a query -/

/-- `%` with two hexadecimal digits stands for a byte. -/
def percentDecode : GoString → GoString
  | 0x25 :: a :: b :: rest =>
    match hexValue a, hexValue b with
    | some x, some y => UInt8.ofNat (16 * x + y) :: percentDecode rest
    | _, _ => 0x25 :: percentDecode (a :: b :: rest)
  | c :: rest => c :: percentDecode rest
  | [] => []

/-- One side of a parameter, decoded. -/
def decodeParam (s : GoString) : JsString := utf8Decode (percentDecode (replaceByte 0x2B 0x20 s))

/-- `URLSearchParams`. -/
def searchParams (query : GoString) : List (JsString × JsString) :=
  ((splitByte 0x26 query).filter fun p => p ≠ []).map fun p =>
    (decodeParam (p.takeWhile (· != 0x3D)), decodeParam ((p.dropWhile (· != 0x3D)).drop 1))

/-- `url.searchParams.get`. -/
def getParam (query : GoString) (name : JsString) : Option JsString :=
  ((searchParams query).find? fun p => p.1 = name).map Prod.snd

/-! ## The route -/

/-- A row of the old table `directory`. -/
structure Listing where
  phoneNumber : JsString
  vpcUrl : JsString
  sessionToken : Option JsString
  certFingerprint : Option JsString

/-- What the route works on: the old table, the tables of the safes, and the clock. -/
structure Cloud where
  listings : List Listing
  unique : (listings.map Listing.phoneNumber).Nodup
  db : Database
  clock : Nat

/-- `UPDATE directory SET session_token = NULL WHERE phone_number = ?`. -/
def Cloud.spendToken (cloud : Cloud) (phone : JsString) : Cloud where
  listings := cloud.listings.map fun l => if l.phoneNumber = phone then { l with sessionToken := none } else l
  unique := by
    have hsame : ∀ l : Listing, (if l.phoneNumber = phone then { l with sessionToken := none } else l).phoneNumber =
        l.phoneNumber := by
      intro l
      split_ifs <;> rfl
    rw [List.map_map]
    exact (List.map_congr_left fun l _ => hsame l) ▸ cloud.unique
  db := cloud.db
  clock := cloud.clock

/-- A column that may be `NULL`. -/
def column : Option JsString → JsonValue
  | some s => .str s
  | none => .null

/-- `legacyGet`. -/
def legacyGet (cloud : Cloud) (phone : JsString) : Cloud × Response :=
  match cloud.listings.find? fun l => l.phoneNumber = phone with
  | none => (cloud, ⟨404, [(ascii "success", .bool false)]⟩)
  | some l =>
    match l.sessionToken.filter fun t => t ≠ [] with
    | none =>
      (cloud, ⟨404, [(ascii "success", .bool false), (ascii "reason", .str (ascii "token_consumed"))]⟩)
    | some token =>
      (cloud.spendToken phone, ⟨200, [(ascii "success", .bool true), (ascii "vpcUrl", .str l.vpcUrl),
        (ascii "sessionToken", .str token), (ascii "certFingerprint", column l.certFingerprint)]⟩)

/-- A lookup of a safe from its first step to its answer, while nothing else happens. -/
def LooksUp (db : Database) (clock : Nat) (l : Lookup) (db' : Database) (r : Response) : Prop :=
  ∃ choices : List (Option Nat × Decoy), ∃ safe,
    Lib.runSteps directoryStep ⟨db, clock, [⟨l, .start⟩]⟩ (choices.map fun c => .turn 0 c.1 c.2) =
      some ⟨db', clock, [⟨l, .answered safe r⟩]⟩

/-- `GET`, with the parameters `phone` and `time`: the tables after it, and the answer. -/
inductive Gets (cloud : Cloud) (ip : JsString) : Option JsString → Option JsString → Cloud → Response → Prop
  | missing {phone time : Option JsString} (h : phone.filter (fun p => p ≠ []) = none) :
    Gets cloud ip phone time cloud ⟨400, [(ascii "error", .str (ascii "Phone missing"))]⟩
  | legacy {phone : JsString} {time : Option JsString} (hphone : phone ≠ [])
      (htime : time.filter (fun t => t ≠ []) = none) :
    Gets cloud ip (some phone) time (legacyGet cloud phone).1 (legacyGet cloud phone).2
  | lookup {phone time : JsString} {db' : Database} {r : Response} (hphone : phone ≠ []) (htime : time ≠ [])
      (h : LooksUp cloud.db cloud.clock ⟨ip, phone, time⟩ db' r) :
    Gets cloud ip (some phone) (some time) { cloud with db := db' } r

/-! ## The relay's lookup -/

/-- The code points of a string; half of a surrogate pair is no character. -/
def codePoints : JsString → List Nat
  | u :: v :: s =>
    if 0xD800 ≤ u ∧ u < 0xDC00 ∧ 0xDC00 ≤ v ∧ v < 0xE000 then
      (0x10000 + (u.toNat - 0xD800) * 1024 + (v.toNat - 0xDC00)) :: codePoints s
    else (if 0xD800 ≤ u ∧ u < 0xE000 then runeError else u.toNat) :: codePoints (v :: s)
  | [u] => [if 0xD800 ≤ u ∧ u < 0xE000 then runeError else u.toNat]
  | [] => []

/-- A string of the answer, as Go decodes it. -/
def decoded (s : JsString) : GoString := (codePoints s).flatMap encodeRune

/-- The field of this name after Go has decoded an answer: the last string given to it. -/
def decodeField (name : GoString) (body : List (JsString × JsonValue)) : GoString :=
  body.foldl (fun old m =>
    if isField name (decoded m.1) then
      match m.2 with
      | .str s => decoded s
      | _ => old
    else old) []

/-- `discoverVpcURL` after the request: `VpcURL` and `PublicKey`. -/
def readAnswer (r : Response) : GoString × GoString :=
  if r.status ≠ 200 then ([], []) else (decodeField "vpc_url" r.body, decodeField "public_key" r.body)

/-- The query of the request. -/
def directoryQuery (selfPhone phone : GoString) : GoString :=
  str "phone=" ++ phone ++ str "&caller=" ++ selfPhone

/-- `discoverVpcURL`: the tables after it, and its two results. -/
inductive Discovers (cloud : Cloud) (selfPhone phone : GoString) : Cloud → GoString × GoString → Prop
  | own (h : selfPhone = phone) : Discovers cloud selfPhone phone cloud ([], [])
  /-- The request does not reach the route. -/
  | failed (h : selfPhone ≠ phone) : Discovers cloud selfPhone phone cloud ([], [])
  /-- The answer does not arrive, or it is cut off. -/
  | lost {cloud' : Cloud} {ip : JsString} {r : Response} (h : selfPhone ≠ phone)
      (hget : Gets cloud ip (getParam (directoryQuery selfPhone phone) (ascii "phone"))
        (getParam (directoryQuery selfPhone phone) (ascii "time")) cloud' r) :
    Discovers cloud selfPhone phone cloud' ([], [])
  | answered {cloud' : Cloud} {ip : JsString} {r : Response} (h : selfPhone ≠ phone)
      (hget : Gets cloud ip (getParam (directoryQuery selfPhone phone) (ascii "phone"))
        (getParam (directoryQuery selfPhone phone) (ascii "time")) cloud' r) :
    Discovers cloud selfPhone phone cloud' (readAnswer r)

/-! ## What a lookup should do -/

/-- The phone is registered with a URL. -/
structure Listed (cloud : Cloud) (phone : GoString) (l : Listing) : Prop where
  mem : l ∈ cloud.listings
  phone : l.phoneNumber = utf8Decode phone
  url : l.vpcUrl ≠ []

/-- The relay learns the URL of a registered phone, and takes nothing away from it. The table has no column
for a public key. -/
structure Agrees (cloud : Cloud) (l : Listing) (cloud' : Cloud) (result : GoString × GoString) : Prop where
  vpcURL : result.1 = decoded l.vpcUrl
  pubKey : result.2 = []
  safes : ∀ row ∈ cloud.db.safes.rows, row.val.phoneNumber = l.phoneNumber → row ∈ cloud'.db.safes.rows
  token : l ∈ cloud'.listings

end Gafam.Relay
