import Gafam.Moksa.Mission
import Gafam.Relay.Dedup

/-!
# The state of a relay node, and the 911 cascade

The database of one node together with the part of its process state that SMS handling touches. The
functions are those of a node whose database operations succeed. Clock readings are milliseconds;
a request reads the clock once.
-/

namespace Gafam.Relay

open Gafam.Go Gafam.Lib

/-- One node. -/
structure Node where
  sms : SmsTable
  outbox : Table OutboxMsg
  /-- `gafam_911_seen` -/
  seen : List SeenAlert
  /-- `trusted_guardians` -/
  guardians : List Guardian
  contacts : List Contact
  sessions : List Session
  /-- The setting `self_phone`, empty when it is not set. -/
  selfPhone : GoString
  /-- The mission store. -/
  board : Moksa.Store
  /-- `orchestratorMission`, the mission that holds `orchestratorMu`. -/
  running : Option GoString

/-- A node with empty tables. -/
def Node.fresh : Node where
  sms := SmsTable.empty
  outbox := Table.empty
  seen := []
  guardians := []
  contacts := []
  sessions := []
  selfPhone := []
  board := ⟨∅, 0⟩
  running := none

/-- Queues an SMS without a link to the history and mirrors it there: the common part of
`queue911Sms`, `queueSmsReply` and the recovery reply. -/
def Node.queueAndMirror (now : Nat) (recipient body : GoString) (s : Node) : Node :=
  { s with
    outbox := s.outbox.insert ⟨recipient, body, 0⟩
    sms := (insertSmsDeduped now s.sms recipient body now .outbound).2 }

/-- `queueSmsReply`. -/
def queueSmsReply (now : Nat) (recipient body : GoString) (s : Node) : Node :=
  s.queueAndMirror now recipient body

/-- `contactNameForPhone`: the first contact whose number ends in the digits. -/
def contactNameForPhone (phone : GoString) (s : Node) : GoString :=
  match s.contacts.find? fun c => (phoneDigits phone).isSuffixOf c.phone with
  | some c => if c.name = [] then phone else c.name
  | none => phone

/-!
## The 911 cascade

The alert of a trusted sender flows outward: every node that receives a well-formed alert relays it
to its own guardians. The wire format is

    GAFAM911 <alertID> <hop> <origPhone> | <origName> | <message>

Two guards are meant to bound the flood: each node remembers the alert ids it has handled, and an
alert carries a hop counter.
-/

/-- `gafam911Prefix`. -/
def gafam911Prefix : GoString := "GAFAM911"

/-- `max911Hops`. -/
def max911Hops : Int := 3

/-- `default911Code`. -/
def default911Code : GoString := "911"

/-- How long an alert id is remembered, in seconds. -/
def seenRetention : Nat := 172800

/-- The `DELETE` of `mark911Seen`: drops the ids recorded more than two days before `now`. -/
def pruneSeen (now : Nat) (seen : List SeenAlert) : List SeenAlert :=
  seen.filter fun r => now / 1000 ≤ r.createdAt + seenRetention

/-- An alert id is recorded. -/
def Seen (alertID : GoString) (seen : List SeenAlert) : Prop := ∃ r ∈ seen, r.alertId = alertID

instance (alertID : GoString) (seen : List SeenAlert) : Decidable (Seen alertID seen) := by
  unfold Seen; infer_instance

/-- `mark911Seen`: records an alert id; `false` when it was recorded already. -/
def mark911Seen (now : Nat) (alertID : GoString) (seen : List SeenAlert) : Bool × List SeenAlert :=
  if alertID = [] then (true, seen)
  else if Seen alertID seen then (false, pruneSeen now seen)
  else (true, pruneSeen now (seen ++ [⟨alertID, now / 1000⟩]))

/-- `sanitize911Text`. -/
def sanitize911Text (s : GoString) : GoString :=
  trimSpace (replaceByte 0x7C 0x2F (replaceByte 0x0A 0x20 (replaceByte 0x0D 0x20 s)))

/-- `build911RelayBody`. -/
def build911RelayBody (alertID : GoString) (hop : Int) (origPhone origName message : GoString) :
    GoString :=
  gafam911Prefix ++ " " ++ alertID ++ " " ++ itoa hop ++ " " ++ sanitize911Text origPhone ++ " | " ++
    sanitize911Text origName ++ " | " ++ sanitize911Text message

/-- The fields of an alert body. -/
structure Alert where
  alertID : GoString
  origPhone : GoString
  origName : GoString
  message : GoString
  hop : Int
deriving DecidableEq

/-- The head of an alert body, `GAFAM911 <alertID> <hop> <origPhone>`. -/
def parse911Head (head : GoString) : Option (GoString × Int × GoString) :=
  match fields head with
  | [word, alertID, hopText, origPhone] =>
    if equalFoldAscii word gafam911Prefix then
      match atoi hopText with
      | some h => if h < 1 then none else some (alertID, h, origPhone)
      | none => none
    else none
  | _ => none

/-- `parse911Relay`; `none` is `ok = false`. -/
def parse911Relay (body : GoString) : Option Alert :=
  match splitN " | " 3 (trimSpace body) with
  | head :: name :: rest =>
    (parse911Head head).map fun (alertID, hop, origPhone) =>
      { alertID := alertID
        origPhone := origPhone
        origName := name
        message := rest.headD []
        hop := hop }
  | _ => none

/-- `queue911Sms`. -/
def queue911Sms (now : Nat) (recipient body : GoString) (s : Node) : Node :=
  s.queueAndMirror now recipient body

/-- The guardians that a relay goes to: those with the 911 relay on, the sender excepted. -/
def relayGuardians (senderStr : GoString) (guardians : List Guardian) : List Guardian :=
  (guardians.filter fun g => g.relay911 = 1).filter fun g => !phonesMatch g.phoneNumber senderStr

/-- `trigger911Cascade`; `newID` is what `new911AlertID` would return. The number is that of the
relayed messages. -/
def trigger911Cascade (now : Nat) (newID senderStr alertID : GoString) (hop : Int)
    (origPhone origName message : GoString) (s : Node) : Nat × Node :=
  let alertID := if alertID = [] then newID else alertID
  let (fresh, seen) := mark911Seen now alertID s.seen
  let s := { s with seen := seen }
  if !fresh then (0, s)
  else if hop > max911Hops then (0, s)
  else
    let body := build911RelayBody alertID hop origPhone origName message
    let targets := relayGuardians senderStr s.guardians
    (targets.length, targets.foldl (fun s g => queue911Sms now g.phoneNumber body s) s)

/-- `relay911Alert`: `false` when the body is no alert. -/
def relay911Alert (now : Nat) (newID senderStr body : GoString) (s : Node) : Bool × Node :=
  match parse911Relay body with
  | none => (false, s)
  | some a =>
    let (fresh, seen) := mark911Seen now a.alertID s.seen
    let s := { s with seen := seen }
    if !fresh then (true, s)
    else if a.hop ≥ max911Hops then (true, s)
    else
      (true, (trigger911Cascade now newID senderStr a.alertID (a.hop + 1) a.origPhone a.origName
        a.message s).2)

/-- `containsCodeWord`. -/
def containsCodeWord (body code : GoString) : Bool :=
  let c := toLower code
  if c = [] then false
  else (fields (toLower (trimSpace body))).any fun tok => trimCutset ".,!?;:()[]\x7b\x7d" tok == c

/-- `messageAfterCode`. The position is one of the lower-cased body but the slice is taken from the
body itself; `none` is the run-time panic of a slice out of range. -/
def messageAfterCode (body code : GoString) : Option GoString :=
  match index (toLower code) (toLower body) with
  | none => some []
  | some idx =>
    if idx + code.length ≤ body.length then some (trimSpace (body.drop (idx + code.length)))
    else none

/-! ### Purpose -/

/-- The runes of a text in lower case. -/
def lowerRunes (s : GoString) : List Nat := (segments s).map fun r => toLowerRune r.rune

/-- The number of runes in front of the first place at which the runes of a word stand. -/
def findRunes (word : List Nat) : List Nat → Option Nat
  | [] => if word = [] then some 0 else none
  | r :: rs => if word.isPrefixOf (r :: rs) then some 0 else (findRunes word rs).map (· + 1)

/-- The number of runes in front of the first case-insensitive occurrence of a code. -/
def codePlace (body code : GoString) : Option Nat := findRunes (lowerRunes code) (lowerRunes body)

/-- The text that follows the first case-insensitive occurrence of a code. -/
def textAfterCode (body code : GoString) : Option GoString :=
  (codePlace body code).map fun n => trimSpace (joinSegments ((segments body).drop (n + (segments code).length)))

/-- The byte at which that text begins, before it is trimmed. -/
def textStart (body code : GoString) (n : Nat) : Nat :=
  (joinSegments ((segments body).take (n + (segments code).length))).length

/-- The byte at which `messageAfterCode` slices: the runes in front of the code take the bytes of their lower-case
forms, the code takes its own. -/
def sliceStart (body code : GoString) (n : Nat) : Nat :=
  (((lowerRunes body).take n).flatMap encodeRune).length + code.length

/-- The bytes between two positions. -/
def between (s : GoString) (a b : Nat) : GoString := (s.drop (min a b)).take (max a b - min a b)

/-- The slice lies within the body, and between its beginning and that of the text there is nothing but white space;
or else the text of the body is what the slice leaves of a white-space character that it cuts. -/
def SlicesText (body code : GoString) : Prop :=
  ∀ n ∈ codePlace body code, sliceStart body code n ≤ body.length ∧
    (Blank (between body (sliceStart body code n) (textStart body code n)) ∨
      CutsSpace (between body (sliceStart body code n) (textStart body code n))
        (body.drop (max (sliceStart body code n) (textStart body code n))))

end Gafam.Relay
