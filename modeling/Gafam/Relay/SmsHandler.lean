import Gafam.Relay.Emergency

/-!
# Receiving an SMS

`smsHandler` is the endpoint to which the phone pushes every received SMS. It first runs the triggers
(a remote quest of the owner, the continuation of an alert, a new distress cascade, the recovery of a
lost login) and only then stores the message.
-/

namespace Gafam.Relay

open Gafam.Go Gafam.Lib

/-- The decrypted payload. -/
structure SmsParams where
  sender : Option GoString
  body : Option GoString
  timestamp : Option Int

/-- A request, after each of the decoding stages that can refuse it. -/
inductive SmsRequest
  | badPayload
  | badCipher
  | badPlaintext
  | params (p : SmsParams)

/-- What the handling of one request reads from outside: the clock, the ids that `new911AlertID`
returns in turn, and the random values of `generateEmergencyChallenge`. -/
structure SmsEnv where
  now : Nat
  relayID : GoString
  guardianID : GoString
  selfID : GoString
  challengeTime : GoString
  challengeClicks : Nat
  sessionId : GoString
  sessionToken : GoString

/-- The answer to the phone. A request that panics is answered by a closed connection. -/
inductive SmsReply
  | error (code : Nat) (text : GoString)
  | panicked
  | duplicate (id : Nat) (spamStatus : SmsStatus)
  | saved (id : Nat) (spamStatus : SmsStatus)
deriving DecidableEq

/-- The answer, the alert ids of the new cascades in the order of their start, and the node. -/
structure SmsResult where
  reply : SmsReply
  cascades : List GoString
  node : Node

/-! ## Remote quests of the owner -/

/-- The prefixes of a remote quest with the mode each one selects. -/
def questPrefixes : List (GoString × GoString) :=
  [("/r ", "research"), ("/research ", "research"), ("/q ", "action"), ("/quest ", "action")]

/-- `selfQuestInstruction`: the instruction and the mode. -/
def selfQuestInstruction (self sender body : GoString) : Option (GoString × GoString) :=
  if self = [] || !phonesMatch sender self then none
  else
    let trimmed := trimSpace body
    questPrefixes.findSome? fun (p, mode) =>
      if p.isPrefixOf (toLower trimmed) then
        let instr := trimSpace (trimmed.drop p.length)
        if instr = [] then none else some (instr, mode)
      else none

/-- The confirmation that `triggerSelfQuest` texts back when the mission was started. -/
def questStarted (missionID mode : GoString) : GoString :=
  if mode = "research" then
    "GAFAM 🔬 research " ++ missionID ++
      " started — vault checked first, then web sweep. I'll text you the report path"
  else "GAFAM ⚡ quest " ++ missionID ++ " started — I'll text you when done"

/-- The answer of `triggerSelfQuest` when another mission holds the orchestrator. -/
def questBusy : GoString := "GAFAM ⏳ saṃyojaka busy on another mission — retry in a few minutes"

/-- `triggerSelfQuest`, up to the return of `launchOrchestration`. -/
def triggerSelfQuest (now : Nat) (selfPhone instruction mode : GoString) (n : Node) : Node :=
  let (m, board) := Moksa.createEmptyMission now instruction n.board
  match n.running with
  | some _ =>
    queueSmsReply now selfPhone questBusy
      { n with board := (Moksa.deleteMission m.id board).2 }
  | none =>
    queueSmsReply now selfPhone (questStarted m.id mode)
      { n with board := board, running := some m.id }

/-! ## Trusted senders -/

/-- The first guardian whose number agrees with the sender's on the last nine digits. -/
def matchGuardian (sender : GoString) (guardians : List Guardian) : Option Guardian :=
  guardians.find? fun g =>
    lastNine g.phoneNumber != [] && lastNine sender != [] &&
      lastNine g.phoneNumber == lastNine sender

/-- Trigger (a): a guardian sends its own 911 code. -/
def guardianDistress (sender body : GoString) (n : Node) : Option Guardian :=
  (matchGuardian sender n.guardians).filter fun g =>
    g.keyword911 != [] && contains (toLower body) (toLower g.keyword911)

/-- Trigger (b): the owner sends 911 from the self phone. -/
def selfDistress (sender body : GoString) (n : Node) : Bool :=
  n.selfPhone != [] && phonesMatch sender n.selfPhone && containsCodeWord body default911Code

/-- The recovery trigger: a guardian sends its keyword. -/
def recoveryRequested (sender body : GoString) (n : Node) : Bool :=
  match matchGuardian sender n.guardians with
  | some g => g.keyword != [] && contains (toLower body) (toLower g.keyword)
  | none => false

/-- The number that the recovery login is for: that of the first session. -/
def relayPhone (n : Node) : Option GoString :=
  match n.sessions with
  | s :: _ => if s.phone = [] then none else some s.phone
  | [] => none

/-! ## The triggers -/

/-- A new cascade: `trigger911Cascade` with an empty alert id and hop 1. -/
def startCascade (now : Nat) (newID sender origName message : GoString) (n : Node) : Node :=
  (trigger911Cascade now newID sender [] 1 (phoneDigits sender) origName message n).2

/-- The result of the triggers: whether one of them panicked, the new cascades, the node. -/
structure TriggerResult where
  panicked : Bool
  cascades : List GoString
  node : Node

/-- Trigger (a). -/
def runGuardianDistress (env : SmsEnv) (sender body : GoString) (n : Node) : TriggerResult :=
  match guardianDistress sender body n with
  | none => ⟨false, [], n⟩
  | some g =>
    match messageAfterCode body g.keyword911 with
    | none => ⟨true, [], n⟩
    | some msg => ⟨false, [env.guardianID], startCascade env.now env.guardianID sender g.name msg n⟩

/-- Trigger (b). -/
def runSelfDistress (env : SmsEnv) (sender body : GoString) (n : Node) : TriggerResult :=
  if selfDistress sender body n then
    match messageAfterCode body default911Code with
    | none => ⟨true, [], n⟩
    | some msg =>
      ⟨false, [env.selfID],
        startCascade env.now env.selfID sender (contactNameForPhone n.selfPhone n) msg n⟩
  else ⟨false, [], n⟩

/-- The text with the recovery code. -/
def recoveryReply (env : SmsEnv) (phone : GoString) : GoString :=
  let clicks := itoa env.challengeClicks
  "Code GAFAM: " ++ env.challengeTime ++ " - " ++ clicks ++
    " impulsions\nCliquez sur le lien, attendez la fin du timer, puis faites " ++ clicks ++
    " impulsions.\n" ++ ("https://" ++ phoneToSubdomain phone ++ ".gafam.cloud/?t=" ++
      env.challengeTime.filter (· != 0x3A))

/-- `generateEmergencyChallenge`: a confirmed session for the relay phone. -/
def generateEmergencyChallenge (env : SmsEnv) (phone : GoString) (n : Node) : Node :=
  { n with sessions := n.sessions ++ [⟨env.sessionId, phone, env.sessionToken⟩] }

/-- The recovery trigger. -/
def runRecovery (env : SmsEnv) (sender body : GoString) (n : Node) : Node :=
  if recoveryRequested sender body n then
    match relayPhone n with
    | some phone =>
      (generateEmergencyChallenge env phone n).queueAndMirror env.now sender (recoveryReply env phone)
    | none => n
  else n

/-- The remote quest. -/
def runSelfQuest (env : SmsEnv) (sender body : GoString) (n : Node) : Node :=
  match selfQuestInstruction n.selfPhone sender body with
  | some (instr, mode) => triggerSelfQuest env.now sender instr mode n
  | none => n

/-- Everything that `smsHandler` does before it stores the message. -/
def runTriggers (env : SmsEnv) (sender body : GoString) (n : Node) : TriggerResult :=
  let (relayed, n) := relay911Alert env.now env.relayID sender body (runSelfQuest env sender body n)
  if relayed then ⟨false, [], n⟩
  else
    let a := runGuardianDistress env sender body n
    if a.panicked then a
    else
      let b := runSelfDistress env sender body a.node
      if b.panicked then ⟨true, a.cascades, b.node⟩
      else ⟨false, a.cascades ++ b.cascades, runRecovery env sender body b.node⟩

/-! ## Storing the message -/

/-- The rolling window of `gafam_sms`. -/
def maxStoredSms : Nat := 50000

/-- The anti-spam check: the sender is a contact. -/
def spamStatus (sender : GoString) (n : Node) : SmsStatus :=
  if n.contacts.any fun c => (lastNine sender).isSuffixOf c.phone then .inbox else .purgatory

/-- The end of `smsHandler`. -/
def storeSms (env : SmsEnv) (sender body : GoString) (timestamp : Int) (n : Node) :
    SmsReply × Node :=
  let status := spamStatus sender n
  match insertSmsDeduped env.now n.sms sender body timestamp status with
  | (⟨id, false⟩, sms) => (.duplicate id status, { n with sms := sms })
  | (⟨id, true⟩, sms) => (.saved id status, { n with sms := sms.keepLast maxStoredSms })

/-- `smsHandler`. -/
def smsHandler (env : SmsEnv) (req : SmsRequest) (n : Node) : SmsResult :=
  match req with
  | .badPayload => ⟨.error 400 "Invalid JSON payload", [], n⟩
  | .badCipher => ⟨.error 403 "Decryption failed", [], n⟩
  | .badPlaintext => ⟨.error 400 "Invalid decrypted JSON payload", [], n⟩
  | .params p =>
    let sender := p.sender.getD []
    let body := p.body.getD []
    let t := runTriggers env sender body n
    if t.panicked then ⟨.panicked, t.cascades, t.node⟩
    else
      let (reply, n) := storeSms env sender body (p.timestamp.getD 0) t.node
      ⟨reply, t.cascades, n⟩

/-! ## What one delivery may do -/

/-- No outbox message, no recovery session, no mission and no new cascade came out of a delivery. -/
structure NoSideEffect (n : Node) (r : SmsResult) : Prop where
  outbox : r.node.outbox = n.outbox
  sessions : r.node.sessions = n.sessions
  board : r.node.board = n.board
  cascades : r.cascades = []

/-- A delivery that is reported as a duplicate had no side effect, and no delivery starts two
cascades. -/
structure HandledOnce (n : Node) (r : SmsResult) : Prop where
  duplicate : ∀ id status, r.reply = .duplicate id status → NoSideEffect n r
  cascades : r.cascades.length ≤ 1

/-- The insertion that stores the message of a request. -/
def storeCall (env : SmsEnv) (sender body : GoString) (timestamp : Int) (n : Node) : DedupCall :=
  ⟨env.now, sender, body, timestamp, spamStatus sender n⟩

/-- The message is a well-formed alert, which is never taken for a trigger. -/
def IsAlert (body : GoString) : Prop := (parse911Relay body).isSome

instance (body : GoString) : Decidable (IsAlert body) := by unfold IsAlert; infer_instance

/-- Trigger (a) starts a cascade. -/
def FiresGuardian (sender body : GoString) (n : Node) : Prop :=
  ¬ IsAlert body ∧ (guardianDistress sender body n).isSome

/-- Trigger (b) starts a cascade. -/
def FiresSelf (sender body : GoString) (n : Node) : Prop :=
  ¬ IsAlert body ∧ selfDistress sender body n = true

instance (sender body : GoString) (n : Node) : Decidable (FiresGuardian sender body n) := by
  unfold FiresGuardian; infer_instance

instance (sender body : GoString) (n : Node) : Decidable (FiresSelf sender body n) := by
  unfold FiresSelf; infer_instance

/-- The number for which the recovery trigger makes a session, if it does. -/
def recoveryPhone (sender body : GoString) (n : Node) : Option GoString :=
  if (parse911Relay body).isNone && recoveryRequested sender body n then relayPhone n else none

/-- The insertion that mirrors the recovery reply. -/
def replyCall (env : SmsEnv) (sender phone : GoString) : DedupCall :=
  ⟨env.now, sender, recoveryReply env phone, env.now, .outbound⟩

/-- The message is the very text that the recovery trigger mirrors just before the message itself is
stored, and the mirrored row is among those that the deduplication looks at. -/
def EchoesReply (env : SmsEnv) (c : DedupCall) (n : Node) : Prop :=
  ∃ phone, recoveryPhone c.sender c.body n = some phone ∧ c.body = recoveryReply env phone ∧
    ¬ Refused n.sms (replyCall env c.sender phone) ∧
    (c.time = env.now ∨
      c.time ≠ 0 ∧ inWindow env.now c.time ∧
        (n.sms.rows.filter fun r =>
          r.val.body == c.body && inWindow r.val.timestamp c.time).length < candidateLimit)

/-- One of the four triggers has an effect. -/
def Fires (sender body : GoString) (n : Node) : Prop :=
  (selfQuestInstruction n.selfPhone sender body).isSome ∨ FiresGuardian sender body n ∨
    FiresSelf sender body n ∨ (recoveryPhone sender body n).isSome

/-- The text behind the code of a trigger that starts a cascade is out of the range of the body. -/
def Panics (sender body : GoString) (n : Node) : Prop :=
  ¬ IsAlert body ∧
    ((∃ g, guardianDistress sender body n = some g ∧ messageAfterCode body g.keyword911 = none) ∨
      (selfDistress sender body n = true ∧ messageAfterCode body default911Code = none))

/-- The triggers and the deduplication agree: a trigger that has an effect belongs to a message that
is then stored, and the two distress triggers do not both start a cascade. -/
def TakenOnce (env : SmsEnv) (c : DedupCall) (n : Node) : Prop :=
  Panics c.sender c.body n ∨
    ((Fires c.sender c.body n → ¬ Refused n.sms c ∧ ¬ EchoesReply env c n) ∧
      ¬ (FiresGuardian c.sender c.body n ∧ FiresSelf c.sender c.body n))

/-! ## Known senders -/

/-- Some contact has the number of the sender. -/
def knowsSender (contacts : List Contact) (sender : GoString) : Bool :=
  contacts.any fun c => phonesMatch c.phone sender

/-- Whenever an SMS of the sender is stored, its row is in the inbox if some contact has the number, and in purgatory
if none has. -/
def SortedByNumber (contacts : List Contact) (sender : GoString) : Prop :=
  ∀ env p n, n.contacts = contacts → p.sender.getD [] = sender →
    ∀ id status, (smsHandler env (.params p) n).reply = .saved id status →
      ∃ r ∈ (smsHandler env (.params p) n).node.sms.rows, r.id = id ∧ r.val.sender = sender ∧
        r.val.status = if knowsSender contacts sender then .inbox else .purgatory

/-- The last bytes of a text. -/
def lastBytes (s : GoString) (n : Nat) : GoString := s.drop (s.length - n)

/-- The numbers are written so that a search for the last digits of the sender in the raw text finds what a comparison
of the digits finds. -/
structure WrittenAlike (contacts : List Contact) (sender : GoString) : Prop where
  /-- A sender without digits: there is nobody to take it for. -/
  noDigits : phoneDigits sender = [] → contacts = []
  /-- A short number at the end of a longer one: some contact has the short number. -/
  short : ∀ c ∈ contacts, phoneDigits sender ≠ [] → (phoneDigits sender).length < 9 →
    phoneDigits sender <:+ c.phone → phoneDigits c.phone ≠ phoneDigits sender →
    ∃ c' ∈ contacts, phoneDigits c'.phone = phoneDigits sender
  /-- A matching number that is written with something else between its last digits, or behind them: some contact has
  them in one piece. -/
  separated : ∀ c ∈ contacts, phonesMatch c.phone sender = true →
    (∃ b ∈ lastBytes c.phone (lastNine sender).length, isDigit b = false) →
    ∃ c' ∈ contacts, lastNine sender <:+ c'.phone

end Gafam.Relay
