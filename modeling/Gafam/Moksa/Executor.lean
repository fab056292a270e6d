import Gafam.Moksa.Mission

/-!
# Boards of new missions, and operations on a board

`PoseBoard` poses the quests of a mission from words in its instruction, without a language model.
-/

namespace Gafam.Moksa

open Gafam.Go

/-- The variables of `PoseBoard`. The counter is the number of quests so far. -/
structure Posing where
  quests : List Quest
  lastIDs : List GoString

/-- `next()`. -/
def Posing.next (p : Posing) : GoString := "q" ++ itoa (p.quests.length + 1 : Nat)

/-- One more quest. -/
def Posing.pose (p : Posing) (title organHint tool : GoString) (params : Params)
    (dependsOn : List GoString) (eta : Int) : Posing where
  quests := p.quests ++
    [{ id := p.next
       title := title
       organHint := organHint
       tool := tool
       params := params
       dependsOn := dependsOn
       status := .pending
       claim := []
       eta := eta
       result := none
       error := []
       reward := none }]
  lastIDs := [p.next]

/-- The instruction contains one of the words. -/
def mentions (lower : GoString) (words : List GoString) : Bool := words.any fun w => contains lower w

/-- `PoseBoard`. A text in which `urlRe` finds something contains `http`. -/
def poseBoard (instruction : GoString) : List Quest :=
  let lower := toLower (trimSpace instruction)
  let hasURL := mentions lower ["http", "lien", "url", "site", "web", "browser"]
  let hasShell := mentions lower ["exec", "shell", "commande", "command", "run ", "script"]
  let hasFile := mentions lower ["fichier", "file", "lire", "write", "notes"]
  let hasLogs := mentions lower ["log", "sms", "suparna", "journée", "journee"]
  let files : Params := some [("path", .str "/files")]
  let p : Posing := ⟨[], []⟩
  let qUnderstand := p.next
  let p := p.pose "Clarify demand & gather context" "suparna_vpc" "sandbox.storage" (some []) [] 5
  let p :=
    if hasLogs then
      p.pose "Check sandbox storage / activity footprint" "suparna_vpc" "sandbox.file_list" files
        [qUnderstand] 8
    else p
  let p :=
    if hasURL then
      let qStatus := p.next
      (p.pose "Check remote browser status" "suparna_vpc" "browser.status" (some []) [qUnderstand]
        5).pose "Capture browser screenshot" "edge_l2_phone" "browser.screenshot" (some []) [qStatus]
        10
    else p
  let p :=
    if hasShell then
      let cmd :=
        if contains lower "whoami" then str "whoami && uname -a"
        else str "pwd && ls -la /sandbox/files 2>/dev/null || ls -la /files 2>/dev/null || ls -la"
      p.pose "Run shell command in sandbox" "edge_l2_phone" "sandbox.exec"
        (some [("command", .str cmd), ("timeout", .num 30)]) [qUnderstand] 15
    else p
  let p :=
    if hasFile then
      p.pose "List sandbox files" "suparna_vpc" "sandbox.file_list" files [qUnderstand] 5
    else p
  let p :=
    if p.quests.length = 1 then
      let qList := p.next
      (p.pose "Survey sandbox workspace" "suparna_vpc" "sandbox.file_list" files [qUnderstand] 8).pose
        "Read storage usage" "suparna_vpc" "sandbox.storage" (some []) [qList] 5
    else p
  (p.pose "Judge results against original demand" "edge_l2_phone" [] none p.lastIDs 20).quests

/-- `CreateMissionFromInstruction`. -/
def createMissionFromInstruction (now : Nat) (instruction : GoString) (st : Store) :
    Mission × Store :=
  let (id, st) := newMissionID now st
  let m : Mission :=
    { id := id
      instruction := trimSpace instruction
      quests := poseBoard instruction
      status := .active
      mode := []
      summary := []
      judge := none
      createdAt := now
      updatedAt := now }
  (m, saveMission now m st)

/-!
## Operations on a board

The functions that `ClaimQuest`, `RunQuest`, `ApplyReward`, `AddQuest` and `ApproveHandler` hand to
`UpdateMission`. `RunQuest` takes the lock twice, around the tool call: `runQuestStart` checks the
quest and marks it running, `runQuestFinish` records what the tool returned.
-/

/-- What a kāraka may do with a tool. -/
inductive Permission
  | allow
  | ask
  | deny
deriving DecidableEq

/-- The function of `ClaimQuest`. -/
def claimQuest (questID karakaID : GoString) : MissionFn := fun m =>
  if m.status = .cancelled ∨ m.status = .done then (m, some ("mission is " ++ m.status.text))
  else
    match m.findQuest questID with
    | none => (m, some ("quest not found: " ++ questID))
    | some q =>
      if q.status ≠ .pending ∧ q.status ≠ .claimed then
        (m, some ("quest status is " ++ q.status.text))
      else if karakaID = [] then (m, some "missing karaka_id")
      else (m.updateQuest questID fun q => { q with claim := karakaID, status := .claimed }, none)

/-- The first function of `RunQuest`; `perm` is `CheckPermission`. -/
def runQuestStart (perm : GoString → GoString → Permission) (questID : GoString) : MissionFn :=
  fun m =>
    match m.findQuest questID with
    | none => (m, some ("quest not found: " ++ questID))
    | some q =>
      if q.status ≠ .claimed ∧ q.status ≠ .failed then
        (m, some ("quest must be claimed before run (status=" ++ q.status.text ++ ")"))
      else if q.tool = [] then
        (m, some "quest has no tool — mark reward manually (judge quest)")
      else if q.claim = [] then (m, some "quest has no claim")
      else if perm q.claim q.tool = .deny then
        (m, some ("permission deny: " ++ q.claim ++ " cannot use " ++ q.tool))
      else (m.updateQuest questID fun q => { q with status := .running }, none)

/-- The second function of `RunQuest`: `res` is what `ExecuteTool` returned. -/
def runQuestFinish (questID : GoString) (res : Except GoString Json) : MissionFn := fun m =>
  match m.findQuest questID with
  | none => (m, some ("quest not found: " ++ questID))
  | some _ =>
    match res with
    | .error e =>
      (m.updateQuest questID fun q =>
        { q with
          status := .failed
          error := e
          result := none
          reward := some ⟨.failed, 0, e⟩ }, none)
    | .ok v =>
      (m.updateQuest questID fun q =>
        { q with
          status := .done
          error := []
          result := some v }, none)

/-- `truncate`. -/
def truncate (s : GoString) (n : Nat) : GoString :=
  let s := trimSpace s
  if s.length ≤ n then s else s.take n ++ "…"

/-- The verdicts that `ApplyReward` accepts. -/
def parseVerdict (verdict : GoString) : Option Verdict :=
  let v := trimSpace (toLower verdict)
  if v = "done" then some .done
  else if v = "failed" then some .failed
  else if v = "needs_more" then some .needsMore
  else none

/-- The follow-up quest that the verdict `needs_more` adds for `q`. -/
def followUp (m : Mission) (q : Quest) (reason : GoString) : Quest where
  id := m.nextQuestID
  title := if reason = [] then "Follow-up: " ++ q.title else "Follow-up — " ++ truncate reason 60
  organHint := q.organHint
  tool := q.tool
  params := some []
  dependsOn := [q.id]
  status := .pending
  claim := []
  eta := q.eta
  result := none
  error := []
  reward := none

/-- The function of `ApplyReward`, after the verdict has been checked. -/
def applyReward (questID : GoString) (verdict : Verdict) (score : Rat) (reason : GoString)
    (autoAdd : Bool) : MissionFn := fun m =>
  match m.findQuest questID with
  | none => (m, some ("quest not found: " ++ questID))
  | some q =>
    let m := m.updateQuest questID fun q => { q with reward := some ⟨verdict, score, reason⟩ }
    match verdict with
    | .done =>
      (m.updateQuest questID fun q =>
        if q.status = .running ∨ q.status = .claimed ∨ q.status = .pending then
          { q with status := .done }
        else q, none)
    | .failed => (m.updateQuest questID fun q => { q with status := .failed }, none)
    | .needsMore =>
      if autoAdd then ({ m with quests := m.quests ++ [followUp m q reason] }, none) else (m, none)
    | .other _ => (m, none)

/-- The function of `AddQuest`. -/
def addQuest (title organHint tool : GoString) (params : Params) (dependsOn : List GoString)
    (eta : Int) : MissionFn := fun m =>
  if m.status = .cancelled then (m, some "mission cancelled")
  else if title = [] then (m, some "missing title")
  else
    let q : Quest :=
      { id := m.nextQuestID
        title := title
        organHint := organHint
        tool := tool
        params := some (params.getD [])
        dependsOn := dependsOn
        status := .pending
        claim := []
        eta := if eta ≤ 0 then 10 else eta
        result := none
        error := []
        reward := none }
    ({ m with quests := m.quests ++ [q] }, none)

/-- The function of `ApproveHandler`. -/
def approveQuest (questID : GoString) (approve : Bool) (reason : GoString) : MissionFn := fun m =>
  match m.findQuest questID with
  | none => (m, some "quest not found")
  | some q =>
    if q.status ≠ .waitingApproval then (m, some "quest is not waiting for approval")
    else if approve then
      let m := m.updateQuest questID fun q => { q with status := .pending }
      (if m.status = .waitingApproval then { m with status := .active } else m, none)
    else
      let e := if reason = [] then str "rejected by human" else "rejected by human: " ++ reason
      (m.updateQuest questID fun q => { q with status := .cancelled, error := e }, none)

end Gafam.Moksa
