import Gafam.Go.Text
import Gafam.Lib.Drain
import Gafam.Lib.Steps

/-!
# The video stream and its hub

The hub writes every message behind its length, four bytes with the highest first. The viewer takes
the body of the reply in whatever chunks it arrives, appends them to a buffer, and takes a message as
soon as the buffer holds it whole.
-/

namespace Gafam.Scrcpy

open Gafam.Go Gafam.Lib

/-! ## The hub -/

/-- The frame of a message: `byte(len(data) >> 24)` and so on, then the message. -/
def frame (data : GoString) : GoString :=
  UInt8.ofNat (data.length >>> 24) :: UInt8.ofNat (data.length >>> 16) ::
    UInt8.ofNat (data.length >>> 8) :: UInt8.ofNat data.length :: data

/-- What the loop of a stream handler has written for a list of messages. -/
def written (messages : List GoString) : GoString := messages.flatMap frame

/-! ## The viewer -/

/-- `getUint32(0, false)`. -/
def getUint32 : GoString → Nat
  | a :: b :: c :: d :: _ => ((a.toNat * 256 + b.toNat) * 256 + c.toNat) * 256 + d.toNat
  | _ => 0

/-- One turn of the loop that takes messages out of the buffer, `none` where the loop ends. -/
def takeFrame (buffer : GoString) : Option (GoString × GoString) :=
  if buffer.length ≥ 4 then
    let len := getUint32 buffer
    if buffer.length ≥ 4 + len then some ((buffer.drop 4).take len, buffer.drop (4 + len)) else none
  else none

theorem getUint32_append {buffer : GoString} (h : buffer.length ≥ 4) (rest : GoString) :
    getUint32 (buffer ++ rest) = getUint32 buffer := by
  match buffer, h with
  | _ :: _ :: _ :: _ :: _, _ => rfl

theorem takeFrame_eq_some {buffer data rest : GoString} :
    takeFrame buffer = some (data, rest) ↔
      4 + getUint32 buffer ≤ buffer.length ∧ 4 ≤ buffer.length ∧
        data = (buffer.drop 4).take (getUint32 buffer) ∧ rest = buffer.drop (4 + getUint32 buffer) := by
  unfold takeFrame
  constructor
  · intro h
    dsimp only at h
    split_ifs at h with h4 hlen
    cases h
    exact ⟨hlen, h4, rfl, rfl⟩
  · rintro ⟨hlen, h4, rfl, rfl⟩
    rw [if_pos h4, if_pos hlen]

/-- The loop of the viewer, as a decoder of the stream. -/
def frames : Decoder UInt8 GoString where
  next := takeFrame
  shrinks := by
    intro buffer data rest h
    obtain ⟨-, h4, -, rfl⟩ := takeFrame_eq_some.1 h
    rw [List.length_drop]
    omega
  stable := by
    intro buffer data rest more h
    obtain ⟨hlen, h4, rfl, rfl⟩ := takeFrame_eq_some.1 h
    refine takeFrame_eq_some.2 ?_
    rw [getUint32_append h4, List.length_append]
    refine ⟨by omega, by omega, ?_, (List.drop_append_of_le_length hlen).symm⟩
    rw [List.drop_append_of_le_length h4, List.take_append_of_le_length]
    rw [List.length_drop]
    omega

/-- The messages that the viewer has taken after these chunks of the body, and its buffer. -/
def reassemble (chunks : List GoString) : List GoString × GoString := frames.feedAll chunks

/-!
## The hub of the remote control

A bridge streams the screen of a phone to the hub, and viewers take it from there over HTTP. Each bridge
and each viewer has a goroutine of its own. What they share stands behind the lock of the hub, so that
the steps below are the critical sections of `scrcpy_hub.go`: between two of them any other goroutine
may run.
-/

/-- `MsgTypeVideo`. -/
def msgTypeVideo : UInt8 := 0x01

/-- `MsgTypeDeviceInfo`. -/
def msgTypeDeviceInfo : UInt8 := 0x03

/-- `MsgTypeShell`. -/
def msgTypeShell : UInt8 := 0x04

/-- `MsgTypeHeartbeat`. -/
def msgTypeHeartbeat : UInt8 := 0x05

structure ScrcpyDeviceInfo where
  name : GoString
  width : Int
  height : Int
  rotation : Int
deriving DecidableEq

/-! ### Channels -/

/-- A buffered channel. -/
structure Chan where
  buffer : List GoString
  closed : Bool
deriving DecidableEq

/-- The capacity of a viewer's channel. -/
def chanCapacity : Nat := 100

/-- `make(chan []byte, 100)`. -/
def Chan.empty : Chan := ⟨[], false⟩

/-- A send that is dropped when the buffer is full. -/
def Chan.trySend (ch : Chan) (data : GoString) : Chan :=
  if ch.buffer.length < chanCapacity then { ch with buffer := ch.buffer ++ [data] } else ch

/-- `<-ch`; `none` is a receive that blocks. A closed channel without messages gives `nil` at once. -/
def Chan.recv : Chan → Option (GoString × Chan)
  | ⟨data :: rest, closed⟩ => some (data, ⟨rest, closed⟩)
  | ⟨[], true⟩ => some ([], ⟨[], true⟩)
  | ⟨[], false⟩ => none

/-! ### The loop of a stream handler -/

/-- What a turn of the loop meets: whether the context of the request is done, whether `select` takes
that case if the other one is ready as well, and whether the write succeeds. -/
structure Turn where
  done : Bool
  notify : Bool
  writeOk : Bool

/-- The channel of a handler, what it has written, and whether it has returned. -/
structure Stream where
  ch : Chan
  body : GoString
  returned : Bool
deriving DecidableEq

/-- A turn of the loop, `encode` being what is written for a message, if anything is. A turn in which
nothing is ready waits. -/
def Stream.turn (encode : GoString → Option GoString) (t : Turn) (s : Stream) : Stream :=
  if s.returned then s
  else
    match s.ch.recv with
    | none => if t.done then { s with returned := true } else s
    | some (data, ch) =>
      if t.done && t.notify then { s with returned := true }
      else
        match encode data with
        | none => { s with ch := ch }
        | some bytes =>
          if t.writeOk then { s with ch := ch, body := s.body ++ bytes }
          else { s with ch := ch, returned := true }

/-- What `scrcpyVideoStreamHandler` writes for a message. -/
def videoFrame (data : GoString) : Option GoString := some (frame data)

/-- What `scrcpyShellStreamHandler` writes for a message: without its first byte, and nothing when there
is no other. -/
def shellFrame (data : GoString) : Option GoString :=
  if data.length > 1 then some (frame (data.drop 1)) else none

/-- What the loop of a handler meets, turn by turn. The context of a request that is done stays done, and
`select` does not pass over a case for ever. -/
structure Client where
  turn : Nat → Turn
  stays : ∀ n, (turn n).done = true → (turn (n + 1)).done = true
  fair : ∀ n, ∃ m, n ≤ m ∧ (turn m).notify = true

/-- A handler after a number of turns. -/
def Client.run (c : Client) (encode : GoString → Option GoString) (s : Stream) : Nat → Stream
  | 0 => s
  | n + 1 => (c.run encode s n).turn encode (c.turn n)

/-- The handler returns, and writes no more than it has written then. -/
def Client.Ends (c : Client) (encode : GoString → Option GoString) (s : Stream) : Prop :=
  ∃ n, (c.run encode s n).returned = true ∧
    ∀ m, (c.run encode s m).body.length ≤ (c.run encode s n).body.length

/-- The client goes away. -/
def Client.Leaves (c : Client) : Prop := ∃ n, (c.turn n).done = true

/-! ### Goroutines -/

/-- Where the goroutine of a bridge stands. -/
inductive BridgePc
  | upgrading
  | reading
  | caching (binary : Bool) (data : GoString)
  | broadcasting (shell : Bool) (data : GoString)
  | leaving
  | ended
deriving DecidableEq

/-- A connection of a bridge, with the messages it has handled. -/
structure Bridge where
  pc : BridgePc
  handled : List GoString
deriving DecidableEq

/-- Whether the channel of a viewer is in the map of the hub: not yet, now, or no longer. -/
inductive Stage
  | checked
  | listed
  | unlisted
deriving DecidableEq

/-- A viewer. `info` is what it has read of the hub when it looked whether a bridge is there, and
`config` what the hub gave it when it joined the bridge `host`. -/
structure Viewer where
  shell : Bool
  info : Option ScrcpyDeviceInfo
  stage : Stage
  stream : Stream
  config : Option GoString
  host : Option Nat
deriving DecidableEq

/-- The message to a viewer's channel, if it is listed. -/
def Viewer.send (shell : Bool) (data : GoString) (v : Viewer) : Viewer :=
  if v.stage = .listed ∧ v.shell = shell then
    { v with stream := { v.stream with ch := v.stream.ch.trySend data } }
  else v

/-- `close(v)` and `delete`, if it is listed. -/
def Viewer.close (v : Viewer) : Viewer :=
  if v.stage = .listed then
    { v with stage := .unlisted, stream := { v.stream with ch := { v.stream.ch with closed := true } } }
  else v

/-- The hub, with the connections of bridges and the viewers in the order in which they came. A
connection is known by its number. -/
structure ScrcpyHub where
  bridge : Option Nat
  bridgeReady : Bool
  deviceInfo : Option ScrcpyDeviceInfo
  videoConfig : Option GoString
  bridges : List Bridge
  viewers : List Viewer
deriving DecidableEq

/-- The hub before any connection. -/
def ScrcpyHub.start : ScrcpyHub := ⟨none, false, none, none, [], []⟩

inductive HubAction
  /-- A bridge connects, with `?force=true` or without. -/
  | connect (force : Bool)
  /-- The upgrade of its connection ends, and the hub takes it. -/
  | upgrade (i : Nat) (ok : Bool)
  | receive (i : Nat) (binary : Bool) (data : GoString)
  /-- `ReadMessage` fails. -/
  | fail (i : Nat)
  | cache (i : Nat)
  | broadcast (i : Nat)
  | cleanup (i : Nat)
  /-- The ticker of a bridge. -/
  | ping
  /-- A viewer looks whether a bridge is there. -/
  | watch (shell : Bool)
  | join (k : Nat)
  | turn (k : Nat) (t : Turn)
  /-- The deferred `delete` of a handler that has returned. -/
  | leave (k : Nat)

section

variable (marshal : ScrcpyDeviceInfo → GoString) (unmarshal : GoString → Option ScrcpyDeviceInfo)

/-- The device that a message of type `MsgTypeDeviceInfo` describes. -/
def infoOf : GoString → Option ScrcpyDeviceInfo
  | [] => none
  | t :: json => if t = msgTypeDeviceInfo then unmarshal json else none

/-- A message of type `MsgTypeVideo`. -/
def isVideo (data : GoString) : Bool := data.head? == some msgTypeVideo

/-- What the hub keeps of a message. -/
def ScrcpyHub.keep (h : ScrcpyHub) (data : GoString) : ScrcpyHub :=
  if isVideo data then { h with videoConfig := h.videoConfig.or (some data) }
  else { h with deviceInfo := (infoOf unmarshal data).or h.deviceInfo }

/-- The viewers a message goes to. -/
def audience (binary : Bool) : GoString → Option Bool
  | [] => none
  | t :: rest =>
    if t = msgTypeVideo then if binary then some false else none
    else if t = msgTypeDeviceInfo then (infoOf unmarshal (t :: rest)).map fun _ => false
    else if t = msgTypeShell then some true
    else none

/-- `broadcastToViewers` and `broadcastToShellViewers`. -/
def ScrcpyHub.broadcast (h : ScrcpyHub) (shell : Bool) (data : GoString) : ScrcpyHub :=
  { h with viewers := h.viewers.map (Viewer.send shell data) }

/-- A connection goes on. -/
def ScrcpyHub.go (h : ScrcpyHub) (i : Nat) (b : Bridge) : ScrcpyHub :=
  { h with bridges := h.bridges.set i b }

/-- The deferred function of `scrcpyBridgeHandler`. -/
def ScrcpyHub.cleanup (h : ScrcpyHub) (i : Nat) : ScrcpyHub :=
  if h.bridge = some i then
    { h with
      bridge := none, bridgeReady := false, deviceInfo := none, videoConfig := none
      viewers := h.viewers.map Viewer.close }
  else h

/-- The loop of a viewer's handler. -/
def Viewer.encode (v : Viewer) : GoString → Option GoString := if v.shell then shellFrame else videoFrame

/-- A viewer is put on the list. A viewer of the video gets the configuration through its channel, and
the device it has read before it as a first frame. -/
def ScrcpyHub.enlist (h : ScrcpyHub) (v : Viewer) : Viewer :=
  if v.shell then { v with stage := .listed, host := h.bridge, config := none }
  else
    { v with
      stage := .listed, host := h.bridge, config := h.videoConfig
      stream :=
        ⟨⟨h.videoConfig.toList, false⟩,
          (v.info.map fun info => frame (msgTypeDeviceInfo :: marshal info)).getD [], false⟩ }

/-- One critical section of one of the goroutines, `none` if it does not stand there. -/
def hubStep (h : ScrcpyHub) : HubAction → Option ScrcpyHub
  | .connect force =>
    if h.bridge.isSome ∧ ¬ force then some h
    else some { h with bridges := h.bridges ++ [⟨.upgrading, []⟩] }
  | .upgrade i ok =>
    match h.bridges[i]? with
    | some ⟨.upgrading, l⟩ =>
      if ok then some { h.go i ⟨.reading, l⟩ with bridge := some i, bridgeReady := true }
      else some (h.go i ⟨.ended, l⟩)
    | _ => none
  | .receive i binary data =>
    match h.bridges[i]? with
    | some ⟨.reading, l⟩ => if data = [] then some h else some (h.go i ⟨.caching binary data, l⟩)
    | _ => none
  | .fail i =>
    match h.bridges[i]? with
    | some ⟨.reading, l⟩ => some (h.go i ⟨.leaving, l⟩)
    | _ => none
  | .cache i =>
    match h.bridges[i]? with
    | some ⟨.caching binary data, l⟩ =>
      let pc := match audience unmarshal binary data with
        | some shell => .broadcasting shell data
        | none => .reading
      some ((h.keep unmarshal data).go i ⟨pc, l ++ [data]⟩)
    | _ => none
  | .broadcast i =>
    match h.bridges[i]? with
    | some ⟨.broadcasting shell data, l⟩ => some ((h.broadcast shell data).go i ⟨.reading, l⟩)
    | _ => none
  | .cleanup i =>
    match h.bridges[i]? with
    | some ⟨.leaving, l⟩ => some ((h.cleanup i).go i ⟨.ended, l⟩)
    | _ => none
  | .ping =>
    if h.bridge.isSome then
      some ((h.broadcast false [msgTypeHeartbeat]).broadcast true [msgTypeHeartbeat])
    else none
  | .watch shell =>
    if h.bridgeReady then
      let info := if shell then none else h.deviceInfo
      some { h with
        viewers := h.viewers ++ [⟨shell, info, .checked, ⟨.empty, [], false⟩, none, none⟩] }
    else some h
  | .join k =>
    match h.viewers[k]? with
    | some v =>
      if v.stage = .checked then some { h with viewers := h.viewers.set k (h.enlist marshal v) } else none
    | none => none
  | .turn k t =>
    match h.viewers[k]? with
    | some v =>
      if v.stage = .checked then none
      else
        let v' := { v with stream := v.stream.turn v.encode t }
        some { h with viewers := h.viewers.set k v' }
    | none => none
  | .leave k =>
    match h.viewers[k]? with
    | some v =>
      if v.stage = .listed ∧ v.stream.returned then
        some { h with viewers := h.viewers.set k { v with stage := .unlisted } }
      else none
    | none => none

/-! ### Whose configuration it is -/

/-- The messages that a connection has received. -/
def Bridge.received (b : Bridge) : List GoString :=
  match b.pc with
  | .caching _ data => b.handled ++ [data]
  | _ => b.handled

/-- The first video frame among messages. -/
def firstVideo (l : List GoString) : Option GoString := l.find? isVideo

/-- The device that messages describe. -/
def lastInfo (l : List GoString) : Option ScrcpyDeviceInfo := (l.filterMap (infoOf unmarshal)).getLast?

/-- A configuration in the hub is the first video frame of the bridge that is connected, the device is
the one of this bridge, and each viewer that joined got the configuration of the bridge it joined. -/
def CacheCurrent (h : ScrcpyHub) : Prop :=
  (∀ data, h.videoConfig = some data →
    ∃ i b, h.bridge = some i ∧ h.bridges[i]? = some b ∧ firstVideo b.received = some data ∧
      h.deviceInfo = lastInfo unmarshal b.handled) ∧
  ∀ v ∈ h.viewers, ∀ data, v.config = some data →
    ∃ i b, v.host = some i ∧ h.bridges[i]? = some b ∧ firstVideo b.received = some data

/-- The hub keeps something of a message. -/
def ScrcpyHub.Keeps (h : ScrcpyHub) (data : GoString) : Prop :=
  (isVideo data = true ∧ h.videoConfig = none) ∨ (infoOf unmarshal data).isSome

/-- A bridge is taken only while nothing is kept of another one, and only the bridge that is connected
has something kept. -/
def OneBridge (h : ScrcpyHub) : HubAction → Prop
  | .upgrade _ ok => ok = true → h.videoConfig = none ∧ h.deviceInfo = none
  | .cache i =>
    ∀ b binary data, h.bridges[i]? = some b → b.pc = .caching binary data →
      h.Keeps unmarshal data → h.bridge = some i
  | _ => True

end

end Gafam.Scrcpy
