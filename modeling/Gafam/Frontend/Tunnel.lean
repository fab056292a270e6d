import Gafam.Go.Text
import Gafam.Lib.Drain
import Gafam.Frontend.VpcProxy
import Gafam.Frontend.Submissions
import Gafam.Lib.Regex

/-!
# The WebSocket tunnel and its frames

A frame has a first byte with its opcode, a length in one of three forms, an optional mask, and a
payload. The tunnel of the browser reads frames by hand from a raw socket, and writes its own.
-/

namespace Gafam.Frontend

open Gafam.Go Gafam.Lib

/-! ## Writing -/

/-- Four bytes that are put over a payload again and again. -/
structure Mask where
  key : GoString
  four : key.length = 4

/-- `payload[i] ^ mask[i % 4]` for every byte. -/
def xorMask (key payload : GoString) : GoString := payload.mapIdx fun i b => b ^^^ key.getD (i % 4) 0

/-- The opcode, 4 bits of the first byte. -/
inductive Opcode
  | continuation
  | text
  | binary
  | ping
  | pong
  deriving DecidableEq

/-- The number of an opcode. -/
def Opcode.code : Opcode → UInt8
  | .continuation => 0x0
  | .text => 0x1
  | .binary => 0x2
  | .ping => 0x9
  | .pong => 0xA

/-- A frame that a server sends. -/
structure WsFrame where
  fin : Bool
  opcode : Opcode
  mask : Option Mask
  payload : GoString
  short : payload.length < 2 ^ 32

/-- The second byte and what follows it of the length, the mask bit being added to the second byte. -/
def lengthBytes (maskBit : UInt8) (len : Nat) : GoString :=
  if len < 126 then [maskBit ||| UInt8.ofNat len]
  else if len < 65536 then [maskBit ||| 126, UInt8.ofNat (len >>> 8), UInt8.ofNat len]
  else
    [maskBit ||| 127, 0, 0, 0, 0, UInt8.ofNat (len >>> 24), UInt8.ofNat (len >>> 16),
      UInt8.ofNat (len >>> 8), UInt8.ofNat len]

/-- A frame on the wire. -/
def frameBytes (fin : Bool) (opcode : UInt8) (mask : Option Mask) (payload : GoString) : GoString :=
  ((if fin then 0x80 else 0) ||| opcode) ::
    match mask with
    | none => lengthBytes 0 payload.length ++ payload
    | some m => lengthBytes 0x80 payload.length ++ (m.key ++ xorMask m.key payload)

/-- The bytes of a frame. -/
def WsFrame.bytes (f : WsFrame) : GoString := frameBytes f.fin f.opcode.code f.mask f.payload

/-- `encodeClientWsFrame`, with the mask that it draws. -/
def encodeClientWsFrame (mask : Mask) (opcode : UInt8) (payload : GoString) : GoString :=
  let len := payload.length
  let header : GoString :=
    if len < 126 then [0x80 ||| opcode, 0x80 ||| UInt8.ofNat len]
    else if len < 65536 then
      [0x80 ||| opcode, 0x80 ||| 126, UInt8.ofNat (len >>> 8), UInt8.ofNat len]
    else
      [0x80 ||| opcode, 0x80 ||| 127, 0, 0, 0, 0, UInt8.ofNat (len >>> 24), UInt8.ofNat (len >>> 16),
        UInt8.ofNat (len >>> 8), UInt8.ofNat len]
  header ++ mask.key ++ xorMask mask.key payload

/-! ## Reading -/

/-- A frame as the tunnel sees it. -/
structure ParsedFrame where
  opcode : UInt8
  payload : GoString
  fin : Bool

/-- The number that some bytes are, the highest first. -/
def bigEndian (bytes : GoString) : Nat := bytes.foldl (fun n b => n * 256 + b.toNat) 0

/-- The bytes of the buffer from `i` up to `j`. -/
def slice (buf : GoString) (i j : Nat) : GoString := (buf.take j).drop i

/-- Where the mask or the payload begins, and the length; `none` when the buffer ends before that. Of a
length of eight bytes the tunnel reads the last four. -/
def readLength (buf : GoString) (len : Nat) : Option (Nat × Nat) :=
  if len = 126 then
    if 4 > buf.length then none else some (4, bigEndian (slice buf 2 4))
  else if len = 127 then
    if 10 > buf.length then none else some (10, bigEndian (slice buf 6 10))
  else some (2, len)

/-- The length of the mask behind the second byte. -/
def maskLen (b1 : UInt8) : Nat := if b1 &&& 0x80 ≠ 0 then 4 else 0

/-- The frame whose mask or payload begins at `hdr`. -/
def readFrame (buf : GoString) (b0 b1 : UInt8) (hdr len : Nat) : ParsedFrame :=
  let start := hdr + maskLen b1
  let payload := slice buf start (start + len)
  let payload := if b1 &&& 0x80 ≠ 0 then xorMask (slice buf hdr (hdr + 4)) payload else payload
  ⟨b0 &&& 0x0F, payload, b0 &&& 0x80 ≠ 0⟩

/-- One turn of the loop of `parseServerWsFrames`, from `offset` on; `none` where the loop ends. -/
def takeWsFrame (buf : GoString) : Option (ParsedFrame × GoString) :=
  match buf with
  | b0 :: b1 :: _ =>
    match readLength buf (b1 &&& 0x7F).toNat with
    | some (hdr, len) =>
      if hdr + maskLen b1 + len > buf.length then none
      else some (readFrame buf b0 b1 hdr len, buf.drop (hdr + maskLen b1 + len))
    | none => none
  | _ => none

theorem slice_append {buf : GoString} {j : Nat} (h : j ≤ buf.length) (i : Nat) (more : GoString) :
    slice (buf ++ more) i j = slice buf i j := by
  unfold slice
  rw [List.take_append_of_le_length h]

/-- The header is read from the bytes that are there. -/
theorem readLength_append {buf : GoString} {n hdr len : Nat} (h : readLength buf n = some (hdr, len))
    (more : GoString) : readLength (buf ++ more) n = some (hdr, len) := by
  unfold readLength at h ⊢
  rw [List.length_append]
  split_ifs at h ⊢ with h126 h4 h4' h127 h10 h10'
  · omega
  · rw [slice_append (by omega), h]
  · omega
  · rw [slice_append (by omega), h]
  · exact h

/-- The header has at least two bytes, all of them in the buffer that has two. -/
theorem readLength_le {buf : GoString} {n hdr len : Nat} (h : readLength buf n = some (hdr, len))
    (htwo : 2 ≤ buf.length) : 2 ≤ hdr ∧ hdr ≤ buf.length := by
  unfold readLength at h
  split_ifs at h <;>
  · obtain ⟨rfl, -⟩ := Prod.mk.inj (Option.some.inj h)
    omega

/-- What a frame in the buffer means. -/
theorem takeWsFrame_eq_some {buf rest : GoString} {f : ParsedFrame} :
    takeWsFrame buf = some (f, rest) ↔
      ∃ b0 b1 tail hdr len, buf = b0 :: b1 :: tail ∧
        readLength buf (b1 &&& 0x7F).toNat = some (hdr, len) ∧
        hdr + maskLen b1 + len ≤ buf.length ∧ f = readFrame buf b0 b1 hdr len ∧
        rest = buf.drop (hdr + maskLen b1 + len) := by
  constructor
  · intro h
    unfold takeWsFrame at h
    split at h
    · next b0 b1 tail =>
      split at h
      · next hdr len hlen =>
        split_ifs at h with hgt
        obtain ⟨rfl, rfl⟩ := Prod.mk.inj (Option.some.inj h)
        exact ⟨b0, b1, tail, hdr, len, rfl, hlen, Nat.not_lt.1 hgt, rfl, rfl⟩
      · cases h
    · cases h
  · rintro ⟨b0, b1, tail, hdr, len, rfl, hlen, hle, rfl, rfl⟩
    unfold takeWsFrame
    dsimp only
    rw [hlen]
    exact if_neg (Nat.not_lt.2 hle)

theorem readFrame_append {buf : GoString} {b1 : UInt8} {hdr len : Nat}
    (h : hdr + maskLen b1 + len ≤ buf.length) (b0 : UInt8) (more : GoString) :
    readFrame (buf ++ more) b0 b1 hdr len = readFrame buf b0 b1 hdr len := by
  unfold readFrame
  dsimp only
  rw [slice_append h]
  by_cases hmask : b1 &&& 0x80 ≠ 0
  · have hkey : slice (buf ++ more) hdr (hdr + 4) = slice buf hdr (hdr + 4) := by
      have hfour : maskLen b1 = 4 := if_pos hmask
      exact slice_append (by omega) _ _
    rw [if_pos hmask, if_pos hmask, hkey]
  · rw [if_neg hmask, if_neg hmask]

/-- The loop of `parseServerWsFrames`, as a decoder of the stream. -/
def wsFrames : Decoder UInt8 ParsedFrame where
  next := takeWsFrame
  shrinks := by
    intro buf f rest h
    obtain ⟨b0, b1, tail, hdr, len, rfl, hlen, hle, -, rfl⟩ := takeWsFrame_eq_some.1 h
    obtain ⟨htwo, -⟩ := readLength_le hlen (Nat.le_add_left 2 tail.length)
    rw [List.length_drop]
    omega
  stable := by
    intro buf f rest more h
    obtain ⟨b0, b1, tail, hdr, len, rfl, hlen, hle, rfl, rfl⟩ := takeWsFrame_eq_some.1 h
    refine takeWsFrame_eq_some.2 ⟨b0, b1, tail ++ more, hdr, len, rfl, readLength_append hlen more, ?_,
      (readFrame_append hle b0 more).symm, (List.drop_append_of_le_length hle).symm⟩
    rw [List.length_append]
    exact Nat.le_add_right_of_le hle

/-- `parseServerWsFrames`: the frames in the buffer, and its rest. -/
def parseServerWsFrames (buf : GoString) : List ParsedFrame × GoString := wsFrames.drain buf

/-!
## The WebSocket tunnel

`proxyWebSocket` opens a raw socket to the relay, asks for an upgrade, and reads until the head of the
reply is complete. From then on a pump reads frames and hands their payloads to the WebSocket of the
client. What the server means by its frames are messages: a message may be cut into fragments, and
pings and pongs may stand between them.
-/

open Gafam.Js

/-! ### The tunnel -/

/-- A message that the client receives. -/
inductive ClientMessage
  | text (s : JsString)
  | binary (payload : GoString)
  deriving DecidableEq

/-- The code points of a text. -/
def codePoints (bytes : GoString) : List Nat :=
  (utf8Run .start bytes).2 ++ (utf8Run .start bytes).1.flush

/-- `new TextDecoder().decode(bytes)`. -/
def textDecode (bytes : GoString) : JsString := (skipBom false (codePoints bytes)).flatMap utf16

/-- Where the body begins. -/
def findBodyStart : GoString → Option Nat
  | [] => none
  | b :: rest =>
    if (crlf ++ crlf).isPrefixOf (b :: rest) then some 4 else (findBodyStart rest).map (· + 1)

/-- A character without its case, as far as it is a letter of ASCII. -/
def foldCase (u : UInt16) : UInt16 := if 0x41 ≤ u ∧ u ≤ 0x5A then u + 0x20 else u

/-- A character that `.` does not match. -/
def isLineTerminator (u : UInt16) : Bool := u == 0x0A || u == 0x0D || u == 0x2028 || u == 0x2029

/-- `/Sec-WebSocket-Protocol:\s*(.+)/i`. -/
def protocolPattern : Regex UInt16 :=
  .seqs [.seqs ((ascii "sec-websocket-protocol:").map fun c => .unit fun u => foldCase u = c),
    .star (.unit isTrimSpace),
    .group 1 (.plus (.unit fun u => !isLineTerminator u))]

/-- The protocol in the head of the reply, empty when there is none. -/
def acceptedProtocol (headerStr : JsString) : JsString :=
  match protocolPattern.exec headerStr with
  | some (_, groups) => trim (Regex.groupText groups 1)
  | none => []

/-- What the pump does: it sends a message to the client, or writes a pong with this payload to the
relay. -/
inductive PumpEvent
  | send (m : ClientMessage)
  | pong (payload : GoString)

/-- The pump: what it has not parsed yet, what it has done, and whether the two ends are closed. -/
structure Pump where
  buffer : GoString
  events : List PumpEvent
  closed : Bool

/-- What happens to the frames of one read. -/
def Pump.handle (p : Pump) : List ParsedFrame → Pump
  | [] => p
  | f :: frames =>
    if f.opcode = 0x8 then { p with closed := true }
    else if f.opcode = 0x9 then
      Pump.handle { p with events := p.events ++ [.pong f.payload] } frames
    else if f.opcode = 0xA then Pump.handle p frames
    else if f.opcode = 0x1 then
      Pump.handle { p with events := p.events ++ [.send (.text (textDecode f.payload))] } frames
    else Pump.handle { p with events := p.events ++ [.send (.binary f.payload)] } frames

/-- One turn of the pump's loop; `none` when there is nothing more to read. -/
def Pump.read (p : Pump) (value : Option GoString) : Pump :=
  if p.closed then p
  else
    match value with
    | none => { p with closed := true }
    | some value =>
      let r := parseServerWsFrames (p.buffer ++ value)
      Pump.handle { p with buffer := r.2 } r.1

/-- The answer 502. -/
inductive UpgradeRefusal
  | closedBefore
  | rejected (status : Option Int) (detail : JsString)

/-- Where a tunnel stands. -/
inductive Tunnel
  | upgrading (buffer : GoString)
  | refused (answer : UpgradeRefusal)
  | piping (acceptedProtocol : JsString) (pump : Pump)

/-- The tunnel when the request for the upgrade has been written. -/
def Tunnel.start : Tunnel := .upgrading []

/-- One read from the socket. What follows the head in the same read stays in the buffer. -/
def Tunnel.read (t : Tunnel) (value : Option GoString) : Tunnel :=
  match t, value with
  | .upgrading _, none => .refused .closedBefore
  | .upgrading buffer, some value =>
    match findBodyStart (buffer ++ value) with
    | none => .upgrading (buffer ++ value)
    | some bodyStart =>
      let headerStr := textDecode ((buffer ++ value).take (bodyStart - 4))
      if statusCode headerStr ≠ some 101 then
        .refused (.rejected (statusCode headerStr) (headerStr.take 300))
      else .piping (acceptedProtocol headerStr) ⟨(buffer ++ value).drop bodyStart, [], false⟩
  | .refused answer, _ => .refused answer
  | .piping protocol pump, value => .piping protocol (pump.read value)

/-- The tunnel after these reads. -/
def tunnelAfter (values : List GoString) : Tunnel :=
  values.foldl (fun t value => t.read (some value)) .start

/-- The message of an event. -/
def PumpEvent.message : PumpEvent → Option ClientMessage
  | .send m => some m
  | .pong _ => none

/-- What the client has received. -/
def Tunnel.delivered : Tunnel → List ClientMessage
  | .piping _ pump => pump.events.filterMap PumpEvent.message
  | _ => []

/-! ### What the relay sends -/

/-- The head of a reply that switches protocols. -/
structure SwitchReply where
  reason : GoString
  headers : List GoString
  reason_line : IsLine reason
  header_line : ∀ l ∈ headers, IsLine l ∧ l ≠ []

/-- The first line. -/
def SwitchReply.statusLine (r : SwitchReply) : GoString := "HTTP/1.1 " ++ itoa 101 ++ str " " ++ r.reason

/-- The lines of the head. -/
def SwitchReply.lines (r : SwitchReply) : List GoString := r.statusLine :: r.headers

/-- The bytes of the head. -/
def SwitchReply.bytes (r : SwitchReply) : GoString := r.lines.flatMap (fun l => l ++ crlf) ++ crlf

/-- A frame that belongs to no message. -/
def Opcode.Control (op : Opcode) : Prop := op = .ping ∨ op = .pong

instance (op : Opcode) : Decidable op.Control := inferInstanceAs (Decidable (_ ∨ _))

/-- The frames of a sequence of messages, `inside` telling whether a message has begun: a message
begins with its opcode, goes on with continuations, and ends with the frame that has the end bit. A
ping or a pong is one frame. -/
def Legal : Bool → List WsFrame → Prop
  | _, [] => True
  | inside, f :: frames =>
    if f.opcode.Control then f.fin = true ∧ Legal inside frames
    else (f.opcode = .continuation ↔ inside = true) ∧ Legal (!f.fin) frames

/-- What the relay sends after its head. -/
structure ServerStream where
  frames : List WsFrame
  legal : Legal false frames

/-- The bytes of the frames. -/
def ServerStream.bytes (s : ServerStream) : GoString := s.frames.flatMap WsFrame.bytes

/-- A message of this type, from the payloads of its frames. -/
def messageOf (op : Opcode) (payload : GoString) : ClientMessage :=
  if op = .text then .text (utf8Decode payload) else .binary payload

/-- The messages that these frames complete, `begun` being the type and the content so far of the one
that has begun. -/
def assemble : Option (Opcode × GoString) → List WsFrame → List ClientMessage
  | _, [] => []
  | begun, f :: frames =>
    if f.opcode.Control then assemble begun frames
    else
      let op := (begun.map Prod.fst).getD f.opcode
      let payload := (begun.map Prod.snd).getD [] ++ f.payload
      if f.fin then messageOf op payload :: assemble none frames
      else assemble (some (op, payload)) frames

/-- The frames that have arrived whole with the first `n` bytes. -/
def ServerStream.arrived (s : ServerStream) (n : Nat) : List WsFrame :=
  Decoder.whole WsFrame.bytes n s.frames

/-- The data messages that are complete with the first `n` bytes. -/
def ServerStream.complete (s : ServerStream) (n : Nat) : List ClientMessage :=
  assemble none (s.arrived n)

end Gafam.Frontend
