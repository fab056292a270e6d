import Mathlib.Algebra.Order.Floor.Ring
import Mathlib.Data.Rat.Floor

/-!
# Control events

The viewer turns what happens on its canvas into JSON objects, which reach the bridge as they are. The
bridge decodes an object into an `InputEvent` and writes a packet for the device if it is a touch.

A number of the browser is finite, or it is infinite or not a number at all; the latter are `none`, and
`JSON.stringify` writes `null` for them. What a result is rounded to is given.
-/

namespace Gafam.Scrcpy

/-! ## The viewer -/

/-- The screen of the device, as the bridge announces it. -/
structure Screen where
  width : UInt16
  height : UInt16

/-- The rectangle of the canvas in the window. -/
structure Rect where
  left : ℚ
  top : ℚ
  width : ℚ
  height : ℚ

/-- Where the pointer is in the window. -/
structure Pointer where
  clientX : ℚ
  clientY : ℚ

/-- The state of the component at an event: whether the stream is up, whether the announcement of the
screen has arrived, and the rectangle of the canvas if there is one. -/
structure View where
  connected : Bool
  announced : Bool
  canvas : Option Rect

/-- What the component listens to. -/
inductive UiEvent
  | mouseDown (p : Pointer)
  | mouseMove (p : Pointer) (buttons : Nat)
  | mouseUp (p : Pointer)
  | mouseLeave (p : Pointer)
  | keyDown (code : String)
  | keyUp (code : String)
  | wheel (p : Pointer) (deltaX deltaY : ℚ)

/-- An event with the state in which it is handled. -/
structure Moment where
  view : View
  event : UiEvent

/-- A value of a JSON object. -/
inductive Field
  | text (s : String)
  | num (q : ℚ)
  | null

/-- A JSON object. -/
abbrev Fields := List (String × Field)

/-- `JSON.stringify` of a number. -/
def jsonNumber : Option ℚ → Field
  | some q => .num q
  | none => .null

/-- `Math.round`. -/
def mathRound (q : ℚ) : ℤ := ⌊q + 1 / 2⌋

section
variable (fl : ℚ → Option ℚ) (screen : Screen)

/-- `(client - start) * (size / extent)`. -/
def scaled (start extent size client : ℚ) : Option ℚ := do
  let scale ← if extent = 0 then none else fl (size / extent)
  let offset ← fl (client - start)
  fl (offset * scale)

/-- The pointer in pixels of the device, before they are rounded. -/
def position (view : View) (p : Pointer) : Option ℚ × Option ℚ :=
  match view.canvas, view.announced with
  | some rect, true =>
    (scaled fl rect.left rect.width screen.width.toNat p.clientX,
      scaled fl rect.top rect.height screen.height.toNat p.clientY)
  | _, _ => (some 0, some 0)

/-- `getScaledCoords`. -/
def getScaledCoords (view : View) (p : Pointer) : Option ℤ × Option ℤ :=
  ((position fl screen view p).1.map mathRound, (position fl screen view p).2.map mathRound)

/-- A coordinate in a JSON object. -/
def coordinate (c : Option ℤ) : Field := jsonNumber (c.map fun (n : ℤ) => (n : ℚ))

/-- `mapKeyCode`. -/
def mapKeyCode (code : String) : Nat :=
  ([("Enter", 66), ("Backspace", 67), ("Escape", 111), ("ArrowUp", 19), ("ArrowDown", 20),
    ("ArrowLeft", 21), ("ArrowRight", 22), ("Space", 62), ("Tab", 61), ("Delete", 112)].lookup code).getD 0

/-- The object of a touch. -/
def touchFields (action : String) (coords : Option ℤ × Option ℤ) : Fields :=
  [("type", .text "touch"), ("action", .text action), ("x", coordinate coords.1), ("y", coordinate coords.2)]

/-- The object of a key. -/
def keyFields (action code : String) : Fields :=
  [("type", .text "key"), ("action", .text action), ("keycode", .num (mapKeyCode code))]

/-- The object of a turn of the wheel. -/
def scrollFields (coords : Option ℤ × Option ℤ) (deltaX deltaY : ℚ) : Fields :=
  [("type", .text "scroll"), ("x", coordinate coords.1), ("y", coordinate coords.2), ("dx", .num deltaX),
    ("dy", .num (-deltaY))]

/-- What the handler of an event sends, if it sends something. -/
def sends (m : Moment) : Option Fields :=
  if m.view.connected then
    match m.event with
    | .mouseDown p => some (touchFields "down" (getScaledCoords fl screen m.view p))
    | .mouseMove p buttons =>
      if buttons = 1 then some (touchFields "move" (getScaledCoords fl screen m.view p)) else none
    | .mouseUp p => some (touchFields "up" (getScaledCoords fl screen m.view p))
    | .mouseLeave p => some (touchFields "up" (getScaledCoords fl screen m.view p))
    | .keyDown code => some (keyFields "down" code)
    | .keyUp code => some (keyFields "up" code)
    | .wheel p deltaX deltaY =>
      some (scrollFields (getScaledCoords fl screen m.view p) deltaX deltaY)
  else none

end

/-! ## The bridge -/

structure InputEvent where
  eventType : String
  action : String
  x : UInt32
  y : UInt32

/-- A field of type `String`. -/
def decodeText : Option Field → Option String
  | some (.text s) => some s
  | _ => none

/-- A field of type `u32`. -/
def decodeU32 : Option Field → Option UInt32
  | some (.num q) => if q.den = 1 ∧ 0 ≤ q.num ∧ q.num < 2 ^ 32 then some (UInt32.ofNat q.num.toNat) else none
  | _ => none

/-- `serde_json::from_slice::<InputEvent>`: every field has to be there, and others are ignored. -/
def decodeInput (json : Fields) : Option InputEvent := do
  let eventType ← decodeText (json.lookup "type")
  let action ← decodeText (json.lookup "action")
  let x ← decodeU32 (json.lookup "x")
  let y ← decodeU32 (json.lookup "y")
  return ⟨eventType, action, x, y⟩

/-- The byte of an action. -/
def actionCode (action : String) : Option UInt8 :=
  if action = "down" then some 0
  else if action = "up" then some 1
  else if action = "move" then some 2
  else none

/-- `to_be_bytes` of a `u16`. -/
def be16 (n : UInt16) : List UInt8 := [(n >>> 8).toUInt8, n.toUInt8]

/-- `to_be_bytes` of a `u32`. -/
def be32 (n : UInt32) : List UInt8 :=
  [(n >>> 24).toUInt8, (n >>> 16).toUInt8, (n >>> 8).toUInt8, n.toUInt8]

/-- The packet `INJECT_TOUCH_EVENT`: its type, the action, the pointer, the coordinates, the screen, the
pressure and the buttons. -/
def touchPacket (screen : Screen) (action : UInt8) (x y : UInt32) : List UInt8 :=
  [2, action] ++ [0, 0, 0, 0, 0, 0, 0, 1] ++ be32 x ++ be32 y ++ be16 screen.width ++ be16 screen.height ++
    be16 0xFFFF ++ be32 1

/-- What the bridge writes to the device for an input message. -/
def onInput (screen : Screen) (json : Fields) : Option (List UInt8) :=
  match decodeInput json with
  | none => none
  | some event =>
    if event.eventType = "touch" then
      (actionCode event.action).map fun action => touchPacket screen action event.x event.y
    else none

/-! ## What control is for -/

/-- The object reaches the device as a touch with its own action and coordinates, and these are inside the
screen. -/
def Carried (screen : Screen) (json : Fields) : Prop :=
  ∃ action code, ∃ x y : UInt32, json.lookup "action" = some (.text action) ∧
    json.lookup "x" = some (.num x.toNat) ∧ json.lookup "y" = some (.num y.toNat) ∧
    actionCode action = some code ∧ x.toNat < screen.width.toNat ∧ y.toNat < screen.height.toNat ∧
    onInput screen json = some (touchPacket screen code x y)

section
variable (fl : ℚ → Option ℚ) (screen : Screen)

/-- The packets that reach the device. -/
def delivered (session : List Moment) : List (List UInt8) :=
  session.filterMap fun m => (sends fl screen m).bind (onInput screen)

/-- The handler sends that the finger goes up. -/
def Moment.Releases (m : Moment) : Prop :=
  m.view.connected = true ∧ ∃ p, m.event = .mouseUp p ∨ m.event = .mouseLeave p

/-- The session of a viewer reaches the device. -/
structure Faithful (session : List Moment) : Prop where
  carried : ∀ m ∈ session, ∀ json, sends fl screen m = some json → Carried screen json
  upFollows : ∀ before down p after, session = before ++ down :: after → down.event = .mouseDown p →
    (∃ up ∈ after, up.Releases) → ∃ packet ∈ delivered fl screen after, packet[1]? = some 1

/-- The pointer is over a pixel of the device. -/
def OverScreen (view : View) (p : Pointer) : Prop :=
  ∃ x y : ℚ, position fl screen view p = (some x, some y) ∧
    (-(1 / 2) ≤ x ∧ x < screen.width.toNat - 1 / 2) ∧ (-(1 / 2) ≤ y ∧ y < screen.height.toNat - 1 / 2)

/-- The event sends nothing, or it is a touch with the pointer over the screen. -/
def Harmless (m : Moment) : Prop :=
  m.view.connected = false ∨
    match m.event with
    | .mouseDown p => OverScreen fl screen m.view p
    | .mouseMove p buttons => buttons = 1 → OverScreen fl screen m.view p
    | .mouseUp p => OverScreen fl screen m.view p
    | .mouseLeave p => OverScreen fl screen m.view p
    | .keyDown _ => False
    | .keyUp _ => False
    | .wheel _ _ _ => False

end

end Gafam.Scrcpy
