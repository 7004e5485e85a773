import ViewHost.Desktop.Keymap
import ViewHost.Input.Event
import ViewHost.Time.Clock

/-!
# Desktop windows

A window reports positions in physical pixels, as doubles, and the number of
them to a logical pixel. Changes of that scale and of the modifiers held are
remembered for the events that follow, and so is where the mouse was.
-/

namespace ViewHost.Desktop

/-- The nearest single to a double; of two equally near ones, the one with the
even mantissa. -/
def single (x : Float) : Float32 :=
  .ofModel <| .pack <|
    match x.toModel.unpack with
    | .finite sign mantissa exponent _ => .round .binary32 sign mantissa exponent
    | special => special

inductive ContactPhase where
  | started
  | moved
  | ended
  | cancelled
  deriving DecidableEq, Repr

/-- How hard a finger or a pen presses. -/
inductive Force where
  | normalized (f : Float)
  /-- A force, the greatest that the device can tell of, and for a pen its
  altitude above the surface, in radians. -/
  | calibrated (force max : Float) (altitude : Option Float := none)

namespace Force

/-- The part of the greatest possible force. The force of a pen is divided by
the sine of its altitude first. -/
def normal : Force → Float
  | normalized f => f
  | calibrated force max none => force / max
  | calibrated force max (some altitude) => force / altitude.sin / max

end Force

/-- An event of a window. -/
inductive WindowEvent where
  | scaleChanged (scale : Float)
  | modifiersChanged (held : ModifierState)
  | cursorMoved (x y : Float)
  | mouseInput (button : MouseButton) (pressed : Bool)
  | touch (id : UInt64) (phase : ContactPhase) (x y : Float) (force : Option Force)
  | focused (on : Bool)
  | keyInput (logical : LogicalKey) (physical : Option String) (pressed isRepeat : Bool)
  /-- Anything that is no input. -/
  | other

/-- What is remembered of a window. -/
structure Window where
  /-- Where the mouse was last, in logical pixels. -/
  cursor : Vec2 Float32
  modifiers : Modifiers
  scale : Float

namespace Window

def new (scale : Float) : Window := ⟨.zero, .none, scale⟩

def setScale (w : Window) (scale : Float) : Window := { w with scale := scale }

/-- A physical position in logical pixels. -/
def logical (w : Window) (x y : Float) : Vec2 Float32 :=
  ⟨single (x / w.scale), single (y / w.scale)⟩

/-- What happens to the pointer of a finger. -/
def contactAction (id : PointerId) : ContactPhase → PointerAction
  | .started => .down .primary
  | .moved => .move
  | .ended => .up .primary
  | .cancelled => .cancel (.contact id)

/-- The input that an event carries, if it carries any. -/
def translate (w : Window) (at_ : Timestamp) : WindowEvent → Option (InputEvent Float32) × Window
  | .scaleChanged scale => (none, w.setScale scale)
  | .modifiersChanged held => (none, { w with modifiers := held.flags })
  | .cursorMoved x y =>
    let w := { w with cursor := w.logical x y }
    (some (.pointer (.ofMouse .move w.cursor w.modifiers at_)), w)
  | .mouseInput button pressed =>
    let input := (pointerButton? button).map fun b =>
      InputEvent.pointer (.ofMouse (if pressed then .down b else .up b) w.cursor w.modifiers at_)
    (input, w)
  | .touch n phase x y force =>
    let id := PointerId.ofContact n
    let pressure := (force.map fun f => single f.normal).getD 1
    (some (.pointer (.ofTouch id (contactAction id phase) (w.logical x y) pressure at_)), w)
  | .focused false => (some (.pointer (.cancelled .focusLost at_)), w)
  | .keyInput logical physical pressed isRepeat =>
    let input := (key? logical).map fun key => InputEvent.key
      { key := key
        code := (physical.map keyCode).getD ⟨0⟩
        isDown := pressed
        modifiers := w.modifiers
        isRepeat := isRepeat
        timestamp := at_ }
    (input, w)
  | .focused true | .other => (none, w)

end Window

end ViewHost.Desktop
