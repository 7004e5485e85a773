import Mathlib.Data.List.DropRight
import ViewHost.Desktop.Window

/-!
# Positions in logical pixels

A window is told of positions in physical pixels and hands on positions in logical ones. A move
of the mouse and a touch bring their positions with them, and these are divided by the scale in
force. A mouse button comes without a position. Where the mouse is has been remembered since it
last moved, and it is remembered in logical pixels: the division was done when the mouse moved,
by the scale in force then. A button that follows a change of the scale is therefore handed on in
pixels of the old scale, until the mouse moves again.
-/

namespace ViewHost.Desktop

/-- What is done to a window. -/
inductive WindowCall where
  /-- An event reaches it. -/
  | event (at_ : Timestamp) (e : WindowEvent)
  /-- Its owner sets the scale. -/
  | setScale (scale : Float)

/-- Whether an event is one of a pointer, or ends all contacts. -/
def WindowEvent.isPointing : WindowEvent → Bool
  | cursorMoved _ _ | mouseInput _ _ | touch _ _ _ _ _ | focused false => true
  | _ => false

namespace WindowCall

variable {β : Type}

/-- The scale that a call sets. -/
def scale? : WindowCall → Option Float
  | setScale scale | event _ (.scaleChanged scale) => some scale
  | _ => none

/-- The modifiers that a call tells of. -/
def held? : WindowCall → Option Modifiers
  | event _ (.modifiersChanged held) => some held.flags
  | _ => none

/-- Where a call says that the mouse is, in physical pixels. -/
def mouse? : WindowCall → Option (Vec2 Float)
  | event _ (.cursorMoved x y) => some ⟨x, y⟩
  | _ => none

/-! ## What was told last -/

/-- What calls told last, of all that they told. -/
def latest (told : WindowCall → Option β) (calls : List WindowCall) : Option β :=
  calls.reverse.findSome? told

theorem latest_concat (told : WindowCall → Option β) (calls : List WindowCall) (c : WindowCall) :
    latest told (calls ++ [c]) = (told c).or (latest told calls) := by
  rw [latest, List.reverse_concat, List.findSome?_cons]
  cases told c <;> rfl

theorem latest_append_of_none {told : WindowCall → Option β} (calls : List WindowCall)
    {more : List WindowCall} (hmore : ∀ c ∈ more, told c = none) :
    latest told (calls ++ more) = latest told calls := by
  have hnone : more.reverse.findSome? told = none :=
    List.findSome?_eq_none_iff.2 fun c hc => hmore c (List.mem_reverse.1 hc)
  rw [latest, List.reverse_append, List.findSome?_append, hnone, Option.none_or, latest]

/-- The scale in force after calls to a window that was made with the scale `start`. -/
def scaleAfter (start : Float) (calls : List WindowCall) : Float :=
  (latest scale? calls).getD start

/-- The modifiers held after calls. -/
def heldAfter (calls : List WindowCall) : Modifiers := (latest held? calls).getD .none

theorem scaleAfter_concat (start : Float) (calls : List WindowCall) (c : WindowCall) :
    scaleAfter start (calls ++ [c]) = c.scale?.getD (scaleAfter start calls) := by
  rw [scaleAfter, latest_concat, Option.getD_or, scaleAfter]

theorem heldAfter_concat (calls : List WindowCall) (c : WindowCall) :
    heldAfter (calls ++ [c]) = c.held?.getD (heldAfter calls) := by
  rw [heldAfter, latest_concat, Option.getD_or, heldAfter]

/-! ## Where the mouse is -/

/-- A physical position in logical pixels of a scale. -/
def inLogical (scale : Float) (p : Vec2 Float) : Vec2 Float32 :=
  ⟨single (p.x / scale), single (p.y / scale)⟩

/-- Where the mouse is after calls, in logical pixels of a scale: where it last moved, or at the
origin. -/
def mouseAfter (scale : Float) (calls : List WindowCall) : Vec2 Float32 :=
  ((latest mouse? calls).map (inLogical scale)).getD .zero

/-- The calls up to the last move of the mouse. -/
def throughMove (calls : List WindowCall) : List WindowCall :=
  calls.rdropWhile (·.mouse?.isNone)

/-- The calls after the last move of the mouse, or all of them if there has been none. -/
def sinceMove (calls : List WindowCall) : List WindowCall :=
  calls.rtakeWhile (·.mouse?.isNone)

theorem throughMove_move (calls : List WindowCall) {c : WindowCall} {p : Vec2 Float}
    (hc : c.mouse? = some p) : throughMove (calls ++ [c]) = calls ++ [c] :=
  List.rdropWhile_concat_neg _ _ _ (by simp [hc])

theorem throughMove_other (calls : List WindowCall) {c : WindowCall} (hc : c.mouse? = none) :
    throughMove (calls ++ [c]) = throughMove calls :=
  List.rdropWhile_concat_pos _ _ _ (by simp [hc])

/-- If nothing has set the scale since the mouse moved, the scale is the one of the move. -/
theorem scaleAfter_throughMove (start : Float) {calls : List WindowCall}
    (hsince : ∀ c ∈ sinceMove calls, c.scale? = none) :
    scaleAfter start (throughMove calls) = scaleAfter start calls := by
  have hsplit : throughMove calls ++ sinceMove calls = calls :=
    List.rdropWhile_append_rtakeWhile ..
  have hlatest := latest_append_of_none (throughMove calls) hsince
  rw [hsplit] at hlatest
  rw [scaleAfter, scaleAfter, hlatest]

/-- A call that tells of the mouse does not tell of the scale. -/
theorem scale?_of_mouse? {c : WindowCall} {p : Vec2 Float} (hc : c.mouse? = some p) :
    c.scale? = none := by
  cases c with
  | setScale scale => cases hc
  | event at_ e =>
    cases e with
    | cursorMoved x y => rfl
    | _ => cases hc

end WindowCall

namespace Window

open WindowCall

/-- The window after a call. -/
def after (w : Window) : WindowCall → Window
  | .event at_ e => (w.translate at_ e).2
  | .setScale scale => w.setScale scale

def run (w : Window) (calls : List WindowCall) : Window := calls.foldl after w

/-- A call makes the window remember what it tells, and leaves the rest. -/
theorem after_eq (w : Window) (c : WindowCall) :
    w.after c =
      { cursor := (c.mouse?.map (inLogical w.scale)).getD w.cursor
        modifiers := c.held?.getD w.modifiers
        scale := c.scale?.getD w.scale } := by
  cases c with
  | setScale scale => rfl
  | event at_ e =>
    cases e with
    | focused on => cases on <;> rfl
    | _ => rfl

/-- What a window remembers of the calls so far. The position of the mouse is in pixels of the
scale that was in force when the mouse moved. -/
structure Remembers (start : Float) (calls : List WindowCall) (w : Window) : Prop where
  scale_eq : w.scale = scaleAfter start calls
  modifiers_eq : w.modifiers = heldAfter calls
  cursor_eq : w.cursor = mouseAfter (scaleAfter start (throughMove calls)) calls

namespace Remembers

variable {start : Float} {calls : List WindowCall} {w : Window}

theorem after (h : Remembers start calls w) (c : WindowCall) :
    Remembers start (calls ++ [c]) (w.after c) := by
  rw [after_eq]
  refine ⟨?_, ?_, ?_⟩
  · rw [scaleAfter_concat, h.scale_eq]
  · rw [heldAfter_concat, h.modifiers_eq]
  · cases hc : c.mouse? with
    | none =>
      rw [throughMove_other calls hc, mouseAfter, latest_concat, hc, h.cursor_eq]
      rfl
    | some p =>
      rw [throughMove_move calls hc, scaleAfter_concat, scale?_of_mouse? hc, mouseAfter,
        latest_concat, hc, h.scale_eq]
      rfl

theorem run (start : Float) (calls : List WindowCall) :
    Remembers start calls ((new start).run calls) := by
  induction calls using List.reverseRecOn with
  | nil => exact ⟨rfl, rfl, rfl⟩
  | append_singleton calls c ih =>
    rw [Window.run, List.foldl_concat]
    exact ih.after c

end Remembers

/-- Whatever has been done to a window, a move of the mouse and a touch are handed on in logical
pixels of the scale in force, and what the mouse does comes with the modifiers that were told
last. A mouse button is handed on where the mouse last moved, in pixels of the scale in force
then, which is still in force if none has been set since. When the focus is lost, contacts are
cancelled at the origin, and nothing else is said of pointers. -/
theorem positions_in_scale (start : Float) (calls : List WindowCall) (at_ : Timestamp) :
    let w := (new start).run calls
    let scale := scaleAfter start calls
    let scaleAtMove := scaleAfter start (throughMove calls)
    (∀ x y, (w.translate at_ (.cursorMoved x y)).1 =
      some (.pointer (.ofMouse .move (inLogical scale ⟨x, y⟩) (heldAfter calls) at_))) ∧
    (∀ id phase x y force, (w.translate at_ (.touch id phase x y force)).1 =
      some (.pointer (.ofTouch (.ofContact id) (contactAction (.ofContact id) phase)
        (inLogical scale ⟨x, y⟩) ((force.map fun f => single f.normal).getD 1) at_))) ∧
    (∀ button pressed, (w.translate at_ (.mouseInput button pressed)).1 =
      (pointerButton? button).map fun b => .pointer (.ofMouse
        (if pressed then .down b else .up b) (mouseAfter scaleAtMove calls)
        (heldAfter calls) at_)) ∧
    ((∀ c ∈ sinceMove calls, c.scale? = none) → scaleAtMove = scale) ∧
    (w.translate at_ (.focused false)).1 = some (.pointer (.cancelled .focusLost at_)) ∧
    ∀ e, e.isPointing = false → ∀ pe, (w.translate at_ e).1 ≠ some (.pointer pe) := by
  intro w scale scaleAtMove
  have hw : Remembers start calls w := .run start calls
  refine ⟨fun x y => ?_, fun id phase x y force => ?_, fun button pressed => ?_,
    scaleAfter_throughMove start, rfl, fun e he pe => ?_⟩
  · rw [translate, logical, hw.scale_eq, hw.modifiers_eq]
    rfl
  · rw [translate, logical, hw.scale_eq]
    rfl
  · rw [translate, hw.cursor_eq, hw.modifiers_eq]
  · cases e with
    | keyInput logical physical pressed isRepeat =>
      rw [translate]
      cases key? logical <;> simp
    | focused on => cases on <;> simp_all [translate, WindowEvent.isPointing]
    | _ => simp_all [translate, WindowEvent.isPointing]

/-- The mouse moves to (100, 50) and then two physical pixels make a logical one: a button is not
handed on at (50, 25). -/
theorem not_in_scale_if_changed :
    ¬ ∀ (start : Float) (calls : List WindowCall) (at_ : Timestamp) (button : MouseButton)
      (pressed : Bool), (((new start).run calls).translate at_ (.mouseInput button pressed)).1 =
        (pointerButton? button).map fun b => .pointer (.ofMouse
          (if pressed then .down b else .up b) (mouseAfter (scaleAfter start calls) calls)
          (heldAfter calls) at_) := by
  intro h
  have hpress := h 1 [.event .zero (.cursorMoved 100 50), .event .zero (.scaleChanged 2)] .zero
    .left true
  have hplace : inLogical 1 ⟨100, 50⟩ = inLogical 2 ⟨100, 50⟩ := by
    injection hpress with hpress
    injection hpress with hpress
    exact congrArg PointerEvent.position hpress
  exact absurd hplace (by decide +kernel)

end Window

end ViewHost.Desktop
