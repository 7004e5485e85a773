import ViewHost.View.Basic
import ViewHost.Time.Duration
import ViewHost.Input.Modifiers

/-!
# Pointer input

A pointer is one physical contact, or the mouse. Its identifier only serves to
bring together the events of one contact.
-/

namespace ViewHost

variable {α : Type} [Scalar α]

structure PointerId where
  val : UInt64
  deriving DecidableEq, Inhabited, Repr

namespace PointerId

/-- The mouse is a single contact. -/
def mouse : PointerId := ⟨0⟩

/-- The pointer of a contact that the platform numbers from zero. Contacts are
numbered after the mouse; the topmost number has no successor and shares a
pointer with the one before it. -/
def ofContact (n : UInt64) : PointerId := if n = 0 - 1 then ⟨n⟩ else ⟨n + 1⟩

def text (p : PointerId) : String := "PointerId(" ++ toString p.val.toNat ++ ")"

end PointerId

inductive PointerKind where
  | mouse
  | touch
  | pen
  deriving DecidableEq, Inhabited, Repr

namespace PointerKind

def name : PointerKind → String
  | mouse => "Mouse"
  | touch => "Touch"
  | pen => "Pen"

def ofName? (s : String) : Option PointerKind := [mouse, touch, pen].find? (·.name == s)

end PointerKind

inductive PointerButton where
  | primary
  | secondary
  | tertiary
  deriving DecidableEq, Inhabited, Repr

namespace PointerButton

def name : PointerButton → String
  | primary => "Primary"
  | secondary => "Secondary"
  | tertiary => "Tertiary"

def ofName? (s : String) : Option PointerButton :=
  [primary, secondary, tertiary].find? (·.name == s)

end PointerButton

/-- Why contacts are cancelled, and which. -/
inductive CancelReason where
  /-- All of them: the window lost the focus. -/
  | focusLost
  /-- All of them: the system took over. -/
  | system
  /-- The one with this pointer. -/
  | contact (pointer : PointerId)
  /-- Those that began under this root. -/
  | root (tag : Tag)
  deriving DecidableEq, Inhabited, Repr

/-- What happened to a pointer. -/
inductive PointerAction where
  | down (button : PointerButton)
  | up (button : PointerButton)
  | move
  | cancel (reason : CancelReason)
  deriving DecidableEq, Inhabited, Repr

/-- A pointer event in root coordinates. -/
structure PointerEvent (α : Type) where
  id : PointerId
  kind : PointerKind
  action : PointerAction
  position : Vec2 α
  pressure : α
  modifiers : Modifiers
  timestamp : Timestamp
  deriving DecidableEq

namespace PointerEvent

/-- An event of the mouse. -/
def ofMouse (action : PointerAction) (position : Vec2 α) (modifiers : Modifiers)
    (at_ : Timestamp) : PointerEvent α where
  id := .mouse
  kind := .mouse
  action := action
  position := position
  pressure := 1
  modifiers := modifiers
  timestamp := at_

/-- An event of a finger. -/
def ofTouch (id : PointerId) (action : PointerAction) (position : Vec2 α) (pressure : α)
    (at_ : Timestamp) : PointerEvent α where
  id := id
  kind := .touch
  action := action
  position := position
  pressure := pressure
  modifiers := .none
  timestamp := at_

/-- A contact begins with the primary button. -/
def downPrimary (kind : PointerKind) (id : PointerId) (position : Vec2 α) (at_ : Timestamp) :
    PointerEvent α where
  id := id
  kind := kind
  action := .down .primary
  position := position
  pressure := 1
  modifiers := .none
  timestamp := at_

/-- A contact ends with the primary button. -/
def upPrimary (kind : PointerKind) (id : PointerId) (position : Vec2 α) (at_ : Timestamp) :
    PointerEvent α :=
  { downPrimary kind id position at_ with action := .up .primary }

/-- Contacts are cancelled. The reason selects them, so pointer and position do
not matter. -/
def cancelled (reason : CancelReason) (at_ : Timestamp) : PointerEvent α where
  id := .mouse
  kind := .touch
  action := .cancel reason
  position := .zero
  pressure := 0
  modifiers := .none
  timestamp := at_

end PointerEvent

end ViewHost
