import ViewHost.Geometry.Transform

/-!
# Views

A view is a rectangle with a place in its parent, a transform about its own
centre, and the settings that decide whether a point on it counts as a hit.
Where it stands in the hierarchy is not part of it: that is the tree's affair.
-/

namespace ViewHost

variable {α : Type} [Scalar α]

/-- The identifier that the layout engine gives a view. -/
structure Tag where
  val : UInt64
  deriving DecidableEq, Inhabited, Repr

instance : Ord Tag := ⟨compareOn Tag.val⟩

instance : Std.TransOrd Tag := inferInstanceAs (Std.TransCmp (compareOn Tag.val))

instance : Std.LawfulEqOrd Tag where
  eq_of_compare {a b} h := by
    have : a.val = b.val := Std.LawfulEqOrd.eq_of_compare (α := UInt64) h
    cases a; cases b; simp_all

namespace Tag

def text (t : Tag) : String := "#" ++ toString t.val.toNat

end Tag

/-- What kind of control a view is. Hit testing does not look at it. -/
inductive ViewKind where
  | view
  | text
  | textInput
  | image
  | scrollView
  | switch
  | slider
  | picker
  | custom (name : String)
  deriving DecidableEq, Inhabited, Repr

namespace ViewKind

def name : ViewKind → String
  | view => "View"
  | text => "Text"
  | textInput => "TextInput"
  | image => "Image"
  | scrollView => "ScrollView"
  | switch => "Switch"
  | slider => "Slider"
  | picker => "Picker"
  | custom n => n

/-- The kinds that carry no name of their own. -/
def plain : List ViewKind :=
  [view, text, textInput, image, scrollView, switch, slider, picker]

/-- The plain kind of a name. -/
def ofName? (s : String) : Option ViewKind := plain.find? (·.name == s)

end ViewKind

/-- Which parts of a subtree may be hit. -/
inductive PointerEvents where
  /-- The view and its descendants. -/
  | auto
  /-- Nothing. -/
  | none
  /-- Only descendants. -/
  | boxNone
  /-- Only the view itself. -/
  | boxOnly
  deriving DecidableEq, Inhabited, Repr

namespace PointerEvents

def allowsSelf : PointerEvents → Bool
  | auto | boxOnly => true
  | none | boxNone => false

def allowsChildren : PointerEvents → Bool
  | auto | boxNone => true
  | none | boxOnly => false

def name : PointerEvents → String
  | auto => "Auto"
  | none => "None"
  | boxNone => "BoxNone"
  | boxOnly => "BoxOnly"

def all : List PointerEvents := [auto, none, boxNone, boxOnly]

def ofName? (s : String) : Option PointerEvents := all.find? (·.name == s)

end PointerEvents

/-- The pointer image that a view asks for while it is hovered. -/
inductive Cursor where
  /-- Whatever the nearest ancestor asks for. -/
  | inherit
  /-- No pointer at all. -/
  | none
  | default
  | pointer
  | text
  | move
  | grab
  | grabbing
  deriving DecidableEq, Inhabited, Repr

namespace Cursor

def name : Cursor → String
  | inherit => "inherit"
  | none => "none"
  | default => "default"
  | pointer => "pointer"
  | text => "text"
  | move => "move"
  | grab => "grab"
  | grabbing => "grabbing"

def all : List Cursor := [inherit, none, default, pointer, text, move, grab, grabbing]

def ofName? (s : String) : Option Cursor := all.find? (·.name == s)

/-- The name of the pointer image on a desktop, or nothing to hide it. A cursor
that nothing resolved is shown as the arrow. -/
def iconName? : Cursor → Option String
  | none => Option.none
  | inherit => some "default"
  | c => some c.name

end Cursor

/-- A view's own settings. -/
structure View (α : Type) where
  tag : Tag
  kind : ViewKind
  /-- The rectangle in the parent's space. -/
  frame : Rect α
  /-- Applied about the centre of the frame. -/
  transform : Transform α
  /-- Siblings are painted in this order, ties in layout order. -/
  z : Int
  clips : Bool
  hidden : Bool
  pointerEvents : PointerEvents
  /-- Insets of the region in which the view itself is hit. -/
  hitSlop : Insets α
  cursor : Cursor
  deriving DecidableEq

namespace View

/-- A view as it is created. -/
def new (tag : Tag) (kind : ViewKind) : View α where
  tag := tag
  kind := kind
  frame := .zero
  transform := .identity
  z := 0
  clips := false
  hidden := false
  pointerEvents := .auto
  hitSlop := .zero
  cursor := .inherit

/-- The view's rectangle in its own space. -/
def bounds (v : View α) : Rect α := .ofSize v.frame.size

/-- The region in which the view itself is hit. -/
def hitBounds (v : View α) : Rect α := v.bounds.inset v.hitSlop

/-- Maps the view's space into its parent's. -/
def parentFromLocal (v : View α) : Transform α :=
  if v.transform.isIdentity then .translate v.frame.x v.frame.y
  else
    let cx := v.frame.w * Scalar.half
    let cy := v.frame.h * Scalar.half
    ((Transform.translate (v.frame.x + cx) (v.frame.y + cy)).combine v.transform).combine
      (.translate (-cx) (-cy))

/-- Maps the parent's space into the view's, unless the transform is singular. -/
def localFromParent (v : View α) : Option (Transform α) := v.parentFromLocal.invert

end View

end ViewHost
