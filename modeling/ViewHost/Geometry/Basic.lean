import ViewHost.Scalar

/-!
# Points and rectangles

Rectangles are closed on their left and top edges and open on the other two,
so neighbours that share an edge never both contain a point.
-/

namespace ViewHost

variable {α : Type} [Scalar α]

/-- A point, or the displacement between two. -/
structure Vec2 (α : Type) where
  x : α
  y : α
  deriving DecidableEq, Inhabited, Repr

namespace Vec2

def zero : Vec2 α := ⟨0, 0⟩

def add (a b : Vec2 α) : Vec2 α := ⟨a.x + b.x, a.y + b.y⟩

def sub (a b : Vec2 α) : Vec2 α := ⟨a.x - b.x, a.y - b.y⟩

/-- Both coordinates compare equal. -/
def same (a b : Vec2 α) : Bool := Scalar.eq a.x b.x && Scalar.eq a.y b.y

/-- The square of the distance between two points. -/
def distanceSq (a b : Vec2 α) : α := Scalar.sq (a.x - b.x) + Scalar.sq (a.y - b.y)

/-- The distance between two points. -/
def distance (a b : Vec2 Float32) : Float32 := (a.distanceSq b).sqrt

/-- Whether two points are more than `limit` apart. -/
def fartherThan (a b : Vec2 α) (limit : α) : Bool := Scalar.rootExceeds (a.distanceSq b) limit

end Vec2

structure Size (α : Type) where
  width : α
  height : α
  deriving DecidableEq, Inhabited, Repr

/-- A rectangle along the axes; `x` and `y` are its top left corner. -/
structure Rect (α : Type) where
  x : α
  y : α
  w : α
  h : α
  deriving DecidableEq, Inhabited, Repr

/-- Distances from the four edges of a rectangle, inwards. -/
structure Insets (α : Type) where
  top : α
  left : α
  bottom : α
  right : α
  deriving DecidableEq, Inhabited, Repr

namespace Insets

def uniform (v : α) : Insets α := ⟨v, v, v, v⟩

def zero : Insets α := uniform 0

def isZero (i : Insets α) : Bool :=
  Scalar.eq i.top 0 && Scalar.eq i.left 0 && Scalar.eq i.bottom 0 && Scalar.eq i.right 0

end Insets

namespace Rect

/-- The rectangle of a size, at the origin. -/
def ofSize (s : Size α) : Rect α := ⟨0, 0, s.width, s.height⟩

def size (r : Rect α) : Size α := ⟨r.w, r.h⟩

def zero : Rect α := ⟨0, 0, 0, 0⟩

/-- Whether a point lies in a rectangle, its left and top edges included and
the other two not. -/
def contains (r : Rect α) (p : Vec2 α) : Bool :=
  Scalar.le r.x p.x && Scalar.lt p.x (r.x + r.w) &&
    Scalar.le r.y p.y && Scalar.lt p.y (r.y + r.h)

/-- Positive insets shrink a rectangle, down to an empty one, and negative
insets grow it. -/
def inset (r : Rect α) (i : Insets α) : Rect α where
  x := r.x + i.left
  y := r.y + i.top
  w := Scalar.clampNeg (r.w - i.left - i.right)
  h := Scalar.clampNeg (r.h - i.top - i.bottom)

end Rect

end ViewHost
