import ViewHost.Geometry.Basic

/-!
# Projective transforms

A transform is a 3×3 matrix acting on columns `(x, y, 1)`. An affine one has
the last row `(0, 0, 1)`; any other last row foreshortens, and a point is
mapped by dividing by the third coordinate `w` of its image. Where that is
zero there is no image point, and the undivided coordinates stand in for it.
-/

namespace ViewHost

variable {α : Type} [Scalar α]

/-- A 3×3 matrix; `aij` is the entry in row `i` and column `j`. -/
structure Transform (α : Type) where
  a00 : α
  a01 : α
  a02 : α
  a10 : α
  a11 : α
  a12 : α
  a20 : α
  a21 : α
  a22 : α
  deriving DecidableEq, Inhabited, Repr

namespace Transform

def identity : Transform α := ⟨1, 0, 0, 0, 1, 0, 0, 0, 1⟩

def translate (x y : α) : Transform α := ⟨1, 0, x, 0, 1, y, 0, 0, 1⟩

def scale (x y : α) : Transform α := ⟨x, 0, 0, 0, y, 0, 0, 0, 1⟩

/-- The turn with the given cosine and sine, clockwise where y points down. -/
def turn (cos sin : α) : Transform α := ⟨cos, -sin, 0, sin, cos, 0, 0, 0, 1⟩

/-- The turn by an angle in radians. -/
def rotate (radians : Float32) : Transform Float32 := turn radians.cos radians.sin

/-- Foreshortening along the two axes. -/
def perspective (x y : α) : Transform α := ⟨1, 0, 0, 0, 1, 0, x, y, 1⟩

/-- The entries, row by row. -/
def toList (t : Transform α) : List α :=
  [t.a00, t.a01, t.a02, t.a10, t.a11, t.a12, t.a20, t.a21, t.a22]

/-- The matrix with the given entries, row by row. -/
def ofList? : List α → Option (Transform α)
  | [a, b, c, d, e, f, g, h, i] => some ⟨a, b, c, d, e, f, g, h, i⟩
  | _ => none

omit [Scalar α] in
theorem ofList?_toList (t : Transform α) : ofList? t.toList = some t := rfl

/-- Every entry compares equal to that of the identity. -/
def isIdentity (t : Transform α) : Bool :=
  (t.toList.zip (identity : Transform α).toList).all fun (a, b) => Scalar.eq a b

/-- The third coordinate of the image of a point. -/
def weight (t : Transform α) (p : Vec2 α) : α := t.a20 * p.x + t.a21 * p.y + t.a22

def applyToPoint (t : Transform α) (p : Vec2 α) : Vec2 α :=
  let x := t.a00 * p.x + t.a01 * p.y + t.a02
  let y := t.a10 * p.x + t.a11 * p.y + t.a12
  let w := t.weight p
  if Scalar.eq w 1 || Scalar.eq w 0 then ⟨x, y⟩ else ⟨x / w, y / w⟩

/-- The four corners of a rectangle, mapped. -/
def corners (t : Transform α) (r : Rect α) : List (Vec2 α) :=
  [⟨r.x, r.y⟩, ⟨r.x + r.w, r.y⟩, ⟨r.x, r.y + r.h⟩, ⟨r.x + r.w, r.y + r.h⟩].map t.applyToPoint

/-- The box around the four mapped corners. -/
def applyToRect (t : Transform α) (r : Rect α) : Rect α :=
  let xs := (t.corners r).map (·.x)
  let ys := (t.corners r).map (·.y)
  let x := Scalar.least xs
  let y := Scalar.least ys
  ⟨x, y, Scalar.greatest xs - x, Scalar.greatest ys - y⟩

/-- The matrix product: `s.combine t` maps by `t` first and by `s` second. -/
def combine (s t : Transform α) : Transform α where
  a00 := s.a00 * t.a00 + s.a01 * t.a10 + s.a02 * t.a20
  a01 := s.a00 * t.a01 + s.a01 * t.a11 + s.a02 * t.a21
  a02 := s.a00 * t.a02 + s.a01 * t.a12 + s.a02 * t.a22
  a10 := s.a10 * t.a00 + s.a11 * t.a10 + s.a12 * t.a20
  a11 := s.a10 * t.a01 + s.a11 * t.a11 + s.a12 * t.a21
  a12 := s.a10 * t.a02 + s.a11 * t.a12 + s.a12 * t.a22
  a20 := s.a20 * t.a00 + s.a21 * t.a10 + s.a22 * t.a20
  a21 := s.a20 * t.a01 + s.a21 * t.a11 + s.a22 * t.a21
  a22 := s.a20 * t.a02 + s.a21 * t.a12 + s.a22 * t.a22

/-- The cofactors, transposed: the inverse up to the factor `det`. -/
def adjugate (t : Transform α) : Transform α where
  a00 := t.a11 * t.a22 - t.a12 * t.a21
  a01 := t.a02 * t.a21 - t.a01 * t.a22
  a02 := t.a01 * t.a12 - t.a02 * t.a11
  a10 := t.a12 * t.a20 - t.a10 * t.a22
  a11 := t.a00 * t.a22 - t.a02 * t.a20
  a12 := t.a02 * t.a10 - t.a00 * t.a12
  a20 := t.a10 * t.a21 - t.a11 * t.a20
  a21 := t.a01 * t.a20 - t.a00 * t.a21
  a22 := t.a00 * t.a11 - t.a01 * t.a10

/-- The determinant, expanded along the first row. -/
def det (t : Transform α) : α :=
  t.a00 * t.adjugate.a00 + t.a01 * t.adjugate.a10 + t.a02 * t.adjugate.a20

/-- Every entry multiplied by one number. -/
def times (t : Transform α) (k : α) : Transform α :=
  ⟨t.a00 * k, t.a01 * k, t.a02 * k, t.a10 * k, t.a11 * k, t.a12 * k,
    t.a20 * k, t.a21 * k, t.a22 * k⟩

/-- The inverse, for a matrix whose determinant is neither too close to zero
nor out of range. -/
def invert (t : Transform α) : Option (Transform α) :=
  let d := t.det
  if Scalar.le (Scalar.abs d) Scalar.singular || !Scalar.isFinite d then none
  else some (t.adjugate.times (1 / d))

end Transform

end ViewHost
