import Mathlib
import ViewHost.Geometry.Transform

/-!
# Homogeneous coordinates

Over exact numbers, a transform is a linear map of homogeneous coordinates, and to map a
point is to divide by the third coordinate of its image. Coordinates in the same ratio
stand for one point. The matrix product is the composition of linear maps, so whether the
division is made once or after every factor makes no difference, as long as there is
something to divide by after every factor.

A third coordinate of one needs no division, so what is done about it is the same. One of
zero is the exception: the point is what is left of an image at infinity, and nothing below
is said of it.
-/

namespace ViewHost

/-- Homogeneous coordinates of a point. -/
@[ext]
structure Homogeneous where
  x : Rat
  y : Rat
  w : Rat

namespace Homogeneous

def ofPoint (p : Vec2 Rat) : Homogeneous := ⟨p.x, p.y, 1⟩

/-- The point that is meant. -/
def point (v : Homogeneous) : Vec2 Rat := ⟨v.x / v.w, v.y / v.w⟩

def scale (v : Homogeneous) (k : Rat) : Homogeneous := ⟨v.x * k, v.y * k, v.w * k⟩

@[simp] theorem point_ofPoint (p : Vec2 Rat) : (ofPoint p).point = p := by simp [ofPoint, point]

/-- Coordinates in the same ratio are meant for the same point. -/
theorem point_scale (v : Homogeneous) {k : Rat} (hk : k ≠ 0) : (v.scale k).point = v.point := by
  simp only [point, scale, mul_div_mul_right _ _ hk]

theorem scale_ofPoint_point {v : Homogeneous} (hw : v.w ≠ 0) : (ofPoint v.point).scale v.w = v := by
  ext <;> simp [scale, ofPoint, point, hw]

end Homogeneous

namespace Transform

open Homogeneous

variable {s t : Transform Rat} {p : Vec2 Rat}

/-- The matrix, applied to a column. -/
def map (t : Transform Rat) (v : Homogeneous) : Homogeneous where
  x := t.a00 * v.x + t.a01 * v.y + t.a02 * v.w
  y := t.a10 * v.x + t.a11 * v.y + t.a12 * v.w
  w := t.a20 * v.x + t.a21 * v.y + t.a22 * v.w

theorem map_identity (v : Homogeneous) : identity.map v = v := by
  ext <;> simp only [map, identity] <;> ring

theorem map_combine (s t : Transform Rat) (v : Homogeneous) :
    (s.combine t).map v = s.map (t.map v) := by
  ext <;> simp only [map, combine] <;> ring

theorem map_scale (t : Transform Rat) (v : Homogeneous) (k : Rat) :
    t.map (v.scale k) = (t.map v).scale k := by
  ext <;> simp only [map, Homogeneous.scale] <;> ring

theorem weight_eq (t : Transform Rat) (p : Vec2 Rat) : t.weight p = (t.map (ofPoint p)).w := by
  simp only [weight, map, ofPoint]
  ring

theorem applyToPoint_eq (hw : t.weight p ≠ 0) : t.applyToPoint p = (t.map (ofPoint p)).point := by
  have hx : (t.map (ofPoint p)).x = t.a00 * p.x + t.a01 * p.y + t.a02 := by
    simp only [map, ofPoint, mul_one]
  have hy : (t.map (ofPoint p)).y = t.a10 * p.x + t.a11 * p.y + t.a12 := by
    simp only [map, ofPoint, mul_one]
  rw [point, ← weight_eq, hx, hy, applyToPoint]
  split
  · next hone =>
    have hone : t.weight p = 1 := by
      rw [Bool.or_eq_true] at hone
      exact hone.elim of_decide_eq_true fun hzero => (hw (of_decide_eq_true hzero)).elim
    rw [hone, div_one, div_one]
  · rfl

/-- The coordinates of the image are those of the point there, multiplied by the weight. -/
theorem map_ofPoint (hw : t.weight p ≠ 0) :
    t.map (ofPoint p) = (ofPoint (t.applyToPoint p)).scale (t.weight p) := by
  rw [applyToPoint_eq hw, weight_eq, scale_ofPoint_point]
  rwa [← weight_eq]

/-- The image by a product, in the coordinates that the second factor gives. -/
theorem map_combine_ofPoint (s : Transform Rat) (hw : t.weight p ≠ 0) :
    (s.combine t).map (ofPoint p) =
      (s.map (ofPoint (t.applyToPoint p))).scale (t.weight p) := by
  rw [map_combine, map_ofPoint hw, map_scale]

theorem weight_identity (p : Vec2 Rat) : identity.weight p = 1 := by
  rw [weight_eq, map_identity]
  rfl

theorem applyToPoint_identity (p : Vec2 Rat) : identity.applyToPoint p = p := by
  have hw : identity.weight p ≠ 0 := by
    rw [weight_identity]
    exact one_ne_zero
  rw [applyToPoint_eq hw, map_identity, point_ofPoint]

/-- Weights are multiplied along with the matrices. -/
theorem weight_combine (s : Transform Rat) (hw : t.weight p ≠ 0) :
    (s.combine t).weight p = s.weight (t.applyToPoint p) * t.weight p := by
  rw [weight_eq, map_combine_ofPoint s hw, weight_eq s]
  rfl

/-- A product maps a point as its factors do in turn, unless one of them sends it to
infinity. -/
theorem applyToPoint_combine (hw : t.weight p ≠ 0) (hs : s.weight (t.applyToPoint p) ≠ 0) :
    (s.combine t).applyToPoint p = s.applyToPoint (t.applyToPoint p) := by
  have hst : (s.combine t).weight p ≠ 0 := by
    rw [weight_combine s hw]
    exact mul_ne_zero hs hw
  rw [applyToPoint_eq hst, map_combine_ofPoint s hw, point_scale _ hw, applyToPoint_eq hs]

end Transform

end ViewHost
