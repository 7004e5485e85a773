import Mathlib
import ViewHost.Proofs.Geometry.Homogeneous
import ViewHost.View.Basic

/-!
# Boxes around mapped rectangles

A transform does not map rectangles to rectangles, and its box is put around the images of the
four corners alone. Over exact numbers that is enough as long as the corners have positive third
coordinates. What is compared with a side of the box is a quotient of two affine forms, so to be on
the right side of it is a sign of an affine form, and such a form is nowhere negative in a
rectangle if it is not at the corners.
-/

namespace ViewHost

/-! ## Extremes -/

variable {xs : List Rat}

theorem least_spec (hxs : xs ≠ []) :
    Scalar.least xs ∈ xs ∧ ∀ x ∈ xs, Scalar.least xs ≤ x := by
  obtain ⟨x, xs, rfl⟩ := List.exists_cons_of_ne_nil hxs
  have hpick : (fun m y : Rat => if y < m then y else m) = min := by
    funext m y
    rw [min_comm, min_def_lt]
  apply List.min?_eq_some_iff.1
  show (x :: xs).min? = some (xs.foldl (fun m y => if y < m then y else m) x)
  rw [hpick, List.min?_cons']

theorem greatest_spec (hxs : xs ≠ []) :
    Scalar.greatest xs ∈ xs ∧ ∀ x ∈ xs, x ≤ Scalar.greatest xs := by
  obtain ⟨x, xs, rfl⟩ := List.exists_cons_of_ne_nil hxs
  have hpick : (fun m y : Rat => if m < y then y else m) = max := by
    funext m y
    rw [max_def_lt]
  apply List.max?_eq_some_iff.1
  show (x :: xs).max? = some (xs.foldl (fun m y => if m < y then y else m) x)
  rw [hpick, List.max?_cons']

namespace Rect

variable {r : Rect Rat} {p : Vec2 Rat}

/-- The point is in the rectangle or on one of its edges. -/
structure Encloses (r : Rect Rat) (p : Vec2 Rat) : Prop where
  left : r.x ≤ p.x
  right : p.x ≤ r.x + r.w
  top : r.y ≤ p.y
  bottom : p.y ≤ r.y + r.h

/-- The four corners. -/
def vertices (r : Rect Rat) : List (Vec2 Rat) :=
  [⟨r.x, r.y⟩, ⟨r.x + r.w, r.y⟩, ⟨r.x, r.y + r.h⟩, ⟨r.x + r.w, r.y + r.h⟩]

theorem least_vertices (r : Rect Rat) (f : Vec2 Rat → Rat) :
    (∃ v ∈ r.vertices, f v = Scalar.least (r.vertices.map f)) ∧
      ∀ v ∈ r.vertices, Scalar.least (r.vertices.map f) ≤ f v := by
  have hne : r.vertices.map f ≠ [] := List.cons_ne_nil _ _
  obtain ⟨hmem, hle⟩ := least_spec hne
  exact ⟨List.mem_map.1 hmem, fun v hv => hle _ (List.mem_map_of_mem hv)⟩

theorem greatest_vertices (r : Rect Rat) (f : Vec2 Rat → Rat) :
    (∃ v ∈ r.vertices, f v = Scalar.greatest (r.vertices.map f)) ∧
      ∀ v ∈ r.vertices, f v ≤ Scalar.greatest (r.vertices.map f) := by
  have hne : r.vertices.map f ≠ [] := List.cons_ne_nil _ _
  obtain ⟨hmem, hle⟩ := greatest_spec hne
  exact ⟨List.mem_map.1 hmem, fun v hv => hle _ (List.mem_map_of_mem hv)⟩

/-- Between two numbers a form of one variable is not negative if it is not at either. -/
theorem nonneg_between {a c lo hi x : Rat} (hlo : 0 ≤ a * lo + c) (hhi : 0 ≤ a * hi + c)
    (hx : lo ≤ x) (hx' : x ≤ hi) : 0 ≤ a * x + c := by
  rcases le_total 0 a with ha | ha
  · have hstep : a * lo ≤ a * x := mul_le_mul_of_nonneg_left hx ha
    linarith
  · have hstep : a * hi ≤ a * x := mul_le_mul_of_nonpos_left hx' ha
    linarith

/-- In a rectangle an affine form is not negative if it is not at the corners. -/
theorem Encloses.nonneg {a b c : Rat} (hp : r.Encloses p)
    (hvertices : ∀ v ∈ r.vertices, 0 ≤ a * v.x + b * v.y + c) : 0 ≤ a * p.x + b * p.y + c := by
  simp only [vertices, List.forall_mem_cons, List.not_mem_nil, false_implies, implies_true,
    and_true] at hvertices
  obtain ⟨hlt, hrt, hlb, hrb⟩ := hvertices
  have htop : 0 ≤ a * p.x + (b * r.y + c) := by
    apply nonneg_between _ _ hp.left hp.right <;> linarith
  have hbottom : 0 ≤ a * p.x + (b * (r.y + r.h) + c) := by
    apply nonneg_between _ _ hp.left hp.right <;> linarith
  have hp : 0 ≤ b * p.y + (a * p.x + c) := by
    apply nonneg_between _ _ hp.top hp.bottom <;> linarith
  linarith

end Rect

namespace Transform

variable {t : Transform Rat} {r : Rect Rat} {p : Vec2 Rat}

/-- With something to divide by, the coordinates of an image are quotients. -/
theorem applyToPoint_coords (hw : t.weight p ≠ 0) : t.applyToPoint p =
    ⟨(t.a00 * p.x + t.a01 * p.y + t.a02) / t.weight p,
      (t.a10 * p.x + t.a11 * p.y + t.a12) / t.weight p⟩ := by
  rw [applyToPoint_eq hw, Homogeneous.point, ← weight_eq]
  simp only [map, Homogeneous.ofPoint, mul_one]

theorem weight_pos (hw : ∀ v ∈ r.vertices, 0 < t.weight v) (hp : r.Encloses p) :
    0 < t.weight p := by
  -- no point has a smaller weight than the corner that has the smallest
  obtain ⟨⟨v, hv, hleast⟩, hle⟩ := r.least_vertices t.weight
  rw [← hleast] at hle
  have hform (q : Vec2 Rat) : t.weight q - t.weight v =
      t.a20 * q.x + t.a21 * q.y + (t.a22 - t.weight v) := add_sub_assoc _ _ _
  have hsign : 0 ≤ t.weight p - t.weight v := by
    rw [hform]
    refine hp.nonneg fun u hu => ?_
    rw [← hform, sub_nonneg]
    exact hle u hu
  exact (hw v hv).trans_le (sub_nonneg.1 hsign)

section Quotient

variable {a b c k : Rat}

/-- A quotient that is not below `k` at the corners is not below it in the rectangle. -/
theorem le_quotient (hw : ∀ v ∈ r.vertices, 0 < t.weight v) (hp : r.Encloses p)
    (hk : ∀ v ∈ r.vertices, k ≤ (a * v.x + b * v.y + c) / t.weight v) :
    k ≤ (a * p.x + b * p.y + c) / t.weight p := by
  rw [le_div_iff₀ (weight_pos hw hp)]
  have hform (q : Vec2 Rat) : a * q.x + b * q.y + c - k * t.weight q =
      (a - k * t.a20) * q.x + (b - k * t.a21) * q.y + (c - k * t.a22) := by
    rw [weight]
    ring
  have hsign : 0 ≤ a * p.x + b * p.y + c - k * t.weight p := by
    rw [hform]
    refine hp.nonneg fun v hv => ?_
    rw [← hform, sub_nonneg, ← le_div_iff₀ (hw v hv)]
    exact hk v hv
  exact sub_nonneg.1 hsign

theorem quotient_le (hw : ∀ v ∈ r.vertices, 0 < t.weight v) (hp : r.Encloses p)
    (hk : ∀ v ∈ r.vertices, (a * v.x + b * v.y + c) / t.weight v ≤ k) :
    (a * p.x + b * p.y + c) / t.weight p ≤ k := by
  have hneg (q : Vec2 Rat) : (-a * q.x + -b * q.y + -c) / t.weight q =
      -((a * q.x + b * q.y + c) / t.weight q) := by ring
  have hle := le_quotient (a := -a) (b := -b) (c := -c) (k := -k) hw hp fun v hv => by
    rw [hneg]
    exact neg_le_neg (hk v hv)
  rw [hneg] at hle
  exact neg_le_neg_iff.1 hle

end Quotient

/-- The sides of the box are the extremes of the images of the corners. -/
theorem applyToRect_corners (t : Transform Rat) (r : Rect Rat) :
    let box := t.applyToRect r
    (∀ v ∈ r.vertices, box.Encloses (t.applyToPoint v)) ∧
      (∃ v ∈ r.vertices, (t.applyToPoint v).x = box.x) ∧
      (∃ v ∈ r.vertices, (t.applyToPoint v).x = box.x + box.w) ∧
      (∃ v ∈ r.vertices, (t.applyToPoint v).y = box.y) ∧
      ∃ v ∈ r.vertices, (t.applyToPoint v).y = box.y + box.h := by
  intro box
  obtain ⟨hleft, hx⟩ := r.least_vertices fun v => (t.applyToPoint v).x
  obtain ⟨hright, hx'⟩ := r.greatest_vertices fun v => (t.applyToPoint v).x
  obtain ⟨htop, hy⟩ := r.least_vertices fun v => (t.applyToPoint v).y
  obtain ⟨hbottom, hy'⟩ := r.greatest_vertices fun v => (t.applyToPoint v).y
  have hw : box.x + box.w = Scalar.greatest (r.vertices.map fun v => (t.applyToPoint v).x) :=
    add_sub_cancel box.x _
  have hh : box.y + box.h = Scalar.greatest (r.vertices.map fun v => (t.applyToPoint v).y) :=
    add_sub_cancel box.y _
  rw [hw, hh]
  exact ⟨fun v hv => ⟨hx v hv, hw ▸ hx' v hv, hy v hv, hh ▸ hy' v hv⟩, hleft, hright, htop, hbottom⟩

/-- The box around the images of the corners is a box around the images of all points. -/
theorem applyToRect_encloses (hw : ∀ v ∈ r.vertices, 0 < t.weight v) (hp : r.Encloses p) :
    (t.applyToRect r).Encloses (t.applyToPoint p) := by
  have hcorners := (applyToRect_corners t r).1
  have hcoords {v : Vec2 Rat} (hv : v ∈ r.vertices) := applyToPoint_coords (hw v hv).ne'
  rw [applyToPoint_coords (weight_pos hw hp).ne']
  constructor
  · refine le_quotient hw hp fun v hv => ?_
    exact (hcoords hv ▸ hcorners v hv).left
  · refine quotient_le hw hp fun v hv => ?_
    exact (hcoords hv ▸ hcorners v hv).right
  · refine le_quotient hw hp fun v hv => ?_
    exact (hcoords hv ▸ hcorners v hv).top
  · refine quotient_le hw hp fun v hv => ?_
    exact (hcoords hv ▸ hcorners v hv).bottom

/-! ## Affine transforms -/

/-- Third coordinates stay what they are. -/
structure IsAffine (t : Transform Rat) : Prop where
  a20 : t.a20 = 0
  a21 : t.a21 = 0
  a22 : t.a22 = 1

theorem isAffine_identity : (identity : Transform Rat).IsAffine := ⟨rfl, rfl, rfl⟩

theorem isAffine_translate (x y : Rat) : (translate x y).IsAffine := ⟨rfl, rfl, rfl⟩

theorem IsAffine.weight (ht : t.IsAffine) (p : Vec2 Rat) : t.weight p = 1 := by
  rw [Transform.weight, ht.a20, ht.a21, ht.a22, zero_mul, zero_mul, zero_add, zero_add]

theorem IsAffine.combine {s : Transform Rat} (hs : s.IsAffine) (ht : t.IsAffine) :
    (s.combine t).IsAffine := by
  obtain ⟨hs0, hs1, hs2⟩ := hs
  obtain ⟨ht0, ht1, ht2⟩ := ht
  constructor <;> simp [Transform.combine, *]

end Transform

/-- A view is placed in its parent by an affine map if its own transform is affine. -/
theorem View.isAffine_parentFromLocal {v : View Rat} (hv : v.transform.IsAffine) :
    v.parentFromLocal.IsAffine := by
  rw [parentFromLocal]
  split
  · exact Transform.isAffine_translate _ _
  · exact ((Transform.isAffine_translate _ _).combine hv).combine (Transform.isAffine_translate _ _)

end ViewHost
