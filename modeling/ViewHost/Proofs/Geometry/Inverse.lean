import Mathlib
import ViewHost.Proofs.Geometry.Homogeneous

/-!
# Inverses

Over exact numbers, transforms are three by three matrices, `combine` is their product, and what
`invert` divides by the determinant is the adjugate. So the inverse is an inverse from either
side, and where the image of a point has something to divide by, the inverse brings it back: the
two third coordinates are inverse to each other as the matrices are.
-/

namespace ViewHost.Transform

variable {r s t : Transform Rat} {p : Vec2 Rat}

/-! ## Transforms as matrices -/

def toMatrix (t : Transform Rat) : Matrix (Fin 3) (Fin 3) Rat :=
  !![t.a00, t.a01, t.a02; t.a10, t.a11, t.a12; t.a20, t.a21, t.a22]

/-- The transform that a matrix stands for. -/
def ofMatrix (m : Matrix (Fin 3) (Fin 3) Rat) : Transform Rat :=
  ⟨m 0 0, m 0 1, m 0 2, m 1 0, m 1 1, m 1 2, m 2 0, m 2 1, m 2 2⟩

theorem toMatrix_injective : Function.Injective toMatrix :=
  Function.LeftInverse.injective (g := ofMatrix) fun _ => rfl

theorem toMatrix_identity : (identity : Transform Rat).toMatrix = 1 :=
  Matrix.one_fin_three.symm

theorem toMatrix_combine (s t : Transform Rat) :
    (s.combine t).toMatrix = s.toMatrix * t.toMatrix := by
  ext i j
  fin_cases i <;> fin_cases j <;> simp [toMatrix, combine, Matrix.mul_apply, Fin.sum_univ_three]

theorem toMatrix_times (t : Transform Rat) (k : Rat) : (t.times k).toMatrix = k • t.toMatrix := by
  ext i j
  fin_cases i <;> fin_cases j <;> exact mul_comm _ _

theorem toMatrix_adjugate (t : Transform Rat) : t.adjugate.toMatrix = t.toMatrix.adjugate := by
  rw [Matrix.adjugate_fin_three]
  ext i j
  fin_cases i <;> fin_cases j <;> simp [toMatrix, adjugate] <;> ring

theorem det_eq (t : Transform Rat) : t.det = t.toMatrix.det := by
  rw [Matrix.det_fin_three]
  simp [toMatrix, det, adjugate]
  ring

theorem combine_assoc (r s t : Transform Rat) :
    (r.combine s).combine t = r.combine (s.combine t) := by
  apply toMatrix_injective
  simp only [toMatrix_combine, mul_assoc]

theorem identity_combine (t : Transform Rat) : identity.combine t = t := by
  apply toMatrix_injective
  rw [toMatrix_combine, toMatrix_identity, one_mul]

theorem combine_identity (t : Transform Rat) : t.combine identity = t := by
  apply toMatrix_injective
  rw [toMatrix_combine, toMatrix_identity, mul_one]

/-! ## The inverse -/

theorem abs_eq (x : Rat) : Scalar.abs x = |x| := by
  show (if x < 0 then -x else x) = |x|
  split
  · next hneg => exact (abs_of_neg hneg).symm
  · next hneg => exact (abs_of_nonneg (not_lt.1 hneg)).symm

theorem invert_eq (t : Transform Rat) : t.invert =
    if |t.toMatrix.det| ≤ 1 / 2 ^ 23 * (1 / 1000) then none
    else some (t.adjugate.times (1 / t.det)) := by
  have hsingular : (Scalar.singular : Rat) = 1 / 2 ^ 23 * (1 / 1000) := by
    show (1 / (8388608 * 1000) : Rat) = _
    norm_num
  have htest : (Scalar.le (Scalar.abs t.det) Scalar.singular || !Scalar.isFinite t.det) =
      decide (|t.toMatrix.det| ≤ 1 / 2 ^ 23 * (1 / 1000)) := by
    rw [abs_eq, hsingular, det_eq]
    exact Bool.or_false _
  simp only [invert, htest, decide_eq_true_eq]

/-- The adjugate is the inverse up to the determinant, on either side. -/
theorem combine_adjugate (hdet : t.det ≠ 0) :
    (t.adjugate.times (1 / t.det)).combine t = identity ∧
      t.combine (t.adjugate.times (1 / t.det)) = identity := by
  have hunit : 1 / t.det * t.toMatrix.det = 1 := by
    rw [← det_eq]
    exact one_div_mul_cancel hdet
  constructor
  · apply toMatrix_injective
    rw [toMatrix_combine, toMatrix_times, toMatrix_adjugate, toMatrix_identity, Matrix.smul_mul,
      Matrix.adjugate_mul, smul_smul, hunit, one_smul]
  · apply toMatrix_injective
    rw [toMatrix_combine, toMatrix_times, toMatrix_adjugate, toMatrix_identity, Matrix.mul_smul,
      Matrix.mul_adjugate, smul_smul, hunit, one_smul]

theorem combine_of_invert (hr : t.invert = some r) :
    r.combine t = identity ∧ t.combine r = identity := by
  rw [invert_eq] at hr
  split at hr
  · cases hr
  · next hlarge =>
    cases hr
    apply combine_adjugate
    intro hzero
    rw [← det_eq, hzero, abs_zero] at hlarge
    exact hlarge (by norm_num)

/-- A matrix that undoes another one undoes the weight of a point as well. -/
theorem weight_mul_weight (hrt : r.combine t = identity) (hw : t.weight p ≠ 0) :
    r.weight (t.applyToPoint p) * t.weight p = 1 := by
  rw [← weight_combine r hw, hrt, weight_identity]

/-- So it brings the point back. -/
theorem applyToPoint_applyToPoint (hrt : r.combine t = identity) (hw : t.weight p ≠ 0) :
    r.applyToPoint (t.applyToPoint p) = p := by
  have hback : r.weight (t.applyToPoint p) ≠ 0 :=
    left_ne_zero_of_mul_eq_one (weight_mul_weight hrt hw)
  rw [← applyToPoint_combine hw hback, hrt, applyToPoint_identity]

/-- A matrix has no inverse if its determinant is within a thousandth of the single precision
epsilon, and otherwise it has one on both sides, which brings every point back that is not sent
to infinity. -/
theorem invert_undoes (t : Transform Rat) :
    (t.invert = none ↔ |t.toMatrix.det| ≤ 1 / 2 ^ 23 * (1 / 1000)) ∧
    ∀ r, t.invert = some r →
      r.combine t = identity ∧ t.combine r = identity ∧
      ∀ p, t.weight p ≠ 0 → r.applyToPoint (t.applyToPoint p) = p := by
  refine ⟨?_, fun r hr => ?_⟩
  · rw [invert_eq]
    split
    · next hsmall => exact iff_of_true rfl hsmall
    · next hlarge => exact iff_of_false (Option.some_ne_none _) hlarge
  · obtain ⟨hleft, hright⟩ := combine_of_invert hr
    exact ⟨hleft, hright, fun p hw => applyToPoint_applyToPoint hleft hw⟩

end ViewHost.Transform
