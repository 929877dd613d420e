import SurfaceStudio.Proofs.Reals
import SurfaceStudio.Vec3
/-!
# Vectors in exact arithmetic

Over the real numbers the vectors of space are a commutative group, so that it does not matter in
what order they are added up. The vector product of two sides of a triangle does not depend on the
corner that they leave from, and a vector other than zero is its length times its direction.
-/

namespace SurfaceStudio.Vec3

attribute [ext] Vec3

/-! ## Sums -/

noncomputable instance : Zero (Vec3 ℝ) := ⟨zero⟩

instance : Neg (Vec3 ℝ) := ⟨fun p => p.map (- ·)⟩

@[simp] theorem zero_x : (0 : Vec3 ℝ).x = 0 := Scalar.zero_real

@[simp] theorem zero_y : (0 : Vec3 ℝ).y = 0 := Scalar.zero_real

@[simp] theorem zero_z : (0 : Vec3 ℝ).z = 0 := Scalar.zero_real

section

variable (p q : Vec3 ℝ) (c : ℝ)

@[simp] theorem add_x : (p + q).x = p.x + q.x := rfl

@[simp] theorem add_y : (p + q).y = p.y + q.y := rfl

@[simp] theorem add_z : (p + q).z = p.z + q.z := rfl

@[simp] theorem sub_x : (p - q).x = p.x - q.x := rfl

@[simp] theorem sub_y : (p - q).y = p.y - q.y := rfl

@[simp] theorem sub_z : (p - q).z = p.z - q.z := rfl

@[simp] theorem neg_x : (-p).x = -p.x := rfl

@[simp] theorem neg_y : (-p).y = -p.y := rfl

@[simp] theorem neg_z : (-p).z = -p.z := rfl

@[simp] theorem times_x : (p.times c).x = p.x * c := rfl

@[simp] theorem times_y : (p.times c).y = p.y * c := rfl

@[simp] theorem times_z : (p.times c).z = p.z * c := rfl

@[simp] theorem cross_x : (p.cross q).x = p.y * q.z - p.z * q.y := rfl

@[simp] theorem cross_y : (p.cross q).y = p.z * q.x - p.x * q.z := rfl

@[simp] theorem cross_z : (p.cross q).z = p.x * q.y - p.y * q.x := rfl

end

noncomputable instance : AddCommGroup (Vec3 ℝ) where
  add_assoc p q r := Vec3.ext (add_assoc _ _ _) (add_assoc _ _ _) (add_assoc _ _ _)
  zero_add p := by ext <;> simp
  add_zero p := by ext <;> simp
  add_comm p q := Vec3.ext (add_comm _ _) (add_comm _ _) (add_comm _ _)
  neg_add_cancel p := by ext <;> simp
  sub_eq_add_neg p q := Vec3.ext (sub_eq_add_neg _ _) (sub_eq_add_neg _ _) (sub_eq_add_neg _ _)
  nsmul := nsmulRec
  zsmul := zsmulRec

/-- What is added up one after another, beginning with zero, is the sum. -/
theorem foldl_add_eq_sum (ps : List (Vec3 ℝ)) : ps.foldl (· + ·) zero = ps.sum :=
  List.sum_eq_foldl.symm

/-- Multiplication by a number keeps sums. -/
noncomputable def timesHom (c : ℝ) : Vec3 ℝ →+ Vec3 ℝ where
  toFun p := p.times c
  map_zero' := by ext <;> simp
  map_add' p q := by ext <;> simp [add_mul]

/-! ## Vector products -/

/-- The sides of a triangle that leave from one corner have the vector product of those that leave
from another one. -/
theorem cross_sides (p q r : Vec3 ℝ) : (r - q).cross (p - q) = (q - p).cross (r - p) := by
  ext <;> simp <;> ring

theorem cross_turned (p q r : Vec3 ℝ) : (p - r).cross (q - r) = (r - q).cross (p - q) := by
  ext <;> simp <;> ring

theorem cross_reversed (p q r : Vec3 ℝ) : (p - q).cross (r - q) = -(r - q).cross (p - q) := by
  ext <;> simp <;> ring

/-! ## Lengths -/

section

variable {p : Vec3 ℝ} {c : ℝ}

theorem dividedBy_eq (p : Vec3 ℝ) (c : ℝ) : p.dividedBy c = p.times c⁻¹ := by
  ext <;> exact div_eq_mul_inv _ _

theorem times_times (p : Vec3 ℝ) (c d : ℝ) : (p.times c).times d = p.times (c * d) := by
  ext <;> exact mul_assoc _ _ _

theorem times_one (p : Vec3 ℝ) : p.times 1 = p := by
  ext <;> exact mul_one _

theorem zero_times (c : ℝ) : (0 : Vec3 ℝ).times c = 0 := (timesHom c).map_zero

theorem times_eq_zero_iff (hc : c ≠ 0) : p.times c = 0 ↔ p = 0 := by
  simp [Vec3.ext_iff, hc]

theorem length_nonneg (p : Vec3 ℝ) : 0 ≤ p.length := Real.sqrt_nonneg _

theorem length_eq (p : Vec3 ℝ) : p.length = √(p.x * p.x + p.y * p.y + p.z * p.z) := rfl

theorem length_eq_zero_iff : p.length = 0 ↔ p = 0 := by
  have hx := mul_self_nonneg p.x
  have hy := mul_self_nonneg p.y
  have hz := mul_self_nonneg p.z
  rw [length_eq, Real.sqrt_eq_zero (by linarith)]
  constructor
  · intro h
    have hx : p.x = 0 := mul_self_eq_zero.mp (by linarith)
    have hy : p.y = 0 := mul_self_eq_zero.mp (by linarith)
    have hz : p.z = 0 := mul_self_eq_zero.mp (by linarith)
    exact Vec3.ext (hx.trans zero_x.symm) (hy.trans zero_y.symm) (hz.trans zero_z.symm)
  · rintro rfl
    simp

theorem length_times (hc : 0 ≤ c) (p : Vec3 ℝ) : (p.times c).length = p.length * c := by
  have hsquare : p.x * c * (p.x * c) + p.y * c * (p.y * c) + p.z * c * (p.z * c) =
      (p.x * p.x + p.y * p.y + p.z * p.z) * c ^ 2 := by ring
  show √(p.x * c * (p.x * c) + p.y * c * (p.y * c) + p.z * c * (p.z * c)) = _
  rw [hsquare, Real.sqrt_mul' _ (sq_nonneg c), Real.sqrt_sq hc]
  rfl

theorem peak_eq (p : Vec3 ℝ) : p.peak = max (max |p.x| |p.y|) |p.z| := rfl

theorem peak_nonneg (p : Vec3 ℝ) : 0 ≤ p.peak := (abs_nonneg p.z).trans (le_max_right _ _)

theorem peak_eq_zero_iff : p.peak = 0 ↔ p = 0 := by
  constructor
  · intro h
    have hle : max (max |p.x| |p.y|) |p.z| ≤ 0 := h.le
    simp only [max_le_iff, abs_nonpos_iff] at hle
    exact Vec3.ext (hle.1.1.trans zero_x.symm) (hle.1.2.trans zero_y.symm) (hle.2.trans zero_z.symm)
  · rintro rfl
    rw [peak_eq]
    simp

end

end SurfaceStudio.Vec3
