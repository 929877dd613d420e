import SurfaceStudio.Scalar
import SurfaceStudio.Proofs.Decimal.Arithmetic
import Mathlib.Analysis.SpecialFunctions.Pow.Real
import Mathlib.Analysis.SpecialFunctions.Trigonometric.Arctan
/-!
# Exact arithmetic

The real numbers as scalars, so that the definitions of this library speak of exact numbers too. A
double stands for its value, which is exact for a finite one. No number is undefined or infinite
here: where an operation of doubles has no finite value, the operation of the real numbers has the
value that it has in Mathlib, and results that matter outside of its domain say so.
-/

namespace SurfaceStudio

-- real numbers are divided as in Mathlib, also where they are scalars
noncomputable instance Scalar.divReal : Div ℝ := DivInvMonoid.toDiv

open Classical in
/-- The real numbers in exact arithmetic. -/
noncomputable instance Scalar.real : Scalar ℝ where
  natural n := n
  literal x := (Decimal.value x : ℚ)
  pi := Real.pi
  abs x := |x|
  sqrt := Real.sqrt
  exp := Real.exp
  log := Real.log
  sin := Real.sin
  cos := Real.cos
  tan := Real.tan
  asin := Real.arcsin
  acos := Real.arccos
  atan := Real.arctan
  sinh := Real.sinh
  cosh := Real.cosh
  tanh := Real.tanh
  floor x := ⌊x⌋
  ceil x := ⌈x⌉
  pow x y := x ^ y
  commonPow x y := x ^ y
  min x y := Min.min x y
  max x y := Max.max x y
  less x y := decide (x < y)
  isFinite _ := true
  isZero x := decide (x = 0)

namespace Scalar

theorem literal_real (x : Float) : (literal x : ℝ) = (Decimal.value x : ℚ) := rfl

theorem zero_real : (zero : ℝ) = 0 := Nat.cast_zero

theorem half_real (x : ℝ) : half x = x / 2 := congrArg (x / ·) Nat.cast_ofNat

end Scalar

end SurfaceStudio
