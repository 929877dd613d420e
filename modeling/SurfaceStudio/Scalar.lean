import SurfaceStudio.Decimal.Double
/-!
The arithmetic that surfaces, meshes and Fourier series are computed in. The definitions of this
library are written over the class `Scalar` and run over doubles; over another instance the same
definitions speak of exact numbers.
-/

namespace SurfaceStudio

/-- Numbers with the operations of the expression language. -/
class Scalar (α : Type) extends Add α, Sub α, Mul α, Div α, Neg α where
  /-- A whole number. -/
  natural : Nat → α
  /-- The value of a double. -/
  literal : Float → α
  pi : α
  abs : α → α
  sqrt : α → α
  exp : α → α
  log : α → α
  sin : α → α
  cos : α → α
  tan : α → α
  asin : α → α
  acos : α → α
  atan : α → α
  sinh : α → α
  cosh : α → α
  tanh : α → α
  floor : α → α
  ceil : α → α
  /-- The power with an exponent of its own. -/
  pow : α → α → α
  /-- The power with an exponent that serves many bases: some exponents are reduced to simpler
  operations. -/
  commonPow : α → α → α
  /-- The lesser number; a number that is undefined wins. -/
  min : α → α → α
  /-- The greater number; a number that is undefined wins. -/
  max : α → α → α
  /-- The first number is less than the second. -/
  less : α → α → Bool
  /-- A number that is neither infinite nor undefined. -/
  isFinite : α → Bool
  /-- A number equal to zero. -/
  isZero : α → Bool

/-- The lesser of two doubles; of equal ones the second, and NaN if one of them is. -/
def lesser (a b : Float) : Float := if a < b || a.isNaN then a else b

/-- The greater of two doubles; of equal ones the second, and NaN if one of them is. -/
def greater (a b : Float) : Float := if b < a || a.isNaN then a else b

/-- A power of a double by an exponent of its own. Zero to a positive power with a fraction is zero
without a sign. -/
def ownPower (a b : Float) : Float :=
  if a == 0 && b > 0 && !Decimal.isWhole b then 0 else a.pow b

/-- A power of a double by an exponent that serves many bases. Inversion, root and square stand in
for the power; the root differs from it at negative zero and negative infinity. -/
def commonPower (a b : Float) : Float :=
  if b == -1 then 1 / a
  else if b == 0 then 1
  else if b == 0.5 then a.sqrt
  else if b == 1 then a
  else if b == 2 then a * a
  else ownPower a b

/-- Doubles in IEEE arithmetic. -/
instance : Scalar Float where
  natural := Float.ofNat
  literal := id
  pi := 3.141592653589793
  abs := Float.abs
  sqrt := Float.sqrt
  exp := Float.exp
  log := Float.log
  sin := Float.sin
  cos := Float.cos
  tan := Float.tan
  asin := Float.asin
  acos := Float.acos
  atan := Float.atan
  sinh := Float.sinh
  cosh := Float.cosh
  tanh := Float.tanh
  floor := Float.floor
  ceil := Float.ceil
  pow := ownPower
  commonPow := commonPower
  min := lesser
  max := greater
  less := fun a b => a < b
  isFinite := Float.isFinite
  isZero := fun a => a == 0

namespace Scalar

variable {α : Type} [Scalar α]

/-- Zero. -/
def zero : α := natural 0

/-- A number rounded to a whole one; a half goes up. -/
def roundHalfUp (x : α) : α := floor (x + literal 0.5)

/-- Half of a number. -/
def half (x : α) : α := x / natural 2

/-- Twice pi: the length of one period. -/
def period : α := natural 2 * pi

end Scalar

end SurfaceStudio
