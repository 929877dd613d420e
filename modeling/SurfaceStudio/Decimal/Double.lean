/-!
Doubles taken apart. `Double.ofFloat` reads the 64 bits of a double as a sign, a whole mantissa and
a power of two, so that the decimal texts of this folder are computed in exact whole numbers.
-/

namespace SurfaceStudio.Decimal

/-- A double by its kind; a finite one is `mantissa * 2 ^ exponent` with the sign in front. -/
inductive Double where
  | undefined
  | infinite (negative : Bool)
  | finite (negative : Bool) (mantissa : Nat) (exponent : Int)
  deriving Repr, DecidableEq

/-- A power of two. -/
def twoTo (n : Nat) : Nat := Nat.pow 2 n

/-- A power of ten. -/
def tenTo (n : Nat) : Nat := Nat.pow 10 n

/-- A nonnegative rational number as a quotient of whole numbers. -/
structure Fraction where
  num : Nat
  den : Nat
  deriving Repr, DecidableEq

/-- The quotient `mantissa * 2 ^ exponent`. -/
def Fraction.ofBinary (mantissa : Nat) (exponent : Int) : Fraction :=
  ⟨mantissa * twoTo exponent.toNat, twoTo (-exponent).toNat⟩

/-- The quotient scaled by a power of ten. -/
def Fraction.shift (f : Fraction) (power : Int) : Fraction :=
  ⟨f.num * tenTo power.toNat, f.den * tenTo (-power).toNat⟩

/-- The kind, sign, mantissa and exponent that the bits of a double spell. -/
def Double.ofFloat (x : Float) : Double :=
  let bits := x.toBits.toNat
  let negative := bits / twoTo 63 == 1
  let field : Nat := bits / twoTo 52 % twoTo 11
  let tail : Nat := bits % twoTo 52
  if field = 2047 then if tail = 0 then .infinite negative else .undefined
  else if field = 0 then .finite negative tail (-1074)
  else .finite negative (twoTo 52 + tail) ((field : Int) - 1075)

/-- The nearest double to an integer; none for an integer that no double comes near to. -/
def ofInteger? (n : Int) : Option Float :=
  let x := Float.ofInt n
  if x.isFinite then some x else none

/-- A double without its sign as an exact quotient; none for what is not finite. -/
def magnitude? (x : Float) : Option Fraction :=
  match Double.ofFloat x with
  | .finite _ m e => some (Fraction.ofBinary m e)
  | _ => none

/-- The sign bit of a double. -/
def isNegative (x : Float) : Bool :=
  match Double.ofFloat x with
  | .finite negative _ _ => negative
  | .infinite negative => negative
  | .undefined => false

/-- The whole part of a finite double, the fraction dropped. -/
def wholePart? (x : Float) : Option Int :=
  match Double.ofFloat x with
  | .finite negative m e =>
    let f := Fraction.ofBinary m e
    let n : Int := (f.num / f.den : Nat)
    some (if negative then -n else n)
  | _ => none

/-- A finite double without a fraction. -/
def isWhole (x : Float) : Bool :=
  match Double.ofFloat x with
  | .finite _ m e => let f := Fraction.ofBinary m e; f.num % f.den == 0
  | _ => false

/-- A finite double counted in units of the least positive double, `2 ^ -1074`: a whole number, so
that doubles and integers are compared exactly. -/
def units? (x : Float) : Option Int :=
  match Double.ofFloat x with
  | .finite negative m e =>
    let n : Int := m * twoTo (e + 1074).toNat
    some (if negative then -n else n)
  | _ => none

end SurfaceStudio.Decimal
