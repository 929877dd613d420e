import SurfaceStudio.Decimal.Double
/-!
Rounding a quotient to a whole number, a tie going to the even neighbour, and the two fixed layouts
of decimal texts built on it: a number of places after the point, and a number of digits before a
power of ten.
-/

namespace SurfaceStudio.Decimal

/-- The whole number nearest to a quotient; of two equally near ones the even one. -/
def Fraction.round (f : Fraction) : Nat :=
  let q := f.num / f.den
  let r := f.num % f.den
  if 2 * r < f.den then q
  else if f.den < 2 * r then q + 1
  else if q % 2 = 0 then q else q + 1

/-- The decimal digits of a number. -/
def digits (n : Nat) : List Char := Nat.toDigits 10 n

/-- Digits filled with zeros on the left to at least `width` of them. -/
def padLeft (width : Nat) (ds : List Char) : List Char :=
  List.replicate (width - ds.length) '0' ++ ds

/-- A power of ten in a text: a sign and at least two digits. -/
def exponentText (e : Int) : List Char :=
  'e' :: (if e < 0 then '-' else '+') :: padLeft 2 (digits e.natAbs)

/-- The texts of the doubles that are no numbers. -/
def specialText (x : Float) : String :=
  match Double.ofFloat x with
  | .infinite true => "-inf"
  | .infinite false => "inf"
  | _ => "nan"

/-- The sign in front of a text. -/
def signText (x : Float) : List Char := if isNegative x then ['-'] else []

/-- A double with `places` digits after the point. -/
def fixed (places : Nat) (x : Float) : String :=
  match magnitude? x with
  | none => specialText x
  | some f =>
    let ds := padLeft (places + 1) (digits (f.shift places).round)
    let whole := ds.take (ds.length - places)
    let part := ds.drop (ds.length - places)
    String.ofList (signText x ++ whole ++ (if places = 0 then [] else '.' :: part))

/-- The power of ten of the leading digit of a positive quotient. -/
def Fraction.leading (f : Fraction) : Int :=
  let k : Int := (digits f.num).length - (digits f.den).length
  let g := f.shift (-k)
  if g.den ≤ g.num then k else k - 1

/-- The first `count` digits of a positive quotient, rounded, and the power of ten of the leading
one. -/
def Fraction.significant (f : Fraction) (count : Nat) : Nat × Int :=
  let e := f.leading
  let n := (f.shift (count - 1 - e)).round
  if n = tenTo count then (tenTo (count - 1), e + 1) else (n, e)

/-- A double with one digit before the point, `places` after it and a power of ten. -/
def scientific (places : Nat) (x : Float) : String :=
  match magnitude? x with
  | none => specialText x
  | some f =>
    let (n, e) := if f.num = 0 then (0, 0) else f.significant (places + 1)
    let ds := padLeft (places + 1) (digits n)
    String.ofList (signText x ++ ds.take 1 ++ (if places = 0 then [] else '.' :: ds.drop 1) ++
      exponentText e)

/-- A double counted in units of `10 ^ power`, rounded; none for what is not finite. -/
def unitsOfTen? (power : Int) (x : Float) : Option Int :=
  (magnitude? x).map fun f =>
    let n : Int := ((f.shift (-power)).round : Nat)
    if isNegative x then -n else n

/-- The power of ten of the leading digit of a double that is rounded to `count` digits; none for
zero and for what is not finite. -/
def leadingPower? (count : Nat) (x : Float) : Option Int := do
  let f ← magnitude? x
  if f.num = 0 then none else some (f.significant count).2

end SurfaceStudio.Decimal
