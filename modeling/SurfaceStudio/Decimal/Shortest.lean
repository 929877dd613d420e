import SurfaceStudio.Decimal.Rounding
/-!
The shortest decimal text of a double that reads back to it. A decimal reads back when it lies in
the interval of the numbers that round to the double; on each grid of decimals, from one digit to
seventeen, the two neighbours of the double are tried.
-/

namespace SurfaceStudio.Decimal

/-- A decimal `number * 10 ^ power`. -/
structure Scaled where
  number : Nat
  power : Int
  deriving Repr, DecidableEq

/-- A positive double `mantissa * 2 ^ exponent` and the ends of the interval that rounds to it, all
three as multiples of one unit `scale`. The interval reaches half way to the neighbouring doubles;
below a power of two the neighbour is half as far. -/
structure Interval where
  low : Nat
  value : Nat
  high : Nat
  closed : Bool
  scale : Fraction

/-- The interval of a positive double. -/
def Interval.of (mantissa : Nat) (exponent : Int) : Interval where
  low := 4 * mantissa - (if mantissa = twoTo 52 && exponent != -1074 then 1 else 2)
  value := 4 * mantissa
  high := 4 * mantissa + 2
  closed := mantissa % 2 == 0
  scale := Fraction.ofBinary 1 (exponent - 2)

/-- Whether `k * 10 ^ power` lies in the interval; its ends belong to it if the mantissa is even. -/
def Interval.holds (i : Interval) (power : Int) (k : Nat) : Bool :=
  let s := i.scale.shift (-power)
  if i.closed then i.low * s.num ≤ k * s.den && k * s.den ≤ i.high * s.num
  else i.low * s.num < k * s.den && k * s.den < i.high * s.num

/-- The multiple of `10 ^ power` in the interval that is nearest to the double, among the neighbours
of the double on that grid; a tie goes to the even one. -/
def Interval.onGrid? (i : Interval) (power : Int) : Option Nat :=
  let s := i.scale.shift (-power)
  let below := i.value * s.num / s.den
  let nearest := Fraction.round ⟨i.value * s.num, s.den⟩
  let other := if nearest = below then below + 1 else below
  if i.holds power nearest then some nearest
  else if i.holds power other then some other
  else none

/-- The shortest decimal that reads back to the positive double, and of the shortest ones the
nearest to it. -/
def shortest (mantissa : Nat) (exponent : Int) : Scaled :=
  let i := Interval.of mantissa exponent
  let top := (Fraction.ofBinary mantissa exponent).leading
  let found := (List.range 17).findSome? fun (k : Nat) =>
    (i.onGrid? (top - k)).map fun n => Scaled.mk n (top - k)
  found.getD ⟨i.value, exponent⟩

/-- Digits of a decimal without the zeros at its end, and the power of ten of the leading one. -/
def Scaled.layout (d : Scaled) : List Char × Int :=
  let ds := digits d.number
  let short := (ds.reverse.dropWhile (· == '0')).reverse
  (short, d.power + (ds.length - 1 : Int))

/-- The range of leading powers of ten that are written without an exponent. -/
def isPositional (e : Int) : Bool := -4 ≤ e && e < 16

/-- Digits with a leading power of ten `e` as a text: positional from `10 ^ -4` to below `10 ^ 16`,
with at least one digit after the point, and with an exponent outside. -/
def layoutText (ds : List Char) (e : Int) : List Char :=
  if isPositional e then
    if e < 0 then '0' :: '.' :: List.replicate (-e - 1).toNat '0' ++ ds
    else
      let whole := e.toNat + 1
      let filled := ds ++ List.replicate (whole - ds.length) '0'
      let part := filled.drop whole
      filled.take whole ++ '.' :: (if part.isEmpty then ['0'] else part)
  else
    ds.take 1 ++ (if ds.length ≤ 1 then [] else '.' :: ds.drop 1) ++ exponentText e

/-- The shortest text that reads back to the double. -/
def text (x : Float) : String :=
  match Double.ofFloat x with
  | .finite _ m e =>
    let (ds, top) := if m = 0 then (['0'], 0) else (shortest m e).layout
    String.ofList (signText x ++ layoutText ds top)
  | _ => specialText x

end SurfaceStudio.Decimal
