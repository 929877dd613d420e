import SurfaceStudio.Decimal.Double
/-!
Reading decimal numerals. A numeral is digits with at most one point among them and an optional
power of ten; it is read to the nearest double, a tie going to the even one.
-/

namespace SurfaceStudio.Decimal

/-- A decimal digit of the basic Latin script. -/
def isDigit (c : Char) : Bool := '0' ≤ c && c ≤ '9'

/-- The number spelt by digits. -/
def digitsValue (ds : List Char) : Nat :=
  ds.foldl (fun n c => n * 10 + (c.toNat - '0'.toNat)) 0

/-- The nearest double to `digits * 10 ^ power`. Beyond 400 powers of ten on either side the result
is an infinity or zero, whatever the digits. -/
def nearest (digits : Nat) (power : Int) : Float :=
  let size : Int := (Nat.toDigits 10 digits).length
  if digits = 0 || size + power < -400 then 0
  else if 400 < size + power then 1 / 0
  else if power < 0 then OfScientific.ofScientific digits true power.natAbs
  else OfScientific.ofScientific digits false power.natAbs

/-- The power of ten after the mark of a numeral: an optional sign and digits. -/
def powerValue : List Char → Int
  | '-' :: ds => -(digitsValue ds : Int)
  | '+' :: ds => digitsValue ds
  | ds => digitsValue ds

/-- The value of an unsigned numeral `digits [. digits] [e power]`. -/
def numeralValue (cs : List Char) : Float :=
  let body := cs.takeWhile fun c => c != 'e' && c != 'E'
  let power := powerValue (cs.drop (body.length + 1))
  let whole := body.takeWhile isDigit
  let part := body.drop (whole.length + 1)
  nearest (digitsValue (whole ++ part)) (power - part.length)

/-- A double with the sign changed if asked for. -/
def withSign (negative : Bool) (x : Float) : Float := if negative then -x else x

end SurfaceStudio.Decimal
