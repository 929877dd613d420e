import SurfaceStudio.Decimal.Rounding
/-!
Rounding a double to the nearest 32-bit float, computed exactly from its bits.
-/

namespace SurfaceStudio.Binary32

open Decimal (Double)

/-- The bits of an infinity of 32 bits. -/
def infinityBits : Nat := 0x7F800000

/-- The bits of `mantissa * 2 ^ exponent` rounded to 24 binary digits, a tie to the even neighbour:
fewer digits below `2 ^ -126`, and an infinity where the digits run out of exponents. Bits without
the sign grow with the number, so that a mantissa rounded up to the next power of two needs no case
of its own. -/
def magnitudeBits (mantissa : Nat) (exponent : Int) : Nat :=
  if mantissa = 0 then 0
  else
    let top : Int := mantissa.log2 + exponent
    let last : Int := max (top - 23) (-149)
    let n := (Decimal.Fraction.ofBinary mantissa (exponent - last)).round
    let bits := (last + 149).toNat * Decimal.twoTo 23 + n
    if bits < infinityBits then bits else infinityBits

/-- The 32-bit float nearest to a double. -/
def nearest (x : Float) : Float32 :=
  let withSign (negative : Bool) (bits : Nat) : Float32 :=
    Float32.ofBits ((if negative then Decimal.twoTo 31 else 0) + bits).toUInt32
  match Double.ofFloat x with
  | .undefined => Float32.ofBits 0x7FC00000
  | .infinite negative => withSign negative infinityBits
  | .finite negative mantissa exponent => withSign negative (magnitudeBits mantissa exponent)

end SurfaceStudio.Binary32
