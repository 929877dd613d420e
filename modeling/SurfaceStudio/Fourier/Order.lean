import SurfaceStudio.Failure
import SurfaceStudio.Settings
import SurfaceStudio.Text.Integer
import SurfaceStudio.Decimal.Double
/-!
The number of harmonics of a fit. Whatever was submitted is read as an integer and moved into the
range that a fit allows.
-/

namespace SurfaceStudio.Fourier

/-- A submitted value as an integer: the fraction of a double is dropped, and a text has to spell an
integer. -/
def integerOf : Json → Except Fault Int
  | .bool b => .ok (if b then 1 else 0)
  | .int n => .ok n
  | .float x =>
    if x.isNaN then .error .integerOfUndefined
    else match Decimal.wholePart? x with
      | some n => .ok n
      | none => .error .integerOfInfinite
  | .str s => Text.integer s
  | _ => .error .notAnInteger

/-- The number of harmonics nearest to `n` that a fit allows. -/
def clampInteger (n : Int) : Nat :=
  (max (Settings.minFourierOrder : Int) (min (Settings.maxFourierOrder : Int) n)).toNat

/-- The number of harmonics for a submitted value; null stands for the default. -/
def clampOrder : Json → Except Fault Nat
  | .null => .ok Settings.defaultFourierOrder
  | v => (integerOf v).map clampInteger

end SurfaceStudio.Fourier
