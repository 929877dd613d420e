import SurfaceStudio.Reading
import SurfaceStudio.Settings
/-!
The parameter grid: a rectangle of the parameter plane and the numbers of steps along its sides. A
requested grid holds whatever values were submitted; `Grid.validate` decides whether they make a
grid and otherwise names the first condition that fails.
-/

namespace SurfaceStudio

/-- A bound of a parameter, an integer or a double. Integers stay exact until the positions between
two bounds are computed. -/
inductive Bound where
  | integer (n : Int)
  | double (x : Float)

/-- The double nearest to a bound. -/
def Bound.toDouble : Bound → Except Fault Float
  | .integer n => Json.doubleOfInteger n
  | .double x => .ok x

/-- A grid over a rectangle of the parameter plane. -/
structure Grid where
  uMin : Bound
  uMax : Bound
  vMin : Bound
  vMax : Bound
  uSteps : Nat
  vSteps : Nat

/-- A grid as it was asked for. -/
structure Grid.Request where
  uMin : Json
  uMax : Json
  vMin : Json
  vMax : Json
  uSteps : Json
  vSteps : Json

/-- The conditions on a grid. -/
inductive Grid.Violation where
  | boundsNotFinite
  | boundsNotOrdered
  | uSteps
  | vSteps
  | tooDense
  deriving Repr, DecidableEq

namespace Grid

/-- The wording of a violated condition. -/
def Violation.message : Violation → String
  | .boundsNotFinite => "Parameter bounds must evaluate to finite numbers."
  | .boundsNotOrdered => "Max bounds must be greater than min bounds."
  | .uSteps => s!"u steps must be an integer ≥ {Settings.minSteps}."
  | .vSteps => s!"v steps must be an integer ≥ {Settings.minSteps}."
  | .tooDense =>
    s!"Grid too dense (uSteps * vSteps > {Settings.maxGridCells / 1000}k). Reduce resolution."

/-- A bound and its exact value in units of the least positive double. -/
structure MeasuredBound where
  bound : Bound
  units : Int

/-- An integer in units of the least positive double. -/
def integerUnits (n : Int) : Int := n * (Decimal.twoTo 1074 : Nat)

/-- A submitted bound as a number, if it is one. A flag counts as an integer. -/
def bound? : Json → Option Bound
  | .bool b => some (.integer (if b then 1 else 0))
  | .int n => some (.integer n)
  | .float x => some (.double x)
  | _ => none

/-- A bound with its exact value; none if it is not finite. An integer that no double comes near to
is a fault. -/
def measure? : Bound → Except Fault (Option MeasuredBound)
  | .integer n => (Json.doubleOfInteger n).map fun _ => some ⟨.integer n, integerUnits n⟩
  | .double x => .ok ((Decimal.units? x).map fun units => ⟨.double x, units⟩)

/-- The refusal for a violated condition. -/
def refuse {α : Type} (v : Violation) : Except Trouble α :=
  .error (.failure (.invalidGrid v.message))

/-- A submitted bound that has to be a finite number. -/
def finiteBound (v : Json) : Except Trouble MeasuredBound :=
  match bound? v with
  | none => refuse .boundsNotFinite
  | some b =>
    match measure? b with
    | .error f => .error (.fault f)
    | .ok none => refuse .boundsNotFinite
    | .ok (some m) => .ok m

/-- A submitted number of steps: an integer that is large enough. -/
def steps? : Json → Option Nat
  | .int n => if (Settings.minSteps : Int) ≤ n then some n.toNat else none
  | _ => none

/-- The grid that was asked for, or the first condition it violates. -/
def validate (r : Request) : Except Trouble Grid := do
  let uMin ← finiteBound r.uMin
  let uMax ← finiteBound r.uMax
  let vMin ← finiteBound r.vMin
  let vMax ← finiteBound r.vMax
  if uMax.units ≤ uMin.units || vMax.units ≤ vMin.units then refuse .boundsNotOrdered
  else match steps? r.uSteps with
    | none => refuse .uSteps
    | some uSteps =>
      match steps? r.vSteps with
      | none => refuse .vSteps
      | some vSteps =>
        if Settings.maxGridCells < uSteps * vSteps then refuse .tooDense
        else .ok ⟨uMin.bound, uMax.bound, vMin.bound, vMax.bound, uSteps, vSteps⟩

end Grid

end SurfaceStudio
