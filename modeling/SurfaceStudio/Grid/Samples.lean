import SurfaceStudio.Grid.Basic
import SurfaceStudio.Scalar
/-!
The sample positions of a parameter grid. Between two integers the positions are multiplied out in
64-bit words before they are divided, otherwise in doubles.
-/

namespace SurfaceStudio.Grid

/-- The positions along an axis from `lo` to `hi`: one more than there are steps, the last of them
at `hi` up to rounding. -/
def axis {α : Type} [Scalar α] (lo hi : α) (steps : Nat) : List α :=
  (List.range (steps + 1)).map fun i => lo + ((hi - lo) * Scalar.natural i) / Scalar.natural steps

/-- An integer cut down to a signed word of 64 bits. -/
def wrapped (n : Int) : Int := n.bmod (Decimal.twoTo 64)

/-- The positions along an axis between two integers. A length that is no word of 64 bits is a
fault. -/
def integerAxis (lo hi : Int) (steps : Nat) : Except Fault (List Float) := do
  let length := hi - lo
  if wrapped length ≠ length then .error .integerBeyondWords
  else
    let start ← Json.doubleOfInteger lo
    return (List.range (steps + 1)).map fun (i : Nat) =>
      start + Float.ofInt (wrapped (length * i)) / Float.ofNat steps

/-- The positions along an axis between two bounds. -/
def boundedAxis (lo hi : Bound) (steps : Nat) : Except Fault (List Float) :=
  match lo, hi with
  | .integer a, .integer b => integerAxis a b steps
  | lo, hi => do return axis (← lo.toDouble) (← hi.toDouble) steps

/-- The sample points of a grid, `v` running fastest. -/
def points (g : Grid) : Except Fault (List (Float × Float)) := do
  let us ← boundedAxis g.uMin g.uMax g.uSteps
  let vs ← boundedAxis g.vMin g.vMax g.vSteps
  return us.flatMap fun u => vs.map fun v => (u, v)

end SurfaceStudio.Grid
