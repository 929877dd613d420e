import SurfaceStudio.Formula.Eval
import SurfaceStudio.Tensor
/-!
The values of an expression while the surface parameters run through arrays. Every part of the
expression has an array of its own: a number has no dimensions, a parameter has those of its array,
and what is computed from several parts has the shape that theirs are stretched to.
-/

namespace SurfaceStudio.Formula

variable {α : Type} [Scalar α]

/-- The power for a base and its exponents: they count as shared where an array of exponents repeats
along the one of the base. -/
def powerOver (base : Tensor α) (exponents : List (Tensor α)) : α → α → α :=
  powerFor (exponents.all fun e => Tensor.repeats base.shape e.shape)

/-- The values of a function over arrays. A function of two arguments that is given more is applied
from left to right. -/
def Fn.applyOver (fn : Fn) (first : Tensor α) (rest : List (Tensor α)) : Option (Tensor α) :=
  match fn with
  | .pow => rest.foldlM (Tensor.zipWith (powerOver first rest)) first
  | .min => rest.foldlM (Tensor.zipWith Scalar.min) first
  | .max => rest.foldlM (Tensor.zipWith Scalar.max) first
  | fn => some (first.map fun x => fn.apply Scalar.pow x [])

mutual

/-- The values of an expression over two arrays; none if two of its parts do not match. -/
def evalOver (u v : Tensor α) : Formula → Option (Tensor α)
  | .number value => some (.scalar (Scalar.literal value))
  | .variable name => some (parameters u v name)
  | .signed .plus operand => operand.evalOver u v
  | .signed .minus operand => do return (← operand.evalOver u v).map (- ·)
  | .binary op left right => do
    let l ← left.evalOver u v
    let r ← right.evalOver u v
    l.zipWith (op.apply (powerOver l [r])) r
  | .call fn first rest => do
    fn.applyOver (← first.evalOver u v) (← evalAllOver u v rest)

/-- The values of several expressions. -/
def evalAllOver (u v : Tensor α) : List Formula → Option (List (Tensor α))
  | [] => some []
  | f :: rest => do return (← f.evalOver u v) :: (← evalAllOver u v rest)

end

end SurfaceStudio.Formula
