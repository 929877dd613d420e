import SurfaceStudio.Formula.Basic
import SurfaceStudio.Scalar
/-!
The value of an expression, over any scalars. Nothing fails: over doubles a division by zero, an
overflow or an argument outside the domain of a function gives an infinity or NaN.

An expression may be evaluated for many samples at once. Then it matters for a power whether all
samples share one exponent; for a single sample it is always shared.
-/

namespace SurfaceStudio.Formula

variable {α : Type} [Scalar α]

/-- The power by an exponent that all samples share, or by one of its own for each. -/
def powerFor (shared : Bool) : α → α → α := if shared then Scalar.commonPow else Scalar.pow

/-- The value of an operation, with the power that is in use. -/
def Operation.apply (pow : α → α → α) (op : Operation) (a b : α) : α :=
  match op with
  | .add => a + b
  | .sub => a - b
  | .mul => a * b
  | .div => a / b
  | .pow => pow a b

/-- The value of a function, with the power that is in use. A function of two arguments that is
given more is applied from left to right. -/
def Fn.apply (pow : α → α → α) (fn : Fn) (first : α) (rest : List α) : α :=
  match fn with
  | .sin => Scalar.sin first
  | .cos => Scalar.cos first
  | .tan => Scalar.tan first
  | .asin => Scalar.asin first
  | .acos => Scalar.acos first
  | .atan => Scalar.atan first
  | .sinh => Scalar.sinh first
  | .cosh => Scalar.cosh first
  | .tanh => Scalar.tanh first
  | .exp => Scalar.exp first
  | .log => Scalar.log first
  | .sqrt => Scalar.sqrt first
  | .abs => Scalar.abs first
  | .floor => Scalar.floor first
  | .ceil => Scalar.ceil first
  | .round => Scalar.roundHalfUp first
  | .pow => rest.foldl pow first
  | .min => rest.foldl Scalar.min first
  | .max => rest.foldl Scalar.max first

mutual

/-- The value of an expression where `env` gives the values of the variables, and `shared` tells of
a base and its exponent whether all samples share the exponent. -/
def evalSharing (shared : Formula → Formula → Bool) (env : String → α) : Formula → α
  | .number value => Scalar.literal value
  | .variable name => env name
  | .signed .plus operand => operand.evalSharing shared env
  | .signed .minus operand => -operand.evalSharing shared env
  | .binary op left right =>
    op.apply (powerFor (shared left right)) (left.evalSharing shared env)
      (right.evalSharing shared env)
  | .call fn first rest =>
    fn.apply (powerFor (rest.all (shared first))) (first.evalSharing shared env)
      (evalAllSharing shared env rest)

/-- The values of several expressions. -/
def evalAllSharing (shared : Formula → Formula → Bool) (env : String → α) : List Formula → List α
  | [] => []
  | f :: rest => f.evalSharing shared env :: evalAllSharing shared env rest

end

/-- The value of an expression for a single sample. -/
def eval (env : String → α) (f : Formula) : α := f.evalSharing (fun _ _ => true) env

mutual

/-- An expression whose value all samples share: none of the parts that have a say in it is a
variable. A function of one argument looks at the first one only. -/
def isConstant : Formula → Bool
  | .number _ => true
  | .variable _ => false
  | .signed _ operand => operand.isConstant
  | .binary _ left right => left.isConstant && right.isConstant
  | .call fn first rest => first.isConstant && (fn.arity == .exactly 1 || areConstant rest)

/-- The same for each of several expressions. -/
def areConstant : List Formula → Bool
  | [] => true
  | f :: rest => f.isConstant && areConstant rest

end

/-- The values of the surface parameters: `u`, and `v` for every other name. -/
def parameters (u v : α) (name : String) : α := if name = "u" then u else v

end SurfaceStudio.Formula
