import SurfaceStudio.Formula.Compiled
/-!
Expressions turned into functions of the surface parameters, once and for all calls. Functions of
one argument and functions that combine arguments are kept in two tables; a call that fits neither
of them has no function, and neither has an expression with such a call in it.
-/

namespace SurfaceStudio

namespace Formula

section

variable {α : Type} [Scalar α]

/-- The functions of one argument. -/
def Fn.unary? : Fn → Option (α → α)
  | .sin => some Scalar.sin
  | .cos => some Scalar.cos
  | .tan => some Scalar.tan
  | .asin => some Scalar.asin
  | .acos => some Scalar.acos
  | .atan => some Scalar.atan
  | .sinh => some Scalar.sinh
  | .cosh => some Scalar.cosh
  | .tanh => some Scalar.tanh
  | .exp => some Scalar.exp
  | .log => some Scalar.log
  | .sqrt => some Scalar.sqrt
  | .abs => some Scalar.abs
  | .floor => some Scalar.floor
  | .ceil => some Scalar.ceil
  | .round => some Scalar.roundHalfUp
  | .pow | .min | .max => none

/-- The functions that combine two arguments, and further ones from left to right. -/
def Fn.binary? : Fn → Option (α → α → α)
  | .pow => some Scalar.commonPow
  | .min => some Scalar.min
  | .max => some Scalar.max
  | _ => none

/-- The function of a call whose arguments have these functions. A function of one argument cannot
be called with more. -/
def Fn.closure? (fn : Fn) (first : α → α → α) (rest : List (α → α → α)) : Option (α → α → α) :=
  match (fn.unary? : Option (α → α)) with
  | some g =>
    match rest with
    | [] => some fun u v => g (first u v)
    | _ :: _ => none
  | none => fn.binary?.map fun g u v => (rest.map fun arg => arg u v).foldl g (first u v)

mutual

/-- An expression as a function of the surface parameters. -/
def closure? : Formula → Option (α → α → α)
  | .number value => some fun _ _ => Scalar.literal value
  | .variable name => if name = "u" then some fun u _ => u else some fun _ v => v
  | .signed .plus operand => operand.closure?
  | .signed .minus operand => do
    let f ← operand.closure?
    return fun u v => -f u v
  | .binary op left right => do
    let f ← left.closure?
    let g ← right.closure?
    return fun u v => op.apply Scalar.commonPow (f u v) (g u v)
  | .call fn first rest => do
    let f ← first.closure?
    let fs ← closures? rest
    fn.closure? f fs

/-- Several expressions as functions. -/
def closures? : List Formula → Option (List (α → α → α))
  | [] => some []
  | f :: rest => do
    let g ← f.closure?
    let gs ← closures? rest
    return g :: gs

end

end

end Formula

/-- Reads an expression in the surface parameters as `Compiled.ofText` does and turns it into a
function, whose calls cannot fail. An expression without a function is refused, with `reason` for
the wording. -/
def Compiled.ofTextTried (reason text : String) :
    Except Failure (Compiled × (Float → Float → Float)) :=
  let source := Text.trim text
  if source.isEmpty then .error .emptyExpression
  else match Formula.parse parameterNames source with
    | .error fault => .error (.compile source fault.message none)
    | .ok f =>
      match (f.closure? : Option (Float → Float → Float)) with
      | none => .error (.compile source reason none)
      | some g => .ok (⟨source, f⟩, g)

/-- The value of a bound as `boundValue` has it, from the function of the expression. A bound
without a function is refused, with `reason` for the wording. -/
def boundValueTried (reason text : String) : Except Failure Float :=
  let source := Text.trim text
  if source.isEmpty then .error .emptyBound
  else match Formula.parse [] source with
    | .error fault =>
      .error (.compile text fault.message
        (some (s!"Could not parse bound \"{text}\": " ++ fault.message)))
    | .ok f =>
      match (f.closure? : Option (Float → Float → Float)) with
      | none =>
        .error (.compile text reason (some (s!"Could not parse bound \"{text}\": " ++ reason)))
      | some g =>
        if (g 0 0).isFinite then .ok (g 0 0) else .error (.nonFiniteBound text)

end SurfaceStudio
