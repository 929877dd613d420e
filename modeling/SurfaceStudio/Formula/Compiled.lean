import SurfaceStudio.Formula.Parser
import SurfaceStudio.Formula.Arrays
import SurfaceStudio.Reading
import SurfaceStudio.Text.Quoted
/-!
Expressions in the surface parameters, ready to be evaluated at single points and over arrays, and
the bounds of the parameters, which are constant expressions.
-/

namespace SurfaceStudio

/-- An expression in the surface parameters and the text it was read from. -/
structure Compiled where
  source : String
  formula : Formula

namespace Compiled

/-- The names of the surface parameters. -/
def parameterNames : List String := ["u", "v"]

/-- The parameters an expression depends on, sorted. -/
def freeVariables (c : Compiled) : List String := c.formula.freeVariables

/-- The value at a point of the parameter plane. -/
def value {α : Type} [Scalar α] (c : Compiled) (u v : α) : α :=
  c.formula.eval (Formula.parameters u v)

/-- The value at one of many points at once. There the points share an exponent only if it is
constant. -/
def valueAmong {α : Type} [Scalar α] (c : Compiled) (u v : α) : α :=
  c.formula.evalSharing (fun _ exponent => exponent.isConstant) (Formula.parameters u v)

/-- The values over two arrays, stretched to the shape that the arrays are stretched to. An
expression that does not use one of the arrays has that shape all the same. -/
def evaluate {α : Type} [Scalar α] (c : Compiled) (u v : Tensor α) : Except Fault (Tensor α) :=
  if [u, v].any fun t => Settings.maxStretchedDimensions < t.shape.length then
    .error .tooManyDimensions
  else
    let values := do
      let shape ← Tensor.commonShape u.shape v.shape
      (← c.formula.evalOver u v).stretchTo shape
    match values with
    | some t => .ok t
    | none => .error .shapesDiffer

/-- The values at some points at once: over the list of their first parameters and the list of their
second ones. -/
def valuesAt (c : Compiled) (points : List (Float × Float)) : Option (List Float) :=
  match c.evaluate (.ofList 0 (points.map (·.1))) (.ofList 0 (points.map (·.2))) with
  | .ok t => some t.entries
  | .error _ => none

/-- Reads an expression in the surface parameters. -/
def ofText (text : String) : Except Failure Compiled :=
  let source := Text.trim text
  if source.isEmpty then .error .emptyExpression
  else match Formula.parse parameterNames source with
    | .ok f => .ok ⟨source, f⟩
    | .error fault => .error (.compile source fault.message none)

/-- Reads a submitted expression. -/
def ofSubmitted (v : Json) : Except Trouble Compiled := do
  refusing (ofText (← faulting v.textOrEmpty))

/-- How a compiled expression shows itself. -/
def describe (c : Compiled) : String := "CompiledExpression(" ++ Text.quoted c.source ++ ")"

end Compiled

/-- The value of a bound of the parameters: a constant expression with a finite value. -/
def boundValue (text : String) : Except Failure Float :=
  let source := Text.trim text
  if source.isEmpty then .error .emptyBound
  else match Formula.parse [] source with
    | .error fault =>
      .error (.compile text fault.message
        (some (s!"Could not parse bound \"{text}\": " ++ fault.message)))
    | .ok f =>
      let x : Float := f.eval (Formula.parameters 0 0)
      if x.isFinite then .ok x else .error (.nonFiniteBound text)

/-- The value of a submitted bound. -/
def boundOfSubmitted (v : Json) : Except Trouble Float := do
  refusing (boundValue (← faulting v.textOrEmpty))

end SurfaceStudio
