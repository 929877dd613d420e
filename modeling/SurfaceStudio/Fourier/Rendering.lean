import SurfaceStudio.Fourier.Series
import SurfaceStudio.Decimal.Rounding
import SurfaceStudio.Settings
/-!
A series written as an expression: the terms that count, each with its coefficient in fixed
decimals, joined by plus and minus.
-/

namespace SurfaceStudio.Fourier

/-- A term of a rendered series: a coefficient alone, or one in front of a wave. -/
structure Term where
  coefficient : Float
  wave : Option Wave
  deriving Repr

/-- A wave of the parameter. -/
def Wave.text (param : String) : Wave → String
  | .cosine k => "cos(" ++ toString k ++ "*" ++ param ++ ")"
  | .sine k => "sin(" ++ toString k ++ "*" ++ param ++ ")"

namespace Term

/-- A term that is too small to be written. -/
def isNegligible (t : Term) : Bool := t.coefficient.abs < Settings.coefficientEpsilon

/-- A term below zero. -/
def isNegative (t : Term) : Bool := t.coefficient < 0

/-- A term without its sign. -/
def magnitudeText (param : String) (t : Term) : String :=
  Decimal.fixed Settings.coefficientDecimals t.coefficient.abs ++
    match t.wave with
    | none => ""
    | some w => "*" ++ w.text param

/-- The first term of a sum. -/
def leadingText (param : String) (t : Term) : String :=
  (if t.isNegative then "-" else "") ++ t.magnitudeText param

/-- A later term of a sum. -/
def joinedText (param : String) (t : Term) : String :=
  (if t.isNegative then " - " else " + ") ++ t.magnitudeText param

/-- A sum of terms; without any it is zero. -/
def sumText (param : String) : List Term → String
  | [] => "0"
  | t :: ts => t.leadingText param ++ String.join (ts.map (joinedText param))

end Term

namespace Series

/-- The terms of a series: the mean, then the waves. -/
def terms (s : Series Float) : List Term :=
  ⟨s.mean, none⟩ :: s.waves.map fun w => ⟨w.1, some w.2⟩

/-- The series as an expression in the parameter. -/
def expression (s : Series Float) (param : String) : String :=
  Term.sumText param (s.terms.filter fun t => !t.isNegligible)

end Series

end SurfaceStudio.Fourier
