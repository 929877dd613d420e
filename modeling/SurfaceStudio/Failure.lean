import SurfaceStudio.Json.Basic
/-!
What can go wrong. A `Failure` is an answer to a request: it has a stable code and a message for the
reader. A `Fault` is an input that no request is meant to hold; it is not turned into an answer.
-/

namespace SurfaceStudio

/-- A refused request. -/
inductive Failure where
  | general (message : String)
  | emptyExpression
  | compile (source reason : String) (wording : Option String)
  | emptyBound
  | nonFiniteBound (source : String)
  | invalidGrid (reason : String)
  | evaluation (u v : Float) (reason : String)
  | nonFiniteVertex (u v : Float)
  | insufficientSamples (count required : Int)
  | invalidPreset (reason : String)
  | unknownExample (key : Json) (shown : String)
  | noFourierFit

/-- The stable code of a failure. -/
def Failure.code : Failure → String
  | .general _ => "SURFACE_ERROR"
  | .emptyExpression => "EMPTY_EXPRESSION"
  | .compile .. => "COMPILE_ERROR"
  | .emptyBound => "EMPTY_BOUND"
  | .nonFiniteBound _ => "NON_FINITE_BOUND"
  | .invalidGrid _ => "INVALID_GRID_SPEC"
  | .evaluation .. => "EVALUATION_ERROR"
  | .nonFiniteVertex .. => "NON_FINITE_VERTEX"
  | .insufficientSamples .. => "INSUFFICIENT_SAMPLES"
  | .invalidPreset _ => "INVALID_PRESET"
  | .unknownExample .. => "UNKNOWN_EXAMPLE"
  | .noFourierFit => "NO_FOURIER_FIT"

/-- A pair of parameters with three places each. -/
def parameterText (u v : Float) : String :=
  "(u, v) = (" ++ Decimal.fixed 3 u ++ ", " ++ Decimal.fixed 3 v ++ ")"

/-- The wording for a curve with too few points. -/
def Failure.samplesWording (count required : String) : String :=
  s!"Draw a curve in the canvas first (at least ~{required} points, got {count})."

/-- The message of a failure. A compile failure has a wording of its own or the usual one. -/
def Failure.message : Failure → String
  | .general message => message
  | .emptyExpression => "Expression is empty."
  | .compile _ reason wording =>
    match wording with
    | some text => if text.isEmpty then "Could not parse expression: " ++ reason else text
    | none => "Could not parse expression: " ++ reason
  | .emptyBound => "Parameter bound expression is empty."
  | .nonFiniteBound source => s!"Expression \"{source}\" evaluated to non-finite value."
  | .invalidGrid reason => reason
  | .evaluation u v reason => "Error evaluating at " ++ parameterText u v ++ ": " ++ reason
  | .nonFiniteVertex u v => "Non-finite value at " ++ parameterText u v ++ "."
  | .insufficientSamples count required => samplesWording (toString count) (toString required)
  | .invalidPreset reason => reason
  | .unknownExample _ shown => "Unknown example: " ++ shown
  | .noFourierFit => "Compute a Fourier approximation first."

/-- The severity of every failure. -/
def Failure.severity : String := "error"

/-- The answer that reports a failure. -/
def Failure.report (f : Failure) : Json :=
  .object [("code", .str f.code), ("message", .str f.message), ("severity", .str Failure.severity)]

/-- An input that no request is meant to hold. -/
inductive Fault where
  | integerBeyondDoubles
  | integerBeyondWords
  | integerTooLong
  | malformedInteger
  | malformedNumber
  | notAnInteger
  | notANumber
  | notText
  | notAList
  | integerOfUndefined
  | integerOfInfinite
  | noSamples
  | sampleCountsDiffer (x y : Nat)
  | oddCoordinates
  | raggedList
  | tooDeeplyNested
  | tooManyDimensions
  | shapesDiffer
  | indexOutOfRange
  | emptyMesh
  | undecodableBytes
  | unhashableKey
  | unknownLevel
  | nonFiniteAnswer

/-- A refusal or a fault. -/
inductive Trouble where
  | failure (f : Failure)
  | fault (f : Fault)

/-- A failure as trouble. -/
def refusing {α : Type} : Except Failure α → Except Trouble α
  | .ok a => .ok a
  | .error f => .error (.failure f)

/-- A fault as trouble. -/
def faulting {α : Type} : Except Fault α → Except Trouble α
  | .ok a => .ok a
  | .error f => .error (.fault f)

end SurfaceStudio
