import SurfaceStudio.Json.Display
import SurfaceStudio.Preset.Basic
import SurfaceStudio.Surface.Definition
import SurfaceStudio.Text.Blank
import SurfaceStudio.Text.Integer
/-!
Laying a preset over a definition. The preset decides every expression and every bound, one that it
lacks becoming empty; steps and name stay as they are unless the preset has its own.
-/

namespace SurfaceStudio

namespace Preset

/-- The text of a member; empty for one that is missing or null. -/
def textAt (key : String) (p : Preset) : Except Fault String :=
  match Json.lookup key p with
  | none | some .null => .ok ""
  | some v => v.display

/-- An optional sign and decimal digits, blanks around them. -/
def isStepText (s : String) : Bool :=
  let digits := match Text.trimWhile Text.isBlank s.toList with
    | '+' :: rest => rest
    | '-' :: rest => rest
    | cs => cs
  !digits.isEmpty && digits.all Decimal.isDigit

/-- The integer that a member for steps stands for. -/
def steps (key : String) : Json → Except Trouble Int
  | .int n => .ok n
  | .float x =>
    match (if Decimal.isWhole x then Decimal.wholePart? x else none) with
    | some n => .ok n
    | none => .error (.failure (.invalidPreset (key ++ " must be an integer.")))
  | .str s =>
    if isStepText s then faulting (Text.integer s)
    else .error (.failure (.invalidPreset (key ++ " must be an integer.")))
  | _ => .error (.failure (.invalidPreset (key ++ " must be an integer.")))

/-- The steps after a preset: those of the preset, else the old ones. -/
def stepsAt (key : String) (p : Preset) (old : Json) : Except Trouble Json :=
  match Json.present? key p with
  | none => .ok old
  | some v => (steps key v).map .int

/-- The name after a preset: that of the preset unless it counts as nothing. -/
def nameAt (p : Preset) (old : Json) : Except Fault Json :=
  match Json.lookup "name" p with
  | none => .ok old
  | some v => if v.isFalsy then .ok old else v.display.map .str

end Preset

/-- A definition with the expressions and the bounds of a preset. -/
def Definition.withTexts (d : Definition) (p : Preset) : Except Fault Definition := do
  return { d with
    x := .str (← p.textAt "x")
    y := .str (← p.textAt "y")
    z := .str (← p.textAt "z")
    uMin := .str (← p.textAt "uMin")
    uMax := .str (← p.textAt "uMax")
    vMin := .str (← p.textAt "vMin")
    vMax := .str (← p.textAt "vMax") }

/-- A definition with a preset laid over it. -/
def Definition.overlay (d : Definition) (p : Preset) : Except Trouble Definition := do
  let e ← faulting (d.withTexts p)
  let uSteps ← p.stepsAt "uSteps" d.uSteps
  let vSteps ← p.stepsAt "vSteps" d.vSteps
  let name ← faulting (p.nameAt d.name)
  return { e with uSteps, vSteps, name }

end SurfaceStudio
