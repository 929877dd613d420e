import SurfaceStudio.Reading
import SurfaceStudio.Fourier.Order
import SurfaceStudio.Fourier.Rendering
import SurfaceStudio.Journal
/-!
The fit of a drawn curve: one series for each coordinate in the frame of the canvas, and the way
back from the two series to points on the canvas.
-/

namespace SurfaceStudio.Fourier

/-- There have to be enough samples to fit a curve to. -/
def checkCount (count : Nat) : Except Failure Unit :=
  if count < Settings.minFourierSamples then
    .error (.insufficientSamples count Settings.minFourierSamples)
  else .ok ()

/-- The number of harmonics for a curve with as many samples of either coordinate. -/
def harmonicsFor (xCount yCount : Nat) (order : Json) : Except Trouble Nat :=
  if xCount ≠ yCount then .error (.fault (.sampleCountsDiffer xCount yCount))
  else do
    refusing (checkCount xCount)
    faulting (clampOrder order)

/-- The series of two lists of samples, with one number of harmonics. -/
def fitSamples {α : Type} [Scalar α] (xs ys : List α) (order : Json) :
    Except Trouble (Series α × Series α) := do
  let k ← harmonicsFor xs.length ys.length order
  return (← faulting (Series.ofSamples xs k), ← faulting (Series.ofSamples ys k))

/-- The series of two lists of submitted samples, which are read once their number is right. -/
def fitSubmitted (xs ys : List Json) (order : Json) :
    Except Trouble (Series Float × Series Float) := do
  let _ ← harmonicsFor xs.length ys.length order
  fitSamples (← faulting (Json.samples xs)) (← faulting (Json.samples ys)) order

/-- A fitted curve: the series of both coordinates, and their expressions in `u`. -/
structure Fit where
  x : Series Float
  y : Series Float
  expressionX : String
  expressionY : String
  sampleCount : Nat

namespace Fit

/-- The number of harmonics of a fit. -/
def order (f : Fit) : Nat := f.x.order

/-- The fit of a curve drawn on a canvas. -/
def ofPoints (points : List (Point Float)) (canvas : Canvas Float) (order : Json) :
    Except Trouble Fit := do
  refusing (checkCount points.length)
  let framed := points.map canvas.toFrame
  let (x, y) ← fitSamples (framed.map (·.x)) (framed.map (·.y)) order
  return {
    x := x
    y := y
    expressionX := x.expression "u"
    expressionY := y.expression "u"
    sampleCount := points.length }

/-- The fit of a curve on a canvas of submitted sides, which are read once the number of points is
right. -/
def ofStroke (points : List (Point Float)) (canvas : Canvas Json) (order : Json) :
    Except Trouble Fit := do
  refusing (checkCount points.length)
  ofPoints points (← faulting canvas.read) order

/-- The fit of a submitted list of points. Its items are counted as they stand, before their numbers
are taken in pairs. -/
def ofSubmitted (points : List Json) (canvas : Canvas Json) (order : Json) :
    Except Trouble Fit := do
  refusing (checkCount points.length)
  let ps ← faulting (Json.pointList (.list points))
  let f ← ofPoints ps (← faulting canvas.read) order
  return { f with sampleCount := points.length }

/-- The record of a fit. -/
def entry (f : Fit) : Journal.Entry :=
  ⟨.info, .fourier, s!"Fourier fit of {f.sampleCount} samples with K={f.order}"⟩

end Fit

/-- The points of a curve on a canvas at `steps + 1` angles from zero to a full period. -/
def trace {α : Type} [Scalar α] (x y : Series α) (canvas : Canvas α) (steps : Nat) :
    List (Point α) :=
  (List.range (steps + 1)).map fun i =>
    let t := Series.angle i steps
    canvas.ofFrame ⟨x.value t, y.value t⟩

/-- The preview of a fit on a canvas. -/
def Fit.preview (f : Fit) (canvas : Canvas Float) : List (Point Float) :=
  trace f.x f.y canvas Settings.fourierPreviewSteps

end SurfaceStudio.Fourier
