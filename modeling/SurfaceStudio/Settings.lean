/-!
The constants of the studio.
-/

namespace SurfaceStudio.Settings

/-- The least number of steps along an axis of the parameter grid. -/
def minSteps : Nat := 4

/-- The greatest number of cells of the parameter grid. -/
def maxGridCells : Nat := 50000

/-- The least number of samples a curve is fitted to. -/
def minFourierSamples : Nat := 16

def minFourierOrder : Nat := 1

def maxFourierOrder : Nat := 60

def defaultFourierOrder : Nat := 5

/-- Terms of a series below this magnitude are left out of its expression. -/
def coefficientEpsilon : Float := 1e-4

/-- The places of a coefficient in an expression. -/
def coefficientDecimals : Nat := 4

/-- The steps of the preview of a fitted curve. -/
def fourierPreviewSteps : Nat := 400

/-- The most numbers that are summed up without being divided into two parts. -/
def sumBlockSize : Nat := 128

/-- The least squared distance, in pixels, between neighbouring samples of a stroke. -/
def minStrokeSpacingSquared : Float := 1.0

/-- The greatest number of dimensions of an array. -/
def maxDimensions : Nat := 64

/-- The greatest number of dimensions of an array that is stretched along with another one. -/
def maxStretchedDimensions : Nat := 32

/-- The most decimal digits that an integer is read from and written with. -/
def maxIntegerDigits : Nat := 4300

/-- The radius of the sphere around a mesh without extent. -/
def fallbackRadius : Float := 1.0

def presetType : String := "paramSurfacePreset"

def presetVersion : Nat := 1

def defaultPresetName : String := "My surface"

def twoPi : Float := 6.283185307179586

def serverHost : String := "0.0.0.0"

def serverPort : Nat := 8000

end SurfaceStudio.Settings
