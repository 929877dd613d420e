import SurfaceStudio.Json.Basic
import SurfaceStudio.Settings
/-!
A surface as it is typed in: the expressions and bounds are still text, and every field holds
whatever was submitted for it.
-/

namespace SurfaceStudio

/-- The fields of a surface. -/
structure Definition where
  x : Json := .str "cos(u) * cos(v)"
  y : Json := .str "sin(u) * cos(v)"
  z : Json := .str "sin(v)"
  uMin : Json := .str "0"
  uMax : Json := .str "2 * pi"
  vMin : Json := .str "-pi / 2"
  vMax : Json := .str "pi / 2"
  uSteps : Json := .int 60
  vSteps : Json := .int 30
  name : Json := .str ""
  wireframe : Json := .bool false
  deriving Inhabited

/-- The texts of the thin ribbon that a plane curve is extruded to. -/
structure Ribbon where
  z : String := "0.1 * v"
  uMin : String := "0"
  uMax : String := "2 * pi"
  vMin : String := "-1"
  vMax : String := "1"

/-- The ribbon over a curve with the expressions `x` and `y`, with the steps, the name and the
rendering of `d`. -/
def Definition.ribbon (d : Definition) (x y : String) : Definition :=
  let r : Ribbon := {}
  { d with
    x := .str x, y := .str y, z := .str r.z
    uMin := .str r.uMin, uMax := .str r.uMax, vMin := .str r.vMin, vMax := .str r.vMax }

end SurfaceStudio
