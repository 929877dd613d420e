import SurfaceStudio.Service.Form
import SurfaceStudio.Surface.Definition
import SurfaceStudio.Canvas
/-!
The messages of the service, read from the members of an object. Members that a message does not
know are ignored.
-/

namespace SurfaceStudio.Service

/-- The members of an object. -/
abbrev Members := List (String × Json)

/-- An expression and the parameters at which its value is asked for. -/
structure Sample where
  expression : String
  u : Float
  v : Float

/-- A request to fit a series: the number of harmonics, null for the default, and the canvas. -/
structure FitRequest where
  order : Json
  canvas : Canvas Float

namespace Form

/-- A surface; what is missing is that of the default surface. -/
def surface (m : Members) : Checked Definition :=
  let d : Definition := {}
  let words := fun key old => optional key old (fun v => (text v).map .str) m
  let steps := fun key old => optional key old (fun v => (integer v).map .int) m
  let texts := both (words "x" d.x) (both (words "y" d.y) (words "z" d.z))
  let bounds := both (both (words "u_min" d.uMin) (words "u_max" d.uMax))
    (both (words "v_min" d.vMin) (words "v_max" d.vMax))
  let counts := both (steps "u_steps" d.uSteps) (steps "v_steps" d.vSteps)
  let frame := optional "wireframe" d.wireframe (fun v => (flag v).map .bool) m
  let rest := both (words "name" d.name) frame
  (both (both texts bounds) (both counts rest)).map
    fun (((x, y, z), (uMin, uMax), vMin, vMax), (uSteps, vSteps), name, wireframe) =>
      { x, y, z, uMin, uMax, vMin, vMax, uSteps, vSteps, name, wireframe }

/-- An expression and maybe the parameters of its sample. -/
def sample (m : Members) : Checked Sample :=
  (both (required "expression" text m)
    (both (optional "u" 0 number m) (optional "v" 0 number m))).map
    fun (expression, u, v) => { expression, u, v }

/-- The text of a bound. -/
def bound (m : Members) : Checked String := required "expression" text m

/-- A point of the canvas. -/
def point (m : Members) : Checked (Point Float) :=
  (both (required "x" number m) (required "y" number m)).map fun (x, y) => { x, y }

/-- The number of harmonics as it is handed on. -/
def orderValue : Option Int → Json
  | some n => .int n
  | none => .null

/-- A request to fit a series. -/
def fitRequest (m : Members) : Checked FitRequest :=
  (both (optional "order" (some (Settings.defaultFourierOrder : Int)) (nullable integer) m)
    (both (required "canvas_width" positive m) (required "canvas_height" positive m))).map
    fun (order, width, height) => ⟨orderValue order, ⟨width, height⟩⟩

/-- The points of a drawn curve. -/
def strokePoints (m : Members) : Checked (List (Point Float)) :=
  optional "points" [] (list fun v => (pair number v).map fun p => ⟨p.1, p.2⟩) m

/-- A drawn curve and the request to fit it. -/
def drawnCurve (m : Members) : Checked (List (Point Float) × FitRequest) :=
  both (strokePoints m) (fitRequest m)

end Form

end SurfaceStudio.Service
