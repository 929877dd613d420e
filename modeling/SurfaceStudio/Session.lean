import SurfaceStudio.Surface.Build
import SurfaceStudio.Fourier.Fit
import SurfaceStudio.Stroke
import SurfaceStudio.Preset.Catalog
import SurfaceStudio.Preset.Document
import SurfaceStudio.Preset.Overlay
/-!
The session of one user: the surface on display and the state of the drawing. Every request is
answered by an outcome. The surface on display changes only when a new one has been built, so a
request that fails leaves it as it was.
-/

namespace SurfaceStudio

/-- The state of a session. -/
structure Session where
  definition : Definition := {}
  mesh : Option (Mesh Float) := none
  stroke : Stroke := .empty
  fit : Option Fourier.Fit := none
  deriving Inhabited

/-- What a request has produced. -/
inductive Product where
  | mesh (m : Mesh Float)
  | fit (f : Fourier.Fit)

/-- How a request ended: with a message and maybe a product, or with a failure. -/
inductive Outcome where
  | success (message : String) (product : Option Product)
  | failure (f : Failure)

namespace Outcome

/-- The request was fulfilled. -/
def isOk : Outcome → Bool
  | .success .. => true
  | .failure _ => false

/-- What the request has produced. -/
def product? : Outcome → Option Product
  | .success _ product => product
  | .failure _ => none

/-- The line that reports how a request ended. -/
def status : Outcome → Json
  | .success message _ => .object [("message", .str message), ("severity", .str "ok")]
  | .failure f => .object
    [("message", .str f.message), ("severity", .str Failure.severity), ("code", .str f.code)]

end Outcome

/-- The end of a request: the state after it, its outcome and the records it wrote. -/
structure Turn where
  session : Session
  outcome : Outcome
  entries : List Journal.Entry

namespace Session

/-- A request that failed changes nothing and is recorded. -/
def reject (s : Session) (what : String) (f : Failure) : Turn :=
  ⟨s, .failure f, [⟨.warning, .session, s!"{what} failed [" ++ f.code ++ "]: " ++ f.message⟩]⟩

/-- Turns a failure into the outcome of a request. -/
def guarded (s : Session) (what : String) : Except Trouble Turn → Except Fault Turn
  | .ok t => .ok t
  | .error (.failure f) => .ok (s.reject what f)
  | .error (.fault f) => .error f

/-! ## The surface -/

/-- Builds a surface and puts it on display. -/
def build (s : Session) (d : Definition) : Except Fault Turn :=
  s.guarded "Surface build" do
    let m ← d.build
    return ⟨{ s with definition := d, mesh := some m },
      .success "Surface updated ✔" (some (.mesh m)), [d.builtEntry m]⟩

/-- The outcome with another message if the request was fulfilled. -/
def Turn.withMessage (message : String) (t : Turn) : Turn :=
  match t.outcome with
  | .success _ product => { t with outcome := .success message product }
  | .failure _ => t

/-- Refuses a key of no surface of the catalog. -/
def rejectKey (s : Session) (key : Json) : Except Fault Turn := do
  return s.reject "Example" (.unknownExample key (← key.display))

/-- Builds a surface of the catalog. The key of the custom mode changes nothing. -/
def applyExample (s : Session) : Json → Except Fault Turn
  | .list _ | .object _ => .error .unhashableKey
  | key =>
    match key with
    | .str k =>
      if k = Preset.customKey then
        .ok ⟨s, .success "Custom mode: your existing equations are preserved." none, []⟩
      else match Preset.example? k with
        | some e =>
          match s.definition.overlay e.preset with
          | .ok d => s.build d
          | .error t => s.guarded "Example" (.error t)
        | none => s.rejectKey key
    | _ => s.rejectKey key

/-- The name of a preset in the message about it. -/
def loadedName (p : Preset) : Except Fault String :=
  match Json.lookup "name" p with
  | some v => if v.isFalsy then .ok "preset" else v.display
  | none => .ok "preset"

/-- The definition that a submitted document lays over the one of the session, and its name. -/
def overlaid (s : Session) (u : Preset.Upload) : Except Trouble (Definition × String) := do
  let p ← Preset.ofUpload u
  let d ← s.definition.overlay p
  return (d, ← faulting (loadedName p))

/-- Builds the surface of a submitted document. -/
def loadPreset (s : Session) (u : Preset.Upload) : Except Fault Turn :=
  match s.overlaid u with
  | .error t => s.guarded "Preset load" (.error t)
  | .ok (d, name) =>
    (s.build d).map (Turn.withMessage ("Loaded preset \"" ++ name ++ "\"."))

/-- The surface of the session as a preset. -/
def exportPreset (s : Session) (name : Json) : Except Fault Preset := s.definition.preset name

/-! ## The drawing -/

/-- Fits a series to the stroke. -/
def computeFourier (s : Session) (order : Json) (canvas : Canvas Json) : Except Fault Turn :=
  s.guarded "Fourier fit" do
    let f ← Fourier.Fit.ofStroke s.stroke.points canvas order
    return ⟨{ s with fit := some f },
      .success s!"Fourier approximation computed with K={f.order} terms." (some (.fit f)),
      [f.entry]⟩

/-- Drops the stroke and the fit. -/
def clear (s : Session) : Turn :=
  ⟨{ s with stroke := .empty, fit := none }, .success "Drawing cleared." none, []⟩

/-- Builds the ribbon over the fitted curve. -/
def toSurface (s : Session) : Except Fault Turn :=
  match s.fit with
  | none => .ok (s.reject "Fourier to surface" .noFourierFit)
  | some f =>
    (s.build (s.definition.ribbon f.expressionX f.expressionY)).map
      (Turn.withMessage "Fourier curve sent to visualizer (as a thin ribbon).")

/-! ## Requests -/

/-- What a user may ask for. -/
inductive Request where
  | build (d : Definition)
  | applyExample (key : Json)
  | loadPreset (u : Preset.Upload)
  | exportPreset (name : Json)
  | beginStroke (p : Point Json)
  | extendStroke (p : Point Json)
  | finishStroke
  | computeFourier (order : Json) (canvas : Canvas Json)
  | clear
  | toSurface

/-- The answer to a request. -/
inductive Answer where
  | outcome (o : Outcome)
  | document (p : Preset)
  | extended (kept : Bool)
  | done

/-- The end of a request of any kind. -/
structure Step where
  session : Session
  answer : Answer
  entries : List Journal.Entry

/-- A turn as a step. -/
def Step.ofTurn (t : Turn) : Step := ⟨t.session, .outcome t.outcome, t.entries⟩

/-- The session with another stroke. -/
def withStroke (s : Session) (stroke : Stroke) : Session := { s with stroke := stroke }

/-- Answers a request. -/
def step (s : Session) : Request → Except Fault Step
  | .build d => (s.build d).map .ofTurn
  | .applyExample key => (s.applyExample key).map .ofTurn
  | .loadPreset u => (s.loadPreset u).map .ofTurn
  | .exportPreset name => (s.exportPreset name).map fun p => ⟨s, .document p, []⟩
  | .beginStroke p =>
    (s.stroke.receive (.start p)).map fun stroke => ⟨s.withStroke stroke, .done, []⟩
  | .extendStroke p =>
    (s.stroke.receive (.extend p)).map fun stroke =>
      ⟨s.withStroke stroke, .extended (s.stroke.length < stroke.length), []⟩
  | .finishStroke => .ok ⟨s.withStroke s.stroke.finish, .done, []⟩
  | .computeFourier order canvas => (s.computeFourier order canvas).map .ofTurn
  | .clear => .ok (.ofTurn s.clear)
  | .toSurface => s.toSurface.map .ofTurn

/-- The session after a request; one that ends in a fault changes nothing. -/
def after (s : Session) (r : Request) : Session :=
  match s.step r with
  | .ok t => t.session
  | .error _ => s

/-- The session after a sequence of requests. -/
def run (s : Session) (rs : List Request) : Session := rs.foldl after s

end Session

end SurfaceStudio
