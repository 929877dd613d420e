import SurfaceStudio.Service.Messages
import SurfaceStudio.Session
import SurfaceStudio.Mesh.Payload
/-!
The live service: one session per connection, and for every message that comes in a list of replies.
A message that ends in an error leaves the session as it was.
-/

namespace SurfaceStudio.Service

/-- Why a message is not answered. -/
inductive Rejection where
  | notObject
  | invalidPayload (cs : List Complaint)
  | unknownType (shown : String)
  | noMesh
  | payloadNotObject
  | fault (f : Fault)

namespace Rejection

/-- The code of a rejection. -/
def code : Rejection → String
  | .notObject | .invalidPayload _ => "INVALID_PAYLOAD"
  | .unknownType _ => "UNKNOWN_MESSAGE"
  | .noMesh => "NO_MESH"
  | .payloadNotObject | .fault _ => "HANDLER_ERROR"

/-- The message of a rejection, where it has a fixed one. -/
def message? : Rejection → Option String
  | .notObject => some "Expected a JSON object"
  | .unknownType shown => some ("Unknown type: " ++ shown)
  | .noMesh => some "No surface built yet"
  | _ => none

end Rejection

/-- A reply. -/
inductive Reply where
  | meshUpdate (p : Mesh.Payload Float) (d : Definition)
  | fourierResult (f : Fourier.Fit) (canvas : Canvas Float)
  | status (o : Outcome)
  | rejected (r : Rejection)

/-- The session after a message, and the replies to it. -/
structure Exchange where
  session : Session
  replies : List Reply

/-- The reply that shows the mesh of a session. -/
def meshReply (s : Session) (m : Mesh Float) : Reply :=
  .meshUpdate (m.payload s.definition.wireframe) s.definition

/-- The replies to a request for a surface: the new mesh if there is one, then the status. -/
def surfaceReplies (s : Session) (o : Outcome) : List Reply :=
  match o.product?, s.mesh with
  | some _, some m => [meshReply s m, .status o]
  | _, _ => [.status o]

/-- The replies to a request for a fit: the fit if there is one, then the status. -/
def fitReplies (canvas : Canvas Float) (o : Outcome) : List Reply :=
  match o.product? with
  | some (.fit f) => [.fourierResult f canvas, .status o]
  | _ => [.status o]

/-- Answers with a rejection. -/
def rejecting (s : Session) (r : Rejection) : Exchange := ⟨s, [.rejected r]⟩

/-- Ends a request of the session. -/
def finishing (s : Session) (replies : Session → Outcome → List Reply) :
    Except Fault Turn → Exchange
  | .ok t => ⟨t.session, replies t.session t.outcome⟩
  | .error f => rejecting s (.fault f)

/-- Goes on with the members of a payload. -/
def withMembers (s : Session) (payload : Json) (k : Members → Exchange) : Exchange :=
  match payload with
  | .object members => k members
  | _ => rejecting s .payloadNotObject

/-- Goes on with a message read from a payload. -/
def withMessage {α : Type} (s : Session) (payload : Json) (read : Members → Checked α)
    (k : α → Exchange) : Exchange :=
  withMembers s payload fun members =>
    match read members with
    | .ok a => k a
    | .error cs => rejecting s (.invalidPayload cs)

/-- The types of messages. -/
inductive MessageType where
  | buildSurface
  | requestMesh
  | loadExample
  | loadPreset
  | strokeStart
  | strokeMove
  | strokeEnd
  | fourierCompute
  | fourierClear
  | fourierToSurface
  deriving Repr, DecidableEq

/-- The type that a message names. -/
def MessageType.ofJson? : Json → Option MessageType
  | .str "build_surface" => some .buildSurface
  | .str "request_mesh" => some .requestMesh
  | .str "load_example" => some .loadExample
  | .str "load_preset" => some .loadPreset
  | .str "stroke_start" => some .strokeStart
  | .str "stroke_move" => some .strokeMove
  | .str "stroke_end" => some .strokeEnd
  | .str "fourier_compute" => some .fourierCompute
  | .str "fourier_clear" => some .fourierClear
  | .str "fourier_to_surface" => some .fourierToSurface
  | _ => none

/-- Answers a message of a known type. -/
def dispatch (s : Session) (payload : Json) : MessageType → Exchange
  | .buildSurface => withMessage s payload Form.surface fun d =>
    finishing s surfaceReplies (s.build d)
  | .requestMesh =>
    match s.mesh with
    | some m => ⟨s, [meshReply s m]⟩
    | none => rejecting s .noMesh
  | .loadExample => withMembers s payload fun members =>
    finishing s surfaceReplies (s.applyExample ((Json.lookup "key" members).getD (.str "")))
  | .loadPreset => withMembers s payload fun members =>
    finishing s surfaceReplies
      (s.loadPreset (.value ((Json.lookup "preset" members).getD (.object members))))
  | .strokeStart => withMessage s payload Form.point fun p => ⟨s.withStroke (.start p), []⟩
  | .strokeMove => withMessage s payload Form.point fun p =>
    ⟨s.withStroke (s.stroke.extend p), []⟩
  | .strokeEnd => ⟨s.withStroke s.stroke.finish, []⟩
  | .fourierCompute => withMessage s payload Form.fitRequest fun r =>
    finishing s (fun _ => fitReplies r.canvas) (s.computeFourier r.order (r.canvas.map .float))
  | .fourierClear => ⟨s.clear.session, [.status s.clear.outcome]⟩
  | .fourierToSurface => finishing s surfaceReplies s.toSurface

/-- Answers a message. A payload that counts as nothing stands for an empty object. -/
def receive (s : Session) : Json → Exchange
  | .object members =>
    let type := (Json.lookup "type" members).getD (.str "")
    let given := (Json.lookup "payload" members).getD .null
    let payload := if given.isFalsy then .object [] else given
    match MessageType.ofJson? type, type.display with
    | some t, _ => dispatch s payload t
    | none, .ok shown => rejecting s (.unknownType shown)
    | none, .error f => rejecting s (.fault f)
  | _ => rejecting s .notObject

/-- Answers messages one after the other. -/
def converse (s : Session) : List Json → List (List Reply)
  | [] => []
  | m :: rest => let e := receive s m; e.replies :: converse e.session rest

end SurfaceStudio.Service
