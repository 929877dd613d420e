import SurfaceStudio.Service.Messages
import SurfaceStudio.Surface.Build
import SurfaceStudio.Fourier.Fit
import SurfaceStudio.Mesh.Payload
import SurfaceStudio.Mesh.Facets
import SurfaceStudio.Preset.Catalog
import SurfaceStudio.Preset.Document
import SurfaceStudio.Preset.Overlay
import SurfaceStudio.Json.Writer
/-!
The service for single requests: which route a path names, how its body is read, and what is
answered. The answers keep their parts; how a mesh or a fit is laid out is up to who sends them.
-/

namespace SurfaceStudio.Service

/-- The body of a request: JSON text, or a value that was read before. -/
inductive Body where
  | text (s : String)
  | value (v : Json)

/-- A request: the method, the segments of the path, and the body. -/
structure Request where
  method : String
  path : List String
  body : Body

/-- The body of a file. -/
inductive FileBody where
  | text (s : String)
  | facets (fs : List Mesh.Facet)

/-- The number of bytes of a file. -/
def FileBody.size : FileBody → Nat
  | .text s => s.utf8ByteSize
  | .facets fs => Mesh.fileSize fs.length

/-- The media type of a file. -/
def FileBody.mediaType : FileBody → String
  | .text _ => "application/json"
  | .facets _ => "application/octet-stream"

/-- The answer to a request. -/
inductive Response where
  | json (body : Json)
  | mesh (p : Mesh.Payload Float)
  | fit (f : Fourier.Fit) (canvas : Canvas Float)
  | file (name : String) (content : FileBody)
  | refused (f : Failure)
  | invalid (cs : List Complaint)
  | problem (status : Nat) (detail : String)

namespace Response

/-- The status code of an answer. -/
def status : Response → Nat
  | .json _ | .mesh _ | .fit .. | .file .. => 200
  | .refused _ => 400
  | .invalid _ => 422
  | .problem n _ => n

/-- The header that names a file. -/
def disposition (name : String) : String := "attachment; filename=\"" ++ name ++ "\""

def notFound : Response := .problem 404 "Not Found"

def wrongMethod : Response := .problem 405 "Method Not Allowed"

end Response

/-- What a path names. -/
inductive Route where
  | examples
  | example (key : String)
  | compile
  | bound
  | surface
  | fit
  | presetParse
  | presetExport
  | stl
  | health
  deriving Repr, DecidableEq

namespace Route

/-- A segment without a line feed at its end. -/
def withoutFinalNewline (segment : String) : String :=
  match segment.toList.reverse with
  | '\n' :: rest => String.ofList rest.reverse
  | _ => segment

/-- The route of a path. A line feed at the end of a fixed path does not count. -/
def ofSegments (path : List String) : Option Route :=
  match path with
  | ["examples", key] => if key.isEmpty then none else some (.example key)
  | _ =>
    match path.dropLast ++ path.getLast?.toList.map withoutFinalNewline with
    | ["examples"] => some .examples
    | ["expression", "compile"] => some .compile
    | ["bounds", "evaluate"] => some .bound
    | ["surface"] => some .surface
    | ["fourier", "fit"] => some .fit
    | ["presets", "parse"] => some .presetParse
    | ["presets", "export"] => some .presetExport
    | ["export", "stl"] => some .stl
    | ["health"] => some .health
    | _ => none

/-- The segments that a path leads to, of which `walked` were gone before, the last one first: one
dot stays, and two dots go back. -/
def walk (walked : List String) : List String → List String
  | [] => walked.reverse
  | "." :: rest => walk walked rest
  | ".." :: rest => walk walked.tail rest
  | segment :: rest => walk (segment :: walked) rest

/-- A path without the empty segments at its end. -/
def withoutEmptyEnd (path : List String) : List String :=
  (path.reverse.dropWhile String.isEmpty).reverse

/-- The segment that all paths of the service start with. -/
def root : String := "api"

/-- The route of a path below the root. One that names nothing and ends in empty segments stands for
the path before them. -/
def ofPath (path : List String) : Option Route :=
  match walk [root] (("/".intercalate path).splitOn "/") with
  | first :: rest =>
    if first != root then none
    else match ofSegments rest with
      | some r => some r
      | none => if rest.getLast? = some "" then ofSegments (withoutEmptyEnd rest) else none
  | [] => none

/-- The method of a route. -/
def method : Route → String
  | .examples | .example _ | .health => "GET"
  | _ => "POST"

end Route

/-! ## Bodies -/

/-- Why a body cannot be read. -/
inductive BodyError where
  | absent
  | unreadable (position : Nat)
  | undecodable
  | fault (f : Fault)

/-- The value of a body. -/
def Body.read : Body → Except BodyError Json
  | .value v => .ok v
  | .text s =>
    if s.isEmpty then .error .absent
    else match Json.textOfBytes? s.toUTF8.toList with
      | none => .error .undecodable
      | some t =>
        match Json.ofDecoded t with
        | .ok v => .ok v
        | .error (.malformed f) => .error (.unreadable f.position)
        | .error (.fault f) => .error (.fault f)

/-- The answer to a body that cannot be read. -/
def BodyError.response : BodyError → Response
  | .absent => .invalid [⟨[.key "body"], .missing, .null⟩]
  | .unreadable position => .invalid [⟨[.key "body", .index position], .unreadable, .object []⟩]
  | .undecodable | .fault _ => .problem 400 "There was an error parsing the body"

/-- Reads a message from a body that has to be an object; `d` is the defect of any other body. -/
def readBody {α : Type} (d : Defect) (read : Members → Checked α) : Json → Checked α
  | .object members => Form.inside (.key "body") (read members)
  | v => Form.inside (.key "body") (Form.defect d v)

/-! ## Answers -/

/-- Answers with what `f` gives. -/
def answering {α : Type} (r : Except Trouble α) (f : α → Response) : Except Fault Response :=
  match r with
  | .ok a => .ok (f a)
  | .error (.failure e) => .ok (.refused e)
  | .error (.fault e) => .error e

/-- The list of the catalog. -/
def examplesBody : Json :=
  .object [("examples", .list (Preset.catalog.map fun e =>
    .object [("id", .str e.key), ("name", .str e.name)]))]

/-- A surface of the catalog. -/
def exampleResponse (key : String) : Response :=
  match Preset.example? key with
  | some e => .json (.object e.preset)
  | none => .problem 404 ("Example '" ++ key ++ "' not found")

/-- The value of an expression at one sample; a value that is not finite is left out. -/
def valueBody (c : Compiled) (x : Float) : Json :=
  .object [("expression", .str c.source), ("free_variables", .list (c.freeVariables.map .str)),
    ("value", if x.isFinite then .float x else .null), ("finite", .bool x.isFinite)]

def compileResponse (s : Sample) : Except Fault Response :=
  answering (refusing (Compiled.ofText s.expression)) fun c =>
    .json (valueBody c (c.value s.u s.v))

def boundResponse (s : String) : Except Fault Response :=
  answering (refusing (boundValue s)) fun x =>
    .json (.object [("expression", .str s), ("value", .float x)])

def surfaceResponse (d : Definition) : Except Fault Response :=
  answering d.build fun m => .mesh (m.payload d.wireframe)

/-- All numbers of a fit and of its preview are finite. -/
def isFiniteFit (f : Fourier.Fit) (canvas : Canvas Float) : Bool :=
  let isFiniteSeries := fun (s : Fourier.Series Float) =>
    s.constant.isFinite && s.cosines.all Float.isFinite && s.sines.all Float.isFinite
  isFiniteSeries f.x && isFiniteSeries f.y &&
    (f.preview canvas).all fun p => p.x.isFinite && p.y.isFinite

def fitResponse (points : List (Point Float)) (r : FitRequest) : Except Fault Response :=
  match Fourier.Fit.ofPoints points r.canvas r.order with
  | .error (.failure e) => .ok (.refused e)
  | .error (.fault e) => .error e
  | .ok f => if isFiniteFit f r.canvas then .ok (.fit f r.canvas) else .error .nonFiniteAnswer

/-- The fields of a definition. -/
def definitionBody (d : Definition) : Json :=
  .object [("x", d.x), ("y", d.y), ("z", d.z), ("u_min", d.uMin), ("u_max", d.uMax),
    ("v_min", d.vMin), ("v_max", d.vMax), ("u_steps", d.uSteps), ("v_steps", d.vSteps),
    ("name", d.name), ("wireframe", d.wireframe)]

def presetResponse (members : Members) : Except Fault Response :=
  answering (do
    let p ← Preset.ofUpload (.value (.object members))
    Definition.overlay {} p) fun d => .json (.object [("definition", definitionBody d)])

/-- The definition as the file of a preset. -/
def presetFile (d : Definition) : Except Fault Response := do
  let name ← d.name.textOrEmpty
  let p ← d.preset .null
  let text ← Json.pretty (.object p)
  return .file (Preset.fileName (Preset.documentName name)) (.text text)

/-- The surface as a file of facets. -/
def facetFile (d : Definition) : Except Fault Response :=
  answering (do
    let m ← d.build
    return (← faulting d.name.textOrEmpty, m)) fun (name, m) =>
      .file (Preset.slug name ++ ".stl") (.facets m.facets)

/-- The answer to a message with defects. The values that are quoted in it have to be finite. -/
def invalidResponse (cs : List Complaint) : Except Fault Response :=
  if cs.all (·.quoted.allFinite) then .ok (.invalid cs) else .error .nonFiniteAnswer

/-- Reads a message from the body and answers it. -/
def handle {α : Type} (body : Body) (d : Defect) (read : Members → Checked α)
    (answer : α → Except Fault Response) : Except Fault Response :=
  match body.read with
  | .error e => .ok e.response
  | .ok v =>
    match readBody d read v with
    | .error cs => invalidResponse cs
    | .ok a => answer a

/-- The answer of a route. -/
def Route.respond (body : Body) : Route → Except Fault Response
  | .examples => .ok (.json examplesBody)
  | .example key => .ok (exampleResponse key)
  | .compile => handle body .notObject Form.sample compileResponse
  | .bound => handle body .notObject Form.bound boundResponse
  | .surface => handle body .notObject Form.surface surfaceResponse
  | .fit => handle body .notObject Form.drawnCurve fun p => fitResponse p.1 p.2
  | .presetParse => handle body .notDocument .ok presetResponse
  | .presetExport => handle body .notObject Form.surface presetFile
  | .stl => handle body .notObject Form.surface facetFile
  | .health => .ok (.json (.object [("status", .str "ok")]))

/-- The answer to a request. -/
def respond (r : Request) : Except Fault Response :=
  match Route.ofPath r.path with
  | none => .ok .notFound
  | some route => if r.method.toUpper = route.method then route.respond r.body else .ok .wrongMethod

end SurfaceStudio.Service
