import SurfaceStudio.Json.Encoding
import SurfaceStudio.Json.Reader
import SurfaceStudio.Failure
/-!
Preset documents and how they are loaded: from JSON text, from its bytes, or from a value that was
read before. A document is one preset or a collection of which the first one counts.
-/

namespace SurfaceStudio

/-- A preset: the members of an object. -/
abbrev Preset := List (String × Json)

/-- A submitted document. -/
inductive Preset.Upload where
  | value (v : Json)
  | bytes (bs : List UInt8)

namespace Preset

/-- The refusal of a document without a preset. -/
def noObject : Failure := .invalidPreset "File does not contain a valid preset object."

/-- The preset of a document: the first entry of the collection if it holds one, else the document
itself. -/
def ofDocument : Json → Except Failure Preset
  | .object members =>
    match Json.lookup "presets" members with
    | some (.list (.object first :: _)) => .ok first
    | some (.list (_ :: _)) => .error noObject
    | _ => .ok members
  | _ => .error noObject

/-- The preset of a document that `read` reads from a text. -/
def ofText (read : String → Except Json.Misreading Json) (s : String) : Except Trouble Preset :=
  match read s with
  | .error (.malformed f) =>
    .error (.failure (.invalidPreset ("Could not read preset file: " ++ f.message s)))
  | .error (.fault f) => .error (.fault f)
  | .ok v => refusing (ofDocument v)

/-- The preset of a submitted document; a text is read as JSON. -/
def ofUpload : Upload → Except Trouble Preset
  | .value (.str s) => ofText Json.ofText s
  | .value v => refusing (ofDocument v)
  | .bytes bs =>
    match Json.textOfBytes? bs with
    | none => .error (.fault .undecodableBytes)
    | some s => ofText Json.ofDecoded s

end Preset

end SurfaceStudio
