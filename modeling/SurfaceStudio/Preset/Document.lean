import SurfaceStudio.Preset.Basic
import SurfaceStudio.Surface.Definition
import SurfaceStudio.Text.Blank
import SurfaceStudio.Text.LowerCase
/-!
A definition written as a preset, and the name of the file that it is downloaded as.
-/

namespace SurfaceStudio

namespace Preset

/-- The name in a preset: the chosen name without blanks around it, or a default for a blank one. -/
def documentName (name : String) : String :=
  let trimmed := Text.trim name
  if trimmed.isEmpty then Settings.defaultPresetName else trimmed

/-- A character that the name of a file keeps: a to z, or a decimal digit. -/
def isWordChar (c : Char) : Bool := c.isLower || c.isDigit

/-- A text with one hyphen for each run of characters that a name does not keep; `inGap` tells that
the text begins inside of such a run, whose hyphen is there already. -/
def hyphenate (inGap : Bool) : List Char → List Char
  | [] => []
  | c :: rest =>
    if isWordChar c then c :: hyphenate false rest
    else if inGap then hyphenate true rest
    else '-' :: hyphenate true rest

/-- A name in small letters with a hyphen in place of all other characters, and none at its ends. A
name of which nothing is left is that of a surface. -/
def slug (name : String) : String :=
  match Text.trimWhile (· == '-') (hyphenate false (Text.lower name).toList) with
  | [] => "surface"
  | cs => String.ofList cs

/-- The name of the file that a preset is downloaded as. -/
def fileName (name : String) : String := slug name ++ ".json"

/-- The name of the file for a submitted name; one that counts as nothing is no name at all. -/
def fileNameOfSubmitted : Json → Except Fault String
  | .str name => .ok (fileName name)
  | v => if v.isFalsy then .ok (fileName "") else .error .notText

end Preset

/-- A definition as a preset, under a chosen name or, if that is null, under its own. -/
def Definition.preset (d : Definition) (chosen : Json) : Except Fault Preset :=
  match (match chosen with | .null => d.name | _ => chosen) with
  | .str name => .ok
    [("type", .str Settings.presetType), ("version", .int Settings.presetVersion),
     ("name", .str (Preset.documentName name)), ("x", d.x), ("y", d.y), ("z", d.z),
     ("uMin", d.uMin), ("uMax", d.uMax), ("vMin", d.vMin), ("vMax", d.vMax),
     ("uSteps", d.uSteps), ("vSteps", d.vSteps)]
  | _ => .error .notText

end SurfaceStudio
