import SurfaceStudio.Surface.Definition
import SurfaceStudio.Surface.Tessellation
import SurfaceStudio.Journal
import SurfaceStudio.Json.Display
/-!
From the texts of a surface to its mesh. The bounds are evaluated and the grid is checked before any
of the expressions is read.
-/

namespace SurfaceStudio

/-- A surface with evaluated bounds, whose grid can be sampled. -/
structure Spec where
  x : Json
  y : Json
  z : Json
  uMin : Float
  uMax : Float
  vMin : Float
  vMax : Float
  uSteps : Json
  vSteps : Json

/-- The grid of a surface, still to be checked. -/
def Spec.grid (s : Spec) : Grid.Request :=
  ⟨.float s.uMin, .float s.uMax, .float s.vMin, .float s.vMax, s.uSteps, s.vSteps⟩

namespace Definition

/-- Evaluates the bounds and checks the grid. -/
def resolve (d : Definition) : Except Trouble Spec := do
  let uMin ← boundOfSubmitted d.uMin
  let uMax ← boundOfSubmitted d.uMax
  let vMin ← boundOfSubmitted d.vMin
  let vMax ← boundOfSubmitted d.vMax
  let spec : Spec := ⟨d.x, d.y, d.z, uMin, uMax, vMin, vMax, d.uSteps, d.vSteps⟩
  let _ ← Grid.validate spec.grid
  return spec

end Definition

namespace Spec

/-- Reads the expressions and samples the surface. -/
def mesh (s : Spec) : Except Trouble (Mesh Float) := do
  let x ← Compiled.ofSubmitted s.x
  let y ← Compiled.ofSubmitted s.y
  let z ← Compiled.ofSubmitted s.z
  Surface.tessellate x.coordinate y.coordinate z.coordinate s.grid

end Spec

namespace Definition

/-- The mesh of a surface. -/
def build (d : Definition) : Except Trouble (Mesh Float) := do
  let spec ← d.resolve
  spec.mesh

/-- The record of a mesh that was built. -/
def builtEntry (d : Definition) (m : Mesh Float) : Journal.Entry :=
  let name := if d.name.isFalsy then .str "untitled" else d.name
  ⟨.info, .surface, "Built surface " ++ name.inner ++ s!": {m.uSteps} x {m.vSteps} cells"⟩

end Definition

end SurfaceStudio
