import SurfaceStudio.Mesh.Basic
import SurfaceStudio.Settings
/-!
The bounding sphere of a mesh: its centre is the middle of the bounding box, and it reaches the
vertex that is farthest from there.
-/

namespace SurfaceStudio

/-- A sphere. -/
structure Sphere (α : Type) where
  center : Vec3 α
  radius : α

namespace Mesh

variable {α : Type} [Scalar α]

/-- The coordinates at one end of the bounding box: the best by `pick` of `first` and all others. -/
@[specialize] def corner (pick : α → α → α) (first : Vec3 α) (ps : Array (Vec3 α)) : Vec3 α :=
  ps.foldl (Vec3.zipWith pick) first

/-- The largest distance of the points from `center`. -/
@[specialize] def reach (center : Vec3 α) (ps : Array (Vec3 α)) : α :=
  ps.foldl (fun d p => Scalar.max d (p - center).length) Scalar.zero

/-- The sphere around a mesh with at least one vertex; around a mesh without vertices, as around one
without extent, it has the fallback radius. -/
@[specialize] def boundingSphere (m : Mesh α) : Sphere α :=
  let e := m.extent
  let ps := m.scaled
  let first := ps.getD 0 Vec3.zero
  let center := (corner Scalar.min first ps + corner Scalar.max first ps).map Scalar.half
  let radius := e * reach center ps
  { center := center.times e
    radius := if !Scalar.isFinite radius || !Scalar.less Scalar.zero radius then
        Scalar.literal Settings.fallbackRadius
      else radius }

/-- The sphere around a mesh; a mesh without vertices has none. -/
def boundingSphere? (m : Mesh α) : Except Fault (Sphere α) :=
  if m.positions.isEmpty then .error .emptyMesh else .ok m.boundingSphere

end Mesh

end SurfaceStudio
