import SurfaceStudio.Mesh.Normals
import SurfaceStudio.Mesh.Sphere
/-!
A mesh as buffers for a renderer: flat lists of coordinates, normals and indices. Whether it is to
be drawn as a wire frame is handed on as it was submitted.
-/

namespace SurfaceStudio.Mesh

/-- A mesh as buffers. -/
structure Payload (α : Type) where
  positions : List α
  normals : List α
  indices : List UInt32
  vertexCount : Nat
  indexCount : Nat
  triangleCount : Nat
  uSteps : Nat
  vSteps : Nat
  sphere : Sphere α
  wireframe : Json

variable {α : Type} [Scalar α]

/-- The coordinates of points one after the other. -/
def flat (ps : Array (Vec3 α)) : List α := ps.toList.flatMap Vec3.toList

/-- The buffers of a mesh. -/
def payload (m : Mesh α) (wireframe : Json) : Payload α where
  positions := flat m.positions
  normals := flat m.normals
  indices := m.indices
  vertexCount := m.vertexCount
  indexCount := m.indexCount
  triangleCount := m.triangleCount
  uSteps := m.uSteps
  vSteps := m.vSteps
  sphere := m.boundingSphere
  wireframe := wireframe

end SurfaceStudio.Mesh
