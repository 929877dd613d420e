import SurfaceStudio.Vec3
import SurfaceStudio.Grid.Triangles
import SurfaceStudio.Failure
/-!
Triangle meshes.
-/

namespace SurfaceStudio

/-- A mesh: its vertices, and its triangles by the indices of their corners. The numbers of steps
are those of the grid it was made from. -/
structure Mesh (α : Type) where
  positions : Array (Vec3 α)
  triangles : List Triangle
  uSteps : Nat
  vSteps : Nat

namespace Mesh

variable {α : Type}

def vertexCount (m : Mesh α) : Nat := m.positions.size

def triangleCount (m : Mesh α) : Nat := m.triangles.length

/-- The indices of all corners, triangle by triangle. -/
def indices (m : Mesh α) : List UInt32 := m.triangles.flatMap Triangle.corners

/-- The number of corners of all triangles. -/
def indexCount (m : Mesh α) : Nat := 3 * m.triangleCount

/-- Every corner is a vertex of the mesh. -/
def isInRange (m : Mesh α) : Bool :=
  m.indices.all fun i => i.toNat < m.vertexCount

variable [Scalar α]

/-- The vertex with an index. Meshes in use have no other indices than those of their vertices. -/
@[inline] def vertex (positions : Array (Vec3 α)) (i : UInt32) : Vec3 α :=
  positions.getD i.toNat Vec3.zero

/-- The largest absolute coordinate, or 1 if it is zero or not finite. -/
@[specialize] def extent (m : Mesh α) : α :=
  let e := m.positions.foldl (fun e p => Scalar.max e p.peak) Scalar.zero
  if !Scalar.isFinite e || Scalar.isZero e then Scalar.natural 1 else e

/-- The vertices scaled into the cube from -1 to 1. -/
@[specialize] def scaled (m : Mesh α) : Array (Vec3 α) :=
  let e := m.extent
  m.positions.map (·.dividedBy e)

/-- A mesh made directly of vertices and triangles. -/
def ofParts (positions : Array (Vec3 α)) (triangles : List Triangle) : Except Fault (Mesh α) :=
  let m : Mesh α := ⟨positions, triangles, 0, 0⟩
  if m.isInRange then .ok m else .error .indexOutOfRange

end Mesh

end SurfaceStudio
