import SurfaceStudio.Mesh.Basic
import SurfaceStudio.Binary32
/-!
A mesh as the facets of a binary STL file: one facet for each triangle, in the winding of the mesh,
with all numbers in 32 bits. The file has a header of 80 bytes in front, whose text is up to the
library that writes it.
-/

namespace SurfaceStudio.Mesh

/-- A facet of an STL file. -/
structure Facet where
  normal : Vec3 Float32
  first : Vec3 Float32
  second : Vec3 Float32
  third : Vec3 Float32
  attributeWord : UInt16

/-- The normal of a facet with these corners, twice its area long. -/
@[inline] def Facet.normalOf {α : Type} [Sub α] [Mul α] (p q r : Vec3 α) : Vec3 α :=
  (q - p).cross (r - p)

/-- The facet of three corners. Its normal is computed from the rounded corners, in 32 bits, and is
not brought to length 1. -/
def Facet.ofCorners (p q r : Vec3 Float) : Facet :=
  let first := p.map Binary32.nearest
  let second := q.map Binary32.nearest
  let third := r.map Binary32.nearest
  ⟨Facet.normalOf first second third, first, second, third, 0⟩

/-- The vectors of a facet in the order of the file. -/
def Facet.vectors (f : Facet) : List (Vec3 Float32) := [f.normal, f.first, f.second, f.third]

/-- The facets of a mesh. -/
def facets (m : Mesh Float) : List Facet :=
  m.triangles.map fun t =>
    Facet.ofCorners (vertex m.positions t.a) (vertex m.positions t.b) (vertex m.positions t.c)

/-- A number in some bytes, the lowest one first. -/
def littleEndian : Nat → Nat → List UInt8
  | 0, _ => []
  | width + 1, n => n.toUInt8 :: littleEndian width (n / 256)

/-- The 32-bit floats of a facet in the order of the file. -/
def Facet.words (f : Facet) : List Float32 := f.vectors.flatMap Vec3.toList

/-- The bytes of a facet. -/
def Facet.record (f : Facet) : List UInt8 :=
  f.words.flatMap (fun x => littleEndian 4 x.toBits.toNat) ++
    littleEndian 2 f.attributeWord.toNat

/-- The bytes of an STL file: the header, the number of facets, and one facet after the other. -/
def stlFile (header : List UInt8) (fs : List Facet) : List UInt8 :=
  header ++ (littleEndian 4 fs.length ++ fs.flatMap Facet.record)

/-- The number of bytes of an STL file with `count` facets: a header of 80 bytes, the number of
facets in 4 bytes, and 50 bytes for each facet. -/
def fileSize (count : Nat) : Nat := 84 + 50 * count

end SurfaceStudio.Mesh
