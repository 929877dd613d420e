import SurfaceStudio.Mesh.Basic
/-!
Vertex normals: at each vertex the normals of the faces around it are added up, which weighs them by
area, and the sum is brought to length 1. The vertices are scaled into the cube from -1 to 1 first,
so that the products of large coordinates do not overflow.
-/

namespace SurfaceStudio.Mesh

variable {α : Type} [Scalar α]

/-- The normal of a face, twice its area long. -/
@[inline] def faceNormal (positions : Array (Vec3 α)) (t : Triangle) : Vec3 α :=
  let p := vertex positions t.a
  let q := vertex positions t.b
  let r := vertex positions t.c
  (r - q).cross (p - q)

/-- Adds a vector at an index. -/
@[inline] def addAt (sums : Array (Vec3 α)) (i : UInt32) (n : Vec3 α) : Array (Vec3 α) :=
  sums.modify i.toNat (· + n)

/-- The vectors to be added up: for the first corners of all faces, then for the second and third
ones, the index of the corner and the normal of the face. -/
@[specialize] def contributions (positions : Array (Vec3 α)) (ts : List Triangle) :
    List (UInt32 × Vec3 α) :=
  let faces := ts.map fun t => (t, faceNormal positions t)
  faces.map (fun f => (f.1.a, f.2)) ++ faces.map (fun f => (f.1.b, f.2)) ++
    faces.map (fun f => (f.1.c, f.2))

/-- The sums of the face normals at the vertices. -/
@[specialize] def normalSums (m : Mesh α) : Array (Vec3 α) :=
  (contributions m.scaled m.triangles).foldl (fun sums c => addAt sums c.1 c.2)
    (Array.replicate m.vertexCount Vec3.zero)

/-- A number, or 1 in place of zero. -/
@[inline] def orOne (x : α) : α := if Scalar.isZero x then Scalar.natural 1 else x

/-- A vector of length 1 in the direction of `n`; zero stays zero. The division by the largest
coordinate keeps the squares of small ones from vanishing. -/
@[inline] def unit (n : Vec3 α) : Vec3 α :=
  let r := n.dividedBy (orOne n.peak)
  r.dividedBy (orOne r.length)

/-- The normals at the vertices. A vertex of degenerate faces only has a zero normal. -/
@[specialize] def normals (m : Mesh α) : Array (Vec3 α) := m.normalSums.map unit

end SurfaceStudio.Mesh
