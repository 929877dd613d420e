/-!
The triangulation of a grid of cells. The vertex in row `i` and column `j` has the index
`i * columns + j`; indices are 32-bit words.
-/

namespace SurfaceStudio

/-- A triangle by the indices of its corners, in the order of its winding. -/
structure Triangle where
  a : UInt32
  b : UInt32
  c : UInt32
  deriving Repr, DecidableEq, Inhabited

/-- The corners of a triangle in order. -/
def Triangle.corners (t : Triangle) : List UInt32 := [t.a, t.b, t.c]

namespace Grid

/-- The two triangles of the cell in row `i` and column `j`. -/
def cell (columns i j : UInt32) : List Triangle :=
  let a := i * columns + j
  let b := (i + 1) * columns + j
  let c := (i + 1) * columns + (j + 1)
  let d := i * columns + (j + 1)
  [⟨a, b, d⟩, ⟨b, c, d⟩]

/-- The triangles of a grid of cells, row by row. -/
def triangles (uSteps vSteps : Nat) : List Triangle :=
  let columns := (vSteps + 1).toUInt32
  (List.range uSteps).flatMap fun i =>
    (List.range vSteps).flatMap fun j => cell columns i.toUInt32 j.toUInt32

end Grid

end SurfaceStudio
