import SurfaceStudio.Formula.Compiled
import SurfaceStudio.Grid.Samples
import SurfaceStudio.Mesh.Basic
/-!
Sampling a surface on a parameter grid. A coordinate of the surface may be evaluated over the whole
grid at once; where one of the three cannot be, every sample is evaluated on its own. Either way the
first sample that cannot be used decides how the request fails, and there is no partial mesh.
-/

namespace SurfaceStudio

/-- A coordinate of a surface as a function of the parameters. A sample may fail with a message; the
evaluation over many points may be missing, or fail. -/
structure Coordinate where
  sample : Float → Float → Except String Float
  overGrid : Option (List (Float × Float) → Option (List Float))

/-- A compiled expression as a coordinate. Over many points its values are computed from the arrays
of their parameters. -/
def Compiled.coordinate (c : Compiled) : Coordinate where
  sample := fun u v => .ok (c.value u v)
  overGrid := some c.valuesAt

namespace Surface

/-- Three lists of coordinates as points. -/
def zipCoordinates (xs ys zs : List Float) : List (Vec3 Float) :=
  (xs.zip (ys.zip zs)).map fun p => ⟨p.1, p.2.1, p.2.2⟩

/-- The positions at all points at once; none if one of the coordinates cannot be evaluated so. -/
def gridPositions? (x y z : Coordinate) (points : List (Float × Float)) :
    Option (List (Vec3 Float)) := do
  let fx ← x.overGrid
  let fy ← y.overGrid
  let fz ← z.overGrid
  return zipCoordinates (← fx points) (← fy points) (← fz points)

/-- The position at one point. Of several coordinates that fail the first one gives the message. -/
def position (x y z : Coordinate) (u v : Float) : Except String (Vec3 Float) := do
  return ⟨← x.sample u v, ← y.sample u v, ← z.sample u v⟩

/-- The position at one point, which has to be finite. -/
def samplePosition (x y z : Coordinate) (p : Float × Float) : Except Failure (Vec3 Float) :=
  match position x y z p.1 p.2 with
  | .error message => .error (.evaluation p.1 p.2 message)
  | .ok q => if q.isFinite then .ok q else .error (.nonFiniteVertex p.1 p.2)

/-- The positions at all points, one after the other. -/
def samplePositions (x y z : Coordinate) (points : List (Float × Float)) :
    Except Failure (List (Vec3 Float)) :=
  points.mapM (samplePosition x y z)

/-- The first point whose position is not finite. -/
def firstNonFinite? (points : List (Float × Float)) (positions : List (Vec3 Float)) :
    Option (Float × Float) :=
  ((points.zip positions).find? fun p => !p.2.isFinite).map (·.1)

/-- The positions at all points, over the whole grid where that is possible, all of them finite. -/
def positions (x y z : Coordinate) (points : List (Float × Float)) :
    Except Failure (List (Vec3 Float)) := do
  let ps ← match gridPositions? x y z points with
    | some ps => pure ps
    | none => samplePositions x y z points
  match firstNonFinite? points ps with
  | some (u, v) => .error (.nonFiniteVertex u v)
  | none => .ok ps

/-- The mesh of a surface over the grid that is asked for. -/
def tessellate (x y z : Coordinate) (request : Grid.Request) : Except Trouble (Mesh Float) := do
  let grid ← Grid.validate request
  let points ← faulting grid.points
  let ps ← refusing (positions x y z points)
  return ⟨ps.toArray, Grid.triangles grid.uSteps grid.vSteps, grid.uSteps, grid.vSteps⟩

end Surface

end SurfaceStudio
