import SurfaceStudio.Scalar
/-!
The drawing canvas. A point of it is counted in pixels from the upper left corner, the second
coordinate downwards; the frame of the canvas has its origin in the middle, its unit is half of the
shorter side, and its second coordinate goes upwards.
-/

namespace SurfaceStudio

/-- A point of the plane. -/
structure Point (α : Type) where
  x : α
  y : α
  deriving Repr, Inhabited

/-- Points from the list of their coordinates; none if a coordinate is left over. -/
def Point.pairs? {α : Type} : List α → Option (List (Point α))
  | [] => some []
  | x :: y :: rest => (Point.pairs? rest).map (⟨x, y⟩ :: ·)
  | [_] => none

/-- The sides of a canvas, in pixels. -/
structure Canvas (α : Type) where
  width : α
  height : α
  deriving Repr

namespace Canvas

variable {α : Type} [Scalar α]

/-- The shorter side. -/
def shorter (c : Canvas α) : α := if Scalar.less c.height c.width then c.height else c.width

/-- The unit of the frame: half of the shorter side. -/
def unit (c : Canvas α) : α := Scalar.half c.shorter

/-- A point in pixels seen in the frame. -/
def toFrame (c : Canvas α) (p : Point α) : Point α :=
  ⟨(p.x - Scalar.half c.width) / c.unit, (Scalar.half c.height - p.y) / c.unit⟩

/-- A point of the frame in pixels. -/
def ofFrame (c : Canvas α) (p : Point α) : Point α :=
  ⟨Scalar.half c.width + p.x * c.unit, Scalar.half c.height - p.y * c.unit⟩

end Canvas

end SurfaceStudio
