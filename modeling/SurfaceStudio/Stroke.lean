import SurfaceStudio.Reading
import SurfaceStudio.Settings
/-!
The recording of one gesture of the pointer. A new gesture drops the points of the one before; while
it lasts, a point is kept unless it is nearer than one pixel to the point kept last.
-/

namespace SurfaceStudio

/-- What was recorded: the points kept, the last one first, and whether the gesture goes on. -/
structure Stroke where
  kept : List (Point Float)
  drawing : Bool
  deriving Inhabited

namespace Stroke

/-- Nothing recorded. -/
def empty : Stroke := ⟨[], false⟩

/-- The points in the order in which they were drawn. -/
def points (s : Stroke) : List (Point Float) := s.kept.reverse

/-- The number of points. -/
def length (s : Stroke) : Nat := s.kept.length

/-- A point that is too near to the one before it. -/
def isNear (last p : Point Float) : Bool :=
  let dx := p.x - last.x
  let dy := p.y - last.y
  dx * dx + dy * dy < Settings.minStrokeSpacingSquared

/-- Starts a gesture at a point. -/
def start (p : Point Float) : Stroke := ⟨[p], true⟩

/-- A further point would be kept. -/
def accepts (s : Stroke) (p : Point Float) : Bool :=
  s.drawing && s.kept.head?.any fun last => !isNear last p

/-- Goes on to a point. -/
def extend (s : Stroke) (p : Point Float) : Stroke :=
  if s.accepts p then { s with kept := p :: s.kept } else s

/-- Ends the gesture. -/
def finish (s : Stroke) : Stroke := { s with drawing := false }

/-- What the pointer may do. -/
inductive Gesture (α : Type) where
  | start (p : Point α)
  | extend (p : Point α)
  | finish
  | clear

/-- The stroke after one movement. -/
def step (s : Stroke) : Gesture Float → Stroke
  | .start p => .start p
  | .extend p => s.extend p
  | .finish => s.finish
  | .clear => .empty

/-- The stroke after all movements. -/
def run (s : Stroke) (gs : List (Gesture Float)) : Stroke := gs.foldl step s

/-- The stroke after a submitted movement. While no gesture goes on, a further point is ignored
whatever it is. -/
def receive (s : Stroke) : Gesture Json → Except Fault Stroke
  | .start p => p.read.map .start
  | .extend p => if s.drawing then p.read.map s.extend else .ok s
  | .finish => .ok s.finish
  | .clear => .ok .empty

end Stroke

end SurfaceStudio
