import SurfaceStudio.Scalar
/-!
Points and directions of space.
-/

namespace SurfaceStudio

/-- Three coordinates. -/
structure Vec3 (α : Type) where
  x : α
  y : α
  z : α
  deriving Repr, DecidableEq

namespace Vec3

variable {α β : Type}

/-- The coordinates in order. -/
def toList (p : Vec3 α) : List α := [p.x, p.y, p.z]

/-- Each coordinate changed. -/
@[inline] def map (f : α → β) (p : Vec3 α) : Vec3 β := ⟨f p.x, f p.y, f p.z⟩

/-- The coordinates of two points combined. -/
@[inline] def zipWith (f : α → α → α) (p q : Vec3 α) : Vec3 α := ⟨f p.x q.x, f p.y q.y, f p.z q.z⟩

instance [Add α] : Add (Vec3 α) := ⟨zipWith (· + ·)⟩

instance [Sub α] : Sub (Vec3 α) := ⟨zipWith (· - ·)⟩

/-- The vector product. -/
@[inline] def cross [Sub α] [Mul α] (p q : Vec3 α) : Vec3 α :=
  ⟨p.y * q.z - p.z * q.y, p.z * q.x - p.x * q.z, p.x * q.y - p.y * q.x⟩

variable [Scalar α]

/-- The origin. -/
def zero : Vec3 α := ⟨Scalar.zero, Scalar.zero, Scalar.zero⟩

/-- A vector divided by a number. -/
@[inline] def dividedBy (p : Vec3 α) (s : α) : Vec3 α := p.map (· / s)

/-- A vector multiplied by a number. -/
@[inline] def times (p : Vec3 α) (s : α) : Vec3 α := p.map (· * s)

/-- The largest absolute coordinate. -/
@[inline] def peak (p : Vec3 α) : α :=
  Scalar.max (Scalar.max (Scalar.abs p.x) (Scalar.abs p.y)) (Scalar.abs p.z)

/-- The length of a vector. -/
@[inline] def length (p : Vec3 α) : α := Scalar.sqrt (p.x * p.x + p.y * p.y + p.z * p.z)

/-- All coordinates are finite. -/
@[inline] def isFinite (p : Vec3 α) : Bool :=
  Scalar.isFinite p.x && Scalar.isFinite p.y && Scalar.isFinite p.z

end Vec3

end SurfaceStudio
