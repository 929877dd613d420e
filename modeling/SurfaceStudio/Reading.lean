import SurfaceStudio.Failure
import SurfaceStudio.Tensor
import SurfaceStudio.Canvas
import SurfaceStudio.Settings
import SurfaceStudio.Text.Number
/-!
Submitted values read as what they have to be: texts, doubles, points, and arrays of doubles that
are nested in any way. A value that cannot be read so is a fault.
-/

namespace SurfaceStudio

namespace Json

/-- A text, which null leaves empty. -/
def textOrEmpty : Json → Except Fault String
  | .null => .ok ""
  | .str s => .ok s
  | _ => .error .notText

/-- An integer as the nearest double. -/
def doubleOfInteger (n : Int) : Except Fault Float :=
  match Decimal.ofInteger? n with
  | some x => .ok x
  | none => .error .integerBeyondDoubles

/-- A number as a double. A text has to spell a number. -/
def double : Json → Except Fault Float
  | .float x => .ok x
  | .int n => doubleOfInteger n
  | .bool b => .ok (if b then 1 else 0)
  | .str s =>
    match Text.real? s with
    | some x => .ok x
    | none => .error .malformedNumber
  | _ => .error .notANumber

/-- A number as an entry of an array, where null stands for an undefined one. -/
def entry : Json → Except Fault Float
  | .null => .ok (0 / 0)
  | v => v.double

/-! ## Nested lists -/

mutual

/-- The shape of nested lists; none if the items of a list differ in shape. -/
def shape? : Json → Option (List Nat)
  | .list items => shapeOfItems? items
  | _ => some []

/-- The shape of a list of nested lists. The items of an empty list have no shape of their own. -/
def shapeOfItems? : List Json → Option (List Nat)
  | [] => some [0]
  | v :: rest =>
    match v.shape?, shapeOfItems? rest with
    | some dims, some (0 :: _) => some (1 :: dims)
    | some dims, some (n :: others) => if dims = others then some ((n + 1) :: dims) else none
    | _, _ => none

end

mutual

/-- The values in nested lists, in order. -/
def leaves : Json → List Json
  | .list items => leavesOfItems items
  | v => [v]

/-- The values in a list of nested lists. -/
def leavesOfItems : List Json → List Json
  | [] => []
  | v :: rest => v.leaves ++ leavesOfItems rest

end

/-- Nested lists of numbers as an array. -/
def array (v : Json) : Except Fault (Tensor Float) :=
  match v.shape? with
  | none => .error .raggedList
  | some dims =>
    if Settings.maxDimensions < dims.length then .error .tooDeeplyNested
    else (v.leaves.mapM entry).map fun xs => .ofEntries dims xs.toArray 0

/-- A list of samples. Rows in place of single numbers cannot be summed up to one, and deeper lists
have no shape for it. -/
def samples (items : List Json) : Except Fault (List Float) := do
  let t ← (Json.list items).array
  match t.shape with
  | [_] => .ok t.entries
  | [_, _] => .error .notANumber
  | _ => .error .shapesDiffer

/-- Nested lists of numbers as points: the numbers are taken in pairs, whatever the nesting. -/
def pointList (v : Json) : Except Fault (List (Point Float)) := do
  let t ← v.array
  match Point.pairs? t.entries with
  | some ps => .ok ps
  | none => .error .oddCoordinates

end Json

/-- A point of submitted coordinates. -/
def Point.read (p : Point Json) : Except Fault (Point Float) := do
  return ⟨← p.x.double, ← p.y.double⟩

/-- A canvas of submitted sides. -/
def Canvas.read (c : Canvas Json) : Except Fault (Canvas Float) := do
  return ⟨← c.width.double, ← c.height.double⟩

/-- A canvas with each side changed. -/
def Canvas.map {α β : Type} (f : α → β) (c : Canvas α) : Canvas β := ⟨f c.width, f c.height⟩

end SurfaceStudio
