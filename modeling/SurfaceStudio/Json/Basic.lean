import SurfaceStudio.Decimal.Rounding
import SurfaceStudio.Settings
/-!
JSON values. Integers and doubles are told apart, and the members of an object keep the order in
which their keys first came.
-/

namespace SurfaceStudio

/-- A JSON value. -/
inductive Json where
  | null
  | bool (b : Bool)
  | int (n : Int)
  | float (x : Float)
  | str (s : String)
  | list (items : List Json)
  | object (members : List (String × Json))
  deriving Inhabited

namespace Json

/-- The value of a key among the members of an object. -/
def lookup (key : String) : List (String × Json) → Option Json
  | [] => none
  | (k, v) :: rest => if k = key then some v else lookup key rest

/-- Sets a key: a known key keeps its place, a new one goes to the end. -/
def insert (key : String) (value : Json) : List (String × Json) → List (String × Json)
  | [] => [(key, value)]
  | (k, v) :: rest => if k = key then (k, value) :: rest else (k, v) :: insert key value rest

/-- The member of an object; none for a missing key and for a value that is no object. -/
def get? (key : String) : Json → Option Json
  | .object members => lookup key members
  | _ => none

/-- Values that count as nothing: null, false, zero and everything empty. -/
def isFalsy : Json → Bool
  | .null => true
  | .bool b => !b
  | .int n => n == 0
  | .float x => x == 0
  | .str s => s.isEmpty
  | .list items => items.isEmpty
  | .object members => members.isEmpty

/-- A missing key and null are the same to most readers. -/
def present? (key : String) (members : List (String × Json)) : Option Json :=
  match lookup key members with
  | some .null => none
  | found => found

mutual

/-- All doubles in a value are finite. -/
def allFinite : Json → Bool
  | .float x => x.isFinite
  | .list items => allFiniteItems items
  | .object members => allFiniteMembers members
  | _ => true

/-- All doubles in the items of a list are finite. -/
def allFiniteItems : List Json → Bool
  | [] => true
  | v :: rest => v.allFinite && allFiniteItems rest

/-- All doubles in the members of an object are finite. -/
def allFiniteMembers : List (String × Json) → Bool
  | [] => true
  | (_, v) :: rest => v.allFinite && allFiniteMembers rest

end

/-- An integer with few enough digits to be written. -/
def isWritableInteger (n : Int) : Bool :=
  (Decimal.digits n.natAbs).length ≤ Settings.maxIntegerDigits

mutual

/-- All integers in a value have few enough digits to be written. -/
def isWritable : Json → Bool
  | .int n => isWritableInteger n
  | .list items => areWritableItems items
  | .object members => areWritableMembers members
  | _ => true

/-- All integers in the items of a list have few enough digits. -/
def areWritableItems : List Json → Bool
  | [] => true
  | v :: rest => v.isWritable && areWritableItems rest

/-- All integers in the members of an object have few enough digits. -/
def areWritableMembers : List (String × Json) → Bool
  | [] => true
  | (_, v) :: rest => v.isWritable && areWritableMembers rest

end

end Json

end SurfaceStudio
