import SurfaceStudio.Text.Number
import SurfaceStudio.Json.Basic
/-!
Forms: what the fields of a message may hold. A reading of a field either gives a value or the list
of all defects, each with its place; two readings side by side gather the defects of both.
-/

namespace SurfaceStudio.Service

/-- What may be wrong with a field. -/
inductive Defect where
  | missing
  | notText
  | notInteger
  | integerText
  | integerSize
  | fraction
  | notFinite
  | notNumber
  | numberText
  | notFlag
  | flagText
  | tooSmall
  | notList
  | notPair
  | tooLong
  | notObject
  | notDocument
  | unreadable
  deriving Repr, DecidableEq

/-- The name of a defect. -/
def Defect.name : Defect → String
  | .missing => "missing"
  | .notText => "string_type"
  | .notInteger => "int_type"
  | .integerText => "int_parsing"
  | .integerSize => "int_parsing_size"
  | .fraction => "int_from_float"
  | .notFinite => "finite_number"
  | .notNumber => "float_type"
  | .numberText => "float_parsing"
  | .notFlag => "bool_type"
  | .flagText => "bool_parsing"
  | .tooSmall => "greater_than"
  | .notList => "list_type"
  | .notPair => "tuple_type"
  | .tooLong => "too_long"
  | .notObject => "model_attributes_type"
  | .notDocument => "dict_type"
  | .unreadable => "json_invalid"

/-- One step on the way to a field: into a member or into an item. -/
inductive PathStep where
  | key (name : String)
  | index (i : Nat)
  deriving Repr, DecidableEq

/-- A defect, the way to its place, and the value that is quoted with it. -/
structure Complaint where
  path : List PathStep
  defect : Defect
  quoted : Json

/-- A value, or all that is wrong. -/
abbrev Checked (α : Type) := Except (List Complaint) α

namespace Form

variable {α β : Type}

/-- A single defect at the place that is read. -/
def defect (d : Defect) (v : Json) : Checked α := .error [⟨[], d, v⟩]

/-- The complaints about a part of the value. -/
def inside (step : PathStep) : Checked α → Checked α
  | .ok a => .ok a
  | .error cs => .error (cs.map fun c => { c with path := step :: c.path })

/-- Two readings side by side. -/
def both : Checked α → Checked β → Checked (α × β)
  | .ok a, .ok b => .ok (a, b)
  | .ok _, .error ds => .error ds
  | .error cs, .ok _ => .error cs
  | .error cs, .error ds => .error (cs ++ ds)

/-! ## Single values -/

/-- A text. -/
def text : Json → Checked String
  | .str s => .ok s
  | v => defect .notText v

/-- An integer of 64 bits. -/
def isWord (n : Int) : Bool := -9223372036854775808 ≤ n && n ≤ 9223372036854775807

/-- A double as an integer, or the defect that keeps it from being one. -/
def integerOfDouble (x : Float) : Except Defect Int :=
  match Decimal.wholePart? x with
  | none => .error .notFinite
  | some n =>
    if !Decimal.isWhole x then .error .fraction
    else if isWord n && n != -9223372036854775808 then .ok n
    else .error .integerSize

/-- An integer, or what stands for one. -/
def integer (v : Json) : Checked Int :=
  match v with
  | .int n => .ok n
  | .bool b => .ok (if b then 1 else 0)
  | .float x =>
    match integerOfDouble x with
    | .ok n => .ok n
    | .error d => defect d v
  | .str s =>
    match Text.wholeNumber? s with
    | some n => if Json.isWritableInteger n then .ok n else defect .integerSize v
    | none => defect .integerText v
  | _ => defect .notInteger v

/-- A number, or what stands for one. -/
def number (v : Json) : Checked Float :=
  match v with
  | .float x => .ok x
  | .int n =>
    match Decimal.ofInteger? n with
    | some x => .ok x
    | none => defect .notNumber v
  | .bool b => .ok (if b then 1 else 0)
  | .str s =>
    match Text.real? s with
    | some x => .ok x
    | none => defect .numberText v
  | _ => defect .notNumber v

/-- A number above zero. -/
def positive (v : Json) : Checked Float :=
  match number v with
  | .ok x => if x > 0 then .ok x else defect .tooSmall v
  | .error cs => .error cs

/-- The words for yes. -/
def yesWords : List String := ["1", "t", "y", "on", "yes", "true"]

/-- The words for no. -/
def noWords : List String := ["0", "f", "n", "no", "off", "false"]

/-- A small integer as a flag. -/
def flagOfInteger (n : Int) : Except Defect Bool :=
  if n = 0 then .ok false else if n = 1 then .ok true else .error .flagText

/-- A word as a flag, in letters of any case. -/
def flagOfWord (s : String) : Except Defect Bool :=
  let word := s.toLower
  if noWords.contains word then .ok false
  else if yesWords.contains word then .ok true
  else .error .flagText

/-- A value as a flag, or the defect that keeps it from being one. -/
def flagOrDefect : Json → Except Defect Bool
  | .bool b => .ok b
  | .str s => flagOfWord s
  | .int n => if isWord n then flagOfInteger n else .error .notFlag
  | .float x =>
    match integerOfDouble x with
    | .ok n => flagOfInteger n
    | .error _ => .error .notFlag
  | _ => .error .notFlag

/-- A flag, or what stands for one. -/
def flag (v : Json) : Checked Bool :=
  match flagOrDefect v with
  | .ok b => .ok b
  | .error d => defect d v

/-- A value that may be null. -/
def nullable (read : Json → Checked α) : Json → Checked (Option α)
  | .null => .ok none
  | v => (read v).map some

/-! ## Parts of a value -/

/-- Readings of the items from place `i` on. -/
def itemsFrom (read : Json → Checked α) (i : Nat) : List Json → Checked (List α)
  | [] => .ok []
  | v :: rest =>
    (both (inside (.index i) (read v)) (itemsFrom read (i + 1) rest)).map fun p => p.1 :: p.2

/-- A list. -/
def list (read : Json → Checked α) : Json → Checked (List α)
  | .list items => itemsFrom read 0 items
  | v => defect .notList v

/-- An item that a list has to have. A missing one is reported with the list. -/
def item (read : Json → Checked α) (i : Nat) (items : List Json) : Checked α :=
  inside (.index i) (match items[i]? with
    | some v => read v
    | none => defect .missing (.list items))

/-- A list of two. -/
def pair (read : Json → Checked α) : Json → Checked (α × α)
  | .list items =>
    if 2 < items.length then defect .tooLong (.list items)
    else both (item read 0 items) (item read 1 items)
  | v => defect .notPair v

/-- A member that an object has to have. A missing one is reported with the object. -/
def required (key : String) (read : Json → Checked α) (members : List (String × Json)) :
    Checked α :=
  inside (.key key) (match Json.lookup key members with
    | some v => read v
    | none => defect .missing (.object members))

/-- A member that an object may lack. -/
def optional (key : String) (default : α) (read : Json → Checked α)
    (members : List (String × Json)) : Checked α :=
  match Json.lookup key members with
  | some v => inside (.key key) (read v)
  | none => .ok default

end Form

end SurfaceStudio.Service
