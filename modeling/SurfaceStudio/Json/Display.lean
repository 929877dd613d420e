import SurfaceStudio.Failure
import SurfaceStudio.Decimal.Shortest
import SurfaceStudio.Text.Quoted
/-!
The text of a JSON value where a value stands in a field or a message: a text as it is, a number in
its shortest form, `None`, `True` and `False` for the three words, lists in brackets and objects in
braces, the texts inside those in quotation marks.
-/

namespace SurfaceStudio.Json

mutual

/-- A value inside a list or an object. -/
def inner : Json → String
  | .null => "None"
  | .bool true => "True"
  | .bool false => "False"
  | .int n => toString n
  | .float x => Decimal.text x
  | .str s => Text.quoted s
  | .list items => "[" ++ ", ".intercalate (innerAll items) ++ "]"
  | .object members => "\x7b" ++ ", ".intercalate (innerMembers members) ++ "\x7d"

/-- The items of a list. -/
def innerAll : List Json → List String
  | [] => []
  | v :: rest => v.inner :: innerAll rest

/-- The members of an object. -/
def innerMembers : List (String × Json) → List String
  | [] => []
  | (k, v) :: rest => (Text.quoted k ++ ": " ++ v.inner) :: innerMembers rest

end

/-- A value as the text of a field: like `inner`, and a text without quotation marks. A value with an
integer of too many digits in it has no text. -/
def display : Json → Except Fault String
  | .str s => .ok s
  | v => if v.isWritable then .ok v.inner else .error .integerTooLong

end SurfaceStudio.Json
