import SurfaceStudio.Failure
import SurfaceStudio.Decimal.Shortest
import SurfaceStudio.Text.Quoted
/-!
Writing JSON text, on one line or with one member or item a line, indented by two spaces a level.
-/

namespace SurfaceStudio.Json

/-- A character inside quotation marks. Quotation marks, backslashes and control characters are
escaped, all else stands for itself. -/
def escapedChar (c : Char) : List Char :=
  if c = '"' then ['\\', '"']
  else if c = '\\' then ['\\', '\\']
  else if c = '\n' then ['\\', 'n']
  else if c = '\r' then ['\\', 'r']
  else if c = '\t' then ['\\', 't']
  else if c = '\x0c' then ['\\', 'f']
  else if c = '\x08' then ['\\', 'b']
  else if c.toNat < 0x20 then '\\' :: 'u' :: Text.hexDigits 4 c.toNat
  else [c]

/-- A text in quotation marks. -/
def escaped (s : String) : String := String.ofList ('"' :: s.toList.flatMap escapedChar ++ ['"'])

/-- A double: its shortest text, and a word for what is no finite number. -/
def floatText (x : Float) : String :=
  match Decimal.Double.ofFloat x with
  | .undefined => "NaN"
  | .infinite true => "-Infinity"
  | .infinite false => "Infinity"
  | _ => Decimal.text x

/-- How the parts of a list or an object are laid out: on one line, or one a line at a depth. -/
inductive Layout where
  | compact
  | indented (depth : Nat)

/-- The layout one level further in. -/
def Layout.deeper : Layout → Layout
  | .compact => .compact
  | .indented depth => .indented (depth + 1)

/-- A line break and the spaces of a depth. -/
def lineBreak (depth : Nat) : String := "\n" ++ "".pushn ' ' (2 * depth)

/-- Parts between an opening and a closing bracket. -/
def Layout.bracket (l : Layout) (opening closing : String) (parts : List String) : String :=
  match l, parts with
  | _, [] => opening ++ closing
  | .compact, _ => opening ++ ", ".intercalate parts ++ closing
  | .indented depth, _ =>
    opening ++ lineBreak (depth + 1) ++ ("," ++ lineBreak (depth + 1)).intercalate parts ++
      lineBreak depth ++ closing

mutual

/-- A value in a layout. -/
def write (l : Layout) : Json → String
  | .null => "null"
  | .bool true => "true"
  | .bool false => "false"
  | .int n => toString n
  | .float x => floatText x
  | .str s => escaped s
  | .list items => l.bracket "[" "]" (writeAll l.deeper items)
  | .object members => l.bracket "\x7b" "\x7d" (writeMembers l.deeper members)

/-- The items of a list. -/
def writeAll (l : Layout) : List Json → List String
  | [] => []
  | v :: rest => v.write l :: writeAll l rest

/-- The members of an object. -/
def writeMembers (l : Layout) : List (String × Json) → List String
  | [] => []
  | (k, v) :: rest => (escaped k ++ ": " ++ v.write l) :: writeMembers l rest

end

/-- A value on one line. -/
def compact (v : Json) : String := v.write .compact

/-- A value in a layout, unless an integer in it has too many digits. -/
def written (l : Layout) (v : Json) : Except Fault String :=
  if v.isWritable then .ok (v.write l) else .error .integerTooLong

/-- A value with its parts on lines of their own. -/
def pretty (v : Json) : Except Fault String := v.written (.indented 0)

end SurfaceStudio.Json
