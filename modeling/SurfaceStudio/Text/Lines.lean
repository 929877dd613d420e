/-!
The lines of a text. A line ends at a line feed, a carriage return or both together, at a vertical
tab, a form feed, one of the three upper information separators, or one of the line separators of
Unicode.
-/

namespace SurfaceStudio.Text

/-- A character at which a line ends. -/
def endsLine (c : Char) : Bool :=
  let n := c.toNat
  (0xA ≤ n && n ≤ 0xD) || (0x1C ≤ n && n ≤ 0x1E) || n == 0x85 || n == 0x2028 || n == 0x2029

/-- The lines of a text of which the first has begun with the characters `begun`, the last one of
them first. -/
def linesFrom (begun : List Char) : List Char → List String
  | [] => if begun.isEmpty then [] else [String.ofList begun.reverse]
  | '\r' :: '\n' :: rest => String.ofList begun.reverse :: linesFrom [] rest
  | c :: rest =>
    if endsLine c then String.ofList begun.reverse :: linesFrom [] rest
    else linesFrom (c :: begun) rest

/-- The lines of a text, without what ends them. -/
def lines (s : String) : List String := linesFrom [] s.toList

end SurfaceStudio.Text
