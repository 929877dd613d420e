import SurfaceStudio.Formula.Token
/-!
Cutting an expression into tokens. Blanks part tokens and are dropped; at every other place the
longest token that starts there is taken.
-/

namespace SurfaceStudio.Formula

open Decimal (isDigit)

/-- The first character is a digit. -/
def startsWithDigit : List Char → Bool
  | [] => false
  | c :: _ => isDigit c

/-- A point and the digits after it. -/
def pointPart : List Char → List Char
  | '.' :: rest => '.' :: rest.takeWhile isDigit
  | _ => []

/-- A power of ten: `e` or `E`, an optional sign and digits. Without a digit there is none. -/
def powerPart : List Char → List Char
  | e :: rest =>
    if e = 'e' || e = 'E' then
      match rest with
      | s :: more =>
        if s = '+' || s = '-' then
          if startsWithDigit more then e :: s :: more.takeWhile isDigit else []
        else if isDigit s then e :: rest.takeWhile isDigit else []
      | [] => []
    else []
  | [] => []

/-- The numeral at the front of `cs`: digits, a point with further digits, a power of ten. -/
def numeral (cs : List Char) : List Char :=
  let whole := cs.takeWhile isDigit
  let part := pointPart (cs.drop whole.length)
  whole ++ part ++ powerPart (cs.drop (whole.length + part.length))

/-- A character that continues an identifier. -/
def isWordChar (c : Char) : Bool := Text.isAlphanumeric c || c = '_'

/-- A character that starts an identifier. -/
def startsWord (c : Char) : Bool := Text.isLetter c || c = '_'

/-- The kinds of tokens of one character, the star apart. -/
def singleKind? : Char → Option Token.Kind
  | '+' => some .plus
  | '-' => some .minus
  | '/' => some .slash
  | '^' => some .caret
  | '(' => some .opening
  | ')' => some .closing
  | ',' => some .comma
  | _ => none

/-- The token that starts with `c`, if one does: its kind and its characters after `c`. -/
def lexeme? (c : Char) (rest : List Char) : Option (Token.Kind × List Char) :=
  if isDigit c || (c = '.' && startsWithDigit rest) then
    let text := numeral (c :: rest)
    some (.number (Decimal.numeralValue text), text.drop 1)
  else if startsWord c then some (.identifier, rest.takeWhile isWordChar)
  else if c = '*' then
    match rest with
    | '*' :: _ => some (.caret, ['*'])
    | _ => some (.star, [])
  else (singleKind? c).map fun kind => (kind, [])

/-- The tokens of the characters from `position` on. -/
def scan (position : Nat) : List Char → Except Fault (List Token)
  | [] => .ok []
  | c :: rest =>
    if Text.isBlank c then scan (position + 1) rest
    else match lexeme? c rest with
      | none => .error ⟨.unexpectedCharacter c, position⟩
      | some (kind, tail) =>
        match scan (position + 1 + tail.length) (rest.drop tail.length) with
        | .error fault => .error fault
        | .ok tokens => .ok (⟨kind, String.ofList (c :: tail), position⟩ :: tokens)
termination_by cs => cs.length
decreasing_by all_goals (simp; try omega)

/-- The tokens of an expression. -/
def tokens (source : String) : Except Fault (List Token) := scan 0 source.toList

/-- What stands in an expression: a token, or the end of the text. -/
inductive Symbol where
  | token (t : Token)
  | finish (position : Nat)
  deriving DecidableEq

/-- The tokens of an expression and the end of its text after them. -/
def tokenize (source : String) : Except Fault (List Symbol) :=
  (tokens source).map fun ts => ts.map .token ++ [.finish source.length]

end SurfaceStudio.Formula
