import SurfaceStudio.Text.Blank
import SurfaceStudio.Decimal.Numeral
/-!
Numbers typed into a field of a form. White space around a number is ignored; single underscores may
part its digits, but not next to white space in a number that need not be whole.
-/

namespace SurfaceStudio.Text

open Decimal (isDigit digitsValue numeralValue)

/-- Two underscores stand next to each other. -/
def hasDoubleUnderscore : List Char → Bool
  | '_' :: '_' :: _ => true
  | _ :: rest => hasDoubleUnderscore rest
  | [] => false

/-- A text without the single underscores in it; none if one stands at an end or next to another. -/
def withoutSeparators? (cs : List Char) : Option (List Char) :=
  if cs.head? == some '_' || cs.getLast? == some '_' || hasDoubleUnderscore cs then none
  else some (cs.filter (· != '_'))

/-- At least one digit and nothing else. -/
def areDigits (cs : List Char) : Bool := !cs.isEmpty && cs.all isDigit

/-- What follows leading zeros, of which `last` is the last one: further zeros and underscores are
skipped up to another digit or a sign, and in front of a point one character is kept. -/
def afterZeros? (last : Char) : List Char → Option (List Char)
  | [] => some [last]
  | c :: rest =>
    if c == '0' || c == '_' then afterZeros? c rest
    else if isDigit c || c == '-' then some (c :: rest)
    else if c == '.' then some (last :: c :: rest)
    else none

/-- A text without its leading zeros; none if it starts with neither a digit nor a sign. -/
def withoutLeadingZeros? : List Char → Option (List Char)
  | '0' :: rest => afterZeros? '0' rest
  | c :: rest => if isDigit c || c == '-' then some (c :: rest) else none
  | [] => none

/-- A text without a point and the zeros after it; at least one zero has to be there. -/
def withoutZeroFraction (cs : List Char) : List Char :=
  let whole := cs.takeWhile (· != '.')
  match cs.drop (whole.length + 1) with
  | [] => cs
  | part => if part.all (· == '0') then whole else cs

/-- Digits of which the first is not zero, or zero alone. -/
def plainNatural? (cs : List Char) : Option Nat :=
  if areDigits cs && (cs.head? != some '0' || cs == ['0']) then some (digitsValue cs) else none

/-- The whole number that a text without white space and plus sign spells, `negative` if a minus
sign was taken off before. Zeros in front, a fraction of zeros and underscores between digits do not
count; a minus sign may also stand behind the zeros. -/
def cleanedWhole? (negative : Bool) (cs : List Char) : Option Int := do
  let rest ← withoutLeadingZeros? cs
  let digits ← withoutSeparators? (withoutZeroFraction rest)
  match digits, negative with
  | '-' :: ds, false => (plainNatural? ds).map fun n => -(n : Int)
  | ds, true => (plainNatural? ds).map fun n => -(n : Int)
  | ds, false => (plainNatural? ds).map Int.ofNat

/-- The whole number that a text spells. -/
def wholeNumber? (s : String) : Option Int :=
  match trimWhile isSpace s.toList with
  | '+' :: '-' :: _ => none
  | '+' :: rest => cleanedWhole? false rest
  | '-' :: rest => cleanedWhole? true rest
  | cs => cleanedWhole? false cs

/-- Digits with a point before, among or after them. -/
def isMantissa (cs : List Char) : Bool :=
  let whole := cs.takeWhile isDigit
  match cs.drop whole.length with
  | [] => !whole.isEmpty
  | '.' :: part => part.all isDigit && !(whole.isEmpty && part.isEmpty)
  | _ => false

/-- Nothing, or the mark of a power of ten with an optional sign and digits. -/
def isPower : List Char → Bool
  | [] => true
  | _ :: '+' :: ds => areDigits ds
  | _ :: '-' :: ds => areDigits ds
  | _ :: ds => areDigits ds

/-- The number that a text without sign spells: a numeral, or a word for infinity or for what is no
number, in letters of any case. -/
def unsignedReal? (cs : List Char) : Option Float :=
  let word := String.ofList (cs.map Char.toLower)
  if word == "inf" || word == "infinity" then some (1 / 0)
  else if word == "nan" then some (0 / 0)
  else
    let mantissa := cs.takeWhile fun c => c != 'e' && c != 'E'
    if isMantissa mantissa && isPower (cs.drop mantissa.length) then some (numeralValue cs)
    else none

/-- The number that characters spell. -/
def signedReal? : List Char → Option Float
  | '-' :: rest => (unsignedReal? rest).map fun x => -x
  | '+' :: rest => unsignedReal? rest
  | cs => unsignedReal? cs

/-- The number that a text spells, with white space around it or else with underscores in it. -/
def real? (s : String) : Option Float :=
  match signedReal? (trimWhile isSpace s.toList) with
  | some x => some x
  | none => (withoutSeparators? s.toList).bind signedReal?

end SurfaceStudio.Text
