import SurfaceStudio.Failure
import SurfaceStudio.Text.Blank
import SurfaceStudio.Text.Numeral
/-!
Integers written in decimal: an optional sign and digits of any script, of which two neighbours may
be parted by one underscore, with white space around.
-/

namespace SurfaceStudio.Text

/-- Reads further digits onto `value`. -/
def digitsOnto (value : Nat) : List Char → Option Nat
  | [] => some value
  | '_' :: c :: rest => do digitsOnto (value * 10 + (← digitValue? c)) rest
  | c :: rest => do digitsOnto (value * 10 + (← digitValue? c)) rest

/-- The number spelt by digits, single underscores between them allowed. -/
def natural? : List Char → Option Nat
  | [] => none
  | c :: rest => do digitsOnto (← digitValue? c) rest

/-- The number spelt by an optional sign and digits. -/
def signed? : List Char → Option Int
  | '-' :: rest => (natural? rest).map fun n => -(n : Int)
  | '+' :: rest => (natural? rest).map Int.ofNat
  | cs => (natural? cs).map Int.ofNat

/-- The integer a text spells, white space around it ignored. One of too many digits is not read, even
where they are zeros in front. -/
def integer (s : String) : Except Fault Int :=
  let cs := trimWhile isSpace s.toList
  match signed? cs with
  | none => .error .malformedInteger
  | some n =>
    if Settings.maxIntegerDigits < cs.countP fun c => (digitValue? c).isSome then
      .error .integerTooLong
    else .ok n

end SurfaceStudio.Text
