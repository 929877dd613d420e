import SurfaceStudio.Text.Blank
import SurfaceStudio.Text.Numeral
import SurfaceStudio.Decimal.Numeral
/-!
Tokens of the expression language, and the faults found in an expression. A fault has a place,
counted in characters from 0; its message counts from 1.
-/

namespace SurfaceStudio

/-- The kinds of tokens. -/
inductive Token.Kind where
  | number (value : Float)
  | identifier
  | plus
  | minus
  | star
  | slash
  | caret
  | opening
  | closing
  | comma
  deriving DecidableEq

/-- A token: its kind, the characters it is written with and the place of the first of them. -/
structure Token where
  kind : Token.Kind
  text : String
  position : Nat
  deriving DecidableEq

namespace Formula

/-- What the grammar asks for at some place. -/
inductive Expectation where
  | operatorOrEnd
  | closing
  | operand
  | commaOrClosing
  deriving Repr, DecidableEq

/-- How many arguments a function takes. -/
inductive Arity where
  | exactly (n : Nat)
  | atLeast (n : Nat)
  deriving Repr, DecidableEq

/-- Whether a function may be given `n` arguments. -/
def Arity.admits : Arity → Nat → Bool
  | .exactly m, n => n == m
  | .atLeast m, n => m ≤ n

/-- What is wrong with an expression. A found token is given by its text, the end of the expression
by none. -/
inductive Cause where
  | unexpectedCharacter (c : Char)
  | expected (what : Expectation) (found : Option String)
  | notCalled (function : String)
  | notFunction (variableName : String)
  | unknownIdentifier (name : String)
  | wrongArity (function : String) (arity : Arity) (given : Nat)
  deriving Repr, DecidableEq

/-- A fault in an expression and its place. -/
structure Fault where
  cause : Cause
  position : Nat
  deriving Repr, DecidableEq

/-- The wording of what is asked for. -/
def Expectation.text : Expectation → String
  | .operatorOrEnd => "an operator or end of expression"
  | .closing => "')'"
  | .operand => "a number, variable, function or '('"
  | .commaOrClosing => "',' or ')'"

/-- The wording of a number of arguments. -/
def Arity.text : Arity → String
  | .exactly n => toString n
  | .atLeast n => s!"at least {n}"

/-- The wording of what stands at a place. -/
def foundText : Option String → String
  | some text => s!"'{text}'"
  | none => "end of expression"

/-- The wording of a cause. -/
def Cause.message : Cause → String
  | .unexpectedCharacter c => s!"Unexpected character '{c}'"
  | .expected what found => "Expected " ++ what.text ++ ", found " ++ foundText found
  | .notCalled function => s!"Function '{function}' must be called with arguments"
  | .notFunction name => s!"'{name}' is not a function"
  | .unknownIdentifier name => s!"Unknown identifier '{name}'"
  | .wrongArity function arity given =>
    s!"Function '{function}' expects " ++ arity.text ++ s!" argument(s), got {given}"

/-- The wording of a fault, with its place counted from 1. -/
def Fault.message (f : Fault) : String := f.cause.message ++ s!" at position {f.position + 1}"

end Formula

end SurfaceStudio
