import SurfaceStudio.Formula.Token
/-!
Expressions as trees. The functions of the language are listed here with their numbers of arguments;
a call always has a first argument.
-/

namespace SurfaceStudio

/-- The functions of the expression language. -/
inductive Formula.Fn where
  | sin | cos | tan
  | asin | acos | atan
  | sinh | cosh | tanh
  | exp | log | sqrt
  | abs | floor | ceil | round
  | pow
  | min | max
  deriving Repr, DecidableEq

/-- The sign in front of an operand. -/
inductive Formula.Sign where
  | plus
  | minus
  deriving Repr, DecidableEq

/-- The operations between two operands. -/
inductive Formula.Operation where
  | add
  | sub
  | mul
  | div
  | pow
  deriving Repr, DecidableEq

/-- An expression. -/
inductive Formula where
  | number (value : Float)
  | variable (name : String)
  | signed (sign : Formula.Sign) (operand : Formula)
  | binary (op : Formula.Operation) (left right : Formula)
  | call (fn : Formula.Fn) (first : Formula) (rest : List Formula)

namespace Formula

/-- All functions. -/
def Fn.all : List Fn :=
  [.sin, .cos, .tan, .asin, .acos, .atan, .sinh, .cosh, .tanh, .exp, .log, .sqrt, .abs, .floor,
   .ceil, .round, .pow, .min, .max]

/-- The name a function is called by. -/
def Fn.name : Fn → String
  | .sin => "sin"
  | .cos => "cos"
  | .tan => "tan"
  | .asin => "asin"
  | .acos => "acos"
  | .atan => "atan"
  | .sinh => "sinh"
  | .cosh => "cosh"
  | .tanh => "tanh"
  | .exp => "exp"
  | .log => "log"
  | .sqrt => "sqrt"
  | .abs => "abs"
  | .floor => "floor"
  | .ceil => "ceil"
  | .round => "round"
  | .pow => "pow"
  | .min => "min"
  | .max => "max"

/-- How many arguments a function takes. -/
def Fn.arity : Fn → Arity
  | .pow => .exactly 2
  | .min | .max => .atLeast 2
  | _ => .exactly 1

/-- The function of a name. -/
def Fn.ofName? (name : String) : Option Fn := Fn.all.find? (·.name == name)

/-- The character of a sign. -/
def Sign.text : Sign → String
  | .plus => "+"
  | .minus => "-"

/-- The character of an operation. -/
def Operation.text : Operation → String
  | .add => "+"
  | .sub => "-"
  | .mul => "*"
  | .div => "/"
  | .pow => "^"

mutual

/-- The variables of an expression in reading order, each as often as it stands there. -/
def occurrences : Formula → List String
  | .number _ => []
  | .variable name => [name]
  | .signed _ operand => operand.occurrences
  | .binary _ left right => left.occurrences ++ right.occurrences
  | .call _ first rest => first.occurrences ++ occurrencesOfAll rest

/-- The variables of several expressions. -/
def occurrencesOfAll : List Formula → List String
  | [] => []
  | f :: rest => f.occurrences ++ occurrencesOfAll rest

end

/-- Puts a name into a sorted list of names, unless it is there already. -/
def insertName (name : String) : List String → List String
  | [] => [name]
  | other :: rest =>
    if name = other then other :: rest
    else if name < other then name :: other :: rest
    else other :: insertName name rest

/-- The names of the variables of an expression, sorted, each once. -/
def freeVariables (f : Formula) : List String := f.occurrences.foldr insertName []

end Formula

end SurfaceStudio
