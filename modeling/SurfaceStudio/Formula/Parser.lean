import SurfaceStudio.Formula.Basic
import SurfaceStudio.Formula.Lexer
import SurfaceStudio.Text.LowerCase
/-!
Reading an expression from its tokens, from the loosest binding to the tightest:

    sum     := term (('+' | '-') term)*
    term    := factor (('*' | '/') factor)*
    factor  := ('+' | '-') factor | power
    power   := primary ('^' factor)?
    primary := number | 'pi' | variable | function '(' sum (',' sum)* ')' | '(' sum ')'

Each function takes the tokens that are left and returns the rest with a proof that it is shorter,
which is why the recursion ends. Names are resolved here: `pi` in any letter case, a function, which
must be called, or an allowed variable, which must not.
-/

namespace SurfaceStudio.Formula

/-- What a name may stand for, and where the expression ends. -/
structure Scope where
  names : List String
  finish : Nat

/-- An expression read from `ts`, and the shorter rest. -/
structure Parsed (ts : List Token) where
  formula : Formula
  rest : List Token
  shorter : rest.length < ts.length

/-- An expression read before `ts` and extended by some of its tokens. -/
structure Extended (ts : List Token) where
  formula : Formula
  rest : List Token
  noLonger : rest.length ≤ ts.length

/-- The arguments of a call read from `ts` with the closing parenthesis, and the shorter rest. -/
structure Arguments (ts : List Token) where
  first : Formula
  more : List Formula
  rest : List Token
  shorter : rest.length < ts.length

/-- The fault that something else was asked for at the head of the tokens. -/
def Scope.expected (scope : Scope) (what : Expectation) : List Token → Fault
  | [] => ⟨.expected what none, scope.finish⟩
  | t :: _ => ⟨.expected what (some t.text), t.position⟩

/-- The operation of a sum. -/
def additive? : Token.Kind → Option Operation
  | .plus => some .add
  | .minus => some .sub
  | _ => none

/-- The operation of a term. -/
def multiplicative? : Token.Kind → Option Operation
  | .star => some .mul
  | .slash => some .div
  | _ => none

/-- The sign of a factor. -/
def sign? : Token.Kind → Option Sign
  | .plus => some .plus
  | .minus => some .minus
  | _ => none

/-- The constant pi as a double. -/
def pi : Float := 3.141592653589793

/-- The name of the constant pi, in any letter case. -/
def isPi (name : String) : Bool := Text.lower name = "pi"

mutual

/-- Reads a sum. -/
def sum (scope : Scope) (ts : List Token) : Except Fault (Parsed ts) :=
  match term scope ts with
  | .error fault => .error fault
  | .ok ⟨left, rest, h⟩ =>
    match sumTail scope left rest with
    | .error fault => .error fault
    | .ok ⟨f, rest', h'⟩ => .ok ⟨f, rest', by omega⟩
termination_by (ts.length, 5)
decreasing_by
  · exact Prod.Lex.right _ (by decide)
  · exact Prod.Lex.left _ _ h

/-- Extends a sum by further terms. -/
def sumTail (scope : Scope) (left : Formula) (ts : List Token) : Except Fault (Extended ts) :=
  match ts with
  | [] => .ok ⟨left, [], Nat.le_refl _⟩
  | t :: rest =>
    match additive? t.kind with
    | none => .ok ⟨left, t :: rest, Nat.le_refl _⟩
    | some op =>
      match term scope rest with
      | .error fault => .error fault
      | .ok ⟨right, rest', h⟩ =>
        match sumTail scope (.binary op left right) rest' with
        | .error fault => .error fault
        | .ok ⟨f, rest'', h'⟩ => .ok ⟨f, rest'', by simp only [List.length_cons]; omega⟩
termination_by (ts.length, 0)
decreasing_by
  · exact Prod.Lex.left _ _ (by simp)
  · exact Prod.Lex.left _ _ (by simp only [List.length_cons]; omega)

/-- Reads a term. -/
def term (scope : Scope) (ts : List Token) : Except Fault (Parsed ts) :=
  match factor scope ts with
  | .error fault => .error fault
  | .ok ⟨left, rest, h⟩ =>
    match termTail scope left rest with
    | .error fault => .error fault
    | .ok ⟨f, rest', h'⟩ => .ok ⟨f, rest', by omega⟩
termination_by (ts.length, 4)
decreasing_by
  · exact Prod.Lex.right _ (by decide)
  · exact Prod.Lex.left _ _ h

/-- Extends a term by further factors. -/
def termTail (scope : Scope) (left : Formula) (ts : List Token) : Except Fault (Extended ts) :=
  match ts with
  | [] => .ok ⟨left, [], Nat.le_refl _⟩
  | t :: rest =>
    match multiplicative? t.kind with
    | none => .ok ⟨left, t :: rest, Nat.le_refl _⟩
    | some op =>
      match factor scope rest with
      | .error fault => .error fault
      | .ok ⟨right, rest', h⟩ =>
        match termTail scope (.binary op left right) rest' with
        | .error fault => .error fault
        | .ok ⟨f, rest'', h'⟩ => .ok ⟨f, rest'', by simp only [List.length_cons]; omega⟩
termination_by (ts.length, 0)
decreasing_by
  · exact Prod.Lex.left _ _ (by simp)
  · exact Prod.Lex.left _ _ (by simp only [List.length_cons]; omega)

/-- Reads a factor: signs, and a power after them. -/
def factor (scope : Scope) (ts : List Token) : Except Fault (Parsed ts) :=
  match ts with
  | [] => .error (scope.expected .operand [])
  | t :: rest =>
    match sign? t.kind with
    | some sign =>
      match factor scope rest with
      | .error fault => .error fault
      | .ok ⟨f, rest', h⟩ =>
        .ok ⟨.signed sign f, rest', by simp only [List.length_cons]; omega⟩
    | none => power scope (t :: rest)
termination_by (ts.length, 3)
decreasing_by
  · exact Prod.Lex.left _ _ (by simp)
  · exact Prod.Lex.right _ (by decide)

/-- Reads a primary and its exponent. -/
def power (scope : Scope) (ts : List Token) : Except Fault (Parsed ts) :=
  match primary scope ts with
  | .error fault => .error fault
  | .ok ⟨base, rest, h⟩ =>
    match rest with
    | ⟨.caret, _, _⟩ :: rest' =>
      match factor scope rest' with
      | .error fault => .error fault
      | .ok ⟨exponent, rest'', h'⟩ =>
        .ok ⟨.binary .pow base exponent, rest'', by simp at h; omega⟩
    | rest => .ok ⟨base, rest, h⟩
termination_by (ts.length, 2)
decreasing_by
  · exact Prod.Lex.right _ (by decide)
  · exact Prod.Lex.left _ _ (by simp at h; omega)

/-- Reads a number, a name or an expression in parentheses. -/
def primary (scope : Scope) (ts : List Token) : Except Fault (Parsed ts) :=
  match ts with
  | ⟨.number value, _, _⟩ :: rest => .ok ⟨.number value, rest, by simp⟩
  | ⟨.opening, _, _⟩ :: rest =>
    match sum scope rest with
    | .error fault => .error fault
    | .ok ⟨f, rest', h⟩ =>
      match rest' with
      | ⟨.closing, _, _⟩ :: rest'' =>
        .ok ⟨f, rest'', by simp only [List.length_cons] at h ⊢; omega⟩
      | rest' => .error (scope.expected .closing rest')
  | ⟨.identifier, name, position⟩ :: rest =>
    if isPi name then .ok ⟨.number pi, rest, by simp⟩
    else match Fn.ofName? name with
      | some fn =>
        match rest with
        | ⟨.opening, _, _⟩ :: rest' =>
          match arguments scope rest' with
          | .error fault => .error fault
          | .ok ⟨first, more, rest'', h⟩ =>
            if fn.arity.admits (more.length + 1) then
              .ok ⟨.call fn first more, rest'', by simp only [List.length_cons]; omega⟩
            else .error ⟨.wrongArity name fn.arity (more.length + 1), position⟩
        | _ => .error ⟨.notCalled name, position⟩
      | none =>
        if name ∈ scope.names then
          match rest with
          | ⟨.opening, _, _⟩ :: _ => .error ⟨.notFunction name, position⟩
          | rest => .ok ⟨.variable name, rest, by simp⟩
        else .error ⟨.unknownIdentifier name, position⟩
  | ts => .error (scope.expected .operand ts)
termination_by (ts.length, 1)
decreasing_by
  · exact Prod.Lex.left _ _ (by simp)
  · exact Prod.Lex.left _ _ (by simp only [List.length_cons]; omega)

/-- Reads the arguments of a call up to its closing parenthesis. -/
def arguments (scope : Scope) (ts : List Token) : Except Fault (Arguments ts) :=
  match sum scope ts with
  | .error fault => .error fault
  | .ok ⟨f, rest, h⟩ =>
    match rest with
    | ⟨.comma, _, _⟩ :: rest' =>
      match arguments scope rest' with
      | .error fault => .error fault
      | .ok ⟨g, more, rest'', h'⟩ => .ok ⟨f, g :: more, rest'', by simp at h; omega⟩
    | ⟨.closing, _, _⟩ :: rest' => .ok ⟨f, [], rest', by simp at h; omega⟩
    | rest => .error (scope.expected .commaOrClosing rest)
termination_by (ts.length, 6)
decreasing_by
  · exact Prod.Lex.right _ (by decide)
  · exact Prod.Lex.left _ _ (by simp at h; omega)

end

/-- Reads an expression from all of its tokens; `finish` is the place after the last one. -/
def ofTokens (names : List String) (finish : Nat) (ts : List Token) : Except Fault Formula :=
  let scope : Scope := ⟨names, finish⟩
  match sum scope ts with
  | .error fault => .error fault
  | .ok ⟨f, rest, _⟩ =>
    match rest with
    | [] => .ok f
    | rest => .error (scope.expected .operatorOrEnd rest)

/-- Reads an expression over some variables. -/
def parse (names : List String) (source : String) : Except Fault Formula :=
  match tokens source with
  | .error fault => .error fault
  | .ok ts => ofTokens names source.length ts

end SurfaceStudio.Formula
