import SurfaceStudio.Formula.Parser
/-!
# The grammar of expressions

The grammar as a relation between tokens and expressions, written down without regard to how tokens
are read. Sums and terms are built from the left, one rule a step, so that the tree of a phrase is
fixed by the rules alone; a name is resolved by the rule that uses it.

A grammar leaves two things open: the names of the variables, and how many arguments a function may
be given. `Grammar.over` fills in the latter by the arities of the functions.
-/

namespace SurfaceStudio.Formula

/-- The variables of a grammar, and the numbers of arguments that it admits for a function. -/
structure Grammar where
  names : List String
  admits : Fn → Nat → Bool

/-- The grammar of expressions over some variables. -/
def Grammar.over (names : List String) : Grammar := ⟨names, fun fn n => fn.arity.admits n⟩

/-- The phrases of the grammar, from the loosest binding to the tightest. -/
inductive Phrase where
  | sum
  | term
  | factor
  | power
  | primary
  deriving DecidableEq

/-- An identifier that spells neither pi nor a function. -/
structure IsPlainName (t : Token) : Prop where
  kind : t.kind = .identifier
  notPi : ¬ isPi t.text
  notFunction : Fn.ofName? t.text = none

/-- An identifier that names a function. -/
structure IsFunctionName (t : Token) (fn : Fn) : Prop where
  kind : t.kind = .identifier
  notPi : ¬ isPi t.text
  function : Fn.ofName? t.text = some fn

mutual

/-- The tokens make up a phrase that stands for an expression. -/
inductive Derives (g : Grammar) : Phrase → List Token → Formula → Prop where
  | term {ts f} : Derives g .term ts f → Derives g .sum ts f
  | join {ts t us op l r} : Derives g .sum ts l → additive? t.kind = some op →
      Derives g .term us r → Derives g .sum (ts ++ t :: us) (.binary op l r)
  | factor {ts f} : Derives g .factor ts f → Derives g .term ts f
  | scale {ts t us op l r} : Derives g .term ts l → multiplicative? t.kind = some op →
      Derives g .factor us r → Derives g .term (ts ++ t :: us) (.binary op l r)
  | power {ts f} : Derives g .power ts f → Derives g .factor ts f
  | signed {t ts s f} : sign? t.kind = some s → Derives g .factor ts f →
      Derives g .factor (t :: ts) (.signed s f)
  | primary {ts f} : Derives g .primary ts f → Derives g .power ts f
  | raise {ts t us b e} : Derives g .primary ts b → t.kind = .caret → Derives g .factor us e →
      Derives g .power (ts ++ t :: us) (.binary .pow b e)
  | number {t x} : t.kind = .number x → Derives g .primary [t] (.number x)
  | pi {t} : t.kind = .identifier → isPi t.text → Derives g .primary [t] (.number pi)
  | variable {t} : IsPlainName t → t.text ∈ g.names →
      Derives g .primary [t] (.variable t.text)
  | group {o ts c f} : o.kind = .opening → Derives g .sum ts f → c.kind = .closing →
      Derives g .primary (o :: (ts ++ [c])) f
  | call {t fn o ts c first more} : IsFunctionName t fn → o.kind = .opening →
      DerivesArguments g ts first more → c.kind = .closing → g.admits fn (more.length + 1) →
      Derives g .primary (t :: o :: (ts ++ [c])) (.call fn first more)

/-- The tokens are the arguments of a call: sums, parted by commas. -/
inductive DerivesArguments (g : Grammar) : List Token → Formula → List Formula → Prop where
  | last {ts f} : Derives g .sum ts f → DerivesArguments g ts f []
  | next {ts t us f first more} : Derives g .sum ts f → t.kind = .comma →
      DerivesArguments g us first more → DerivesArguments g (ts ++ t :: us) f (first :: more)

end

end SurfaceStudio.Formula
