import SurfaceStudio.Formula.Parser
/-!
# The readers of the parser

Each function of the parser returns its rest along with a proof that it is shorter. Here are the
same functions without these proofs, as `read…`, and for each of them the equation that says what it
does in terms of the others. Everything else about the parser is proved from these equations.
-/

namespace SurfaceStudio.Formula

variable (scope : Scope)

/-- What a reader has read and what it has left, or the fault it has found. -/
abbrev Answer (α : Type) := Except Fault (α × List Token)

def readSum (ts : List Token) : Answer Formula :=
  (sum scope ts).map fun p => (p.formula, p.rest)

def readSumTail (left : Formula) (ts : List Token) : Answer Formula :=
  (sumTail scope left ts).map fun p => (p.formula, p.rest)

def readTerm (ts : List Token) : Answer Formula :=
  (term scope ts).map fun p => (p.formula, p.rest)

def readTermTail (left : Formula) (ts : List Token) : Answer Formula :=
  (termTail scope left ts).map fun p => (p.formula, p.rest)

def readFactor (ts : List Token) : Answer Formula :=
  (factor scope ts).map fun p => (p.formula, p.rest)

def readPower (ts : List Token) : Answer Formula :=
  (power scope ts).map fun p => (p.formula, p.rest)

def readPrimary (ts : List Token) : Answer Formula :=
  (primary scope ts).map fun p => (p.formula, p.rest)

def readArguments (ts : List Token) : Answer (Formula × List Formula) :=
  (arguments scope ts).map fun p => ((p.first, p.more), p.rest)

/-! ## Steps after the first part of a phrase -/

/-- Reads the exponent of a power whose base was read. -/
def readExponent (base : Formula) : List Token → Answer Formula
  | t :: rest =>
    if t.kind = .caret then
      (readFactor scope rest).map fun p => (.binary .pow base p.1, p.2)
    else .ok (base, t :: rest)
  | [] => .ok (base, [])

/-- Reads the parenthesis that closes a group. -/
def readClosing (f : Formula) : List Token → Answer Formula
  | t :: rest =>
    if t.kind = .closing then .ok (f, rest) else .error (scope.expected .closing (t :: rest))
  | [] => .error (scope.expected .closing [])

/-- Reads the rest of a list of arguments after its first one. -/
def readMoreArguments (f : Formula) : List Token → Answer (Formula × List Formula)
  | t :: rest =>
    if t.kind = .comma then
      (readArguments scope rest).map fun p => ((f, p.1.1 :: p.1.2), p.2)
    else if t.kind = .closing then .ok ((f, []), rest)
    else .error (scope.expected .commaOrClosing (t :: rest))
  | [] => .error (scope.expected .commaOrClosing [])

/-- The call of a function whose arguments were read, if they are as many as it takes. -/
def checkedCall (fn : Fn) (t : Token) (p : (Formula × List Formula) × List Token) :
    Answer Formula :=
  if fn.arity.admits (p.1.2.length + 1) then .ok (.call fn p.1.1 p.1.2, p.2)
  else .error ⟨.wrongArity t.text fn.arity (p.1.2.length + 1), t.position⟩

/-- Reads the call of a function after its name. -/
def readCall (fn : Fn) (t : Token) : List Token → Answer Formula
  | o :: rest =>
    if o.kind = .opening then (readArguments scope rest).bind (checkedCall fn t)
    else .error ⟨.notCalled t.text, t.position⟩
  | [] => .error ⟨.notCalled t.text, t.position⟩

/-- The variable of a name, which no parenthesis may follow. -/
def readVariable (t : Token) : List Token → Answer Formula
  | o :: rest =>
    if o.kind = .opening then .error ⟨.notFunction t.text, t.position⟩
    else .ok (.variable t.text, o :: rest)
  | [] => .ok (.variable t.text, [])

/-- Resolves a name. -/
def readName (t : Token) (rest : List Token) : Answer Formula :=
  if isPi t.text then .ok (.number pi, rest)
  else match Fn.ofName? t.text with
    | some fn => readCall scope fn t rest
    | none =>
      if t.text ∈ scope.names then readVariable t rest
      else .error ⟨.unknownIdentifier t.text, t.position⟩

/-! ## The equations -/

theorem readSum_eq (ts : List Token) :
    readSum scope ts = (readTerm scope ts).bind fun p => readSumTail scope p.1 p.2 := by
  rw [readSum, sum, readTerm]
  rcases term scope ts with fault | ⟨left, rest, h⟩
  · rfl
  · simp only [Except.map, Except.bind, readSumTail]
    rcases sumTail scope left rest with fault | ⟨f, rest', h'⟩ <;> rfl

theorem readSumTail_nil (left : Formula) : readSumTail scope left [] = .ok (left, []) := by
  rw [readSumTail, sumTail]
  rfl

theorem readSumTail_cons (left : Formula) (t : Token) (rest : List Token) :
    readSumTail scope left (t :: rest) =
      match additive? t.kind with
      | none => .ok (left, t :: rest)
      | some op =>
        (readTerm scope rest).bind fun p => readSumTail scope (.binary op left p.1) p.2 := by
  rw [readSumTail, sumTail, readTerm]
  rcases additive? t.kind with _ | op
  · rfl
  · rcases term scope rest with fault | ⟨right, rest', h⟩
    · rfl
    · simp only [Except.map, Except.bind, readSumTail]
      rcases sumTail scope (.binary op left right) rest' with fault | ⟨f, rest'', h'⟩ <;> rfl

theorem readTerm_eq (ts : List Token) :
    readTerm scope ts = (readFactor scope ts).bind fun p => readTermTail scope p.1 p.2 := by
  rw [readTerm, term, readFactor]
  rcases factor scope ts with fault | ⟨left, rest, h⟩
  · rfl
  · simp only [Except.map, Except.bind, readTermTail]
    rcases termTail scope left rest with fault | ⟨f, rest', h'⟩ <;> rfl

theorem readTermTail_nil (left : Formula) : readTermTail scope left [] = .ok (left, []) := by
  rw [readTermTail, termTail]
  rfl

theorem readTermTail_cons (left : Formula) (t : Token) (rest : List Token) :
    readTermTail scope left (t :: rest) =
      match multiplicative? t.kind with
      | none => .ok (left, t :: rest)
      | some op =>
        (readFactor scope rest).bind fun p => readTermTail scope (.binary op left p.1) p.2 := by
  rw [readTermTail, termTail, readFactor]
  rcases multiplicative? t.kind with _ | op
  · rfl
  · rcases factor scope rest with fault | ⟨right, rest', h⟩
    · rfl
    · simp only [Except.map, Except.bind, readTermTail]
      rcases termTail scope (.binary op left right) rest' with fault | ⟨f, rest'', h'⟩ <;> rfl

theorem readFactor_nil : readFactor scope [] = .error (scope.expected .operand []) := by
  rw [readFactor, factor]
  rfl

theorem readFactor_cons (t : Token) (rest : List Token) :
    readFactor scope (t :: rest) =
      match sign? t.kind with
      | some sign => (readFactor scope rest).map fun p => (.signed sign p.1, p.2)
      | none => readPower scope (t :: rest) := by
  rw [readFactor, factor]
  rcases sign? t.kind with _ | sign
  · rfl
  · rw [readFactor]
    rcases factor scope rest with fault | ⟨f, rest', h⟩ <;> rfl

theorem readPower_eq (ts : List Token) :
    readPower scope ts = (readPrimary scope ts).bind fun p => readExponent scope p.1 p.2 := by
  rw [readPower, power, readPrimary]
  rcases primary scope ts with fault | ⟨base, rest, h⟩
  · rfl
  · -- only a caret goes on with the power, any other token is left
    rcases rest with _ | ⟨⟨kind, text, position⟩, rest⟩
    · rfl
    · cases kind
      case caret =>
        simp only [Except.map, Except.bind, readExponent, readFactor]
        rcases factor scope rest with fault | ⟨e, rest', h'⟩ <;> rfl
      all_goals rfl

theorem readArguments_eq (ts : List Token) :
    readArguments scope ts =
      (readSum scope ts).bind fun p => readMoreArguments scope p.1 p.2 := by
  rw [readArguments, arguments, readSum]
  rcases sum scope ts with fault | ⟨f, rest, h⟩
  · rfl
  · rcases rest with _ | ⟨⟨kind, text, position⟩, rest⟩
    · rfl
    · cases kind
      case comma =>
        simp only [Except.map, Except.bind, readMoreArguments, readArguments]
        rcases arguments scope rest with fault | ⟨first, more, rest', h'⟩ <;> rfl
      all_goals rfl

theorem readPrimary_nil : readPrimary scope [] = .error (scope.expected .operand []) := by
  rw [readPrimary, primary]
  · rfl
  -- the equation of the last case asks that none of the others applies
  all_goals simp

theorem readPrimary_cons (t : Token) (rest : List Token) :
    readPrimary scope (t :: rest) =
      match t.kind with
      | .number x => .ok (.number x, rest)
      | .opening => (readSum scope rest).bind fun p => readClosing scope p.1 p.2
      | .identifier => readName scope t rest
      | _ => .error (scope.expected .operand (t :: rest)) := by
  obtain ⟨kind, text, position⟩ := t
  rw [readPrimary, primary.eq_def]
  cases kind
  case opening =>
    simp only [readSum]
    rcases sum scope rest with fault | ⟨f, rest, h⟩
    · rfl
    · rcases rest with _ | ⟨⟨kind, text, position⟩, rest⟩
      · rfl
      · cases kind <;> rfl
  case identifier =>
    simp only [readName]
    by_cases hpi : isPi text
    · simp only [hpi, if_true]
      rfl
    simp only [hpi]
    -- functions go before variables, and either looks at the token after the name
    rcases Fn.ofName? text with _ | fn
    · by_cases hname : text ∈ scope.names
      · rcases rest with _ | ⟨⟨kind, text', position'⟩, rest⟩
        · simp [hname, readVariable, Except.map]
        · cases kind <;> simp [hname, readVariable, Except.map]
      · simp [hname, Except.map]
    · rcases rest with _ | ⟨⟨kind, text', position'⟩, rest⟩
      · rfl
      · cases kind
        case opening =>
          simp only [readCall, readArguments]
          rcases arguments scope rest with fault | ⟨first, more, rest, h⟩
          · rfl
          · by_cases hn : fn.arity.admits (more.length + 1) <;>
              simp [hn, checkedCall, Except.map, Except.bind]
        all_goals rfl
  all_goals rfl

end SurfaceStudio.Formula
