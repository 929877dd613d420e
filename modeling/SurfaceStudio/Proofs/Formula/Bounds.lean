import SurfaceStudio.Formula.Closure
import SurfaceStudio.Proofs.Formula.Phrases
import SurfaceStudio.Proofs.Formula.Scopes
import SurfaceStudio.Proofs.Formula.Separation
/-!
# Bounds and compiled expressions

A bound is read without variables and an expression with the surface parameters, and either is
turned into a function before it has a value. The readings agree on the expressions that have no
variables, since a larger scope changes no tree; and every tree that is read has a function, since
the arities of the parser are those of the tables that functions are looked up in.
-/

namespace SurfaceStudio

namespace Formula

/-! ## Functions of expressions -/

mutual

/-- Every function in an expression is called with as many arguments as it takes. -/
def RespectsArity : Formula → Prop
  | .number _ | .variable _ => True
  | .signed _ operand => operand.RespectsArity
  | .binary _ left right => left.RespectsArity ∧ right.RespectsArity
  | .call fn first rest =>
    fn.arity.admits (rest.length + 1) = true ∧ first.RespectsArity ∧ AllRespectArity rest

/-- The same for each of several expressions. -/
def AllRespectArity : List Formula → Prop
  | [] => True
  | f :: rest => f.RespectsArity ∧ AllRespectArity rest

end

mutual

/-- The grammar admits no other calls. -/
theorem Derives.respectsArity {names : List String} {p : Phrase} {ts : List Token} {f : Formula} :
    Derives (.over names) p ts f → f.RespectsArity
  | .term h | .factor h | .power h | .primary h | .signed _ h | .group _ h _ => h.respectsArity
  | .join hl _ hr | .scale hl _ hr | .raise hl _ hr => ⟨hl.respectsArity, hr.respectsArity⟩
  | .number _ | .pi _ _ | .variable _ _ => trivial
  | .call _ _ hargs _ hn => ⟨hn, hargs.respectsArity⟩

theorem DerivesArguments.respectsArity {names : List String} {ts : List Token} {first : Formula}
    {more : List Formula} : DerivesArguments (.over names) ts first more →
      first.RespectsArity ∧ AllRespectArity more
  | .last h => ⟨h.respectsArity, trivial⟩
  | .next h _ hargs => ⟨h.respectsArity, hargs.respectsArity⟩

end

section

variable (α : Type) [Scalar α]

/-- The values of an expression as a function of the surface parameters. -/
def values (f : Formula) (u v : α) : α := f.eval (parameters u v)

/-- The tables have a function for every call that the arities admit. -/
theorem Fn.closure?_eq {fn : Fn} {rest : List Formula}
    (h : fn.arity.admits (rest.length + 1) = true) (first : Formula) :
    fn.closure? (first.values α) (rest.map (values α)) = some ((call fn first rest).values α) := by
  have hvalue : (call fn first rest).values α = fun u v =>
      fn.apply Scalar.commonPow (first.values α u v)
        ((rest.map (values α)).map fun arg => arg u v) := by
    funext u v
    rw [values, eval_call, List.map_map]
    rfl
  rw [hvalue]
  -- either the function stands in the table of its arity, or there is one argument
  cases fn
  case pow | min | max => rfl
  all_goals
    have hone : rest = [] := List.length_eq_zero_iff.mp (by simpa [Fn.arity, Arity.admits] using h)
    rw [hone]
    rfl

mutual

/-- An expression that respects the arities has a function, and it gives the values. -/
theorem closure?_eq : ∀ f : Formula, f.RespectsArity → f.closure? = some (f.values α)
  | .number _, _ => rfl
  | .variable name, _ => by
    have hvalue : (Formula.variable name).values α = fun u v => if name = "u" then u else v := rfl
    rw [closure?, hvalue]
    split <;> rfl
  | .signed .plus operand, h => closure?_eq operand h
  | .signed .minus operand, h => by
    rw [closure?, closure?_eq operand h]
    rfl
  | .binary op left right, h => by
    rw [closure?, closure?_eq left h.1, closure?_eq right h.2]
    rfl
  | .call fn first rest, h => by
    rw [closure?, closure?_eq first h.2.1, closures?_eq rest h.2.2]
    exact Fn.closure?_eq α h.1 first

theorem closures?_eq : ∀ fs : List Formula, AllRespectArity fs →
    closures? fs = some (fs.map (values α))
  | [], _ => rfl
  | f :: fs, h => by
    rw [closures?, closure?_eq f h.1, closures?_eq fs h.2]
    rfl

end

/-- Every expression that the parser reads has a function. -/
theorem closure?_of_parse {names : List String} {source : String} {f : Formula}
    (h : parse names source = .ok f) : f.closure? = some (f.values α) := by
  obtain ⟨ts, -, hderives⟩ := parse_eq_ok_iff.mp h
  exact closure?_eq α f hderives.respectsArity

end

/-- The blanks at the ends of a text do not matter to what is read. -/
theorem parse_trim {names : List String} {text : String} {f : Formula} :
    parse names (Text.trim text) = .ok f ↔ parse names text = .ok f := by
  obtain ⟨d, hd⟩ := exists_tokens_trim text
  rw [parse_eq_ok_iff, parse_eq_ok_iff, hd]
  cases tokens (Text.trim text) with
  | error fault => simp [moved, Except.mapError, Except.map]
  | ok ts => simp [moved, Except.mapError, Except.map, derives_moved_iff]

theorem parse_trim_ne_ok {names : List String} {text : String} {fault : Fault}
    (h : parse names (Text.trim text) = .error fault) (f : Formula) :
    parse names text ≠ .ok f := by
  intro hf
  rw [← parse_trim, h] at hf
  cases hf

/-- Without variables the parameters do not matter. -/
theorem values_eq {f : Formula} (h : f.occurrences = []) (u v u' v' : Float) :
    f.values Float u v = f.values Float u' v' :=
  evalSharing_congr f (by rw [h]; exact List.forall_mem_nil _)

theorem freeVariables_eq_nil_iff {f : Formula} : f.freeVariables = [] ↔ f.occurrences = [] := by
  simp only [List.eq_nil_iff_forall_not_mem, mem_freeVariables]

end Formula

/-! ## Blank texts -/

/-- A text of nothing but blanks. -/
def IsBlankText (text : String) : Prop := ∀ c ∈ text.toList, Text.isBlank c = true

theorem trim_isEmpty_iff {text : String} :
    (Text.trim text).isEmpty = true ↔ IsBlankText text := by
  rw [String.isEmpty_iff, Text.trim, String.ofList_eq_empty_iff]
  constructor
  · intro hnil
    obtain ⟨lead, trail, htext, hlead, htrail⟩ := Text.exists_trimWhile Text.isBlank text.toList
    rw [hnil, List.nil_append] at htext
    rw [IsBlankText, htext, List.forall_mem_append]
    exact ⟨hlead, htrail⟩
  · intro h
    rw [Text.trimWhile, List.dropWhile_eq_nil_iff.mpr h]
    rfl

/-- Nothing is read off a blank text. -/
theorem IsBlankText.parse_ne_ok {text : String} (h : IsBlankText text) (names : List String)
    (f : Formula) : Formula.parse names text ≠ .ok f := by
  intro hparse
  obtain ⟨ts, hts, hderives⟩ := Formula.parse_eq_ok_iff.mp hparse
  have hscan := Formula.scan_blanks h 0 []
  rw [List.append_nil, Formula.scan_nil] at hscan
  cases hscan.symm.trans hts
  exact absurd hderives.length_pos (Nat.lt_irrefl 0)

/-! ## Compiled expressions -/

namespace Compiled

/-- A text is blank, or it is refused as it cannot be read, or it is compiled. -/
theorem ofText_cases (text : String) :
    (IsBlankText text ∧ ofText text = .error .emptyExpression) ∨
      (¬ IsBlankText text ∧ (∀ f, Formula.parse parameterNames text ≠ .ok f) ∧
        ∃ reason, ofText text = .error (.compile (Text.trim text) reason none)) ∨
      ∃ f, Formula.parse parameterNames text = .ok f ∧ ofText text = .ok ⟨Text.trim text, f⟩ := by
  simp only [ofText, ← trim_isEmpty_iff]
  cases (Text.trim text).isEmpty with
  | true => exact .inl ⟨rfl, rfl⟩
  | false =>
    cases hparse : Formula.parse parameterNames (Text.trim text) with
    | error fault =>
      have hreason := Formula.parse_trim_ne_ok hparse
      exact .inr (.inl ⟨Bool.false_ne_true, hreason, fault.message, rfl⟩)
    | ok f => exact .inr (.inr ⟨f, Formula.parse_trim.mp hparse, rfl⟩)

/-- What is compiled is what is read off the text, without the blanks at its ends. -/
theorem ofText_eq_ok_iff {text : String} {c : Compiled} :
    ofText text = .ok c ↔
      c.source = Text.trim text ∧ Formula.parse parameterNames text = .ok c.formula := by
  rcases ofText_cases text with ⟨hblank, h⟩ | ⟨-, hnone, reason, h⟩ | ⟨f, hparse, h⟩
  · simp [h, hblank.parse_ne_ok]
  · simp [h, hnone]
  · obtain ⟨source, formula⟩ := c
    simp [h, hparse, eq_comm]

theorem ofText_eq_empty_iff {text : String} :
    ofText text = .error .emptyExpression ↔ IsBlankText text := by
  rcases ofText_cases text with ⟨hblank, h⟩ | ⟨hblank, -, reason, h⟩ | ⟨f, hparse, h⟩
  · simp [h, hblank]
  · simp [h, hblank]
  · have hblank : ¬ IsBlankText text := fun hblank => hblank.parse_ne_ok _ f hparse
    simp [h, hblank]

/-- A compiled expression has a function, so that trying it changes nothing. -/
theorem ofTextTried_eq (reason text : String) :
    ofTextTried reason text = (ofText text).map fun c => (c, c.value) := by
  simp only [ofTextTried, ofText]
  cases (Text.trim text).isEmpty with
  | true => rfl
  | false =>
    cases hparse : Formula.parse parameterNames (Text.trim text) with
    | error fault => rfl
    | ok f =>
      simp only [Formula.closure?_of_parse Float hparse]
      rfl

end Compiled

/-! ## Bounds -/

/-- The wording of a refused bound. -/
def boundWording (text reason : String) : String :=
  s!"Could not parse bound \"{text}\": " ++ reason

/-- The outcome of a bound with this value. -/
def boundOutcome (text : String) (x : Float) : Except Failure Float :=
  if x.isFinite then .ok x else .error (.nonFiniteBound text)

/-- A text is blank, or it is refused as it cannot be read without variables, or it has a value. -/
theorem boundValue_cases (text : String) :
    (IsBlankText text ∧ boundValue text = .error .emptyBound) ∨
      (¬ IsBlankText text ∧ (∀ f, Formula.parse [] text ≠ .ok f) ∧
        ∃ reason,
          boundValue text = .error (.compile text reason (some (boundWording text reason)))) ∨
      ∃ f, Formula.parse [] text = .ok f ∧
        boundValue text = boundOutcome text (f.values Float 0 0) := by
  simp only [boundValue, ← trim_isEmpty_iff]
  cases (Text.trim text).isEmpty with
  | true => exact .inl ⟨rfl, rfl⟩
  | false =>
    cases hparse : Formula.parse [] (Text.trim text) with
    | error fault =>
      have hreason := Formula.parse_trim_ne_ok hparse
      exact .inr (.inl ⟨Bool.false_ne_true, hreason, fault.message, rfl⟩)
    | ok f => exact .inr (.inr ⟨f, Formula.parse_trim.mp hparse, rfl⟩)

/-- A bound has a function, so that its value may be taken from that. -/
theorem boundValueTried_eq (reason text : String) :
    boundValueTried reason text = boundValue text := by
  simp only [boundValueTried, boundValue]
  cases (Text.trim text).isEmpty with
  | true => rfl
  | false =>
    cases hparse : Formula.parse [] (Text.trim text) with
    | error fault => rfl
    | ok f =>
      simp only [Formula.closure?_of_parse Float hparse]
      rfl

/-- A text compiles to an expression without variables. -/
def IsConstantText (text : String) (c : Compiled) : Prop :=
  Compiled.ofText text = .ok c ∧ c.freeVariables = []

/-- These are the texts that can be read without variables. -/
theorem isConstantText_iff {text : String} {c : Compiled} :
    IsConstantText text c ↔
      c.source = Text.trim text ∧ Formula.parse [] text = .ok c.formula := by
  rw [IsConstantText, Compiled.ofText_eq_ok_iff, and_assoc, Compiled.freeVariables,
    Formula.freeVariables_eq_nil_iff, ← Formula.parse_nil_iff]

/-- A text compiles to one expression at most. -/
theorem IsConstantText.unique {text : String} {c c' : Compiled} (h : IsConstantText text c)
    (h' : IsConstantText text c') : c = c' := by
  have heq := h.1.symm.trans h'.1
  injection heq

theorem IsConstantText.not_blank {text : String} {c : Compiled} (h : IsConstantText text c) :
    ¬ IsBlankText text := by
  intro hblank
  cases h.1.symm.trans (Compiled.ofText_eq_empty_iff.mpr hblank)

/-- The outcome of a bound is told by the compiled expression of its text. Such an expression has
the same value everywhere. -/
theorem boundValue_of_compiled (text : String) :
    (IsBlankText text ∧ (∀ c, ¬ IsConstantText text c) ∧ boundValue text = .error .emptyBound) ∨
      (¬ IsBlankText text ∧ (∀ c, ¬ IsConstantText text c) ∧
        ∃ reason,
          boundValue text = .error (.compile text reason (some (boundWording text reason)))) ∨
      ∃ c x, IsConstantText text c ∧ (∀ u v, c.value u v = x) ∧
        boundValue text = boundOutcome text x := by
  rcases boundValue_cases text with ⟨hblank, h⟩ | ⟨hblank, hnone, h⟩ | ⟨f, hparse, h⟩
  · exact .inl ⟨hblank, fun c hc => hc.not_blank hblank, h⟩
  · exact .inr (.inl ⟨hblank, fun c hc => hnone c.formula (isConstantText_iff.mp hc).2, h⟩)
  · have hc : IsConstantText text ⟨Text.trim text, f⟩ := isConstantText_iff.mpr ⟨rfl, hparse⟩
    have hnone : f.occurrences = [] := Formula.freeVariables_eq_nil_iff.mp hc.2
    exact .inr (.inr ⟨_, _, hc, fun u v => Formula.values_eq hnone u v 0 0, h⟩)

theorem boundOutcome_eq_ok_iff {text : String} {x y : Float} :
    boundOutcome text x = .ok y ↔ y.isFinite = true ∧ x = y := by
  unfold boundOutcome
  split
  next h =>
    rw [Except.ok.injEq]
    exact ⟨fun heq => ⟨heq ▸ h, heq⟩, fun heq => heq.2⟩
  next h =>
    constructor
    · exact nofun
    · rintro ⟨hfinite, rfl⟩
      exact absurd hfinite h

theorem boundOutcome_eq_error_iff {text : String} {x : Float} {failure : Failure} :
    boundOutcome text x = .error failure ↔
      x.isFinite = false ∧ failure = .nonFiniteBound text := by
  unfold boundOutcome
  cases x.isFinite with
  | true => simp
  | false => simp [eq_comm]

/-- What holds of the value of a text holds of the value of its compiled expression. -/
theorem IsConstantText.exists_value_iff {text : String} {c : Compiled} {x : Float}
    (hc : IsConstantText text c) (hx : ∀ u v, c.value u v = x) (P : Float → Prop) :
    (∃ c, IsConstantText text c ∧ ∀ u v, P (c.value u v)) ↔ P x := by
  constructor
  · rintro ⟨c', hc', hP⟩
    rw [hc'.unique hc] at hP
    exact hx 0 0 ▸ hP 0 0
  · exact fun hP => ⟨c, hc, fun u v => (hx u v).symm ▸ hP⟩

/-- The four outcomes of a bound. -/
theorem boundValue_eq_iff (text : String) :
    (∀ x, boundValue text = .ok x ↔
      x.isFinite = true ∧ ∃ c, IsConstantText text c ∧ ∀ u v, c.value u v = x) ∧
    (boundValue text = .error .emptyBound ↔ IsBlankText text) ∧
    (boundValue text = .error (.nonFiniteBound text) ↔
      ∃ c, IsConstantText text c ∧ ∀ u v : Float, (c.value u v).isFinite = false) ∧
    ((∃ reason, boundValue text =
        .error (.compile text reason (some (boundWording text reason)))) ↔
      ¬ IsBlankText text ∧ ∀ c, ¬ IsConstantText text c) := by
  rcases boundValue_of_compiled text with
    ⟨hblank, hnone, h⟩ | ⟨hblank, hnone, reason, h⟩ | ⟨c, y, hc, hy, h⟩
  · simp [h, hblank, hnone]
  · simp [h, hblank, hnone]
  · have hblank := hc.not_blank
    refine ⟨fun x => ?_, ?_, ?_, ?_⟩
    · rw [h, boundOutcome_eq_ok_iff, hc.exists_value_iff hy (· = x)]
    · simp [h, boundOutcome_eq_error_iff, hblank]
    · rw [h, boundOutcome_eq_error_iff, hc.exists_value_iff hy fun x => x.isFinite = false,
        and_iff_left rfl]
    · simp only [h, boundOutcome_eq_error_iff, reduceCtorEq, and_false, exists_false, false_iff]
      exact fun hnot => hnot.2 c hc

/-- Bounds and compiled expressions agree. A bound has a value if its text compiles without
variables to that value and the value is finite; it is refused as not finite if the text compiles
so and the value is not; it is refused as empty if the text is blank, and for its reading in all
other cases. An expression compiles if its text is read over the surface parameters: the function
of a tree that was read is always there. And what is read over some names is read over more. -/
theorem boundValue_agrees_with_compiled (text : String) :
    (∀ x, boundValue text = .ok x ↔
      x.isFinite = true ∧ ∃ c, IsConstantText text c ∧ ∀ u v, c.value u v = x) ∧
    (boundValue text = .error .emptyBound ↔ IsBlankText text) ∧
    (Compiled.ofText text = .error .emptyExpression ↔ IsBlankText text) ∧
    (boundValue text = .error (.nonFiniteBound text) ↔
      ∃ c, IsConstantText text c ∧ ∀ u v : Float, (c.value u v).isFinite = false) ∧
    ((∃ reason, boundValue text =
        .error (.compile text reason (some (boundWording text reason)))) ↔
      ¬ IsBlankText text ∧ ∀ c, ¬ IsConstantText text c) ∧
    (∀ f, (∃ c, Compiled.ofText text = .ok c ∧ c.formula = f) ↔
      Formula.parse Compiled.parameterNames text = .ok f) ∧
    (∀ names f, Formula.parse names text = .ok f → f.closure? = some (f.values Float)) ∧
    (∀ reason, Compiled.ofTextTried reason text =
        (Compiled.ofText text).map (fun c => (c, c.value)) ∧
      boundValueTried reason text = boundValue text) ∧
    ∀ names names' f, (∀ name ∈ names, name ∈ names') → Formula.parse names text = .ok f →
      Formula.parse names' text = .ok f := by
  obtain ⟨hok, hempty, hnonFinite, hcompile⟩ := boundValue_eq_iff text
  refine ⟨hok, hempty, Compiled.ofText_eq_empty_iff, hnonFinite, hcompile, fun f => ?_,
    fun names f => Formula.closure?_of_parse Float,
    fun reason => ⟨Compiled.ofTextTried_eq reason text, boundValueTried_eq reason text⟩,
    fun names names' f hnames hparse => Formula.parse_mono hnames hparse⟩
  constructor
  · rintro ⟨c, hc, rfl⟩
    exact (Compiled.ofText_eq_ok_iff.mp hc).2
  · intro hf
    exact ⟨⟨Text.trim text, f⟩, Compiled.ofText_eq_ok_iff.mpr ⟨rfl, hf⟩, rfl⟩

/-- A call of two arguments, over one name and over two. -/
theorem boundValue_agrees_with_compiled_greater :
    let f : Formula := .call .max (.variable "u") [.number 2]
    (∀ name ∈ ["u"], name ∈ ["u", "v"]) ∧ Formula.parse ["u"] "max(u, 2)" = .ok f ∧
      f.closure? = some (f.values Float) ∧ Formula.parse ["u", "v"] "max(u, 2)" = .ok f := by
  intro f
  have hnames : ∀ name ∈ ["u"], name ∈ ["u", "v"] := by decide
  have htokens : Formula.tokens "max(u, 2)" =
      .ok [⟨.identifier, "max", 0⟩, ⟨.opening, "(", 3⟩, ⟨.identifier, "u", 4⟩, ⟨.comma, ",", 5⟩,
        ⟨.number 2, "2", 7⟩, ⟨.closing, ")", 8⟩] := by
    decide +kernel
  have hu : Formula.Derives (.over ["u"]) .primary [⟨.identifier, "u", 4⟩] (.variable "u") :=
    .variable ⟨rfl, by decide +kernel, by decide⟩ (by decide)
  have htwo : Formula.Derives (.over ["u"]) .primary [⟨.number 2, "2", 7⟩] (.number 2) :=
    .number rfl
  have hparse : Formula.parse ["u"] "max(u, 2)" = .ok f := by
    refine Formula.parse_eq_ok_iff.mpr ⟨_, htokens, .term (.factor (.power (.primary ?_)))⟩
    have harguments : Formula.DerivesArguments (.over ["u"])
        ([⟨.identifier, "u", 4⟩] ++ ⟨.comma, ",", 5⟩ :: [⟨.number 2, "2", 7⟩])
        (.variable "u") [.number 2] :=
      .next (.term (.factor (.power (.primary hu)))) rfl
        (.last (.term (.factor (.power (.primary htwo)))))
    have hcall : Formula.Derives (.over ["u"]) .primary
        (⟨.identifier, "max", 0⟩ :: ⟨.opening, "(", 3⟩ ::
          (([⟨.identifier, "u", 4⟩] ++ ⟨.comma, ",", 5⟩ :: [⟨.number 2, "2", 7⟩]) ++
            [⟨.closing, ")", 8⟩])) f :=
      .call ⟨rfl, by decide +kernel, by decide⟩ rfl harguments rfl rfl
    exact hcall
  obtain ⟨-, -, -, -, -, -, hclosure, -, hmono⟩ := boundValue_agrees_with_compiled "max(u, 2)"
  exact ⟨hnames, hparse, hclosure ["u"] f hparse, hmono ["u"] ["u", "v"] f hnames hparse⟩

end SurfaceStudio
