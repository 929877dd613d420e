import SurfaceStudio.Proofs.Formula.Bounds
/-!
# The variables of an expression

The variables that are reported for an expression are the names in its text that are neither pi nor
functions, and they are all that a value can depend on: at two points that differ in no reported
variable an expression has one value, and so it has over arrays. A bound has no variables; the point
at which it is evaluated is one of many.
-/

namespace SurfaceStudio

namespace Formula

/-! ## Names in a text -/

/-- An identifier that spells neither pi nor a function. -/
def namesVariable (t : Token) : Bool :=
  t.kind == .identifier && !isPi t.text && (Fn.ofName? t.text).isNone

theorem namesVariable_iff {t : Token} : namesVariable t = true ↔ IsPlainName t := by
  simp only [namesVariable, Bool.and_eq_true, beq_iff_eq, Bool.not_eq_true',
    Option.isNone_iff_eq_none]
  constructor
  · rintro ⟨⟨hkind, hpi⟩, hfunction⟩
    exact ⟨hkind, by simp [hpi], hfunction⟩
  · rintro ⟨hkind, hpi, hfunction⟩
    exact ⟨⟨hkind, by simpa using hpi⟩, hfunction⟩

/-- The names of variables among the tokens, in reading order. -/
def variableNames (ts : List Token) : List String := (ts.filter namesVariable).map (·.text)

theorem variableNames_append (ts us : List Token) :
    variableNames (ts ++ us) = variableNames ts ++ variableNames us := by
  simp only [variableNames, List.filter_append, List.map_append]

theorem variableNames_cons {t : Token} (h : namesVariable t = false) (ts : List Token) :
    variableNames (t :: ts) = variableNames ts := by
  rw [variableNames, List.filter_cons_of_neg (by simp [h]), variableNames]

theorem variableNames_singleton {t : Token} (h : namesVariable t = false) :
    variableNames [t] = [] :=
  variableNames_cons h []

theorem mem_variableNames {ts : List Token} {name : String} :
    name ∈ variableNames ts ↔ ∃ t ∈ ts, IsPlainName t ∧ t.text = name := by
  simp only [variableNames, List.mem_map, List.mem_filter, namesVariable_iff, and_assoc]

section Marks

variable {t : Token}

/-- A mark or a number is no name. -/
theorem namesVariable_of_kind {k : Token.Kind} (h : t.kind = k) (hk : (k == .identifier) = false) :
    namesVariable t = false := by
  rw [namesVariable, h, hk, Bool.false_and, Bool.false_and]

/-- Neither is a token that stands for something which identifiers do not stand for. -/
theorem namesVariable_of_some {α : Type} {meaning? : Token.Kind → Option α} {a : α}
    (h : meaning? t.kind = some a) (hnone : meaning? .identifier = none) :
    namesVariable t = false := by
  have hkind : t.kind ≠ .identifier := by
    intro hkind
    rw [hkind, hnone] at h
    cases h
  exact namesVariable_of_kind rfl (beq_false_of_ne hkind)

theorem namesVariable_of_pi (h : isPi t.text) : namesVariable t = false := by
  rw [namesVariable, h, Bool.not_true, Bool.and_false, Bool.false_and]

theorem IsFunctionName.namesVariable {fn : Fn} (h : IsFunctionName t fn) :
    namesVariable t = false := by
  rw [Formula.namesVariable, h.function, Option.isNone_some, Bool.and_false]

end Marks

mutual

/-- The variables of an expression are the names among the tokens that it is read from, each as
often as it stands there. -/
theorem Derives.occurrences_eq {g : Grammar} {p : Phrase} {ts : List Token} {f : Formula} :
    Derives g p ts f → f.occurrences = variableNames ts
  | .term h | .factor h | .power h | .primary h => h.occurrences_eq
  | .join hl hop hr => by
    rw [occurrences, variableNames_append, variableNames_cons (namesVariable_of_some hop rfl),
      hl.occurrences_eq, hr.occurrences_eq]
  | .scale hl hop hr => by
    rw [occurrences, variableNames_append, variableNames_cons (namesVariable_of_some hop rfl),
      hl.occurrences_eq, hr.occurrences_eq]
  | .raise hb ht he => by
    rw [occurrences, variableNames_append, variableNames_cons (namesVariable_of_kind ht rfl),
      hb.occurrences_eq, he.occurrences_eq]
  | .signed hs h => by
    rw [occurrences, variableNames_cons (namesVariable_of_some hs rfl), h.occurrences_eq]
  | .number h => by
    rw [occurrences, variableNames_singleton (namesVariable_of_kind h rfl)]
  | .pi _ hpi => by
    rw [occurrences, variableNames_singleton (namesVariable_of_pi hpi)]
  | .variable hname _ => by
    rw [occurrences, variableNames, List.filter_cons_of_pos (namesVariable_iff.mpr hname)]
    rfl
  | .group ho h hc => by
    rw [variableNames_cons (namesVariable_of_kind ho rfl), variableNames_append,
      variableNames_singleton (namesVariable_of_kind hc rfl), List.append_nil, h.occurrences_eq]
  | .call hname ho hargs hc _ => by
    rw [occurrences, variableNames_cons hname.namesVariable,
      variableNames_cons (namesVariable_of_kind ho rfl), variableNames_append,
      variableNames_singleton (namesVariable_of_kind hc rfl), List.append_nil,
      hargs.occurrences_eq]

theorem DerivesArguments.occurrences_eq {g : Grammar} {ts : List Token} {first : Formula}
    {more : List Formula} : DerivesArguments g ts first more →
      first.occurrences ++ occurrencesOfAll more = variableNames ts
  | .last h => by rw [occurrencesOfAll, List.append_nil, h.occurrences_eq]
  | .next h ht hargs => by
    rw [occurrencesOfAll, hargs.occurrences_eq, h.occurrences_eq, variableNames_append,
      variableNames_cons (namesVariable_of_kind ht rfl)]

end

theorem parse_occurrences {names : List String} {source : String} {f : Formula}
    (h : parse names source = .ok f) :
    ∃ ts, tokens source = .ok ts ∧ f.occurrences = variableNames ts := by
  obtain ⟨ts, hts, hderives⟩ := parse_eq_ok_iff.mp h
  exact ⟨ts, hts, hderives.occurrences_eq⟩

/-! ## Sorted names -/

theorem pairwise_insertName {name : String} {names : List String} (h : names.Pairwise (· < ·)) :
    (insertName name names).Pairwise (· < ·) := by
  induction names with
  | nil => exact List.pairwise_singleton _ _
  | cons other rest ih =>
    obtain ⟨hother, hrest⟩ := List.pairwise_cons.mp h
    rw [insertName]
    split
    · exact h
    · next hne =>
      split
      · next hlt =>
        refine List.pairwise_cons.mpr ⟨List.forall_mem_cons.mpr ⟨hlt, fun b hb => ?_⟩, h⟩
        exact String.lt_trans hlt (hother b hb)
      · next hnot =>
        refine List.pairwise_cons.mpr ⟨fun b hb => ?_, ih hrest⟩
        rcases mem_insertName.mp hb with rfl | hb
        · exact lt_of_le_of_ne (not_lt.mp hnot) (Ne.symm hne)
        · exact hother b hb

/-- Each variable is reported once, in order. -/
theorem pairwise_freeVariables (f : Formula) : f.freeVariables.Pairwise (· < ·) := by
  rw [freeVariables]
  induction f.occurrences with
  | nil => exact .nil
  | cons name names ih => exact pairwise_insertName ih

/-! ## Values over arrays -/

section Arrays

variable {α : Type} [Scalar α] {u v u' v' : Tensor α}

mutual

/-- The values of an expression over arrays depend on those of its variables alone. -/
theorem evalOver_congr : ∀ f : Formula,
    (∀ name ∈ f.occurrences, parameters u v name = parameters u' v' name) →
      f.evalOver u v = f.evalOver u' v'
  | .number _, _ => rfl
  | .variable name, h => congrArg some (h name (List.mem_singleton_self name))
  | .signed .plus operand, h => evalOver_congr operand h
  | .signed .minus operand, h => by rw [evalOver, evalOver, evalOver_congr operand h]
  | .binary op left right, h => by
    obtain ⟨hleft, hright⟩ := List.forall_mem_append.mp h
    rw [evalOver, evalOver, evalOver_congr left hleft, evalOver_congr right hright]
  | .call fn first rest, h => by
    obtain ⟨hfirst, hrest⟩ := List.forall_mem_append.mp h
    rw [evalOver, evalOver, evalOver_congr first hfirst, evalAllOver_congr rest hrest]

theorem evalAllOver_congr : ∀ fs : List Formula,
    (∀ name ∈ occurrencesOfAll fs, parameters u v name = parameters u' v' name) →
      evalAllOver u v fs = evalAllOver u' v' fs
  | [], _ => rfl
  | f :: fs, h => by
    obtain ⟨hf, hfs⟩ := List.forall_mem_append.mp h
    rw [evalAllOver, evalAllOver, evalOver_congr f hf, evalAllOver_congr fs hfs]

end

end Arrays

end Formula

/-! ## Values of compiled expressions -/

namespace Compiled

variable {β : Type}

/-- Two pairs agree in each parameter that is reported for an expression. -/
structure AgreesOn (c : Compiled) (p q : β × β) : Prop where
  first : "u" ∈ c.freeVariables → p.1 = q.1
  second : "v" ∈ c.freeVariables → p.2 = q.2

variable {text : String} {c : Compiled}

/-- An expression that was compiled has no other names. -/
theorem AgreesOn.parameters_eq (hc : ofText text = .ok c) {p q : β × β} (h : c.AgreesOn p q) :
    ∀ name ∈ c.formula.occurrences,
      Formula.parameters p.1 p.2 name = Formula.parameters q.1 q.2 name := by
  intro name hname
  have hfree : name ∈ c.freeVariables := Formula.mem_freeVariables.mpr hname
  have hnames : name ∈ parameterNames :=
    Formula.mem_names_of_parse (ofText_eq_ok_iff.mp hc).2 name hname
  rcases List.mem_pair.mp hnames with rfl | rfl
  · exact h.first hfree
  · exact h.second hfree

theorem AgreesOn.value_eq {α : Type} [Scalar α] (hc : ofText text = .ok c) {p q : α × α}
    (h : c.AgreesOn p q) :
    c.value p.1 p.2 = c.value q.1 q.2 ∧ c.valueAmong p.1 p.2 = c.valueAmong q.1 q.2 :=
  have hagree := h.parameters_eq hc
  ⟨Formula.evalSharing_congr c.formula hagree, Formula.evalSharing_congr c.formula hagree⟩

/-- Over arrays the shapes matter as well, also that of an array which is not used. -/
theorem AgreesOn.evaluate_eq {α : Type} [Scalar α] (hc : ofText text = .ok c)
    {p q : Tensor α × Tensor α} (h : c.AgreesOn p q) (hfirst : p.1.shape = q.1.shape)
    (hsecond : p.2.shape = q.2.shape) : c.evaluate p.1 p.2 = c.evaluate q.1 q.2 := by
  simp only [evaluate, List.any_cons, List.any_nil, hfirst, hsecond,
    Formula.evalOver_congr c.formula (h.parameters_eq hc)]
  rfl

end Compiled

theorem Formula.occurrences_of_parse_nil {text : String} {f : Formula}
    (h : Formula.parse [] text = .ok f) : f.occurrences = [] :=
  List.eq_nil_iff_forall_not_mem.mpr fun name hname => nomatch mem_names_of_parse h name hname

/-- A bound has the same outcome at whatever point it is evaluated. -/
theorem boundValue_eq_at {text : String} {f : Formula} (h : Formula.parse [] text = .ok f)
    (u v : Float) : boundValue text = boundOutcome text (f.values Float u v) := by
  have hnone : f.occurrences = [] := Formula.occurrences_of_parse_nil h
  rcases boundValue_cases text with ⟨hblank, -⟩ | ⟨-, hnot, -⟩ | ⟨f', h', hvalue⟩
  · exact absurd h (hblank.parse_ne_ok [] f)
  · exact absurd h (hnot f)
  · cases h.symm.trans h'
    rw [hvalue, Formula.values_eq hnone 0 0 u v]

/-- The reported variables of an expression are variables of the scope, and they are the
identifiers of the text that are neither pi nor functions, each reported once. A compiled expression
has the same value at any two points that agree in the reported ones, by itself and among others,
and the same values over arrays of the same shapes. A bound has no variables and the same outcome
everywhere. -/
theorem value_depends_on_freeVariables (text : String) :
    (∀ names f, Formula.parse names text = .ok f →
      (∀ name ∈ f.freeVariables, name ∈ names) ∧ f.freeVariables.Pairwise (· < ·) ∧
      ∃ ts, Formula.tokens text = .ok ts ∧
        ∀ name, name ∈ f.freeVariables ↔ ∃ t ∈ ts, Formula.IsPlainName t ∧ t.text = name) ∧
    (∀ c, Compiled.ofText text = .ok c →
      (∀ p q : Float × Float, c.AgreesOn p q →
        c.value p.1 p.2 = c.value q.1 q.2 ∧ c.valueAmong p.1 p.2 = c.valueAmong q.1 q.2) ∧
      ∀ p q : Tensor Float × Tensor Float, c.AgreesOn p q →
        p.1.shape = q.1.shape → p.2.shape = q.2.shape →
          c.evaluate p.1 p.2 = c.evaluate q.1 q.2) ∧
    ∀ f, Formula.parse [] text = .ok f → f.freeVariables = [] ∧
      ∀ u v, boundValue text = boundOutcome text (f.values Float u v) := by
  refine ⟨fun names f h => ⟨?_, Formula.pairwise_freeVariables f, ?_⟩, fun c hc => ⟨?_, ?_⟩,
    fun f h => ⟨?_, boundValue_eq_at h⟩⟩
  · intro name hname
    exact Formula.mem_names_of_parse h name (Formula.mem_freeVariables.mp hname)
  · obtain ⟨ts, hts, hoccurrences⟩ := Formula.parse_occurrences h
    refine ⟨ts, hts, fun name => ?_⟩
    rw [Formula.mem_freeVariables, hoccurrences, Formula.mem_variableNames]
  · exact fun p q hagree => hagree.value_eq hc
  · exact fun p q hagree hfirst hsecond => hagree.evaluate_eq hc hfirst hsecond
  · exact Formula.freeVariables_eq_nil_iff.mpr (Formula.occurrences_of_parse_nil h)

/-- Of the three identifiers of `sin(u) * PI` one is a variable, so that the second parameter does
not matter; a bound has none. -/
theorem value_depends_on_freeVariables_product :
    let f : Formula := .binary .mul (.call .sin (.variable "u") []) (.number Formula.pi)
    let c : Compiled := ⟨"sin(u) * PI", f⟩
    Formula.parse ["u", "v"] "sin(u) * PI" = .ok f ∧ Compiled.ofText "sin(u) * PI" = .ok c ∧
      c.AgreesOn ((1, 2) : Float × Float) (1, 7) ∧ (∀ name ∈ f.freeVariables, name ∈ ["u", "v"]) ∧
      (c.value 1 2 : Float) = c.value 1 7 ∧ Formula.parse [] "PI" = .ok (.number Formula.pi) ∧
      ∀ u v, boundValue "PI" =
        boundOutcome "PI" ((Formula.number Formula.pi).values Float u v) := by
  intro f c
  have htokens : Formula.tokens "sin(u) * PI" =
      .ok ([⟨.identifier, "sin", 0⟩, ⟨.opening, "(", 3⟩, ⟨.identifier, "u", 4⟩,
        ⟨.closing, ")", 5⟩] ++ ⟨.star, "*", 7⟩ :: [⟨.identifier, "PI", 9⟩]) := by
    decide +kernel
  have htoken : Formula.tokens "PI" = .ok [⟨.identifier, "PI", 0⟩] := by decide +kernel
  have hu : Formula.Derives (.over ["u", "v"]) .primary [⟨.identifier, "u", 4⟩] (.variable "u") :=
    .variable ⟨rfl, by decide +kernel, by decide⟩ (by decide)
  have hsin : Formula.Derives (.over ["u", "v"]) .primary
      (⟨.identifier, "sin", 0⟩ :: ⟨.opening, "(", 3⟩ ::
        ([⟨.identifier, "u", 4⟩] ++ [⟨.closing, ")", 5⟩])) (.call .sin (.variable "u") []) :=
    .call ⟨rfl, by decide +kernel, by decide⟩ rfl
      (.last (.term (.factor (.power (.primary hu))))) rfl rfl
  have hname : Formula.isPi "PI" = true := by decide +kernel
  have hpi : ∀ names place, Formula.Derives (.over names) .factor
      [⟨.identifier, "PI", place⟩] (.number Formula.pi) :=
    fun _ _ => .power (.primary (.pi rfl hname))
  have hparse : Formula.parse ["u", "v"] "sin(u) * PI" = .ok f :=
    Formula.parse_eq_ok_iff.mpr ⟨_, htokens, .term (.scale (.factor (.power (.primary hsin))) rfl
      (hpi _ _))⟩
  have hbound : Formula.parse [] "PI" = .ok (.number Formula.pi) :=
    Formula.parse_eq_ok_iff.mpr ⟨_, htoken, .term (.factor (hpi _ _))⟩
  have hc : Compiled.ofText "sin(u) * PI" = .ok c :=
    Compiled.ofText_eq_ok_iff.mpr ⟨by decide +kernel, hparse⟩
  have hagree : c.AgreesOn ((1, 2) : Float × Float) (1, 7) :=
    ⟨fun _ => rfl, fun hv => absurd hv (by decide +kernel)⟩
  obtain ⟨hnames, hvalues, -⟩ := value_depends_on_freeVariables "sin(u) * PI"
  have hvalue : (c.value 1 2 : Float) = c.value 1 7 := ((hvalues c hc).1 (1, 2) (1, 7) hagree).1
  obtain ⟨-, -, hpoint⟩ := value_depends_on_freeVariables "PI"
  exact ⟨hparse, hc, hagree, (hnames _ _ hparse).1, hvalue, hbound, (hpoint _ hbound).2⟩

end SurfaceStudio
