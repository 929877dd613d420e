import SurfaceStudio.Formula.Compiled
import SurfaceStudio.Proofs.Formula.Spacing
/-!
# Printing expressions

`Renders` says which tokens are a rendering of an expression: an operand is put in parentheses where
it binds too loosely for its place, and nowhere else unless further ones are asked for. Whatever the
spelling of the tokens and the blanks between them, the text of a rendering is read as the
expression again. No text of the expression has fewer parentheses than the renderings without
further ones.
-/

namespace SurfaceStudio.Formula

/-! ## Levels of binding -/

/-- How tightly a phrase binds. -/
def Phrase.rank : Phrase → Nat
  | .sum => 0
  | .term => 1
  | .factor => 2
  | .power => 3
  | .primary => 4

/-- The phrase that an operation makes. -/
def Operation.phrase : Operation → Phrase
  | .add | .sub => .sum
  | .mul | .div => .term
  | .pow => .power

/-- The phrase that an operation asks for on its left. -/
def Operation.leftPhrase : Operation → Phrase
  | .add | .sub => .sum
  | .mul | .div => .term
  | .pow => .primary

/-- The phrase that an operation asks for on its right. -/
def Operation.rightPhrase : Operation → Phrase
  | .add | .sub => .term
  | .mul | .div | .pow => .factor

/-- The phrase that an expression is without parentheses around it. -/
def phrase : Formula → Phrase
  | .number _ | .variable _ | .call .. => .primary
  | .signed .. => .factor
  | .binary op .. => op.phrase

/-- The operation that a token between two operands stands for. -/
def operation? : Token.Kind → Option Operation
  | .plus => some .add
  | .minus => some .sub
  | .star => some .mul
  | .slash => some .div
  | .caret => some .pow
  | _ => none

/-! ## Renderings -/

mutual

/-- The tokens are a rendering of an expression at a place that asks for a phrase. -/
inductive Renders (further : Bool) : Phrase → Formula → List Token → Prop where
  | bare {p f ts} : p.rank ≤ f.phrase.rank → RendersBare further f ts → Renders further p f ts
  | group {p f o ts c} : further = true ∨ f.phrase.rank < p.rank → o.kind = .opening →
      Renders further .sum f ts → c.kind = .closing → Renders further p f (o :: (ts ++ [c]))

/-- The tokens are a rendering without parentheses around the whole. -/
inductive RendersBare (further : Bool) : Formula → List Token → Prop where
  | number {t x} : t.kind = .number x → RendersBare further (.number x) [t]
  | variable {t} : t.kind = .identifier → RendersBare further (.variable t.text) [t]
  | signed {t s f ts} : sign? t.kind = some s → Renders further .factor f ts →
      RendersBare further (.signed s f) (t :: ts)
  | binary {op l r ts t us} : Renders further op.leftPhrase l ts → operation? t.kind = some op →
      Renders further op.rightPhrase r us → RendersBare further (.binary op l r) (ts ++ t :: us)
  | call {t fn o ts c first rest} : t.kind = .identifier → t.text = fn.name → o.kind = .opening →
      RendersArguments further first rest ts → c.kind = .closing →
      RendersBare further (.call fn first rest) (t :: o :: (ts ++ [c]))

/-- The tokens are a rendering of the arguments of a call. -/
inductive RendersArguments (further : Bool) : Formula → List Formula → List Token → Prop where
  | last {f ts} : Renders further .sum f ts → RendersArguments further f [] ts
  | next {f g rest ts t us} : Renders further .sum f ts → t.kind = .comma →
      RendersArguments further g rest us → RendersArguments further f (g :: rest) (ts ++ t :: us)

end

/-! ## What can be printed -/

/-- A name that can stand for a variable: one word, neither pi nor a function. -/
structure IsVariableName (name : String) : Prop where
  word : IsSpelled ⟨.identifier, name, 0⟩
  notPi : ¬ isPi name
  notFunction : Fn.ofName? name = none

/-- A number with a literal: a text that is cut into one number of this value. -/
def HasLiteral (x : Float) : Prop := ∃ source t, tokens source = .ok [t] ∧ t.kind = .number x

mutual

/-- The numbers of an expression have literals, its variables are among the names and can be told
from everything else, and its functions get as many arguments as they take. -/
def IsPrintable (names : List String) : Formula → Prop
  | .number x => HasLiteral x
  | .variable name => name ∈ names ∧ IsVariableName name
  | .signed _ f => f.IsPrintable names
  | .binary _ l r => l.IsPrintable names ∧ r.IsPrintable names
  | .call fn first rest =>
    fn.arity.admits (rest.length + 1) = true ∧ first.IsPrintable names ∧ AllPrintable names rest

/-- All of the expressions are such. -/
def AllPrintable (names : List String) : List Formula → Prop
  | [] => True
  | f :: rest => f.IsPrintable names ∧ AllPrintable names rest

end

/-! ## Renderings are sentences -/

section Sentences

variable {g : Grammar} {ts us : List Token} {f l r : Formula}

/-- A phrase may stand where one is asked for that binds no tighter. -/
theorem Derives.widen {p q : Phrase} (h : Derives g q ts f) (hpq : p.rank ≤ q.rank) :
    Derives g p ts f := by
  have hpower : Derives g .primary ts f → Derives g .power ts f := .primary
  have hfactor : Derives g .power ts f → Derives g .factor ts f := .power
  have hterm : Derives g .factor ts f → Derives g .term ts f := .factor
  have hsum : Derives g .term ts f → Derives g .sum ts f := .term
  unfold Phrase.rank at hpq
  cases q <;> cases p <;> first | omega | tauto

/-- The rules for the operations, as one. -/
theorem Derives.operation {op : Operation} {t : Token} (hl : Derives g op.leftPhrase ts l)
    (ht : operation? t.kind = some op) (hr : Derives g op.rightPhrase us r) :
    Derives g op.phrase (ts ++ t :: us) (.binary op l r) := by
  cases hk : t.kind <;> rw [hk] at ht <;> cases ht
  · exact .join hl (by rw [hk]; rfl) hr
  · exact .join hl (by rw [hk]; rfl) hr
  · exact .scale hl (by rw [hk]; rfl) hr
  · exact .scale hl (by rw [hk]; rfl) hr
  · exact .raise hl hk hr

theorem isFunctionName_of_text {t : Token} {fn : Fn} (hkind : t.kind = .identifier)
    (htext : t.text = fn.name) : IsFunctionName t fn := by
  have hnames : ∀ fn ∈ Fn.all, isPi fn.name = false ∧ Fn.ofName? fn.name = some fn := by
    decide +kernel
  obtain ⟨hpi, hname⟩ := hnames fn (by cases fn <;> decide)
  refine ⟨hkind, ?_, ?_⟩
  · rw [htext, hpi]
    exact Bool.false_ne_true
  · rw [htext, hname]

end Sentences

section Reading

variable {names : List String} {further : Bool}

mutual

/-- A rendering is a phrase of the grammar that stands for the expression. -/
theorem Renders.derives {p : Phrase} {f : Formula} {ts : List Token} :
    Renders further p f ts → f.IsPrintable names → Derives (.over names) p ts f
  | .bare hp h, hf => (h.derives hf).widen hp
  | .group _ ho h hc, hf =>
    Derives.widen (.group ho (h.derives hf) hc) (by cases p <;> decide)

theorem RendersBare.derives {f : Formula} {ts : List Token} :
    RendersBare further f ts → f.IsPrintable names → Derives (.over names) f.phrase ts f
  | .number ht, _ => .number ht
  | .variable ht, ⟨hmem, hname⟩ => .variable ⟨ht, hname.notPi, hname.notFunction⟩ hmem
  | .signed hs h, hf => .signed hs (h.derives hf)
  | .binary hl ht hr, ⟨hlf, hrf⟩ => .operation (hl.derives hlf) ht (hr.derives hrf)
  | .call ht htext ho hargs hc, ⟨hn, hfirst, hrest⟩ =>
    .call (isFunctionName_of_text ht htext) ho (hargs.derives hfirst hrest) hc hn

theorem RendersArguments.derives {first : Formula} {rest : List Formula} {ts : List Token} :
    RendersArguments further first rest ts → first.IsPrintable names → AllPrintable names rest →
      DerivesArguments (.over names) ts first rest
  | .last h, hf, _ => .last (h.derives hf)
  | .next h ht hargs, hf, ⟨hg, hrest⟩ => .next (h.derives hf) ht (hargs.derives hg hrest)

end

end Reading

/-! ## Parentheses -/

/-- How many parentheses are opened. -/
def openings (ts : List Token) : Nat := ts.countP fun t => t.kind = .opening

theorem openings_append (ts us : List Token) : openings (ts ++ us) = openings ts + openings us :=
  List.countP_append

theorem openings_cons_of_ne {t : Token} (h : t.kind ≠ .opening) (ts : List Token) :
    openings (t :: ts) = openings ts :=
  List.countP_cons_of_neg (by simpa using h)

/-- A group opens one parenthesis more than what is in it. -/
theorem openings_group {o c : Token} (ho : o.kind = .opening) (hc : c.kind = .closing)
    (ts : List Token) : openings (o :: (ts ++ [c])) = openings ts + 1 := by
  have hopen : openings (o :: (ts ++ [c])) = openings (ts ++ [c]) + 1 :=
    List.countP_cons_of_pos (by simpa using ho)
  rw [hopen, openings_append, openings_cons_of_ne (by rw [hc]; nofun)]
  rfl

/-- The parentheses around an expression that a place asks for. -/
def around (p : Phrase) (f : Formula) : Nat := if p.rank ≤ f.phrase.rank then 0 else 1

mutual

/-- The parentheses that cannot be avoided inside of an expression, those of its calls among
them. -/
def parentheses : Formula → Nat
  | .number _ | .variable _ => 0
  | .signed _ f => around .factor f + f.parentheses
  | .binary op l r =>
    around op.leftPhrase l + l.parentheses + (around op.rightPhrase r + r.parentheses)
  | .call _ first rest => first.parentheses + parenthesesOfAll rest + 1

/-- Those inside of all of the expressions. -/
def parenthesesOfAll : List Formula → Nat
  | [] => 0
  | f :: rest => f.parentheses + parenthesesOfAll rest

end

theorem around_sum (f : Formula) : around .sum f = 0 := if_pos (Nat.zero_le _)

theorem around_le_one (p : Phrase) (f : Formula) : around p f ≤ 1 := by
  unfold around
  split <;> omega

/-- A place that asks for less asks for no more parentheses. -/
theorem around_mono {p q : Phrase} (h : p.rank ≤ q.rank) (f : Formula) :
    around p f ≤ around q f := by
  unfold around
  split <;> split <;> omega

theorem operation?_ne_opening {t : Token} {op : Operation} (h : operation? t.kind = some op) :
    t.kind ≠ .opening := by
  intro hk
  rw [hk] at h
  cases h

theorem sign?_ne_opening {t : Token} {s : Sign} (h : sign? t.kind = some s) :
    t.kind ≠ .opening := by
  intro hk
  rw [hk] at h
  cases h

mutual

/-- Without further ones, a rendering has just the parentheses that are asked for. -/
theorem Renders.openings_eq {p : Phrase} {f : Formula} {ts : List Token} :
    Renders false p f ts → openings ts = around p f + f.parentheses
  | .bare hp h => by
    rw [h.openings_eq, around, if_pos hp, Nat.zero_add]
  | .group hloose ho h hc => by
    have hp : ¬ p.rank ≤ f.phrase.rank := Nat.not_le.mpr (hloose.resolve_left Bool.false_ne_true)
    rw [openings_group ho hc, h.openings_eq, around_sum, around, if_neg hp]
    omega

theorem RendersBare.openings_eq {f : Formula} {ts : List Token} :
    RendersBare false f ts → openings ts = f.parentheses
  | .number ht => openings_cons_of_ne (by rw [ht]; nofun) []
  | .variable ht => openings_cons_of_ne (by rw [ht]; nofun) []
  | .signed hs h => by
    rw [openings_cons_of_ne (sign?_ne_opening hs), h.openings_eq, parentheses]
  | .binary hl ht hr => by
    rw [openings_append, openings_cons_of_ne (operation?_ne_opening ht), hl.openings_eq,
      hr.openings_eq, parentheses]
  | .call ht _ ho hargs hc => by
    rw [openings_cons_of_ne (by rw [ht]; nofun), openings_group ho hc, hargs.openings_eq,
      parentheses]

theorem RendersArguments.openings_eq {first : Formula} {rest : List Formula} {ts : List Token} :
    RendersArguments false first rest ts →
      openings ts = first.parentheses + parenthesesOfAll rest
  | .last h => by
    rw [h.openings_eq, around_sum, parenthesesOfAll]
    omega
  | .next h ht hargs => by
    rw [openings_append, openings_cons_of_ne (by rw [ht]; nofun), h.openings_eq, around_sum,
      hargs.openings_eq, parenthesesOfAll]
    omega

end

/-- What the rules for sums ask of their operands. -/
theorem phrases_of_additive {k : Token.Kind} {op : Operation} (h : additive? k = some op) :
    op.phrase = .sum ∧ op.leftPhrase = .sum ∧ op.rightPhrase = .term := by
  cases k <;> cases h <;> exact ⟨rfl, rfl, rfl⟩

/-- What the rules for terms ask of their operands. -/
theorem phrases_of_multiplicative {k : Token.Kind} {op : Operation}
    (h : multiplicative? k = some op) :
    op.phrase = .term ∧ op.leftPhrase = .term ∧ op.rightPhrase = .factor := by
  cases k <;> cases h <;> exact ⟨rfl, rfl, rfl⟩

/-- An operation needs no parentheses of its own where its phrase is asked for. -/
theorem openings_operation {op : Operation} {l r : Formula} {ts us : List Token} {t : Token}
    {p q o : Phrase} (hop : op.phrase = p ∧ op.leftPhrase = q ∧ op.rightPhrase = o)
    (hl : around q l + l.parentheses ≤ openings ts) (ht : t.kind ≠ .opening)
    (hr : around o r + r.parentheses ≤ openings us) :
    around p (.binary op l r) + (Formula.binary op l r).parentheses ≤ openings (ts ++ t :: us) := by
  obtain ⟨rfl, rfl, rfl⟩ := hop
  have hown : around op.phrase (.binary op l r) = 0 := if_pos (Nat.le_refl _)
  rw [openings_append, openings_cons_of_ne ht, hown, parentheses]
  omega

mutual

/-- Every text of an expression opens as many parentheses as are asked for. -/
theorem Derives.le_openings {g : Grammar} {p : Phrase} {ts : List Token} {f : Formula} :
    Derives g p ts f → around p f + f.parentheses ≤ openings ts
  | .term h => by
    have hle := around_mono (show Phrase.sum.rank ≤ Phrase.term.rank by decide) f
    have hterm := h.le_openings
    omega
  | .factor h => by
    have hle := around_mono (show Phrase.term.rank ≤ Phrase.factor.rank by decide) f
    have hfactor := h.le_openings
    omega
  | .power h => by
    have hle := around_mono (show Phrase.factor.rank ≤ Phrase.power.rank by decide) f
    have hpower := h.le_openings
    omega
  | .primary h => by
    have hle := around_mono (show Phrase.power.rank ≤ Phrase.primary.rank by decide) f
    have hprimary := h.le_openings
    omega
  | .join hl hop hr =>
    openings_operation (phrases_of_additive hop) hl.le_openings
      (fun hk => by rw [hk] at hop; cases hop) hr.le_openings
  | .scale hl hop hr =>
    openings_operation (phrases_of_multiplicative hop) hl.le_openings
      (fun hk => by rw [hk] at hop; cases hop) hr.le_openings
  | .raise hb ht he =>
    openings_operation ⟨rfl, rfl, rfl⟩ hb.le_openings (by rw [ht]; nofun) he.le_openings
  | .signed hs h => by
    have hoperand := h.le_openings
    have hown : ∀ s f, around .factor (.signed s f) = 0 := fun s f => if_pos (Nat.le_refl _)
    rw [openings_cons_of_ne (sign?_ne_opening hs), hown, parentheses]
    omega
  | .number _ | .pi _ _ | .variable _ _ => Nat.zero_le _
  | .group ho h hc => by
    -- the parentheses of a group pay for those that its place may ask for
    have hinner := h.le_openings
    have hone := around_le_one .primary f
    rw [openings_group ho hc]
    rw [around_sum] at hinner
    omega
  | .call h ho hargs hc _ => by
    have hinner := hargs.le_openings
    have hown : ∀ fn first more, around .primary (.call fn first more) = 0 :=
      fun fn first more => if_pos (Nat.le_refl _)
    rw [openings_cons_of_ne (by rw [h.kind]; nofun), openings_group ho hc, hown, parentheses]
    omega

theorem DerivesArguments.le_openings {g : Grammar} {ts : List Token} {first : Formula}
    {more : List Formula} : DerivesArguments g ts first more →
      first.parentheses + parenthesesOfAll more ≤ openings ts
  | .last h => by
    have hinner := h.le_openings
    rw [parenthesesOfAll]
    omega
  | .next h ht hargs => by
    have hfirst := h.le_openings
    have hrest := hargs.le_openings
    rw [openings_append, openings_cons_of_ne (by rw [ht]; nofun), parenthesesOfAll]
    omega

end

/-! ## Every expression has a rendering -/

section Existence

variable {names : List String} {f : Formula}

theorem isSpelled_word {name : String}
    (h : (name.toList.head?.any startsWord && name.toList.tail.all isWordChar) = true) :
    IsSpelled ⟨.identifier, name, 0⟩ := by
  apply isSpelled_iff.mpr
  refine ⟨rfl, ?_⟩
  obtain ⟨hstart, hmore⟩ := Bool.and_eq_true_iff.mp h
  rcases hname : name.toList with _ | ⟨c, tail⟩
  · rw [hname] at hstart
    cases hstart
  · rw [hname] at hstart hmore
    exact .identifier hstart (List.all_eq_true.mp hmore) nofun

theorem isSpelled_name (fn : Fn) : IsSpelled ⟨.identifier, fn.name, 0⟩ := by
  have hwords : ∀ fn ∈ Fn.all,
      (fn.name.toList.head?.any startsWord && fn.name.toList.tail.all isWordChar) = true := by
    decide +kernel
  exact isSpelled_word (hwords fn (by cases fn <;> decide))

theorem exists_sign (s : Sign) : ∃ t, sign? t.kind = some s ∧ IsSpelled t := by
  cases s with
  | plus => exact ⟨_, rfl, isSpelled_mark (c := '+') rfl⟩
  | minus => exact ⟨_, rfl, isSpelled_mark (c := '-') rfl⟩

theorem exists_operation (op : Operation) : ∃ t, operation? t.kind = some op ∧ IsSpelled t := by
  cases op with
  | add => exact ⟨_, rfl, isSpelled_mark (c := '+') rfl⟩
  | sub => exact ⟨_, rfl, isSpelled_mark (c := '-') rfl⟩
  | mul => exact ⟨_, rfl, isSpelled_star⟩
  | div => exact ⟨_, rfl, isSpelled_mark (c := '/') rfl⟩
  | pow => exact ⟨_, rfl, isSpelled_mark (c := '^') rfl⟩

/-- A group of tokens that can all be spelled. -/
theorem exists_group {ts : List Token} (h : ∀ t ∈ ts, IsSpelled t) :
    ∃ o c, o.kind = .opening ∧ c.kind = .closing ∧ ∀ t ∈ o :: (ts ++ [c]), IsSpelled t := by
  refine ⟨⟨.opening, String.ofList ['('], 0⟩, ⟨.closing, String.ofList [')'], 0⟩, rfl, rfl, ?_⟩
  rw [List.forall_mem_cons, List.forall_mem_append, List.forall_mem_singleton]
  exact ⟨isSpelled_mark (c := '(') rfl, h, isSpelled_mark (c := ')') rfl⟩

/-- There is a rendering without parentheses around it, and all of its tokens can be spelled. -/
def HasBare (f : Formula) : Prop := ∃ ts, RendersBare false f ts ∧ ∀ t ∈ ts, IsSpelled t

/-- Then there is one for every place. -/
theorem HasBare.operand (h : HasBare f) (p : Phrase) :
    ∃ ts, Renders false p f ts ∧ ∀ t ∈ ts, IsSpelled t := by
  obtain ⟨ts, hts, hspelled⟩ := h
  by_cases hp : p.rank ≤ f.phrase.rank
  · exact ⟨ts, .bare hp hts, hspelled⟩
  · obtain ⟨o, c, ho, hc, hgroup⟩ := exists_group hspelled
    have hinner : Renders false .sum f ts := .bare (Nat.zero_le _) hts
    exact ⟨o :: (ts ++ [c]), .group (.inr (Nat.lt_of_not_le hp)) ho hinner hc, hgroup⟩

mutual

theorem hasBare : (f : Formula) → f.IsPrintable names → HasBare f
  | .number x, hf => by
    obtain ⟨source, t, ht, hkind⟩ := hf
    refine ⟨[⟨t.kind, t.text, 0⟩], .number hkind, ?_⟩
    rw [List.forall_mem_singleton]
    exact exists_isSpelled ht
  | .variable name, hf => by
    have hword := hf.2.word
    exact ⟨[⟨.identifier, name, 0⟩], .variable (t := ⟨.identifier, name, 0⟩) rfl,
      List.forall_mem_singleton.mpr hword⟩
  | .signed s f, hf => by
    obtain ⟨t, ht, hspelled⟩ := exists_sign s
    obtain ⟨ts, hts, hall⟩ := (hasBare f hf).operand .factor
    exact ⟨t :: ts, .signed ht hts, List.forall_mem_cons.mpr ⟨hspelled, hall⟩⟩
  | .binary op l r, hf => by
    obtain ⟨t, ht, hspelled⟩ := exists_operation op
    obtain ⟨ts, hts, hall⟩ := (hasBare l hf.1).operand op.leftPhrase
    obtain ⟨us, hus, hall'⟩ := (hasBare r hf.2).operand op.rightPhrase
    refine ⟨ts ++ t :: us, .binary hts ht hus, ?_⟩
    rw [List.forall_mem_append, List.forall_mem_cons]
    exact ⟨hall, hspelled, hall'⟩
  | .call fn first rest, hf => by
    obtain ⟨ts, hts, hall⟩ := hasArguments rest hf.2.2 first (hasBare first hf.2.1)
    obtain ⟨o, c, ho, hc, hgroup⟩ := exists_group hall
    exact ⟨⟨.identifier, fn.name, 0⟩ :: o :: (ts ++ [c]), .call rfl rfl ho hts hc,
      List.forall_mem_cons.mpr ⟨isSpelled_name fn, hgroup⟩⟩

theorem hasArguments : (rest : List Formula) → AllPrintable names rest →
    ∀ first, HasBare first →
      ∃ ts, RendersArguments false first rest ts ∧ ∀ t ∈ ts, IsSpelled t
  | [], _, first, hfirst => by
    obtain ⟨ts, hts, hall⟩ := hfirst.operand .sum
    exact ⟨ts, .last hts, hall⟩
  | g :: rest, hrest, first, hfirst => by
    obtain ⟨ts, hts, hall⟩ := hfirst.operand .sum
    obtain ⟨us, hus, hall'⟩ := hasArguments rest hrest.2 g (hasBare g hrest.1)
    refine ⟨ts ++ ⟨.comma, String.ofList [','], 0⟩ :: us, .next hts rfl hus, ?_⟩
    rw [List.forall_mem_append, List.forall_mem_cons]
    exact ⟨hall, isSpelled_mark (c := ',') rfl, hall'⟩

end

/-- The tokens written one after the other, without a blank. -/
theorem isTextOf_flatMap {ts : List Token} (h : ∀ t ∈ ts, IsSpelled t) :
    IsTextOf ts (ts.flatMap fun t => t.text.toList) := by
  induction ts with
  | nil => exact .nil nofun
  | cons t ts ih =>
    obtain ⟨ht, hts⟩ := List.forall_mem_cons.mp h
    have hcons : IsTextOf (t :: ts) ([] ++ (t.text.toList ++ ts.flatMap fun t => t.text.toList)) :=
      .cons nofun ht (ih hts)
    exact hcons

end Existence

/-! ## Printing and parsing -/

/-- The surface parameters can stand for variables. -/
theorem isVariableName_parameter : ∀ name ∈ Compiled.parameterNames, IsVariableName name := by
  intro name hname
  simp only [Compiled.parameterNames, List.mem_cons, List.not_mem_nil, or_false] at hname
  rcases hname with rfl | rfl
  all_goals exact ⟨isSpelled_word (by decide +kernel), by decide +kernel, by decide +kernel⟩

/-- Printing an expression and parsing the text gives the expression back. A rendering of it puts
parentheses around the operands that bind too loosely for their places, and there is one for every
expression that can be printed. Its text, with a caret or two stars for a power, any literals for
the numbers and any blanks between the tokens, is read as the expression; and so it is if any of its
parts are put in further parentheses. No text of the expression has fewer parentheses than one
without further ones. The surface parameters are among the names that can be printed. -/
theorem parse_rendering (names : List String) (f : Formula) (hf : f.IsPrintable names) :
    (∃ ts cs, Renders false .sum f ts ∧ IsTextOf ts cs) ∧
    (∀ further ts cs, Renders further .sum f ts → IsTextOf ts cs →
      parse names (String.ofList cs) = .ok f) ∧
    (∀ ts us, Renders false .sum f ts → Derives (.over names) .sum us f →
      openings ts ≤ openings us) ∧
    ∀ name ∈ Compiled.parameterNames, IsVariableName name := by
  refine ⟨?_, ?_, ?_, isVariableName_parameter⟩
  · obtain ⟨ts, hts, hspelled⟩ := (hasBare f hf).operand .sum
    exact ⟨ts, _, hts, isTextOf_flatMap hspelled⟩
  · intro further ts cs hts hcs
    exact parse_of_isTextOf (hts.derives hf) hcs
  · intro ts us hts hus
    rw [hts.openings_eq]
    exact hus.le_openings

/-- The square of a negative number, which needs its parentheses, times a parameter. -/
theorem parse_rendering_square :
    let f : Formula :=
      .binary .mul (.binary .pow (.signed .minus (.number 2)) (.number 2)) (.variable "u")
    f.IsPrintable ["u", "v"] ∧ f.parentheses = 1 ∧
      ∃ ts cs, Renders false .sum f ts ∧ IsTextOf ts cs ∧
        parse ["u", "v"] (String.ofList cs) = .ok f := by
  intro f
  have htwo : HasLiteral 2 := by
    have hvalue : Decimal.numeralValue ['2'] = 2 := by decide +kernel
    have hstarts : StartsNumeral ['2'] := .inl rfl
    have hlongest : IsLongest NumeralForm ['2'] ['2'] := isLongest_numeral hstarts
    have hlexeme : Lexeme (.number (Decimal.numeralValue ['2'])) ['2'] [] := .number hlongest
    rw [hvalue] at hlexeme
    have hspelled : IsSpelled ⟨.number 2, "2", 0⟩ := isSpelled_iff.mpr ⟨rfl, hlexeme⟩
    exact ⟨"2", ⟨.number 2, "2", 0⟩, hspelled, rfl⟩
  have hu : "u" ∈ ["u", "v"] ∧ IsVariableName "u" :=
    ⟨by decide, isVariableName_parameter "u" (by decide)⟩
  have hf : f.IsPrintable ["u", "v"] := ⟨⟨htwo, htwo⟩, hu⟩
  obtain ⟨hsome, hparse, -⟩ := parse_rendering ["u", "v"] f hf
  obtain ⟨ts, cs, hts, hcs⟩ := hsome
  exact ⟨hf, rfl, ts, cs, hts, hcs, hparse false ts cs hts hcs⟩

end SurfaceStudio.Formula
