import SurfaceStudio.Proofs.Formula.Beginnings
import SurfaceStudio.Proofs.Formula.Scopes
import SurfaceStudio.Proofs.Formula.Tokenization
import SurfaceStudio.Proofs.Formula.Verdict
/-!
# Where a syntax error points

A fault that something else was expected points at the first symbol after which there is no sentence
any more, with the arities of the functions ignored; the end of the text counts as a symbol. An
unknown identifier is such a symbol itself. The other faults point at a name before that symbol: a
function that is not called, a variable that is, and of the functions that are given a wrong number
of arguments the one whose call is closed first.
-/

namespace SurfaceStudio.Formula

open Pushdown

/-! ## Symbols that cannot be right -/

def Symbol.position : Symbol → Nat
  | .token t => t.position
  | .finish p => p

/-- The text of a token. The end has none. -/
def Symbol.text? : Symbol → Option String
  | .token t => some t.text
  | .finish _ => none

/-- The tokens of a sentence, and the end after them. -/
def IsSentence (g : Grammar) (symbols : List Symbol) : Prop :=
  ∃ ts p f, symbols = ts.map .token ++ [.finish p] ∧ Derives g .sum ts f

/-- Some more symbols make a sentence. -/
def Completable (g : Grammar) (symbols : List Symbol) : Prop :=
  ∃ more, IsSentence g (symbols ++ more)

/-- The symbol with the number `n` is the first one that cannot be right: up to every place before
it the symbols can be completed to a sentence, and together with it they cannot. -/
structure IsFirstImpossible (g : Grammar) (symbols : List Symbol) (n : Nat) (s : Symbol) :
    Prop where
  nth : symbols[n]? = some s
  before : ∀ m ≤ n, Completable g (symbols.take m)
  impossible : ¬ Completable g (symbols.take (n + 1))

/-- A call of a function that does not take as many arguments. Inside of the arguments there may be
such calls again. -/
structure WrongCall (names : List String) (symbols : List Symbol) where
  before : List Symbol
  name : Token
  fn : Fn
  opening : Token
  arguments : List Token
  first : Formula
  more : List Formula
  closing : Token
  after : List Symbol
  symbols_eq : symbols =
    before ++ (name :: opening :: (arguments ++ [closing])).map .token ++ after
  isFunctionName : IsFunctionName name fn
  isOpening : opening.kind = .opening
  derives : DerivesArguments (.ignoringArities names) arguments first more
  isClosing : closing.kind = .closing
  wrong : ¬ fn.arity.admits (more.length + 1)

/-- The number of arguments. -/
def WrongCall.given {names : List String} {symbols : List Symbol} (c : WrongCall names symbols) :
    Nat := c.more.length + 1

/-- The number of the closing parenthesis among the symbols. -/
def WrongCall.closingIndex {names : List String} {symbols : List Symbol}
    (c : WrongCall names symbols) : Nat := c.before.length + (c.arguments.length + 2)

/-- The faults that an expression over some names can be found to have, and the symbols that account
for them. -/
inductive Accounted (names : List String) (symbols : List Symbol) : Fault → Prop where
  | expected {n s} (what : Expectation) :
      IsFirstImpossible (.ignoringArities names) symbols n s →
      Accounted names symbols ⟨.expected what s.text?, s.position⟩
  | unknownIdentifier {n t} :
      IsFirstImpossible (.ignoringArities names) symbols n (.token t) →
      IsPlainName t → t.text ∉ names →
      Accounted names symbols ⟨.unknownIdentifier t.text, t.position⟩
  | notCalled {n t fn} : symbols[n]? = some (.token t) → IsFunctionName t fn →
      (∀ o, symbols[n + 1]? = some (.token o) → o.kind ≠ .opening) →
      Completable (.ignoringArities names) (symbols.take n) →
      Accounted names symbols ⟨.notCalled t.text, t.position⟩
  | notFunction {n t o} : symbols[n]? = some (.token t) → IsPlainName t → t.text ∈ names →
      symbols[n + 1]? = some (.token o) → o.kind = .opening →
      Completable (.ignoringArities names) (symbols.take n) →
      Accounted names symbols ⟨.notFunction t.text, t.position⟩
  | wrongArity (c : WrongCall names symbols) :
      Completable (.ignoringArities names) c.before →
      (∀ c' : WrongCall names symbols, c.closingIndex ≤ c'.closingIndex) →
      Accounted names symbols ⟨.wrongArity c.name.text c.fn.arity c.given, c.name.position⟩

section

variable {g : Grammar} {symbols : List Symbol}

/-- What is before a part that can be completed can be completed as well. -/
theorem Completable.of_append {more : List Symbol} (h : Completable g (symbols ++ more)) :
    Completable g symbols := by
  obtain ⟨rest, h⟩ := h
  exact ⟨more ++ rest, by rwa [← List.append_assoc]⟩

theorem Completable.take_of_le {m n : Nat} (h : Completable g (symbols.take n)) (hm : m ≤ n) :
    Completable g (symbols.take m) := by
  rw [← List.take_append_drop m (symbols.take n), List.take_take, Nat.min_eq_left hm] at h
  exact h.of_append

/-- There is only one first symbol that cannot be right. -/
theorem IsFirstImpossible.unique {n n' : Nat} {s s' : Symbol}
    (h : IsFirstImpossible g symbols n s) (h' : IsFirstImpossible g symbols n' s') :
    n = n' ∧ s = s' := by
  obtain rfl : n = n' := by
    rcases Nat.lt_trichotomy n n' with hlt | heq | hlt
    · exact absurd (h'.before (n + 1) hlt) h.impossible
    · exact heq
    · exact absurd (h.before (n' + 1) hlt) h'.impossible
  exact ⟨rfl, Option.some.inj (h.nth.symm.trans h'.nth)⟩

/-- Tokens at the start of the symbols of a text are tokens of the text. -/
theorem eq_append_of_symbols {more : List Symbol} {p : Nat} : ∀ {ts us : List Token},
    ts.map .token ++ more = us.map .token ++ [.finish p] →
      ∃ rest, us = ts ++ rest ∧ more = rest.map .token ++ [.finish p]
  | [], us, h => ⟨us, rfl, h⟩
  | _ :: _, [], h => by simp at h
  | t :: ts, u :: us, h => by
    simp only [List.map_cons, List.cons_append, List.cons.injEq, Symbol.token.injEq] at h
    obtain ⟨rfl, h⟩ := h
    obtain ⟨rest, rfl, hmore⟩ := eq_append_of_symbols h
    exact ⟨rest, rfl, hmore⟩

/-- Tokens can be completed to the symbols of a sentence if they begin one. -/
theorem completable_tokens {ts : List Token} :
    Completable g (ts.map .token) ↔ Begins g ts := by
  constructor
  · rintro ⟨more, us, p, f, hus, h⟩
    obtain ⟨rest, rfl, -⟩ := eq_append_of_symbols hus
    exact ⟨rest, f, h⟩
  · rintro ⟨more, f, h⟩
    exact ⟨more.map .token ++ [.finish 0], ts ++ more, 0, f, by simp, h⟩

/-- Where the end stands, the tokens have to be a sentence already. -/
theorem completable_finish {ts : List Token} {p : Nat} :
    Completable g (ts.map .token ++ [.finish p]) ↔ ∃ f, Derives g .sum ts f := by
  constructor
  · rintro ⟨more, us, q, f, hus, h⟩
    rw [List.append_assoc] at hus
    obtain ⟨rest, rfl, hmore⟩ := eq_append_of_symbols hus
    rcases rest with _ | ⟨t, rest⟩
    · rw [List.append_nil] at h
      exact ⟨f, h⟩
    · simp at hmore
  · rintro ⟨f, h⟩
    exact ⟨[], ts, p, f, by simp, h⟩

end

section

variable {names : List String} {ts used : List Token} {s : State} {finish : Nat}

/-! ## The first symbol that cannot be right -/

/-- What the machine has taken can be completed. -/
theorem completable_of_run (hrun : run (.over names) start ts = .ok s) :
    Completable (.ignoringArities names) (ts.map .token) :=
  completable_tokens.mpr (begins_iff.mpr ⟨s, run_ignoringArities hrun⟩)

/-- The end cannot be right where the machine must not end. -/
theorem isFirstImpossible_finish {fault : Fault} (hrun : run (.over names) start ts = .ok s)
    (hended : s.ended? finish = some fault) :
    IsFirstImpossible (.ignoringArities names) (ts.map .token ++ [.finish finish]) ts.length
      (.finish finish) where
  nth := by simp
  before := fun m hm => by
    have htaken := completable_of_run hrun
    exact Completable.take_of_le (by simpa using htaken) hm
  impossible := by
    intro h
    rw [List.take_of_length_le (by simp), completable_finish] at h
    obtain ⟨m, hm, haccepts⟩ := accepts_iff.mpr h
    -- on a sentence the machine would be where it may end
    cases haccepts.symm.trans (run_ignoringArities hrun)
    cases m with
    | operand => cases hm
    | callee name fn => cases hm
    | operator => cases hended
    | name t => cases hended

/-- A token cannot be right where the machine does not take it, whatever the arities. -/
theorem isFirstImpossible_token {t : Token} {rest : List Token}
    (hrun : run (.over names) start used = .ok s)
    (ht : ∀ s', step (.ignoringArities names) s t ≠ .ok s') :
    IsFirstImpossible (.ignoringArities names)
      ((used ++ t :: rest).map .token ++ [.finish finish]) used.length (.token t) where
  nth := by simp
  before := fun m hm => by
    have htaken := completable_of_run hrun
    exact Completable.take_of_le (by simpa using htaken) hm
  impossible := by
    intro h
    have htake : ((used ++ t :: rest).map Symbol.token ++ [Symbol.finish finish]).take
        (used.length + 1) = (used ++ [t]).map .token := by
      simp [List.take_append]
    rw [htake, completable_tokens, begins_iff] at h
    obtain ⟨s', hs'⟩ := h
    obtain ⟨s₁, hs₁, htoken⟩ := run_append_eq_ok.mp hs'
    cases hs₁.symm.trans (run_ignoringArities hrun)
    rw [run_singleton] at htoken
    exact ht s' htoken

/-! ## Wrong calls -/

/-- With the arities in force the machine does not take a wrong call. -/
theorem not_run_of_wrong {name o c : Token} {fn : Fn} {args : List Token} {first : Formula}
    {more : List Formula} (hname : IsFunctionName name fn) (ho : o.kind = .opening)
    (hargs : DerivesArguments (.ignoringArities names) args first more) (hc : c.kind = .closing)
    (hwrong : ¬ fn.arity.admits (more.length + 1)) (s s' : State) :
    run (.over names) s (name :: o :: (args ++ [c])) ≠ .ok s' := by
  intro h
  obtain ⟨s₁, hs₁, h⟩ := run_cons_eq_ok.mp h
  obtain ⟨s₂, hs₂, h⟩ := run_cons_eq_ok.mp h
  obtain ⟨s₃, hs₃, h⟩ := run_append_eq_ok.mp h
  -- a function can only be named where an operand is asked for
  obtain ⟨k, rfl⟩ : ∃ k, s = ⟨.operand, k⟩ := by
    cases step_cases hs₁ with
    | number | pi | sign | group | name | callee => exact ⟨_, rfl⟩
    | call ht | comma _ ht | closeGroup _ ht | closeCall _ ht => cases hname.kind.symm.trans ht
    | join _ ht =>
      rw [hname.kind] at ht
      cases ht
  cases hs₁.symm.trans (step_callee hname k)
  cases hs₂.symm.trans (step_call ho name fn k)
  -- the arguments are taken as they are without regard to arities, and then they are counted
  obtain ⟨m, hm, htakes⟩ := hargs.takes name fn 1 k
  cases htakes.symm.trans (run_ignoringArities hs₃)
  have hwrong : ¬ (Grammar.over names).admits fn (more.length + 1) := hwrong
  rw [run_singleton, step_closeCall hm hc, closeCall, Nat.add_comm, if_neg hwrong] at h
  cases h

/-- The tokens of a wrong call. -/
def WrongCall.tokens {symbols : List Symbol} (w : WrongCall names symbols) : List Token :=
  w.name :: w.opening :: (w.arguments ++ [w.closing])

theorem WrongCall.length_tokens {symbols : List Symbol} (w : WrongCall names symbols) :
    w.before.length + w.tokens.length = w.closingIndex + 1 := by
  simp only [WrongCall.tokens, WrongCall.closingIndex, List.length_cons, List.length_append,
    List.length_nil]
  omega

/-- As long as the machine takes the tokens, none of them closes a wrong call. -/
theorem WrongCall.length_le {rest : List Token} {symbols : List Symbol}
    (hsymbols : symbols = (used ++ rest).map .token ++ [.finish finish])
    (hrun : run (.over names) start used = .ok s) (w : WrongCall names symbols) :
    used.length ≤ w.closingIndex := by
  by_contra hlt
  have hlength := w.length_tokens
  -- up to the closing parenthesis of the call, all symbols are tokens that were taken
  have htake : (used.take (w.closingIndex + 1)).map Symbol.token =
      w.before ++ w.tokens.map Symbol.token := by
    have hboth := congrArg (List.take (w.closingIndex + 1)) (hsymbols.symm.trans w.symbols_eq)
    rw [List.map_append, List.append_assoc, List.take_append_of_le_length (by simp; omega),
      List.take_left' (by simpa [WrongCall.tokens] using hlength), ← List.map_take] at hboth
    exact hboth
  obtain ⟨front, call, hused, -, hcall⟩ := List.map_eq_append_iff.mp htake
  have hcall : call = w.tokens := (List.map_inj_right fun _ _ => Symbol.token.inj).mp hcall
  rw [← List.take_append_drop (w.closingIndex + 1) used, hused, hcall] at hrun
  obtain ⟨_, hfront, -⟩ := run_append_eq_ok.mp hrun
  obtain ⟨s₁, -, hcall⟩ := run_append_eq_ok.mp hfront
  exact not_run_of_wrong w.isFunctionName w.isOpening w.derives w.isClosing w.wrong s₁ _ hcall

/-! ## Faults and their symbols -/

/-- The front of what the machine has taken can be completed. -/
theorem completable_front {front more : List Token}
    (hrun : run (.over names) start (front ++ more) = .ok s) :
    Completable (.ignoringArities names) (front.map .token) := by
  obtain ⟨s₁, hfront, -⟩ := run_append_eq_ok.mp hrun
  exact completable_of_run hfront

/-- A function was named, and what follows is no parenthesis. -/
theorem accounted_notCalled {name : Token} {fn : Fn} {k : List Frame} {rest : List Token}
    (hrun : run (.over names) start used = .ok ⟨.callee name fn, k⟩)
    (hrest : ∀ o ∈ rest.head?, o.kind ≠ .opening) :
    Accounted names ((used ++ rest).map .token ++ [.finish finish])
      ⟨.notCalled name.text, name.position⟩ := by
  obtain ⟨front, rfl, -, hname⟩ := holds_of_run hrun
  refine .notCalled (n := front.length) (by simp) hname ?_ ?_
  · intro o ho
    rcases rest with _ | ⟨t, rest⟩
    · simp at ho
    · have hto : t = o := by simpa using ho
      exact hrest o (by simp [hto])
  · have hfront := completable_front hrun
    simpa using hfront

/-- At the end of the tokens. -/
theorem accounted_of_ended {fault : Fault} (hrun : run (.over names) start ts = .ok s)
    (hended : s.ended? finish = some fault) :
    Accounted names (ts.map .token ++ [.finish finish]) fault := by
  have hfirst := isFirstImpossible_finish hrun hended
  obtain ⟨m, k⟩ := s
  cases m with
  | operand =>
    cases hended
    exact .expected .operand hfirst
  | callee name fn =>
    cases hended
    rw [← List.append_nil ts]
    exact accounted_notCalled hrun (by simp)
  | operator | name t =>
    cases k with
    | nil => cases hended
    | cons frame k =>
      cases hended
      exact .expected _ hfirst

/-- At a token. -/
theorem accounted_of_refused {t : Token} {rest : List Token} {fault : Fault}
    (hrun : run (.over names) start used = .ok s) (ht : step (.over names) s t = .error fault) :
    Accounted names ((used ++ t :: rest).map .token ++ [.finish finish]) fault := by
  cases refusal_of_step ht with
  | unexpected what =>
    exact .expected what (isFirstImpossible_token hrun (not_step_ignoringArities ht nofun))
  | unknownIdentifier hname hmem =>
    have hstuck := not_step_ignoringArities ht nofun
    exact .unknownIdentifier (isFirstImpossible_token hrun hstuck) hname hmem
  | notCalled hopening => exact accounted_notCalled hrun (by simpa using hopening)
  | @notFunction _ name _ hopening =>
    obtain ⟨front, rfl, -, hname, hmem⟩ := holds_of_run hrun
    have hfront := completable_front hrun
    exact .notFunction (n := front.length) (o := t) (by simp) hname hmem (by simp) hopening
      (by simpa using hfront)
  | @wrongArity m k name fn given _ hm hclosing hadmits =>
    obtain ⟨front, o, args, first, more, rfl, -, hname, ho, hargs, rfl⟩ :=
      ((holds_of_run hrun).endsOperand hm).arguments
    let w : WrongCall names
        ((front ++ name :: o :: args ++ t :: rest).map .token ++ [.finish finish]) :=
      { before := front.map .token
        name := name
        fn := fn
        opening := o
        arguments := args
        first := first
        more := more
        closing := t
        after := rest.map .token ++ [.finish finish]
        symbols_eq := by simp
        isFunctionName := hname
        isOpening := ho
        derives := hargs.transfer (fun _ _ _ => rfl) hargs.mem_names
        isClosing := hclosing
        wrong := hadmits }
    have hindex : (front ++ name :: o :: args).length = w.closingIndex := by
      simp [w, WrongCall.closingIndex]
    exact .wrongArity w (completable_front hrun)
      fun w' => hindex ▸ WrongCall.length_le rfl hrun w'

end

/-! ## Faults of the parser -/

/-- A fault that is accounted for points at one of the symbols. -/
theorem Accounted.exists_symbol {names : List String} {symbols : List Symbol} {fault : Fault}
    (h : Accounted names symbols fault) : ∃ s ∈ symbols, fault.position = s.position := by
  cases h with
  | expected what hfirst => exact ⟨_, List.mem_of_getElem? hfirst.nth, rfl⟩
  | unknownIdentifier hfirst => exact ⟨_, List.mem_of_getElem? hfirst.nth, rfl⟩
  | notCalled hnth => exact ⟨_, List.mem_of_getElem? hnth, rfl⟩
  | notFunction hnth => exact ⟨_, List.mem_of_getElem? hnth, rfl⟩
  | wrongArity w =>
    have hmem : Symbol.token w.name ∈
        w.before ++ (w.name :: w.opening :: (w.arguments ++ [w.closing])).map .token ++
          w.after := by
      simp
    rw [← w.symbols_eq] at hmem
    exact ⟨.token w.name, hmem, rfl⟩

theorem position_le_length {source : String} {symbols : List Symbol}
    (h : tokenize source = .ok symbols) : ∀ s ∈ symbols, s.position ≤ source.length := by
  obtain ⟨ts, hts, rfl⟩ := tokenize_eq_ok_iff.mp h
  have hts := tokens_eq_ok_iff.mp hts
  intro s hs
  rcases List.mem_append.mp hs with hs | hs
  · obtain ⟨t, ht, rfl⟩ := List.mem_map.mp hs
    exact (hts.position_lt_stop ht).le.trans (hts.inside t ht)
  · rw [List.mem_singleton.mp hs]
    exact Nat.le_refl _

/-- A text that tokenizes and cannot be read has a fault that one of its symbols accounts for. Where
something else was expected, and at an unknown identifier, that is the first symbol that cannot be
right, the arities ignored. Otherwise it is a name with a beginning of a sentence before it; if the
function takes another number of arguments, no other wrong call is closed before its own. -/
theorem parse_fault_accounted {names : List String} {source : String} {symbols : List Symbol}
    {fault : Fault} (hsymbols : tokenize source = .ok symbols)
    (h : parse names source = .error fault) :
    Accounted names symbols fault ∧ fault.position ≤ source.length := by
  have haccounted : Accounted names symbols fault := by
    obtain ⟨ts, hts, rfl⟩ := tokenize_eq_ok_iff.mp hsymbols
    have hread : ofTokens names source.length ts = .error fault := by
      rw [parse, hts] at h
      exact h
    have hverdict := ofTokens_eq_error_iff.mp hread
    rcases verdict_eq_some hverdict with
      ⟨s, hrun, hended⟩ | ⟨used, t, rest, s, rfl, hrun, ht⟩
    · exact accounted_of_ended hrun hended
    · exact accounted_of_refused hrun ht
  refine ⟨haccounted, ?_⟩
  obtain ⟨s, hs, hposition⟩ := haccounted.exists_symbol
  rw [hposition]
  exact position_le_length hsymbols s hs

/-- Of two calls inside one another the inner one is reported. -/
theorem parse_fault_accounted_inner_call :
    let names := ["u", "v"]
    let source := "sin(cos(1, 2), 3)"
    let fault : Fault := ⟨.wrongArity "cos" (.exactly 1) 2, 4⟩
    parse names source = .error fault ∧
      ∃ symbols, tokenize source = .ok symbols ∧ Accounted names symbols fault := by
  intro names source fault
  -- the machine is quicker to evaluate than the parser
  have hverdict : (tokens source).toOption.map (verdict (.over names) source.length start) =
      some (some fault) := by decide +kernel
  rcases htokens : tokens source with _ | ts
  · rw [htokens] at hverdict
    cases hverdict
  rw [htokens] at hverdict
  have hparse : parse names source = .error fault := by
    rw [parse, htokens]
    exact ofTokens_eq_error_iff.mpr (Option.some.inj hverdict)
  have hsymbols := tokenize_eq_ok_iff.mpr ⟨ts, htokens, rfl⟩
  exact ⟨hparse, _, hsymbols, (parse_fault_accounted hsymbols hparse).1⟩

end SurfaceStudio.Formula
