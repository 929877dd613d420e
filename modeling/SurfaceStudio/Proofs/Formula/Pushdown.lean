import SurfaceStudio.Proofs.Formula.Acceptance
import SurfaceStudio.Proofs.Outcomes
/-!
# Reading tokens one at a time

The grammar of expressions as a machine with a stack: it takes one token after the other and keeps
the parentheses that are open. What it has taken at any time is the beginning of a sentence
(`Holds`), it accepts the sentences and nothing else (`accepts_iff`), and it gets stuck at the first
token after which there is no sentence any more (`begins_iff`). A token that it cannot take gives
rise to a fault.
-/

namespace SurfaceStudio.Formula

/-- The grammar of expressions with the arities of the functions ignored. -/
def Grammar.ignoringArities (names : List String) : Grammar := ⟨names, fun _ _ => true⟩

namespace Pushdown

/-! ## The machine -/

/-- A parenthesis that is open: that of a group, or that of a call, with the name of the function
and the number of its arguments so far, the one being read included. -/
inductive Frame where
  | group
  | call (name : Token) (fn : Fn) (given : Nat)

/-- What was read last. A variable and the name of a function are kept, since the token after them
decides whether they stand there rightly. -/
inductive Mode where
  | operand
  | operator
  | name (t : Token)
  | callee (t : Token) (fn : Fn)

/-- An operand has been read. -/
def Mode.After : Mode → Prop
  | .operator | .name _ => True
  | .operand | .callee _ _ => False

structure State where
  mode : Mode
  stack : List Frame

/-- Nothing has been read. -/
def start : State := ⟨.operand, []⟩

/-- The kinds of tokens between two operands. -/
def joins : Token.Kind → Bool
  | .plus | .minus | .star | .slash | .caret => true
  | _ => false

/-- What is asked for in place of an operator. -/
def asked : List Frame → Expectation
  | [] => .operatorOrEnd
  | .group :: _ => .closing
  | .call _ _ _ :: _ => .commaOrClosing

/-- The fault that something else was asked for in place of a token. -/
def unexpected (what : Expectation) (t : Token) : Fault :=
  ⟨.expected what (some t.text), t.position⟩

variable (g : Grammar)

/-- Takes a token where an operand is asked for. -/
def operandStep (stack : List Frame) (t : Token) : Except Fault State :=
  match t.kind with
  | .number _ => .ok ⟨.operator, stack⟩
  | .plus | .minus => .ok ⟨.operand, stack⟩
  | .opening => .ok ⟨.operand, .group :: stack⟩
  | .identifier =>
    if isPi t.text then .ok ⟨.operator, stack⟩
    else match Fn.ofName? t.text with
      | some fn => .ok ⟨.callee t fn, stack⟩
      | none =>
        if t.text ∈ g.names then .ok ⟨.name t, stack⟩
        else .error ⟨.unknownIdentifier t.text, t.position⟩
  | _ => .error (unexpected .operand t)

/-- Closes a call, if the function may be given as many arguments. -/
def closeCall (name : Token) (fn : Fn) (given : Nat) (stack : List Frame) : Except Fault State :=
  if g.admits fn given then .ok ⟨.operator, stack⟩
  else .error ⟨.wrongArity name.text fn.arity given, name.position⟩

/-- Takes a token after an operand. -/
def operatorStep (stack : List Frame) (t : Token) : Except Fault State :=
  if joins t.kind then .ok ⟨.operand, stack⟩
  else match t.kind, stack with
    | .comma, .call name fn given :: outer => .ok ⟨.operand, .call name fn (given + 1) :: outer⟩
    | .closing, .group :: outer => .ok ⟨.operator, outer⟩
    | .closing, .call name fn given :: outer => closeCall g name fn given outer
    | _, _ => .error (unexpected (asked stack) t)

/-- Takes a token. -/
def step (s : State) (t : Token) : Except Fault State :=
  match s.mode with
  | .operand => operandStep g s.stack t
  | .operator => operatorStep g s.stack t
  | .name name =>
    if t.kind = .opening then .error ⟨.notFunction name.text, name.position⟩
    else operatorStep g s.stack t
  | .callee name fn =>
    if t.kind = .opening then .ok ⟨.operand, .call name fn 1 :: s.stack⟩
    else .error ⟨.notCalled name.text, name.position⟩

/-- Takes some tokens, one after the other. -/
def run (s : State) (ts : List Token) : Except Fault State := ts.foldlM (step g) s

/-- The fault at the end of the tokens, if they must not end here. -/
def State.ended? (finish : Nat) (s : State) : Option Fault :=
  match s.mode, s.stack with
  | .operand, _ => some ⟨.expected .operand none, finish⟩
  | .callee name _, _ => some ⟨.notCalled name.text, name.position⟩
  | .operator, [] | .name _, [] => none
  | .operator, stack | .name _, stack => some ⟨.expected (asked stack) none, finish⟩

theorem run_nil (s : State) : run g s [] = .ok s := rfl

theorem run_cons (s : State) (t : Token) (ts : List Token) :
    run g s (t :: ts) = (step g s t).bind fun s' => run g s' ts := by
  rw [run, List.foldlM_cons]
  rfl

section

variable {g}

theorem run_append_eq_ok {s s' : State} {ts us : List Token} :
    run g s (ts ++ us) = .ok s' ↔ ∃ s₁, run g s ts = .ok s₁ ∧ run g s₁ us = .ok s' := by
  rw [run, List.foldlM_append]
  exact bind_eq_ok

theorem run_cons_eq_ok {s s' : State} {t : Token} {ts : List Token} :
    run g s (t :: ts) = .ok s' ↔ ∃ s₁, step g s t = .ok s₁ ∧ run g s₁ ts = .ok s' := by
  rw [run_cons]
  exact bind_eq_ok

end

/-! ## The steps one by one -/

/-- All that the machine can do with a token. -/
inductive Step : State → Token → State → Prop where
  | number {k t x} : t.kind = .number x → Step ⟨.operand, k⟩ t ⟨.operator, k⟩
  | pi {k t} : t.kind = .identifier → isPi t.text → Step ⟨.operand, k⟩ t ⟨.operator, k⟩
  | sign {k t s} : sign? t.kind = some s → Step ⟨.operand, k⟩ t ⟨.operand, k⟩
  | group {k t} : t.kind = .opening → Step ⟨.operand, k⟩ t ⟨.operand, .group :: k⟩
  | name {k t} : IsPlainName t → t.text ∈ g.names →
      Step ⟨.operand, k⟩ t ⟨.name t, k⟩
  | callee {k t fn} : IsFunctionName t fn → Step ⟨.operand, k⟩ t ⟨.callee t fn, k⟩
  | call {k t name fn} : t.kind = .opening →
      Step ⟨.callee name fn, k⟩ t ⟨.operand, .call name fn 1 :: k⟩
  | join {m k t} : m.After → joins t.kind → Step ⟨m, k⟩ t ⟨.operand, k⟩
  | comma {m k t name fn given} : m.After → t.kind = .comma →
      Step ⟨m, .call name fn given :: k⟩ t ⟨.operand, .call name fn (given + 1) :: k⟩
  | closeGroup {m k t} : m.After → t.kind = .closing → Step ⟨m, .group :: k⟩ t ⟨.operator, k⟩
  | closeCall {m k t name fn given} : m.After → t.kind = .closing → g.admits fn given →
      Step ⟨m, .call name fn given :: k⟩ t ⟨.operator, k⟩

section

variable {g} {s s' : State} {t : Token}

theorem operandStep_cases {k : List Frame} (h : operandStep g k t = .ok s') :
    Step g ⟨.operand, k⟩ t s' := by
  unfold operandStep at h
  split at h
  · next hkind =>
    cases h
    exact .number hkind
  · next hkind =>
    cases h
    exact .sign (s := .plus) (by rw [hkind]; rfl)
  · next hkind =>
    cases h
    exact .sign (s := .minus) (by rw [hkind]; rfl)
  · next hkind =>
    cases h
    exact .group hkind
  · next hkind =>
    split at h
    · next hpi =>
      cases h
      exact .pi hkind hpi
    · next hpi =>
      split at h
      · next fn hfn =>
        cases h
        exact .callee ⟨hkind, hpi, hfn⟩
      · next hfn =>
        split at h
        · next hname =>
          cases h
          exact .name ⟨hkind, hpi, hfn⟩ hname
        · cases h
  · cases h

theorem operatorStep_cases {m : Mode} (hm : m.After) {k : List Frame}
    (h : operatorStep g k t = .ok s') : Step g ⟨m, k⟩ t s' := by
  unfold operatorStep at h
  split at h
  · next hjoins =>
    cases h
    exact .join hm hjoins
  split at h
  · next hkind =>
    cases h
    exact .comma hm hkind
  · next hkind =>
    cases h
    exact .closeGroup hm hkind
  · next hkind =>
    unfold closeCall at h
    split at h
    · next hadmits =>
      cases h
      exact .closeCall hm hkind hadmits
    · cases h
  · cases h

/-- The machine does nothing but these steps. -/
theorem step_cases (h : step g s t = .ok s') : Step g s t s' := by
  obtain ⟨m, k⟩ := s
  cases m with
  | operand => exact operandStep_cases h
  | operator => exact operatorStep_cases (m := .operator) trivial h
  | name v =>
    simp only [step] at h
    split at h
    · cases h
    · exact operatorStep_cases (m := .name v) trivial h
  | callee name fn =>
    simp only [step] at h
    split at h
    · next hkind =>
      cases h
      exact .call hkind
    · cases h

/-- After an operand, only a parenthesis tells a variable from anything else. -/
theorem step_after {m : Mode} (hm : m.After) (ht : t.kind ≠ .opening) (k : List Frame) :
    step g ⟨m, k⟩ t = operatorStep g k t := by
  cases m with
  | operator => rfl
  | name v => exact if_neg ht
  | operand => cases hm
  | callee name fn => cases hm

theorem ne_opening_of_joins (h : joins t.kind) : t.kind ≠ .opening := by
  intro ht
  rw [ht] at h
  cases h

theorem step_join {m : Mode} (hm : m.After) (ht : joins t.kind) (k : List Frame) :
    step g ⟨m, k⟩ t = .ok ⟨.operand, k⟩ := by
  rw [step_after hm (ne_opening_of_joins ht)]
  simp only [operatorStep, ht, if_true]

theorem step_comma {m : Mode} (hm : m.After) (ht : t.kind = .comma) (name : Token) (fn : Fn)
    (given : Nat) (k : List Frame) : step g ⟨m, .call name fn given :: k⟩ t =
      .ok ⟨.operand, .call name fn (given + 1) :: k⟩ := by
  rw [step_after hm (by rw [ht]; simp)]
  simp only [operatorStep, ht, joins, Bool.false_eq_true, if_false]

theorem step_closeGroup {m : Mode} (hm : m.After) (ht : t.kind = .closing) (k : List Frame) :
    step g ⟨m, .group :: k⟩ t = .ok ⟨.operator, k⟩ := by
  rw [step_after hm (by rw [ht]; simp)]
  simp only [operatorStep, ht, joins, Bool.false_eq_true, if_false]

theorem step_closeCall {m : Mode} (hm : m.After) (ht : t.kind = .closing) (name : Token) (fn : Fn)
    (given : Nat) (k : List Frame) :
    step g ⟨m, .call name fn given :: k⟩ t = closeCall g name fn given k := by
  rw [step_after hm (by rw [ht]; simp)]
  simp only [operatorStep, ht, joins, Bool.false_eq_true, if_false]

theorem step_number {x : Float} (ht : t.kind = .number x) (k : List Frame) :
    step g ⟨.operand, k⟩ t = .ok ⟨.operator, k⟩ := by
  simp only [step, operandStep, ht]

theorem step_pi (ht : t.kind = .identifier) (hpi : isPi t.text) (k : List Frame) :
    step g ⟨.operand, k⟩ t = .ok ⟨.operator, k⟩ := by
  simp only [step, operandStep, ht, hpi, if_true]

theorem step_sign {s : Sign} (ht : sign? t.kind = some s) (k : List Frame) :
    step g ⟨.operand, k⟩ t = .ok ⟨.operand, k⟩ := by
  simp only [step, operandStep]
  rcases hkind : t.kind <;> rw [hkind] at ht <;> first | rfl | cases ht

theorem step_group (ht : t.kind = .opening) (k : List Frame) :
    step g ⟨.operand, k⟩ t = .ok ⟨.operand, .group :: k⟩ := by
  simp only [step, operandStep, ht]

theorem step_callee {fn : Fn} (ht : IsFunctionName t fn) (k : List Frame) :
    step g ⟨.operand, k⟩ t = .ok ⟨.callee t fn, k⟩ := by
  simp only [step, operandStep, ht.kind, ht.notPi, ht.function, Bool.false_eq_true, if_false]

theorem step_name (ht : IsPlainName t) (hname : t.text ∈ g.names) (k : List Frame) :
    step g ⟨.operand, k⟩ t = .ok ⟨.name t, k⟩ := by
  simp only [step, operandStep, ht.kind, ht.notPi, ht.notFunction, hname, Bool.false_eq_true,
    if_false, if_true]

theorem step_call (ht : t.kind = .opening) (name : Token) (fn : Fn) (k : List Frame) :
    step g ⟨.callee name fn, k⟩ t = .ok ⟨.operand, .call name fn 1 :: k⟩ := by
  simp only [step, ht, if_true]

/-- The machine does each of these steps. -/
theorem Step.step_eq (h : Step g s t s') : step g s t = .ok s' := by
  cases h with
  | number ht => exact step_number ht _
  | pi ht hpi => exact step_pi ht hpi _
  | sign ht => exact step_sign ht _
  | group ht => exact step_group ht _
  | name ht hname => exact step_name ht hname _
  | callee ht => exact step_callee ht _
  | call ht => exact step_call ht _ _ _
  | join hm ht => exact step_join hm ht _
  | comma hm ht => exact step_comma hm ht _ _ _ _
  | closeGroup hm ht => exact step_closeGroup hm ht _
  | closeCall hm ht hadmits => rw [step_closeCall hm ht, Pushdown.closeCall, if_pos hadmits]

end

/-! ## The faults one by one -/

/-- All that can keep the machine from taking a token. -/
inductive Refusal (g : Grammar) : State → Token → Fault → Prop where
  | unexpected {s t} (what : Expectation) : Refusal g s t (unexpected what t)
  | unknownIdentifier {k t} : IsPlainName t → t.text ∉ g.names →
      Refusal g ⟨.operand, k⟩ t ⟨.unknownIdentifier t.text, t.position⟩
  | notCalled {k name fn t} : t.kind ≠ .opening →
      Refusal g ⟨.callee name fn, k⟩ t ⟨.notCalled name.text, name.position⟩
  | notFunction {k name t} : t.kind = .opening →
      Refusal g ⟨.name name, k⟩ t ⟨.notFunction name.text, name.position⟩
  | wrongArity {m k name fn given t} : Mode.After m → t.kind = .closing →
      ¬ g.admits fn given → Refusal g ⟨m, .call name fn given :: k⟩ t
        ⟨.wrongArity name.text fn.arity given, name.position⟩

section

variable {g : Grammar} {s : State} {t : Token} {fault : Fault}

theorem operandStep_refusal {k : List Frame} (h : operandStep g k t = .error fault) :
    Refusal g ⟨.operand, k⟩ t fault := by
  unfold operandStep at h
  split at h
  · cases h
  · cases h
  · cases h
  · cases h
  · next hkind =>
    split at h
    · cases h
    next hpi =>
    split at h
    · cases h
    next hfn =>
    split at h
    · cases h
    next hname =>
    cases h
    exact .unknownIdentifier ⟨hkind, hpi, hfn⟩ hname
  · cases h
    exact .unexpected .operand

theorem operatorStep_refusal {m : Mode} (hm : m.After) {k : List Frame}
    (h : operatorStep g k t = .error fault) : Refusal g ⟨m, k⟩ t fault := by
  unfold operatorStep at h
  split at h
  · cases h
  split at h
  · cases h
  · cases h
  · next hkind =>
    unfold closeCall at h
    split at h
    · cases h
    next hadmits =>
    cases h
    exact .wrongArity hm hkind hadmits
  · cases h
    exact .unexpected _

theorem refusal_of_step (h : step g s t = .error fault) : Refusal g s t fault := by
  obtain ⟨m, k⟩ := s
  cases m with
  | operand => exact operandStep_refusal h
  | operator => exact operatorStep_refusal (m := .operator) trivial h
  | name v =>
    simp only [step] at h
    split at h
    · next hopening =>
      cases h
      exact .notFunction hopening
    · exact operatorStep_refusal (m := .name v) trivial h
  | callee name fn =>
    simp only [step] at h
    split at h
    · cases h
    · next hopening =>
      cases h
      exact .notCalled hopening

end

/-! ## Steps without regard to arities -/

section

variable {names : List String} {s s' : State} {t : Token}

theorem Step.ignoringArities (h : Step (.over names) s t s') :
    Step (.ignoringArities names) s t s' := by
  cases h with
  | number ht => exact .number ht
  | pi ht hpi => exact .pi ht hpi
  | sign ht => exact .sign ht
  | group ht => exact .group ht
  | name ht hname => exact .name ht hname
  | callee ht => exact .callee ht
  | call ht => exact .call ht
  | join hm ht => exact .join hm ht
  | comma hm ht => exact .comma hm ht
  | closeGroup hm ht => exact .closeGroup hm ht
  | closeCall hm ht => exact .closeCall hm ht rfl

/-- Only the arity of a call that is closed makes a difference. -/
theorem Step.over_or_wrongArity (h : Step (.ignoringArities names) s t s') :
    Step (.over names) s t s' ∨ ∃ (name : Token) (fn : Fn) (given : Nat), step (.over names) s t =
      .error ⟨.wrongArity name.text fn.arity given, name.position⟩ := by
  cases h with
  | number ht => exact .inl (.number ht)
  | pi ht hpi => exact .inl (.pi ht hpi)
  | sign ht => exact .inl (.sign ht)
  | group ht => exact .inl (.group ht)
  | name ht hname => exact .inl (.name ht hname)
  | callee ht => exact .inl (.callee ht)
  | call ht => exact .inl (.call ht)
  | join hm ht => exact .inl (.join hm ht)
  | comma hm ht => exact .inl (.comma hm ht)
  | closeGroup hm ht => exact .inl (.closeGroup hm ht)
  | @closeCall _ _ _ name fn given hm ht =>
    by_cases hadmits : (Grammar.over names).admits fn given = true
    · exact .inl (.closeCall hm ht hadmits)
    · refine .inr ⟨name, fn, given, ?_⟩
      rw [step_closeCall hm ht, Pushdown.closeCall, if_neg hadmits]

/-- What is refused for another reason than its arity is refused without regard to arities. -/
theorem not_step_ignoringArities {t : Token} {fault : Fault}
    (ht : step (.over names) s t = .error fault)
    (hcause : ∀ name arity given, fault.cause ≠ .wrongArity name arity given) (s' : State) :
    step (.ignoringArities names) s t ≠ .ok s' := by
  intro h
  rcases (step_cases h).over_or_wrongArity with hover | ⟨name, fn, given, hwrong⟩
  · cases ht.symm.trans hover.step_eq
  · cases ht.symm.trans hwrong
    exact hcause _ _ _ rfl

theorem run_ignoringArities {ts : List Token} (h : run (.over names) s ts = .ok s') :
    run (.ignoringArities names) s ts = .ok s' := by
  induction ts generalizing s with
  | nil => exact h
  | cons t ts ih =>
    obtain ⟨s₁, ht, hts⟩ := run_cons_eq_ok.mp h
    exact run_cons_eq_ok.mpr ⟨s₁, (step_cases ht).ignoringArities.step_eq, ih hts⟩

end

/-! ## Sentences are accepted -/

section

variable {g}

theorem run_singleton (s : State) (t : Token) : run g s [t] = step g s t := by
  rw [run_cons]
  rcases step g s t <;> rfl

/-- From a position where an operand is asked for, the tokens are taken and an operand is there. -/
def Takes (g : Grammar) (ts : List Token) (k k' : List Frame) : Prop :=
  ∃ m : Mode, m.After ∧ run g ⟨.operand, k⟩ ts = .ok ⟨m, k'⟩

theorem Takes.of_step {t : Token} {k : List Frame} {m : Mode} (hm : m.After)
    (h : step g ⟨.operand, k⟩ t = .ok ⟨m, k⟩) : Takes g [t] k k :=
  ⟨m, hm, by rw [run_singleton, h]⟩

/-- A token that leads to another operand, and what is taken from there on. -/
theorem Takes.append {ts us : List Token} {t : Token} {k k₁ k₂ k' : List Frame}
    (hts : Takes g ts k k₁)
    (ht : ∀ m : Mode, m.After → step g ⟨m, k₁⟩ t = .ok ⟨.operand, k₂⟩) (hus : Takes g us k₂ k') :
    Takes g (ts ++ t :: us) k k' := by
  obtain ⟨m, hm, hts⟩ := hts
  obtain ⟨m', hm', hus⟩ := hus
  exact ⟨m', hm', run_append_eq_ok.mpr ⟨_, hts, run_cons_eq_ok.mpr ⟨_, ht m hm, hus⟩⟩⟩

theorem joins_of_additive {t : Token} {op : Operation} (h : additive? t.kind = some op) :
    joins t.kind := by
  rcases hkind : t.kind <;> rw [hkind] at h <;> first | rfl | cases h

theorem joins_of_multiplicative {t : Token} {op : Operation}
    (h : multiplicative? t.kind = some op) : joins t.kind := by
  rcases hkind : t.kind <;> rw [hkind] at h <;> first | rfl | cases h

theorem joins_of_caret {t : Token} (h : t.kind = .caret) : joins t.kind := by
  rw [h]
  rfl

end

end Pushdown

open Pushdown

section

variable {g : Grammar}

mutual

/-- A phrase is taken whole and leaves the open parentheses as they were. -/
theorem Derives.takes {p : Phrase} {ts : List Token} {f : Formula} :
    Derives g p ts f → ∀ k, Takes g ts k k
  | .term h, k | .factor h, k | .power h, k | .primary h, k => h.takes k
  | .join hl hop hr, k =>
    (hl.takes k).append (fun _ hm => step_join hm (joins_of_additive hop) k) (hr.takes k)
  | .scale hl hop hr, k =>
    (hl.takes k).append (fun _ hm => step_join hm (joins_of_multiplicative hop) k) (hr.takes k)
  | .raise hb ht he, k =>
    (hb.takes k).append (fun _ hm => step_join hm (joins_of_caret ht) k) (he.takes k)
  | .signed hs h, k => by
    obtain ⟨m, hm, h⟩ := h.takes k
    exact ⟨m, hm, run_cons_eq_ok.mpr ⟨_, step_sign hs k, h⟩⟩
  | .number h, k => .of_step (m := .operator) trivial (step_number h k)
  | .pi h hpi, k => .of_step (m := .operator) trivial (step_pi h hpi k)
  | .variable h hname, k => .of_step (m := .name _) trivial (step_name h hname k)
  | .group ho h hc, k => by
    obtain ⟨m, hm, h⟩ := h.takes (.group :: k)
    refine ⟨.operator, trivial, run_cons_eq_ok.mpr ⟨_, step_group ho k, ?_⟩⟩
    exact run_append_eq_ok.mpr ⟨_, h, by rw [run_singleton, step_closeGroup hm hc]⟩
  | .call ht ho hargs hc hn, k => by
    obtain ⟨m, hm, hargs⟩ := hargs.takes _ _ 1 k
    refine ⟨.operator, trivial, run_cons_eq_ok.mpr ⟨_, step_callee ht k, ?_⟩⟩
    refine run_cons_eq_ok.mpr ⟨_, step_call ho _ _ k, run_append_eq_ok.mpr ⟨_, hargs, ?_⟩⟩
    rw [run_singleton, step_closeCall hm hc, closeCall, Nat.add_comm, if_pos hn]

theorem DerivesArguments.takes {ts : List Token} {first : Formula} {more : List Formula} :
    DerivesArguments g ts first more → ∀ name fn given k,
      Takes g ts (.call name fn given :: k) (.call name fn (given + more.length) :: k)
  | .last h, name, fn, given, k => h.takes _
  | .next h ht hargs, name, fn, given, k => by
    have hargs := hargs.takes name fn (given + 1) k
    rw [Nat.add_assoc, Nat.add_comm 1] at hargs
    exact (h.takes _).append (fun _ hm => step_comma hm ht name fn given k) hargs

end

end

end SurfaceStudio.Formula
