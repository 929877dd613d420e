import SurfaceStudio.Proofs.Formula.Pushdown
/-!
# The fault that the parser finds

The parser goes through the tokens by recursion, the machine one at a time. They come to the same
verdict: whatever the parser has read when it returns, the machine has taken, and the fault that
stops the parser stops the machine. So the parser's faults can be studied on the machine, whose
state tells what has been read.
-/

namespace SurfaceStudio.Formula

open Pushdown

namespace Pushdown

/-- The fault that the machine comes to, at a token that it cannot take or at the end of the tokens;
none if it accepts them. -/
def verdict (g : Grammar) (finish : Nat) (s : State) (ts : List Token) : Option Fault :=
  match run g s ts with
  | .error fault => some fault
  | .ok s' => s'.ended? finish

/-- The verdict after a step. -/
def verdictAfter (g : Grammar) (finish : Nat) (r : Except Fault State) (ts : List Token) :
    Option Fault :=
  match r with
  | .error fault => some fault
  | .ok s => verdict g finish s ts

theorem verdict_nil (g : Grammar) (finish : Nat) (s : State) :
    verdict g finish s [] = s.ended? finish := rfl

theorem verdict_cons (g : Grammar) (finish : Nat) (s : State) (t : Token) (ts : List Token) :
    verdict g finish s (t :: ts) = verdictAfter g finish (step g s t) ts := by
  rw [verdict, run_cons]
  rcases step g s t <;> rfl

/-- Where a verdict comes from. -/
theorem verdict_eq_some {g : Grammar} {finish : Nat} {s : State} {ts : List Token} {fault : Fault}
    (h : verdict g finish s ts = some fault) :
    (∃ s', run g s ts = .ok s' ∧ s'.ended? finish = some fault) ∨
      ∃ used t rest s', ts = used ++ t :: rest ∧ run g s used = .ok s' ∧
        step g s' t = .error fault := by
  induction ts generalizing s with
  | nil => exact .inl ⟨s, rfl, h⟩
  | cons t ts ih =>
    rw [verdict_cons] at h
    rcases hstep : step g s t with fault' | s₁
    · rw [hstep] at h
      cases h
      exact .inr ⟨[], t, ts, s, rfl, rfl, hstep⟩
    · rw [hstep] at h
      rcases ih h with ⟨s', hrun, hended⟩ | ⟨used, t', rest, s', rfl, hrun, ht'⟩
      · exact .inl ⟨s', run_cons_eq_ok.mpr ⟨s₁, hstep, hrun⟩, hended⟩
      · exact .inr ⟨t :: used, t', rest, s', rfl, run_cons_eq_ok.mpr ⟨s₁, hstep, hrun⟩, ht'⟩

end Pushdown

/-! ## The readers and the machine -/

/-- The tokens do not go on with a phrase that was read before them. A parenthesis may follow: it
does not go on with anything but a name. -/
def Settled (p : Phrase) (rest : List Token) : Prop :=
  ∀ t ∈ rest.head?, t.kind = .opening ∨ p.isExtendedBy t.kind = false

/-- What an answer of the parser owes to a verdict `v` of the machine: a fault is the verdict, and
after what has been read the verdict is given by `V` on the rest, of which `C` is known. -/
def Agrees {α : Type} (v : Option Fault) (V : α → List Token → Option Fault)
    (C : List Token → Prop) : Answer α → Prop
  | .ok (a, rest) => v = V a rest ∧ C rest
  | .error fault => v = some fault

section Combinators

variable {α β : Type} {v v' : Option Fault} {V : α → List Token → Option Fault}
  {W : β → List Token → Option Fault} {C D : List Token → Prop} {x : Answer α}

theorem Agrees.bind {next : α × List Token → Answer β} (hx : Agrees v V C x)
    (hnext : ∀ a rest, x = .ok (a, rest) → C rest → Agrees (V a rest) W D (next (a, rest))) :
    Agrees v W D (x.bind next) := by
  rcases x with fault | ⟨a, rest⟩
  · exact hx
  · obtain ⟨rfl, hrest⟩ := hx
    exact hnext a rest rfl hrest

theorem Agrees.map (hx : Agrees v V C x) (f : α → β) (hf : ∀ a rest, V a rest = W (f a) rest) :
    Agrees v W C (x.map fun p => (f p.1, p.2)) := by
  rcases x with fault | ⟨a, rest⟩
  · exact hx
  · exact ⟨hx.1.trans (hf a rest), hx.2⟩

theorem Agrees.of_eq (hv : v = v') (hx : Agrees v' V C x) : Agrees v V C x := hv ▸ hx

theorem Agrees.here {a : α} {rest : List Token} (h : C rest) :
    Agrees (V a rest) V C (.ok (a, rest)) := ⟨rfl, h⟩

end Combinators

/-- What is left after a part of the tokens has been read is shorter. -/
theorem length_lt_of_map {ts rest : List Token} {f : Formula} {x : Except Fault (Parsed ts)}
    (h : (x.map fun p => (p.formula, p.rest)) = .ok (f, rest)) : rest.length < ts.length := by
  obtain ⟨p, -, hp⟩ := map_eq_ok.mp h
  cases hp
  exact p.shorter

section Readers

variable (scope : Scope)

/-- The verdict of the machine over a scope. -/
def Scope.verdict (s : State) (ts : List Token) : Option Fault :=
  Pushdown.verdict scope.grammar scope.finish s ts

/-- The reader of a phrase agrees with the machine in the state `s`. After the phrase there is an
operand, and the parentheses `k` are open. -/
abbrev AgreesOn (p : Phrase) (s : State) (k : List Frame) (ts : List Token) :
    Answer Formula → Prop :=
  Agrees (scope.verdict s ts) (fun _ rest => scope.verdict ⟨.operator, k⟩ rest) (Settled p)

/-- The reader of arguments agrees with the machine in the state `s`. The arguments are counted when
the call is closed. -/
abbrev AgreesOnCall (s : State) (name : Token) (fn : Fn) (given : Nat) (k : List Frame)
    (ts : List Token) : Answer (Formula × List Formula) → Prop :=
  Agrees (scope.verdict s ts)
    (fun a rest => verdictAfter scope.grammar scope.finish
      (closeCall scope.grammar name fn (given + a.2.length) k) rest)
    fun _ => True

section

variable {scope} {s s' : State} {t : Token} {fault : Fault}

theorem verdict_step (h : step scope.grammar s t = .ok s') (ts : List Token) :
    scope.verdict s (t :: ts) = scope.verdict s' ts := by
  rw [Scope.verdict, verdict_cons, h]
  rfl

theorem verdict_stuck (h : step scope.grammar s t = .error fault) (ts : List Token) :
    scope.verdict s (t :: ts) = some fault := by
  rw [Scope.verdict, verdict_cons, h]
  rfl

/-- A token that the machine cannot take. -/
theorem Agrees.stuck {α : Type} {V : α → List Token → Option Fault} {C : List Token → Prop}
    (h : step scope.grammar s t = .error fault) (ts : List Token) :
    Agrees (scope.verdict s (t :: ts)) V C (.error fault) := verdict_stuck h ts

/-! ## What follows a phrase -/

theorem settled_nil (p : Phrase) : Settled p [] := by simp [Settled]

theorem settled_cons {p : Phrase} {rest : List Token} :
    Settled p (t :: rest) ↔ t.kind = .opening ∨ p.isExtendedBy t.kind = false := by simp [Settled]

theorem settled_primary (rest : List Token) : Settled .primary rest := by
  intro t _
  cases ht : t.kind <;> first | exact .inl rfl | exact .inr rfl

theorem settled_factor {rest : List Token} (ht : t.kind ≠ .caret) :
    Settled .factor (t :: rest) := by
  rw [settled_cons]
  cases hkind : t.kind <;> first | exact .inl rfl | exact .inr rfl | exact absurd hkind ht

theorem Settled.term {rest : List Token} (h : Settled .factor (t :: rest))
    (ht : multiplicative? t.kind = none) : Settled .term (t :: rest) := by
  rw [settled_cons] at h ⊢
  revert h ht
  cases t.kind <;> simp [Phrase.isExtendedBy, multiplicative?]

theorem Settled.sum {rest : List Token} (h : Settled .term (t :: rest))
    (ht : additive? t.kind = none) : Settled .sum (t :: rest) := by
  rw [settled_cons] at h ⊢
  revert h ht
  cases t.kind <;> simp [Phrase.isExtendedBy, additive?]

theorem Settled.not_joins {rest : List Token} (h : Settled .sum (t :: rest)) :
    joins t.kind = false := by
  rw [settled_cons] at h
  revert h
  cases t.kind <;> simp [Phrase.isExtendedBy, joins]

end

/-! ## The steps after the first part of a phrase -/

/-- After a sum the machine cannot take a token that neither closes the innermost parenthesis nor
parts arguments. -/
theorem operatorStep_stuck {g : Grammar} {k : List Frame} {t : Token}
    (hjoins : joins t.kind = false)
    (hcomma : t.kind = .comma → ∀ name fn given outer, k ≠ .call name fn given :: outer)
    (hclosing : t.kind = .closing → k = []) :
    operatorStep g k t = .error (unexpected (asked k) t) := by
  unfold operatorStep
  rw [hjoins]
  simp only [Bool.false_eq_true, if_false]
  split
  · next hkind => exact absurd rfl (hcomma hkind _ _ _ _)
  · next hkind => cases hclosing hkind
  · next hkind => cases hclosing hkind
  · rfl

theorem closing_agrees (f : Formula) (k : List Frame) {ts : List Token} (h : Settled .sum ts) :
    AgreesOn scope .primary ⟨.operator, .group :: k⟩ k ts (readClosing scope f ts) := by
  rcases ts with _ | ⟨t, rest⟩
  · rfl
  rw [readClosing]
  split
  · next ht =>
    exact .of_eq (verdict_step (step_closeGroup (m := .operator) trivial ht k) rest)
      (.here (settled_primary rest))
  · next ht =>
    have hstuck : step scope.grammar ⟨.operator, .group :: k⟩ t = .error (unexpected .closing t) :=
      operatorStep_stuck h.not_joins (by simp) (fun hclosing => absurd hclosing ht)
    exact .stuck hstuck rest

theorem finished_agrees (f : Formula) {ts : List Token} (h : Settled .sum ts) :
    match finished scope (f, ts) with
    | .ok _ => scope.verdict ⟨.operator, []⟩ ts = none
    | .error fault => scope.verdict ⟨.operator, []⟩ ts = some fault := by
  rcases ts with _ | ⟨t, rest⟩
  · rfl
  have hstuck : step scope.grammar ⟨.operator, []⟩ t = .error (unexpected .operatorOrEnd t) :=
    operatorStep_stuck h.not_joins (by simp) fun _ => rfl
  exact verdict_stuck hstuck rest

theorem variable_agrees (t : Token) (k : List Frame) (ts : List Token) :
    AgreesOn scope .primary ⟨.name t, k⟩ k ts (readVariable t ts) := by
  rcases ts with _ | ⟨o, rest⟩
  · refine ⟨?_, settled_primary []⟩
    cases k <;> rfl
  rw [readVariable]
  split
  · next ho =>
    have hstuck : step scope.grammar ⟨.name t, k⟩ o = .error ⟨.notFunction t.text, t.position⟩ :=
      if_pos ho
    exact .stuck hstuck rest
  · next ho =>
    -- the next token is no parenthesis, so that the name counts as any other operand
    refine ⟨?_, settled_primary _⟩
    rw [Scope.verdict, verdict_cons, step_after (m := .name t) trivial ho]
    exact (verdict_cons _ _ ⟨.operator, k⟩ o rest).symm

/-! ## The readers -/

mutual

theorem sum_agrees (ts : List Token) (k : List Frame) :
    AgreesOn scope .sum ⟨.operand, k⟩ k ts (readSum scope ts) := by
  rw [readSum_eq]
  exact (term_agrees ts k).bind fun f rest hread hrest => sumTail_agrees f k rest hrest
termination_by (ts.length, 5)
decreasing_by
  · exact Prod.Lex.right _ (by decide)
  · exact Prod.Lex.left _ _ (length_lt_of_map hread)

theorem sumTail_agrees (f : Formula) (k : List Frame) : (ts : List Token) → Settled .term ts →
    AgreesOn scope .sum ⟨.operator, k⟩ k ts (readSumTail scope f ts)
  | [], _ => by
    rw [readSumTail_nil]
    exact .here (settled_nil _)
  | t :: rest, h => by
    rw [readSumTail_cons]
    rcases hop : additive? t.kind with _ | op
    · exact .here (h.sum hop)
    · have hstep := step_join (g := scope.grammar) (m := .operator) trivial
        (joins_of_additive hop) k
      refine .of_eq (verdict_step hstep rest) ?_
      exact (term_agrees rest k).bind fun r rest' hread hrest => sumTail_agrees _ k rest' hrest
termination_by ts => (ts.length, 0)
decreasing_by
  · exact Prod.Lex.left _ _ (Nat.lt_succ_self _)
  · exact Prod.Lex.left _ _ (Nat.lt_succ_of_lt (length_lt_of_map hread))

theorem term_agrees (ts : List Token) (k : List Frame) :
    AgreesOn scope .term ⟨.operand, k⟩ k ts (readTerm scope ts) := by
  rw [readTerm_eq]
  exact (factor_agrees ts k).bind fun f rest hread hrest => termTail_agrees f k rest hrest
termination_by (ts.length, 4)
decreasing_by
  · exact Prod.Lex.right _ (by decide)
  · exact Prod.Lex.left _ _ (length_lt_of_map hread)

theorem termTail_agrees (f : Formula) (k : List Frame) : (ts : List Token) → Settled .factor ts →
    AgreesOn scope .term ⟨.operator, k⟩ k ts (readTermTail scope f ts)
  | [], _ => by
    rw [readTermTail_nil]
    exact .here (settled_nil _)
  | t :: rest, h => by
    rw [readTermTail_cons]
    rcases hop : multiplicative? t.kind with _ | op
    · exact .here (h.term hop)
    · have hstep := step_join (g := scope.grammar) (m := .operator) trivial
        (joins_of_multiplicative hop) k
      refine .of_eq (verdict_step hstep rest) ?_
      exact (factor_agrees rest k).bind fun r rest' hread hrest => termTail_agrees _ k rest' hrest
termination_by ts => (ts.length, 0)
decreasing_by
  · exact Prod.Lex.left _ _ (Nat.lt_succ_self _)
  · exact Prod.Lex.left _ _ (Nat.lt_succ_of_lt (length_lt_of_map hread))

theorem factor_agrees (ts : List Token) (k : List Frame) :
    AgreesOn scope .factor ⟨.operand, k⟩ k ts (readFactor scope ts) := by
  rcases ts with _ | ⟨t, rest⟩
  · rw [readFactor_nil]
    rfl
  · rw [readFactor_cons]
    rcases hsign : sign? t.kind with _ | sign
    · exact power_agrees t rest k hsign
    · exact .of_eq (verdict_step (step_sign hsign k) rest)
        ((factor_agrees rest k).map (Formula.signed sign) fun _ _ => rfl)
termination_by (ts.length, 3)
decreasing_by
  · exact Prod.Lex.right _ (by decide)
  · exact Prod.Lex.left _ _ (Nat.lt_succ_self _)

theorem power_agrees (t : Token) (ts : List Token) (k : List Frame) (h : sign? t.kind = none) :
    AgreesOn scope .factor ⟨.operand, k⟩ k (t :: ts) (readPower scope (t :: ts)) := by
  rw [readPower_eq]
  refine (primary_agrees t ts k h).bind fun base rest hread _ => ?_
  rcases rest with _ | ⟨c, rest⟩
  · exact .here (settled_nil _)
  · rw [readExponent]
    split
    · next hc =>
      have hstep := step_join (g := scope.grammar) (m := .operator) trivial (joins_of_caret hc) k
      exact .of_eq (verdict_step hstep rest)
        ((factor_agrees rest k).map (Formula.binary .pow base) fun _ _ => rfl)
    · next hc => exact .here (settled_factor hc)
termination_by (ts.length + 1, 2)
decreasing_by
  · exact Prod.Lex.right _ (by decide)
  · exact Prod.Lex.left _ _ (Nat.lt_of_succ_lt (length_lt_of_map hread))

theorem primary_agrees (t : Token) (ts : List Token) (k : List Frame) (h : sign? t.kind = none) :
    AgreesOn scope .primary ⟨.operand, k⟩ k (t :: ts) (readPrimary scope (t :: ts)) := by
  rw [readPrimary_cons]
  split
  · next x hkind =>
    exact .of_eq (verdict_step (step_number hkind k) ts) (.here (settled_primary ts))
  · next hkind =>
    refine .of_eq (verdict_step (step_group hkind k) ts) ?_
    exact (sum_agrees ts (.group :: k)).bind fun f rest _ hrest => closing_agrees scope f k hrest
  · next hkind => exact name_agrees t ts k hkind
  · next hnumber hopening hidentifier =>
    refine .stuck ?_ ts
    simp only [step, operandStep]
    cases hkind : t.kind with
    | number x => exact absurd hkind (hnumber x)
    | opening => exact absurd hkind hopening
    | identifier => exact absurd hkind hidentifier
    | plus | minus => rw [hkind] at h; cases h
    | star | slash | caret | closing | comma => rfl
termination_by (ts.length + 1, 1)
decreasing_by
  · exact Prod.Lex.left _ _ (Nat.lt_succ_self _)
  · exact Prod.Lex.right _ (by decide)

theorem name_agrees (t : Token) (ts : List Token) (k : List Frame) (h : t.kind = .identifier) :
    AgreesOn scope .primary ⟨.operand, k⟩ k (t :: ts) (readName scope t ts) := by
  rw [readName]
  split
  · next hpi => exact .of_eq (verdict_step (step_pi h hpi k) ts) (.here (settled_primary ts))
  next hpi =>
  split
  · next fn hfn =>
    exact .of_eq (verdict_step (step_callee ⟨h, hpi, hfn⟩ k) ts) (call_agrees t fn ts k)
  next hfn =>
  split
  · next hname =>
    exact .of_eq (verdict_step (step_name ⟨h, hpi, hfn⟩ hname k) ts) (variable_agrees scope t k ts)
  · next hname =>
    have hname : t.text ∉ scope.grammar.names := hname
    refine .stuck ?_ ts
    simp only [step, operandStep, h, hpi, hfn, hname, Bool.false_eq_true, if_false]
termination_by (ts.length + 1, 0)
decreasing_by exact Prod.Lex.left _ _ (Nat.lt_succ_self _)

theorem call_agrees (t : Token) (fn : Fn) (ts : List Token) (k : List Frame) :
    AgreesOn scope .primary ⟨.callee t fn, k⟩ k ts (readCall scope fn t ts) := by
  rcases ts with _ | ⟨o, rest⟩
  · rfl
  rw [readCall]
  split
  · next ho =>
    refine .of_eq (verdict_step (step_call ho t fn k) rest) ?_
    refine (arguments_agree rest t fn 1 k).bind fun a rest' _ _ => ?_
    rw [checkedCall, Nat.add_comm 1, closeCall]
    -- both sides ask the same of the number of arguments
    have hover : scope.grammar.admits fn (a.2.length + 1) = fn.arity.admits (a.2.length + 1) := rfl
    rw [hover]
    by_cases hadmits : fn.arity.admits (a.2.length + 1) = true
    · rw [if_pos hadmits, if_pos hadmits]
      exact .here (settled_primary rest')
    · rw [if_neg hadmits, if_neg hadmits]
      rfl
  · next ho =>
    have hstuck : step scope.grammar ⟨.callee t fn, k⟩ o = .error ⟨.notCalled t.text, t.position⟩ :=
      if_neg ho
    exact .stuck hstuck rest
termination_by (ts.length, 7)
decreasing_by exact Prod.Lex.left _ _ (Nat.lt_succ_self _)

theorem arguments_agree (ts : List Token) (name : Token) (fn : Fn) (given : Nat) (k : List Frame) :
    AgreesOnCall scope ⟨.operand, .call name fn given :: k⟩ name fn given k ts
      (readArguments scope ts) := by
  rw [readArguments_eq]
  refine (sum_agrees ts _).bind fun f rest hread hrest => ?_
  rcases rest with _ | ⟨t, rest⟩
  · rfl
  rw [readMoreArguments]
  split
  · next ht =>
    have hstep := step_comma (g := scope.grammar) (m := .operator) trivial ht name fn given k
    refine .of_eq (verdict_step hstep rest) ?_
    refine (arguments_agree rest name fn (given + 1) k).map (fun a => (f, a.1 :: a.2)) ?_
    intro a rest'
    rw [List.length_cons, Nat.add_assoc, Nat.add_comm 1]
  split
  · next ht =>
    have hstep := step_closeCall (g := scope.grammar) (m := .operator) trivial ht name fn given k
    refine ⟨?_, trivial⟩
    rw [Scope.verdict, verdict_cons, hstep]
    rfl
  · next hcomma hclosing =>
    have hstuck : step scope.grammar ⟨.operator, .call name fn given :: k⟩ t =
        .error (unexpected .commaOrClosing t) :=
      operatorStep_stuck hrest.not_joins (fun h => absurd h hcomma) fun h => absurd h hclosing
    exact .stuck hstuck rest
termination_by (ts.length, 6)
decreasing_by
  · exact Prod.Lex.right _ (by decide)
  · exact Prod.Lex.left _ _ (Nat.lt_of_succ_lt (length_lt_of_map hread))

end

end Readers

/-- The parser finds the fault that the machine comes to. -/
theorem ofTokens_verdict (names : List String) (finish : Nat) (ts : List Token) :
    match ofTokens names finish ts with
    | .ok _ => verdict (.over names) finish start ts = none
    | .error fault => verdict (.over names) finish start ts = some fault := by
  rw [ofTokens_eq]
  have hsum := sum_agrees ⟨names, finish⟩ ts []
  generalize readSum ⟨names, finish⟩ ts = x at hsum ⊢
  rcases x with fault | ⟨f, rest⟩
  · exact hsum
  · obtain ⟨hverdict, hrest⟩ := hsum
    have hend := finished_agrees ⟨names, finish⟩ f hrest
    have hverdict : verdict (.over names) finish start ts =
        verdict (.over names) finish ⟨.operator, []⟩ rest := hverdict
    show match finished ⟨names, finish⟩ (f, rest) with
      | .ok _ => verdict (.over names) finish start ts = none
      | .error fault => verdict (.over names) finish start ts = some fault
    rw [hverdict]
    exact hend

theorem ofTokens_eq_error_iff {names : List String} {finish : Nat} {ts : List Token}
    {fault : Fault} : ofTokens names finish ts = .error fault ↔
      verdict (.over names) finish start ts = some fault := by
  have hverdict := ofTokens_verdict names finish ts
  rcases hread : ofTokens names finish ts with fault' | f
  · rw [hread] at hverdict
    rw [hverdict, Except.error.injEq, Option.some.injEq]
  · rw [hread] at hverdict
    rw [hverdict]
    exact ⟨nofun, nofun⟩

end SurfaceStudio.Formula
