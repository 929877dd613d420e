import SurfaceStudio.Proofs.Formula.Pushdown
/-!
# Beginnings of sentences

What the machine has taken is made up of the open parentheses, each with what stands before it, and
of a part of a sum inside the innermost one (`Holds`). Every step keeps this form. When no
parenthesis is open and an operand has been read, the form is that of a sentence, so that the
machine accepts the sentences and nothing else. With the arities ignored it can always go on to a
sentence, which makes what it takes the beginnings of sentences.
-/

namespace SurfaceStudio.Formula

open Pushdown

/-! ## Tokens before a sum -/

/-- Tokens that make a sum of every sum that follows them. -/
def Opens (g : Grammar) (pre : List Token) : Prop :=
  ∀ us f, Derives g .sum us f → ∃ f', Derives g .sum (pre ++ us) f'

/-- Tokens that make `given` arguments with every sum that follows them. -/
def OpensArguments (g : Grammar) (given : Nat) (pre : List Token) : Prop :=
  ∀ us f, Derives g .sum us f →
    ∃ first more, DerivesArguments g (pre ++ us) first more ∧ more.length + 1 = given

section

variable {g : Grammar}

theorem Derives.sum_of_primary {ts : List Token} {f : Formula} (h : Derives g .primary ts f) :
    Derives g .sum ts f := .term (.factor (.power (.primary h)))

/-- It is enough to look at the first term of the sum. -/
theorem sum_of_first_term {pre : List Token}
    (h : ∀ us f, Derives g .term us f → ∃ f', Derives g .sum (pre ++ us) f') :
    ∀ {us : List Token} {f : Formula}, Derives g .sum us f → ∃ f', Derives g .sum (pre ++ us) f'
  | _, _, .term ht => h _ _ ht
  | _, _, .join hl hop hr => by
    obtain ⟨f', hl⟩ := sum_of_first_term h hl
    exact ⟨_, by rw [← List.append_assoc]; exact .join hl hop hr⟩

/-- It is enough to look at the first factor of the term. -/
theorem term_of_first_factor {pre : List Token}
    (h : ∀ us f, Derives g .factor us f → ∃ f', Derives g .term (pre ++ us) f') :
    ∀ {us : List Token} {f : Formula},
      Derives g .term us f → ∃ f', Derives g .term (pre ++ us) f'
  | _, _, .factor hf => h _ _ hf
  | _, _, .scale hl hop hr => by
    obtain ⟨f', hl⟩ := term_of_first_factor h hl
    exact ⟨_, by rw [← List.append_assoc]; exact .scale hl hop hr⟩

theorem opens_of_term {pre : List Token}
    (h : ∀ us f, Derives g .term us f → ∃ f', Derives g .sum (pre ++ us) f') : Opens g pre :=
  fun _ _ => sum_of_first_term h

theorem opens_of_factor {pre : List Token}
    (h : ∀ us f, Derives g .factor us f → ∃ f', Derives g .term (pre ++ us) f') : Opens g pre :=
  opens_of_term fun _ _ ht => (term_of_first_factor h ht).imp fun _ => .term

theorem opens_nil : Opens g [] := fun _ f h => ⟨f, h⟩

theorem Opens.append {pre pre' : List Token} (h : Opens g pre) (h' : Opens g pre') :
    Opens g (pre ++ pre') := by
  intro us f hus
  obtain ⟨f', hus⟩ := h' us f hus
  rw [List.append_assoc]
  exact h _ f' hus

theorem opens_sign {t : Token} {s : Sign} (h : sign? t.kind = some s) : Opens g [t] :=
  opens_of_factor fun _ _ hf => ⟨_, .factor (.signed h hf)⟩

theorem joins_cases {t : Token} (h : joins t.kind) :
    (∃ op, additive? t.kind = some op) ∨ (∃ op, multiplicative? t.kind = some op) ∨
      t.kind = .caret := by
  rcases hkind : t.kind <;> rw [hkind] at h <;>
    first | exact .inl ⟨_, rfl⟩ | exact .inr (.inl ⟨_, rfl⟩) | exact .inr (.inr rfl) | cases h

/-- An operand and an operator. How tightly the operator binds decides where the phrase that follows
it is taken apart. -/
theorem opens_join {us : List Token} {t : Token} {f : Formula} (hus : Derives g .primary us f)
    (ht : joins t.kind) : Opens g (us ++ [t]) := by
  rcases joins_cases ht with ⟨op, hop⟩ | ⟨op, hop⟩ | hcaret
  · refine opens_of_term fun more r hmore => ⟨.binary op f r, ?_⟩
    rw [List.append_assoc, List.singleton_append]
    exact .join hus.sum_of_primary hop hmore
  · refine opens_of_factor fun more r hmore => ⟨.binary op f r, ?_⟩
    rw [List.append_assoc, List.singleton_append]
    exact .scale (.factor (.power (.primary hus))) hop hmore
  · refine opens_of_factor fun more e hmore => ⟨.binary .pow f e, ?_⟩
    rw [List.append_assoc, List.singleton_append]
    exact .factor (.power (.raise hus hcaret hmore))

theorem opensArguments_nil : OpensArguments g 1 [] := fun _ f h => ⟨f, [], .last h, rfl⟩

/-- One more argument at the end. -/
theorem DerivesArguments.snoc {c : Token} {us : List Token} {f : Formula} (hc : c.kind = .comma)
    (hus : Derives g .sum us f) : ∀ {ts : List Token} {first : Formula} {more : List Formula},
      DerivesArguments g ts first more → DerivesArguments g (ts ++ c :: us) first (more ++ [f])
  | _, _, _, .last h => .next h hc (.last hus)
  | _, _, _, .next h ht hargs => by
    rw [List.append_assoc]
    exact .next h ht (hargs.snoc hc hus)

theorem OpensArguments.comma {given : Nat} {pre us : List Token} {f : Formula} {c : Token}
    (h : OpensArguments g given pre) (hus : Derives g .sum us f) (hc : c.kind = .comma) :
    OpensArguments g (given + 1) (pre ++ us ++ [c]) := by
  intro more f' hmore
  obtain ⟨first, rest, hargs, rfl⟩ := h us f hus
  refine ⟨first, rest ++ [f'], ?_, by rw [List.length_append, List.length_singleton]⟩
  rw [List.append_assoc _ [c], List.singleton_append]
  exact hargs.snoc hc hmore

end

/-! ## What the machine has taken -/

/-- The tokens up to a place inside the open parentheses where an argument or a whole sum starts. -/
inductive Entered (g : Grammar) : List Frame → List Token → Prop where
  | start : Entered g [] []
  | group {k front pre o} : Entered g k front → Opens g pre → o.kind = .opening →
      Entered g (.group :: k) (front ++ pre ++ [o])
  | call {k front pre t fn o given args} : Entered g k front → Opens g pre →
      IsFunctionName t fn → o.kind = .opening → OpensArguments g given args →
      Entered g (.call t fn given :: k) (front ++ pre ++ t :: o :: args)

/-- Tokens after which an operand is asked for. -/
def AsksOperand (g : Grammar) (k : List Frame) (ts : List Token) : Prop :=
  ∃ front pre, ts = front ++ pre ∧ Entered g k front ∧ Opens g pre

/-- Tokens that end with an operand. -/
def EndsOperand (g : Grammar) (k : List Frame) (ts : List Token) : Prop :=
  ∃ front us f, ts = front ++ us ∧ AsksOperand g k front ∧ Derives g .primary us f

/-- The tokens that have led to a state. -/
def Holds (g : Grammar) (ts : List Token) : State → Prop
  | ⟨.operand, k⟩ => AsksOperand g k ts
  | ⟨.operator, k⟩ => EndsOperand g k ts
  | ⟨.name t, k⟩ =>
    ∃ front, ts = front ++ [t] ∧ AsksOperand g k front ∧ IsPlainName t ∧ t.text ∈ g.names
  | ⟨.callee t fn, k⟩ => ∃ front, ts = front ++ [t] ∧ AsksOperand g k front ∧ IsFunctionName t fn

section

variable {g : Grammar} {k : List Frame} {ts : List Token}

@[simp] theorem holds_operand : Holds g ts ⟨.operand, k⟩ ↔ AsksOperand g k ts := .rfl

@[simp] theorem holds_operator : Holds g ts ⟨.operator, k⟩ ↔ EndsOperand g k ts := .rfl

theorem Entered.asksOperand (h : Entered g k ts) : AsksOperand g k ts :=
  ⟨ts, [], (List.append_nil ts).symm, h, opens_nil⟩

theorem Holds.endsOperand {m : Mode} (hm : m.After) (h : Holds g ts ⟨m, k⟩) :
    EndsOperand g k ts := by
  cases m with
  | operator => exact h
  | name t =>
    obtain ⟨front, rfl, hfront, ht, hname⟩ := h
    exact ⟨front, [t], _, rfl, hfront, .variable ht hname⟩
  | operand => cases hm
  | callee t fn => cases hm

/-- An operand ends a sum inside the innermost parenthesis. -/
theorem EndsOperand.sum (h : EndsOperand g k ts) :
    ∃ front us f, ts = front ++ us ∧ Entered g k front ∧ Derives g .sum us f := by
  obtain ⟨_, us, f, rfl, ⟨front, pre, rfl, hfront, hpre⟩, hus⟩ := h
  obtain ⟨f', hsum⟩ := hpre us f hus.sum_of_primary
  exact ⟨front, pre ++ us, f', List.append_assoc _ _ _, hfront, hsum⟩

/-- The arguments of an open call that ends with an operand. -/
theorem EndsOperand.arguments {t : Token} {fn : Fn} {given : Nat}
    (h : EndsOperand g (.call t fn given :: k) ts) :
    ∃ front o args first more, ts = front ++ t :: o :: args ∧ AsksOperand g k front ∧
      IsFunctionName t fn ∧ o.kind = .opening ∧ DerivesArguments g args first more ∧
      more.length + 1 = given := by
  obtain ⟨_, us, f, rfl, hfront, hus⟩ := h.sum
  cases hfront with
  | @call _ front pre _ _ o _ args hfront hpre ht ho hargs =>
    obtain ⟨first, more, hargs, hgiven⟩ := hargs us f hus
    exact ⟨front ++ pre, o, args ++ us, first, more, by simp, ⟨front, pre, rfl, hfront, hpre⟩, ht,
      ho, hargs, hgiven⟩

/-- A primary after tokens that ask for an operand. -/
theorem AsksOperand.primary {us : List Token} {f : Formula} (h : AsksOperand g k ts)
    (hus : Derives g .primary us f) : EndsOperand g k (ts ++ us) := ⟨ts, us, f, rfl, h, hus⟩

theorem holds_start (g : Grammar) : Holds g [] start := Entered.start.asksOperand

/-- Each step keeps the form of what has been taken. -/
theorem Holds.step {s s' : State} {t : Token} (h : Holds g ts s) (hs : Step g s t s') :
    Holds g (ts ++ [t]) s' := by
  cases hs with
  | number ht => exact AsksOperand.primary h (.number ht)
  | pi ht hpi => exact AsksOperand.primary h (.pi ht hpi)
  | sign ht =>
    obtain ⟨front, pre, rfl, hfront, hpre⟩ := h
    exact ⟨front, pre ++ [t], List.append_assoc _ _ _, hfront, hpre.append (opens_sign ht)⟩
  | group ht =>
    obtain ⟨front, pre, rfl, hfront, hpre⟩ := h
    exact (Entered.group hfront hpre ht).asksOperand
  | name ht hname => exact ⟨ts, rfl, h, ht, hname⟩
  | callee ht => exact ⟨ts, rfl, h, ht⟩
  | @call _ _ name fn ht =>
    obtain ⟨_, rfl, ⟨front, pre, rfl, hfront, hpre⟩, hname⟩ := h
    rw [List.append_assoc _ [name]]
    exact (Entered.call hfront hpre hname ht opensArguments_nil).asksOperand
  | join hm ht =>
    obtain ⟨_, us, f, rfl, ⟨front, pre, rfl, hfront, hpre⟩, hus⟩ := h.endsOperand hm
    exact ⟨front, pre ++ (us ++ [t]), by simp, hfront, hpre.append (opens_join hus ht)⟩
  | comma hm ht =>
    obtain ⟨_, us, f, rfl, hfront, hus⟩ := (h.endsOperand hm).sum
    cases hfront with
    | @call _ front pre name _ o _ args hfront hpre hname ho hargs =>
      have hargs := hargs.comma hus ht
      have hentered := (Entered.call hfront hpre hname ho hargs).asksOperand
      simpa using hentered
  | closeGroup hm ht =>
    obtain ⟨_, us, f, rfl, hfront, hus⟩ := (h.endsOperand hm).sum
    cases hfront with
    | @group _ front pre o hfront hpre ho =>
      have hgroup := AsksOperand.primary ⟨front, pre, rfl, hfront, hpre⟩ (.group ho hus ht)
      simpa using hgroup
  | closeCall hm ht hadmits =>
    obtain ⟨front, o, args, first, more, rfl, hfront, hname, ho, hargs, rfl⟩ :=
      (h.endsOperand hm).arguments
    have hcall := hfront.primary (.call hname ho hargs ht hadmits)
    simpa using hcall

/-- A whole run keeps it as well. -/
theorem Holds.run {s s' : State} {us : List Token} (h : Holds g ts s)
    (hrun : run g s us = .ok s') : Holds g (ts ++ us) s' := by
  induction us generalizing ts s with
  | nil =>
    cases hrun
    rwa [List.append_nil]
  | cons t us ih =>
    obtain ⟨s₁, ht, hus⟩ := run_cons_eq_ok.mp hrun
    rw [← List.singleton_append, ← List.append_assoc]
    exact ih (h.step (step_cases ht)) hus

theorem holds_of_run {s : State} (h : run g start ts = .ok s) : Holds g ts s :=
  (holds_start g).run h

/-! ## Sentences and their beginnings -/

/-- The machine ends after an operand and outside of all parentheses exactly on the sentences. -/
theorem accepts_iff : (∃ m : Mode, m.After ∧ run g start ts = .ok ⟨m, []⟩) ↔
    ∃ f, Derives g .sum ts f := by
  constructor
  · rintro ⟨m, hm, hrun⟩
    obtain ⟨_, us, f, rfl, hfront, hus⟩ := ((holds_of_run hrun).endsOperand hm).sum
    cases hfront
    exact ⟨f, hus⟩
  · rintro ⟨f, h⟩
    exact h.takes []

end

/-- Some more tokens make a sentence. -/
def Begins (g : Grammar) (ts : List Token) : Prop := ∃ more f, Derives g .sum (ts ++ more) f

theorem exists_run_of_begins {g : Grammar} {ts : List Token} (h : Begins g ts) :
    ∃ s, run g start ts = .ok s := by
  obtain ⟨more, f, h⟩ := h
  obtain ⟨m, -, hrun⟩ := h.takes []
  obtain ⟨s, hs, -⟩ := run_append_eq_ok.mp hrun
  exact ⟨s, hs⟩

section

variable {names : List String}

/-- From every state the machine can get to where it may end, if the arities are ignored. -/
theorem exists_completion (names : List String) (s : State) :
    ∃ more m, Mode.After m ∧ run (.ignoringArities names) s more = .ok ⟨m, []⟩ := by
  -- after an operand the open parentheses are closed one by one
  have hclose : ∀ (k : List Frame) (m : Mode), m.After → ∃ more m', Mode.After m' ∧
      run (.ignoringArities names) ⟨m, k⟩ more = .ok ⟨m', []⟩ := by
    intro k
    induction k with
    | nil => exact fun m hm => ⟨[], m, hm, rfl⟩
    | cons frame k ih =>
      intro m hm
      obtain ⟨more, m', hm', hmore⟩ := ih .operator trivial
      refine ⟨⟨.closing, ")", 0⟩ :: more, m', hm', run_cons_eq_ok.mpr ⟨_, ?_, hmore⟩⟩
      cases frame with
      | group => exact step_closeGroup hm rfl k
      | call t fn given => exact step_closeCall hm rfl t fn given k
  -- where an operand is asked for, a number does
  have hoperand : ∀ k : List Frame, ∃ more m', Mode.After m' ∧
      run (.ignoringArities names) ⟨.operand, k⟩ more = .ok ⟨m', []⟩ := by
    intro k
    obtain ⟨more, m', hm', hmore⟩ := hclose k .operator trivial
    exact ⟨⟨.number 0, "0", 0⟩ :: more, m', hm', run_cons_eq_ok.mpr ⟨_, rfl, hmore⟩⟩
  obtain ⟨m, k⟩ := s
  cases m with
  | operand => exact hoperand k
  | operator => exact hclose k .operator trivial
  | name t => exact hclose k (.name t) trivial
  | callee t fn =>
    obtain ⟨more, m', hm', hmore⟩ := hoperand (.call t fn 1 :: k)
    exact ⟨⟨.opening, "(", 0⟩ :: more, m', hm', run_cons_eq_ok.mpr ⟨_, rfl, hmore⟩⟩

/-- The machine takes the beginnings of sentences and nothing else. -/
theorem begins_iff {ts : List Token} : Begins (.ignoringArities names) ts ↔
    ∃ s, run (.ignoringArities names) start ts = .ok s := by
  refine ⟨exists_run_of_begins, ?_⟩
  rintro ⟨s, hs⟩
  obtain ⟨more, m, hm, hmore⟩ := exists_completion names s
  exact ⟨more, accepts_iff.mp ⟨m, hm, run_append_eq_ok.mpr ⟨s, hs, hmore⟩⟩⟩

end

end SurfaceStudio.Formula
