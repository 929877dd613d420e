import SurfaceStudio.Proofs.Formula.Grammar
import SurfaceStudio.Proofs.Formula.Readers
/-!
# What the parser accepts

The parser accepts the sentences of the grammar and nothing else, and it builds the tree that the
grammar gives them. Both directions follow the recursion of their side: soundness goes along the
readers, where `Sound` says of an answer what it owes to the tokens that were read; completeness
goes along the derivations, where a phrase is read off any tokens whose continuation cannot extend
it.
-/

namespace SurfaceStudio.Formula

/-! ## Where a fault is found -/

/-- A fault that is found while `rest` is left: it asks for something else at the head of `rest`, or
it names the identifier there. -/
inductive FoundAt (scope : Scope) : List Token → Fault → Prop where
  | expected (what : Expectation) (rest : List Token) :
      FoundAt scope rest (scope.expected what rest)
  | notCalled {t rest fn} : IsFunctionName t fn → (∀ o ∈ rest.head?, o.kind ≠ .opening) →
      FoundAt scope (t :: rest) ⟨.notCalled t.text, t.position⟩
  | notFunction {t o rest} : IsPlainName t → t.text ∈ scope.names → o.kind = .opening →
      FoundAt scope (t :: o :: rest) ⟨.notFunction t.text, t.position⟩
  | unknownIdentifier {t rest} : IsPlainName t → t.text ∉ scope.names →
      FoundAt scope (t :: rest) ⟨.unknownIdentifier t.text, t.position⟩
  | wrongArity {t rest fn n} : IsFunctionName t fn → ¬ fn.arity.admits n →
      FoundAt scope (t :: rest) ⟨.wrongArity t.text fn.arity n, t.position⟩

/-! ## Soundness -/

/-- What an answer owes to the tokens it was given: it has read a front part of them with the
property `P`, or it has found a fault at one of them or at their end. -/
def Sound {α : Type} (scope : Scope) (P : List Token → α → Prop) (ts : List Token) :
    Answer α → Prop
  | .ok (a, rest) => ∃ used, ts = used ++ rest ∧ P used a
  | .error fault => ∃ used rest, ts = used ++ rest ∧ FoundAt scope rest fault

section Combinators

variable {α β : Type} {scope : Scope} {P : List Token → α → Prop} {Q : List Token → β → Prop}
  {ts : List Token}

theorem Sound.bind {x : Answer α} {k : α × List Token → Answer β} (hx : Sound scope P ts x)
    (hk : ∀ used rest a, ts = used ++ rest → P used a →
      Sound scope (fun more b => Q (used ++ more) b) rest (k (a, rest))) :
    Sound scope Q ts (x.bind k) := by
  rcases x with fault | ⟨a, rest⟩
  · exact hx
  · obtain ⟨used, hts, ha⟩ := hx
    have hk := hk used rest a hts ha
    simp only [Except.bind]
    generalize k (a, rest) = y at hk
    -- what the second reader has read stands after what the first one has
    rcases y with fault | ⟨b, rest'⟩
    · obtain ⟨used', rest', hrest, hf⟩ := hk
      exact ⟨used ++ used', rest', by rw [hts, hrest, List.append_assoc], hf⟩
    · obtain ⟨used', hrest, hb⟩ := hk
      exact ⟨used ++ used', by rw [hts, hrest, List.append_assoc], hb⟩

theorem Sound.map {x : Answer α} (hx : Sound scope P ts x) (f : α → β)
    (hf : ∀ used a, P used a → Q used (f a)) :
    Sound scope Q ts (x.map fun p => (f p.1, p.2)) := by
  rcases x with fault | ⟨a, rest⟩
  · exact hx
  · obtain ⟨used, hts, ha⟩ := hx
    exact ⟨used, hts, hf used a ha⟩

theorem Sound.mono {P' : List Token → α → Prop} {x : Answer α} (hx : Sound scope P ts x)
    (h : ∀ used a, P used a → P' used a) : Sound scope P' ts x := by
  rcases x with fault | ⟨a, rest⟩
  · exact hx
  · obtain ⟨used, hts, ha⟩ := hx
    exact ⟨used, hts, h used a ha⟩

/-- A token was read before the others. -/
theorem Sound.cons {t : Token} {x : Answer α}
    (hx : Sound scope (fun more a => P (t :: more) a) ts x) : Sound scope P (t :: ts) x := by
  rcases x with fault | ⟨a, rest⟩
  · obtain ⟨used, rest, hts, hf⟩ := hx
    exact ⟨t :: used, rest, by rw [hts, List.cons_append], hf⟩
  · obtain ⟨used, hts, ha⟩ := hx
    exact ⟨t :: used, by rw [hts, List.cons_append], ha⟩

/-- Nothing more was read. -/
theorem Sound.here {a : α} (h : P [] a) : Sound scope P ts (.ok (a, ts)) := ⟨[], rfl, h⟩

theorem Sound.fault {fault : Fault} (h : FoundAt scope ts fault) :
    Sound scope P ts (.error fault) := ⟨[], ts, rfl, h⟩

end Combinators

/-- No phrase is empty. -/
theorem Derives.length_pos {g : Grammar} {p : Phrase} {ts : List Token} {f : Formula} :
    Derives g p ts f → 0 < ts.length
  | .term h | .factor h | .power h | .primary h => h.length_pos
  | .join .. | .scale .. | .raise .. => by rw [List.length_append, List.length_cons]; omega
  | .signed .. | .number _ | .pi .. | .variable .. | .group .. | .call .. => Nat.succ_pos _

/-- What is left after a nonempty part of some tokens is shorter than they are. -/
theorem length_lt_of_append {ts used rest : List Token} (h : ts = used ++ rest)
    (hu : 0 < used.length) : rest.length < ts.length := by
  rw [h, List.length_append]
  omega

section Readers

variable (scope : Scope)

/-- The grammar that belongs to a scope. -/
abbrev Scope.grammar : Grammar := .over scope.names

theorem closing_sound (f : Formula) (ts : List Token) :
    Sound scope (fun more f' => ∃ t, t.kind = .closing ∧ more = [t] ∧ f' = f) ts
      (readClosing scope f ts) := by
  rcases ts with _ | ⟨t, rest⟩
  · exact .fault (.expected _ _)
  · rw [readClosing]
    split
    · next ht => exact .cons (.here ⟨t, ht, rfl, rfl⟩)
    · exact .fault (.expected _ _)

theorem variable_sound {t : Token} (ht : IsPlainName t) (hname : t.text ∈ scope.names)
    (rest : List Token) :
    Sound scope (Derives scope.grammar .primary) (t :: rest) (readVariable t rest) := by
  rcases rest with _ | ⟨o, rest⟩
  · exact .cons (.here (.variable ht hname))
  · rw [readVariable]
    split
    · next ho => exact .fault (.notFunction ht hname ho)
    · exact .cons (.here (.variable ht hname))

-- The readers go down the phrases on the same tokens and back up only once a token has been read:
-- the measure is the number of tokens and then the place of the reader on the way down.
mutual

theorem sum_sound (ts : List Token) :
    Sound scope (Derives scope.grammar .sum) ts (readSum scope ts) := by
  rw [readSum_eq]
  refine (term_sound ts).bind fun used rest f hts hf => ?_
  exact sumTail_sound rest used f (.term hf)
termination_by (ts.length, 5)
decreasing_by
  · exact Prod.Lex.right _ (by decide)
  · exact Prod.Lex.left _ _ (length_lt_of_append hts hf.length_pos)

theorem sumTail_sound (ts used : List Token) (left : Formula)
    (hleft : Derives scope.grammar .sum used left) :
    Sound scope (fun more f => Derives scope.grammar .sum (used ++ more) f) ts
      (readSumTail scope left ts) := by
  have hstop : Derives scope.grammar .sum (used ++ []) left := by simpa using hleft
  rcases ts with _ | ⟨t, rest⟩
  · rw [readSumTail_nil]
    exact .here hstop
  · rw [readSumTail_cons]
    rcases hop : additive? t.kind with _ | op
    · exact .here hstop
    · -- what has been read so far is the left operand of the next operation
      refine .cons ((term_sound rest).bind fun more rest' right hrest hright => ?_)
      have hjoin := Derives.join hleft hop hright
      refine (sumTail_sound rest' _ _ hjoin).mono fun more' f hf => ?_
      simpa only [List.append_assoc, List.cons_append] using hf
termination_by (ts.length, 0)
decreasing_by
  · exact Prod.Lex.left _ _ (Nat.lt_succ_self _)
  · exact Prod.Lex.left _ _ (Nat.lt_succ_of_lt (length_lt_of_append hrest hright.length_pos))

theorem term_sound (ts : List Token) :
    Sound scope (Derives scope.grammar .term) ts (readTerm scope ts) := by
  rw [readTerm_eq]
  refine (factor_sound ts).bind fun used rest f hts hf => ?_
  exact termTail_sound rest used f (.factor hf)
termination_by (ts.length, 4)
decreasing_by
  · exact Prod.Lex.right _ (by decide)
  · exact Prod.Lex.left _ _ (length_lt_of_append hts hf.length_pos)

theorem termTail_sound (ts used : List Token) (left : Formula)
    (hleft : Derives scope.grammar .term used left) :
    Sound scope (fun more f => Derives scope.grammar .term (used ++ more) f) ts
      (readTermTail scope left ts) := by
  have hstop : Derives scope.grammar .term (used ++ []) left := by simpa using hleft
  rcases ts with _ | ⟨t, rest⟩
  · rw [readTermTail_nil]
    exact .here hstop
  · rw [readTermTail_cons]
    rcases hop : multiplicative? t.kind with _ | op
    · exact .here hstop
    · refine .cons ((factor_sound rest).bind fun more rest' right hrest hright => ?_)
      have hscale := Derives.scale hleft hop hright
      refine (termTail_sound rest' _ _ hscale).mono fun more' f hf => ?_
      simpa only [List.append_assoc, List.cons_append] using hf
termination_by (ts.length, 0)
decreasing_by
  · exact Prod.Lex.left _ _ (Nat.lt_succ_self _)
  · exact Prod.Lex.left _ _ (Nat.lt_succ_of_lt (length_lt_of_append hrest hright.length_pos))

theorem factor_sound (ts : List Token) :
    Sound scope (Derives scope.grammar .factor) ts (readFactor scope ts) := by
  rcases ts with _ | ⟨t, rest⟩
  · rw [readFactor_nil]
    exact .fault (.expected _ _)
  · rw [readFactor_cons]
    rcases hs : sign? t.kind with _ | sign
    · exact (power_sound (t :: rest)).mono fun _ _ => .power
    · exact .cons ((factor_sound rest).map _ fun _ _ hf => .signed hs hf)
termination_by (ts.length, 3)
decreasing_by
  · exact Prod.Lex.right _ (by decide)
  · exact Prod.Lex.left _ _ (Nat.lt_succ_self _)

theorem power_sound (ts : List Token) :
    Sound scope (Derives scope.grammar .power) ts (readPower scope ts) := by
  rw [readPower_eq]
  refine (primary_sound ts).bind fun used rest base hts hbase => ?_
  have hstop : Derives scope.grammar .power (used ++ []) base := by
    simpa using Derives.primary hbase
  rcases rest with _ | ⟨t, rest⟩
  · exact .here hstop
  · simp only [readExponent]
    split
    · next ht =>
      exact .cons ((factor_sound rest).map _ fun more e he => .raise hbase ht he)
    · exact .here hstop
termination_by (ts.length, 2)
decreasing_by
  · exact Prod.Lex.right _ (by decide)
  · exact Prod.Lex.left _ _
      (Nat.lt_of_succ_lt (length_lt_of_append hts hbase.length_pos))

theorem primary_sound (ts : List Token) :
    Sound scope (Derives scope.grammar .primary) ts (readPrimary scope ts) := by
  rcases ts with _ | ⟨t, rest⟩
  · rw [readPrimary_nil]
    exact .fault (.expected _ _)
  · rw [readPrimary_cons]
    rcases ht : t.kind
    case number x => exact .cons (.here (.number ht))
    case opening =>
      refine .cons ((sum_sound rest).bind fun used rest' f _ hf => ?_)
      refine (closing_sound scope f rest').mono ?_
      rintro more f' ⟨c, hc, rfl, rfl⟩
      exact .group ht hf hc
    case identifier =>
      simp only [readName]
      split
      · next hpi => exact .cons (.here (.pi ht hpi))
      · next hpi =>
        rcases hfn : Fn.ofName? t.text with _ | fn
        · have hplain : IsPlainName t := ⟨ht, hpi, hfn⟩
          simp only
          split
          · next hname => exact variable_sound scope hplain hname rest
          · next hname => exact .fault (.unknownIdentifier hplain hname)
        · exact call_sound rest t fn ⟨ht, hpi, hfn⟩
    all_goals exact .fault (.expected _ _)
termination_by (ts.length, 1)
decreasing_by all_goals exact Prod.Lex.left _ _ (Nat.lt_succ_self _)

theorem call_sound (ts : List Token) (t : Token) (fn : Fn) (ht : IsFunctionName t fn) :
    Sound scope (Derives scope.grammar .primary) (t :: ts) (readCall scope fn t ts) := by
  rcases ts with _ | ⟨o, rest⟩
  · exact .fault (.notCalled ht (by simp))
  · rw [readCall]
    split
    · next ho =>
      -- a wrong number of arguments is found at the name, so that `Sound.bind` does not apply
      have hargs := arguments_sound rest
      generalize readArguments scope rest = x at hargs ⊢
      rcases x with fault | ⟨⟨first, more⟩, rest'⟩
      · obtain ⟨used, rest', hrest, hf⟩ := hargs
        exact ⟨t :: o :: used, rest', by rw [hrest]; rfl, hf⟩
      · obtain ⟨used, hused, c, hc, ts, rfl, hargs⟩ := hargs
        simp only [Except.bind, checkedCall]
        split
        · next hn => exact ⟨_, by rw [hused]; rfl, .call ht ho hargs hc hn⟩
        · next hn => exact .fault (.wrongArity ht hn)
    · next ho => exact .fault (.notCalled ht (by simpa using ho))
termination_by (ts.length, 0)
decreasing_by exact Prod.Lex.left _ _ (Nat.lt_succ_self _)

theorem arguments_sound (ts : List Token) :
    Sound scope
      (fun used p => ∃ c, c.kind = .closing ∧
        ∃ us, used = us ++ [c] ∧ DerivesArguments scope.grammar us p.1 p.2) ts
      (readArguments scope ts) := by
  rw [readArguments_eq]
  refine (sum_sound ts).bind fun used rest f hts hf => ?_
  rcases rest with _ | ⟨t, rest⟩
  · exact .fault (.expected _ _)
  · simp only [readMoreArguments]
    split
    · next ht =>
      refine .cons ((arguments_sound rest).map (fun p => (f, p.1 :: p.2)) ?_)
      rintro more p ⟨c, hc, us, rfl, hp⟩
      exact ⟨c, hc, used ++ t :: us, by simp, .next hf ht hp⟩
    · split
      · next ht => exact .cons (.here ⟨t, ht, used, rfl, .last hf⟩)
      · exact .fault (.expected _ _)
termination_by (ts.length, 6)
decreasing_by
  · exact Prod.Lex.right _ (by decide)
  · exact Prod.Lex.left _ _ (Nat.lt_of_succ_lt (length_lt_of_append hts hf.length_pos))

end

/-! ## Completeness -/

/-- A token of the kind extends a phrase that it follows, or turns its last name into a call. -/
def Phrase.isExtendedBy : Phrase → Token.Kind → Bool
  | _, .opening => true
  | .primary, _ => false
  | _, .caret => true
  | .power, _ | .factor, _ => false
  | _, .star | _, .slash => true
  | .term, _ => false
  | .sum, .plus | .sum, .minus => true
  | .sum, _ => false

/-- The tokens do not extend a phrase that they follow. -/
def Stops (p : Phrase) (rest : List Token) : Prop :=
  ∀ t ∈ rest.head?, p.isExtendedBy t.kind = false

/-- The phrase that has to be complete before the reader of `p` decides on the next token. -/
def Phrase.inner : Phrase → Phrase
  | .sum => .term
  | .term => .factor
  | .factor | .power => .factor
  | .primary => .primary

/-- The reader of a phrase. -/
def read : Phrase → List Token → Answer Formula
  | .sum => readSum scope
  | .term => readTerm scope
  | .factor => readFactor scope
  | .power => readPower scope
  | .primary => readPrimary scope

/-- What the reader of a phrase does after a phrase that stands for `f`. -/
def resume : Phrase → Formula → List Token → Answer Formula
  | .sum, f, rest => readSumTail scope f rest
  | .term, f, rest => readTermTail scope f rest
  | _, f, rest => .ok (f, rest)

theorem stops_nil (p : Phrase) : Stops p [] := by simp [Stops]

theorem stops_cons {p : Phrase} {t : Token} {rest : List Token} :
    Stops p (t :: rest) ↔ p.isExtendedBy t.kind = false := by simp [Stops]

theorem stops_of_kind {p : Phrase} {t : Token} {k : Token.Kind} (ht : t.kind = k)
    (hk : p.isExtendedBy k = false) (rest : List Token) : Stops p (t :: rest) := by
  rw [stops_cons, ht, hk]

theorem Stops.factor {rest : List Token} (h : Stops .term rest) : Stops .factor rest := by
  intro t ht
  have ht := h t ht
  revert ht
  rcases t.kind <;> first | exact fun _ => rfl | exact fun h => h

theorem Stops.primary {p : Phrase} {rest : List Token} (h : Stops p rest) :
    Stops .primary rest := by
  intro t ht
  have ht := h t ht
  revert ht
  rcases t.kind <;> first | exact fun _ => rfl | exact fun h => h

theorem readSumTail_of_stops {f : Formula} {rest : List Token} (h : Stops .sum rest) :
    readSumTail scope f rest = .ok (f, rest) := by
  rcases rest with _ | ⟨⟨kind, text, position⟩, rest⟩
  · rw [readSumTail_nil]
  · rw [stops_cons] at h
    rw [readSumTail_cons]
    cases kind <;> first | rfl | cases h

theorem readTermTail_of_stops {f : Formula} {rest : List Token} (h : Stops .term rest) :
    readTermTail scope f rest = .ok (f, rest) := by
  rcases rest with _ | ⟨⟨kind, text, position⟩, rest⟩
  · rw [readTermTail_nil]
  · rw [stops_cons] at h
    rw [readTermTail_cons]
    cases kind <;> first | rfl | cases h

theorem readExponent_of_stops {f : Formula} {rest : List Token} (h : Stops .factor rest) :
    readExponent scope f rest = .ok (f, rest) := by
  rcases rest with _ | ⟨⟨kind, text, position⟩, rest⟩
  · rfl
  · rw [stops_cons] at h
    cases kind <;> first | rfl | cases h

theorem readVariable_of_stops {t : Token} {rest : List Token} (h : Stops .primary rest) :
    readVariable t rest = .ok (.variable t.text, rest) := by
  rcases rest with _ | ⟨⟨kind, text, position⟩, rest⟩
  · rfl
  · rw [stops_cons] at h
    cases kind <;> first | rfl | cases h

/-- A primary starts with no sign. -/
theorem Derives.head_primary {g : Grammar} {ts : List Token} {f : Formula} :
    Derives g .primary ts f → ∃ t us, ts = t :: us ∧ sign? t.kind = none
  | .number h | .pi h _ | .group h _ _ => ⟨_, _, rfl, by rw [h]; rfl⟩
  | .variable h _ | .call h _ _ _ _ => ⟨_, _, rfl, by rw [h.kind]; rfl⟩

/-- A power starts with no sign. -/
theorem Derives.head_power {g : Grammar} {ts : List Token} {f : Formula} :
    Derives g .power ts f → ∃ t us, ts = t :: us ∧ sign? t.kind = none
  | .primary h => h.head_primary
  | .raise h _ _ => by
    obtain ⟨t, us, rfl, ht⟩ := h.head_primary
    exact ⟨t, _, rfl, ht⟩

theorem stops_of_additive {t : Token} {op : Operation} (h : additive? t.kind = some op)
    (rest : List Token) : Stops .term (t :: rest) := by
  rw [stops_cons]
  rcases ht : t.kind <;> rw [ht] at h <;> first | rfl | cases h

theorem stops_of_multiplicative {t : Token} {op : Operation}
    (h : multiplicative? t.kind = some op) (rest : List Token) : Stops .factor (t :: rest) := by
  rw [stops_cons]
  rcases ht : t.kind <;> rw [ht] at h <;> first | rfl | cases h

theorem readName_plain {t : Token} (h : IsPlainName t) (hname : t.text ∈ scope.names)
    (rest : List Token) : readName scope t rest = readVariable t rest := by
  rw [readName, if_neg h.notPi, h.notFunction]
  simp only [hname, if_true]

theorem readName_function {t : Token} {fn : Fn} (h : IsFunctionName t fn) (rest : List Token) :
    readName scope t rest = readCall scope fn t rest := by
  rw [readName, if_neg h.notPi, h.function]

section Reads

variable {ts rest : List Token} {f : Formula}

theorem readSum_of_read (h : read scope .sum (ts ++ rest) = resume scope .sum f rest)
    (hrest : Stops .sum rest) : readSum scope (ts ++ rest) = .ok (f, rest) :=
  h.trans (readSumTail_of_stops scope hrest)

theorem readTerm_of_read (h : read scope .term (ts ++ rest) = resume scope .term f rest)
    (hrest : Stops .term rest) : readTerm scope (ts ++ rest) = .ok (f, rest) :=
  h.trans (readTermTail_of_stops scope hrest)

theorem readFactor_of_read (h : read scope .factor (ts ++ rest) = resume scope .factor f rest) :
    readFactor scope (ts ++ rest) = .ok (f, rest) := h

theorem readPrimary_of_read
    (h : read scope .primary (ts ++ rest) = resume scope .primary f rest) :
    readPrimary scope (ts ++ rest) = .ok (f, rest) := h

end Reads

mutual

/-- The reader of a phrase reads every phrase of its kind off the tokens, up to what it would go on
with, as long as what follows does not extend its last part. -/
theorem Derives.read_append {p : Phrase} {ts : List Token} {f : Formula} :
    Derives scope.grammar p ts f → ∀ rest, Stops p.inner rest →
      read scope p (ts ++ rest) = resume scope p f rest
  | .term h, rest, hrest => by
    have hterm := readTerm_of_read scope (h.read_append rest hrest.factor) hrest
    rw [read, readSum_eq, hterm]
    rfl
  | .join hl hop hr, rest, hrest => by
    -- the reader of sums has the left operand when it meets the sign, and goes on from there
    have hright := readTerm_of_read scope (hr.read_append rest hrest.factor) hrest
    rw [List.append_assoc, List.cons_append, hl.read_append _ (stops_of_additive hop _), resume,
      readSumTail_cons, hop]
    simp only [hright]
    rfl
  | .factor h, rest, hrest => by
    have hfactor := readFactor_of_read scope (h.read_append rest hrest)
    rw [read, readTerm_eq, hfactor]
    rfl
  | .scale hl hop hr, rest, hrest => by
    have hright := readFactor_of_read scope (hr.read_append rest hrest)
    rw [List.append_assoc, List.cons_append, hl.read_append _ (stops_of_multiplicative hop _),
      resume, readTermTail_cons, hop]
    simp only [hright]
    rfl
  | .power h, rest, hrest => by
    have hpower := h.read_append rest hrest
    -- the reader of factors passes a power on because no sign stands at its head
    obtain ⟨t, us, rfl, ht⟩ := h.head_power
    rw [read, List.cons_append, readFactor_cons, ht]
    exact hpower
  | .signed hs h, rest, hrest => by
    have hoperand := readFactor_of_read scope (h.read_append rest hrest)
    rw [read, List.cons_append, readFactor_cons, hs]
    simp only [hoperand]
    rfl
  | .primary h, rest, hrest => by
    have hbase := readPrimary_of_read scope (h.read_append rest hrest.primary)
    rw [read, readPower_eq, hbase]
    exact readExponent_of_stops scope hrest
  | .raise hb ht he, rest, hrest => by
    have hexponent := readFactor_of_read scope (he.read_append rest hrest)
    -- nothing but a parenthesis could extend the base, and it is followed by the caret
    have hbase := fun more => readPrimary_of_read scope
      (hb.read_append _ (stops_of_kind ht rfl more))
    rw [read, List.append_assoc, List.cons_append, readPower_eq, hbase]
    simp only [Except.bind, readExponent, ht, if_true, hexponent]
    rfl
  | .number h, rest, hrest => by
    rw [read, List.singleton_append, readPrimary_cons, h]
    rfl
  | .pi h hpi, rest, hrest => by
    rw [read, List.singleton_append, readPrimary_cons, h]
    simp only [readName, hpi, if_true]
    rfl
  | .variable h hname, rest, hrest => by
    rw [read, List.singleton_append, readPrimary_cons, h.kind]
    exact (readName_plain scope h hname rest).trans (readVariable_of_stops hrest)
  | .group ho h hc, rest, hrest => by
    have hsum := readSum_of_read scope (h.read_append _ (stops_of_kind hc rfl rest))
      (stops_of_kind hc rfl rest)
    rw [read, List.cons_append, List.append_assoc, List.singleton_append, readPrimary_cons, ho]
    simp only [hsum, Except.bind, readClosing, hc, if_true]
    rfl
  | .call h ho hargs hc hn, rest, hrest => by
    have hread := hargs.read_append _ rest hc
    rw [read, List.cons_append, List.cons_append, List.append_assoc, List.singleton_append,
      readPrimary_cons, h.kind]
    simp only [readName_function scope h, readCall, ho, if_true, hread, Except.bind, checkedCall]
    exact if_pos hn

theorem DerivesArguments.read_append {ts : List Token} {first : Formula} {more : List Formula} :
    DerivesArguments scope.grammar ts first more → ∀ c rest, c.kind = .closing →
      readArguments scope (ts ++ c :: rest) = .ok ((first, more), rest)
  | .last h, c, rest, hc => by
    have hsum := readSum_of_read scope (h.read_append _ (stops_of_kind hc rfl rest))
      (stops_of_kind hc rfl rest)
    rw [readArguments_eq, hsum]
    simp only [Except.bind, readMoreArguments, hc, reduceCtorEq, if_false, if_true]
  | .next h ht hargs, c, rest, hc => by
    have hsum := fun more => readSum_of_read scope (h.read_append _ (stops_of_kind ht rfl more))
      (stops_of_kind ht rfl more)
    rw [readArguments_eq, List.append_assoc, List.cons_append, hsum]
    simp only [Except.bind, readMoreArguments, ht, if_true, hargs.read_append c rest hc]
    rfl

end

end Readers

/-! ## Whole expressions -/

/-- What is left after a sum must be nothing. -/
def finished (scope : Scope) (p : Formula × List Token) : Except Fault Formula :=
  match p.2 with
  | [] => .ok p.1
  | rest => .error (scope.expected .operatorOrEnd rest)

theorem ofTokens_eq (names : List String) (finish : Nat) (ts : List Token) :
    ofTokens names finish ts = (readSum ⟨names, finish⟩ ts).bind (finished ⟨names, finish⟩) := by
  rw [ofTokens, readSum]
  rcases sum ⟨names, finish⟩ ts with fault | ⟨f, _ | ⟨t, rest⟩, h⟩ <;> rfl

/-- A sentence of the grammar is read as the expression that it stands for. -/
theorem ofTokens_of_derives {names : List String} {ts : List Token} {f : Formula}
    (h : Derives (.over names) .sum ts f) (finish : Nat) : ofTokens names finish ts = .ok f := by
  have hread := readSum_of_read ⟨names, finish⟩ (h.read_append _ [] (stops_nil _)) (stops_nil _)
  rw [List.append_nil] at hread
  rw [ofTokens_eq, hread]
  rfl

/-- An expression is the sum that all of the tokens make up, and a fault lies within them. -/
theorem ofTokens_sound (names : List String) (finish : Nat) (ts : List Token) :
    match ofTokens names finish ts with
    | .ok f => Derives (.over names) .sum ts f
    | .error fault => ∃ used rest, ts = used ++ rest ∧ FoundAt ⟨names, finish⟩ rest fault := by
  rw [ofTokens_eq]
  have hsum := sum_sound ⟨names, finish⟩ ts
  generalize readSum ⟨names, finish⟩ ts = x at hsum ⊢
  rcases x with fault | ⟨f, _ | ⟨t, rest⟩⟩
  · exact hsum
  · obtain ⟨used, rfl, hf⟩ := hsum
    rw [List.append_nil]
    exact hf
  · obtain ⟨used, rfl, hf⟩ := hsum
    exact ⟨used, t :: rest, rfl, .expected _ _⟩

/-- The parser returns an expression exactly when the grammar derives it from the tokens, the
grammar derives no second one, and where it derives none the parser finds a fault at one of the
tokens or at their end. -/
theorem ofTokens_iff_derives (names : List String) (finish : Nat) (ts : List Token) :
    (∀ f, ofTokens names finish ts = .ok f ↔ Derives (.over names) .sum ts f) ∧
    (∀ f f', Derives (.over names) .sum ts f → Derives (.over names) .sum ts f' → f = f') ∧
    ((¬ ∃ f, Derives (.over names) .sum ts f) →
      ∃ fault, ofTokens names finish ts = .error fault ∧
        ∃ used rest, ts = used ++ rest ∧ FoundAt ⟨names, finish⟩ rest fault) := by
  have hsound := ofTokens_sound names finish ts
  refine ⟨fun f => ⟨fun h => ?_, fun h => ofTokens_of_derives h finish⟩, ?_, fun hnone => ?_⟩
  · rw [h] at hsound
    exact hsound
  · intro f f' hf hf'
    have hok := ofTokens_of_derives hf finish
    rw [ofTokens_of_derives hf' finish] at hok
    injection hok with hok
    exact hok.symm
  · rcases hread : ofTokens names finish ts with fault | f
    · rw [hread] at hsound
      exact ⟨fault, rfl, hsound⟩
    · rw [hread] at hsound
      exact absurd ⟨f, hsound⟩ hnone

end SurfaceStudio.Formula
