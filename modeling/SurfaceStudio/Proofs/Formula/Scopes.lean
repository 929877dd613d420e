import SurfaceStudio.Proofs.Formula.Acceptance
import SurfaceStudio.Proofs.Formula.Sharing
/-!
# The names in an expression

The variables of a scope matter to an expression only as far as they stand in it: a larger scope
reads the same tree off the same text (`parse_mono`), and so does any scope that has the names of
the tree (`parse_of_occurrences`). The value of an expression depends on the values of its own
variables alone.
-/

namespace SurfaceStudio.Formula

/-! ## Derivations over other names -/

section Derivations

variable {g g' : Grammar}

mutual

/-- The names in an expression are variables of the grammar. -/
theorem Derives.mem_names {p : Phrase} {ts : List Token} {f : Formula} :
    Derives g p ts f → ∀ name ∈ f.occurrences, name ∈ g.names
  | .term h | .factor h | .power h | .primary h | .signed _ h | .group _ h _ => h.mem_names
  | .join hl _ hr | .scale hl _ hr | .raise hl _ hr =>
    List.forall_mem_append.mpr ⟨hl.mem_names, hr.mem_names⟩
  | .number _ | .pi _ _ => nofun
  | .variable _ hname => List.forall_mem_singleton.mpr hname
  | .call _ _ hargs _ _ => hargs.mem_names

theorem DerivesArguments.mem_names {ts : List Token} {first : Formula} {more : List Formula} :
    DerivesArguments g ts first more →
      ∀ name ∈ first.occurrences ++ occurrencesOfAll more, name ∈ g.names
  | .last h => List.forall_mem_append.mpr ⟨h.mem_names, nofun⟩
  | .next h _ hargs => List.forall_mem_append.mpr ⟨h.mem_names, hargs.mem_names⟩

end

mutual

/-- A grammar that has the names of an expression, and admits as many arguments, derives it as
well. -/
theorem Derives.transfer (hadmits : ∀ fn n, g.admits fn n → g'.admits fn n) {p : Phrase}
    {ts : List Token} {f : Formula} : Derives g p ts f →
      (∀ name ∈ f.occurrences, name ∈ g'.names) → Derives g' p ts f
  | .term h, hf => .term (h.transfer hadmits hf)
  | .factor h, hf => .factor (h.transfer hadmits hf)
  | .power h, hf => .power (h.transfer hadmits hf)
  | .primary h, hf => .primary (h.transfer hadmits hf)
  | .signed hs h, hf => .signed hs (h.transfer hadmits hf)
  | .group ho h hc, hf => .group ho (h.transfer hadmits hf) hc
  | .join hl hop hr, hf =>
    have hf := List.forall_mem_append.mp hf
    .join (hl.transfer hadmits hf.1) hop (hr.transfer hadmits hf.2)
  | .scale hl hop hr, hf =>
    have hf := List.forall_mem_append.mp hf
    .scale (hl.transfer hadmits hf.1) hop (hr.transfer hadmits hf.2)
  | .raise hb ht he, hf =>
    have hf := List.forall_mem_append.mp hf
    .raise (hb.transfer hadmits hf.1) ht (he.transfer hadmits hf.2)
  | .number h, _ => .number h
  | .pi h hpi, _ => .pi h hpi
  | .variable h _, hf => .variable h (hf _ (List.mem_singleton_self _))
  | .call h ho hargs hc hn, hf => .call h ho (hargs.transfer hadmits hf) hc (hadmits _ _ hn)

theorem DerivesArguments.transfer (hadmits : ∀ fn n, g.admits fn n → g'.admits fn n)
    {ts : List Token} {first : Formula} {more : List Formula} :
    DerivesArguments g ts first more →
      (∀ name ∈ first.occurrences ++ occurrencesOfAll more, name ∈ g'.names) →
        DerivesArguments g' ts first more
  | .last h, hf => .last (h.transfer hadmits (List.forall_mem_append.mp hf).1)
  | .next h ht hargs, hf =>
    have hf := List.forall_mem_append.mp hf
    .next (h.transfer hadmits hf.1) ht (hargs.transfer hadmits hf.2)

end

end Derivations

/-! ## Reading over other names -/

/-- An expression is read off a text if its tokens derive it. -/
theorem parse_eq_ok_iff {names : List String} {source : String} {f : Formula} :
    parse names source = .ok f ↔
      ∃ ts, tokens source = .ok ts ∧ Derives (.over names) .sum ts f := by
  rw [parse]
  cases tokens source with
  | error fault => simp
  | ok ts =>
    have hsound := ofTokens_sound names source.length ts
    constructor
    · intro h
      simp only at h
      rw [h] at hsound
      exact ⟨ts, rfl, hsound⟩
    · rintro ⟨_, ⟨⟩, h⟩
      exact ofTokens_of_derives h source.length

/-- What is read over some names is read over all lists that have the names in it. -/
theorem parse_of_occurrences {names names' : List String} {source : String} {f : Formula}
    (h : parse names source = .ok f) (hf : ∀ name ∈ f.occurrences, name ∈ names') :
    parse names' source = .ok f := by
  obtain ⟨ts, hts, hderives⟩ := parse_eq_ok_iff.mp h
  have hadmits : ∀ fn n, (Grammar.over names).admits fn n → (Grammar.over names').admits fn n :=
    fun _ _ hn => hn
  exact parse_eq_ok_iff.mpr ⟨ts, hts, hderives.transfer hadmits hf⟩

theorem mem_names_of_parse {names : List String} {source : String} {f : Formula}
    (h : parse names source = .ok f) : ∀ name ∈ f.occurrences, name ∈ names := by
  obtain ⟨ts, -, hderives⟩ := parse_eq_ok_iff.mp h
  exact hderives.mem_names

/-- A larger scope reads the same tree. -/
theorem parse_mono {names names' : List String} (hnames : ∀ name ∈ names, name ∈ names')
    {source : String} {f : Formula} (h : parse names source = .ok f) :
    parse names' source = .ok f :=
  parse_of_occurrences h fun name hname => hnames name (mem_names_of_parse h name hname)

/-- Without variables one reads the expressions that have none. -/
theorem parse_nil_iff {names : List String} {source : String} {f : Formula} :
    parse [] source = .ok f ↔ parse names source = .ok f ∧ f.occurrences = [] := by
  constructor
  · intro h
    have hnone : f.occurrences = [] :=
      List.eq_nil_iff_forall_not_mem.mpr fun name hname => nomatch mem_names_of_parse h name hname
    exact ⟨parse_mono (List.forall_mem_nil _) h, hnone⟩
  · rintro ⟨h, hnone⟩
    exact parse_of_occurrences h (by rw [hnone]; exact nofun)

/-! ## Values -/

section Values

variable {α : Type} [Scalar α] {shared : Formula → Formula → Bool} {env env' : String → α}

mutual

/-- The value of an expression depends on the values of its variables alone. -/
theorem evalSharing_congr : ∀ f : Formula, (∀ name ∈ f.occurrences, env name = env' name) →
    f.evalSharing shared env = f.evalSharing shared env'
  | .number _, _ => rfl
  | .variable name, h => h name (List.mem_singleton_self name)
  | .signed .plus operand, h => evalSharing_congr operand h
  | .signed .minus operand, h => by rw [evalSharing, evalSharing, evalSharing_congr operand h]
  | .binary op left right, h => by
    obtain ⟨hleft, hright⟩ := List.forall_mem_append.mp h
    rw [evalSharing, evalSharing, evalSharing_congr left hleft, evalSharing_congr right hright]
  | .call fn first rest, h => by
    obtain ⟨hfirst, hrest⟩ := List.forall_mem_append.mp h
    rw [evalSharing, evalSharing, evalSharing_congr first hfirst, evalAllSharing_congr rest hrest]

theorem evalAllSharing_congr : ∀ fs : List Formula,
    (∀ name ∈ occurrencesOfAll fs, env name = env' name) →
      evalAllSharing shared env fs = evalAllSharing shared env' fs
  | [], _ => rfl
  | f :: fs, h => by
    obtain ⟨hf, hfs⟩ := List.forall_mem_append.mp h
    rw [evalAllSharing, evalAllSharing, evalSharing_congr f hf, evalAllSharing_congr fs hfs]

end

end Values

end SurfaceStudio.Formula
