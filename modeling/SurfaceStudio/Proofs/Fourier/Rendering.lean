import SurfaceStudio.Fourier.Rendering
import SurfaceStudio.Proofs.Decimal.FixedPlaces
import SurfaceStudio.Proofs.Formula.Phrases
/-!
# A rendered series and the expression it is read as

A series is written as text and read back by the scanner and the parser of expressions. What it is
read as is given here without either of them: the coefficients of the series in their order, those
of them that are large enough, and the sum of these from the left, with the sign of a coefficient in
the operation or, in front of the first number, as a sign.
-/

namespace SurfaceStudio.Fourier

open Formula (Writes Grammar)

/-! ## The expression of a series -/

/-- The number that is written for a coefficient: its magnitude, rounded to four places. -/
def writtenMagnitude (x : Float) : Float :=
  Decimal.nearest ((Decimal.unitsOfTen? (-4) x.abs).getD 0).toNat (-4)

/-- A wave of the parameter as an expression. -/
def Wave.formula (param : String) : Wave → Formula
  | .cosine k => .call .cos (.binary .mul (.number (Float.ofNat k)) (.variable param)) []
  | .sine k => .call .sin (.binary .mul (.number (Float.ofNat k)) (.variable param)) []

namespace Term

/-- An expression times the wave of a term, if the term has one. -/
def timesWave (param : String) (t : Term) (f : Formula) : Formula :=
  match t.wave with
  | none => f
  | some w => .binary .mul f (w.formula param)

/-- The first term of a sum: a negative coefficient is a number with a sign. -/
def leadingFormula (param : String) (t : Term) : Formula :=
  let number : Formula := .number (writtenMagnitude t.coefficient)
  t.timesWave param (if t.coefficient < 0 then .signed .minus number else number)

/-- A sum that goes on with a term: a negative coefficient is taken away. -/
def joinedFormula (param : String) (sum : Formula) (t : Term) : Formula :=
  .binary (if t.coefficient < 0 then .sub else .add) sum
    (t.timesWave param (.number (writtenMagnitude t.coefficient)))

/-- The sum of terms from the left; without any it is zero. -/
def chain (param : String) : List Term → Formula
  | [] => .number 0
  | t :: ts => ts.foldl (joinedFormula param) (t.leadingFormula param)

end Term

/-- The coefficients of a series and what they multiply: half the constant, then the cosine and the
sine of each harmonic that has both. -/
def Series.listing (s : Series Float) : List Term :=
  ⟨s.constant / 2, none⟩ :: ((s.cosines.zip s.sines).zipIdx 1).flatMap fun ((a, b), k) =>
    [⟨a, some (.cosine k)⟩, ⟨b, some (.sine k)⟩]

/-- The terms of a series whose coefficients reach the least magnitude. -/
def Series.kept (s : Series Float) : List Term :=
  s.listing.filter fun t => Settings.coefficientEpsilon ≤ t.coefficient.abs

/-! ## The terms that are written -/

theorem harmonics_terms (k : Nat) (as bs : List Float) :
    ((harmonics k as bs).map fun w => (⟨w.1, some w.2⟩ : Term)) =
      ((as.zip bs).zipIdx k).flatMap fun ((a, b), k) =>
        [⟨a, some (.cosine k)⟩, ⟨b, some (.sine k)⟩] := by
  induction as generalizing k bs with
  | nil => rfl
  | cons a as ih =>
    rcases bs with _ | ⟨b, bs⟩
    · rfl
    · rw [harmonics, List.map_cons, List.map_cons, ih, List.zip_cons_cons, List.zipIdx_cons,
        List.flatMap_cons]
      rfl

theorem terms_eq_listing (s : Series Float) : s.terms = s.listing := by
  rw [Series.terms, Series.waves, harmonics_terms]
  rfl

/-- The coefficients of a series of finite numbers are finite. -/
theorem isFinite_of_mem_listing {s : Series Float} (hconstant : s.constant.isFinite)
    (hcosines : ∀ a ∈ s.cosines, a.isFinite) (hsines : ∀ b ∈ s.sines, b.isFinite) {t : Term}
    (ht : t ∈ s.listing) : t.coefficient.isFinite := by
  rw [Series.listing, List.mem_cons, List.mem_flatMap] at ht
  rcases ht with rfl | ⟨⟨⟨a, b⟩, k⟩, hmem, ht⟩
  · exact Decimal.isFinite_half hconstant
  · have hzip : (a, b) ∈ s.cosines.zip s.sines := List.fst_mem_of_mem_zipIdx hmem
    rw [List.mem_cons, List.mem_singleton] at ht
    rcases ht with rfl | rfl
    · exact hcosines a (List.of_mem_zip hzip).1
    · exact hsines b (List.of_mem_zip hzip).2

/-- A term is left out exactly when it does not reach the least magnitude. -/
theorem filter_terms (s : Series Float) (hfinite : ∀ t ∈ s.listing, t.coefficient.isFinite) :
    (s.terms.filter fun t => !t.isNegligible) = s.kept := by
  rw [terms_eq_listing, Series.kept]
  -- of finite numbers one is below the other or not, which would not hold of an undefined one
  refine List.filter_congr fun t ht => ?_
  have hiff := Decimal.not_lt_epsilon_iff (hfinite t ht)
  rw [Term.isNegligible, ← decide_not, decide_eq_decide]
  exact hiff

theorem writtenMagnitude_of_units {x : Float} {n : Nat}
    (h : Decimal.unitsOfTen? (-4) x.abs = some (n : Int)) :
    writtenMagnitude x = Decimal.nearest n (-4) := by
  rw [writtenMagnitude, h]
  rfl

/-- What is written for a term that is kept is not zero. -/
theorem writtenMagnitude_ne_zero {x : Float} (hx : x.isFinite)
    (h : Settings.coefficientEpsilon ≤ x.abs) : (writtenMagnitude x == 0) = false := by
  obtain ⟨n, -, -, hunits, -⟩ := Decimal.fixed_abs hx
  have hpos : 0 < n := Decimal.units_pos hx h hunits
  rw [writtenMagnitude_of_units hunits]
  exact Decimal.nearest_ne_zero hpos

/-! ## The texts of terms -/

section Texts

variable {g : Grammar} {param : String}

/-- A coefficient is written as its magnitude. -/
theorem writes_magnitude {x : Float} (hx : x.isFinite) :
    Writes g .primary (Decimal.fixed Settings.coefficientDecimals x.abs).toList
      (.number (writtenMagnitude x)) := by
  obtain ⟨n, whole, part, hunits, htext, hwhole, hpart, hdigits, hdigits', hvalue⟩ :=
    Decimal.fixed_abs hx
  have hwritten : writtenMagnitude x = Decimal.numeralValue (whole ++ '.' :: part) := by
    rw [writtenMagnitude_of_units hunits, hvalue]
  have hlist : (Decimal.fixed Settings.coefficientDecimals x.abs).toList =
      whole ++ '.' :: part := by
    show (Decimal.fixed 4 x.abs).toList = whole ++ '.' :: part
    rw [htext, String.toList_ofList]
  rw [hlist, hwritten]
  exact Writes.number (Formula.isNumeral_point hwhole hpart hdigits hdigits')

/-- The number of a harmonic is written as its digits. -/
theorem writes_natural (k : Nat) :
    Writes g .primary (toString k).toList (.number (Float.ofNat k)) := by
  have hlist : (toString k).toList = Decimal.digits k := by
    rw [Nat.toString_eq_ofList_toDigits, String.toList_ofList]
    rfl
  have hdigits : ∀ c ∈ Decimal.digits k, Decimal.isDigit c = true := fun c hc =>
    Decimal.isDigit_of_mem_digits hc
  have hvalue : Decimal.numeralValue (Decimal.digits k) = Float.ofNat k := by
    rw [Decimal.numeralValue_whole hdigits, Decimal.digitsValue_digits, Decimal.nearest_whole]
  rw [hlist, ← hvalue]
  exact Writes.number (Formula.isNumeral_whole (List.ne_nil_of_length_pos Nat.length_toDigits_pos)
    hdigits)

/-- A wave is written as a call. -/
theorem writes_wave (hparam : param = "u" ∨ param = "v") (w : Wave) :
    Writes (.over Compiled.parameterNames) .primary (w.text param).toList (w.formula param) := by
  have hangle (k : Nat) :=
    ((writes_natural k).factor.term.times (Formula.writes_parameter hparam).factor).sum
  cases w with
  | cosine k =>
    have hlist : (Wave.text param (.cosine k)).toList =
        ['c', 'o', 's'] ++ '(' :: ((toString k).toList ++ '*' :: param.toList ++ [')']) := by
      rw [Wave.text]
      simp
    rw [hlist]
    exact Writes.call ⟨by decide, by decide, by decide, by decide +kernel, by decide +kernel⟩
      ⟨rfl, by decide +kernel, by decide⟩ rfl (hangle k)
  | sine k =>
    have hlist : (Wave.text param (.sine k)).toList =
        ['s', 'i', 'n'] ++ '(' :: ((toString k).toList ++ '*' :: param.toList ++ [')']) := by
      rw [Wave.text]
      simp
    rw [hlist]
    exact Writes.call ⟨by decide, by decide, by decide, by decide +kernel, by decide +kernel⟩
      ⟨rfl, by decide +kernel, by decide⟩ rfl (hangle k)

/-- A text of a number and the wave of a term are written as their product. -/
theorem writes_timesWave {t : Term}
    (hwave : ∀ w, t.wave = some w → Writes g .primary (w.text param).toList (w.formula param))
    {cs : List Char} {f : Formula} (h : Writes g .factor cs f) :
    Writes g .term
      (cs ++ (match t.wave with
        | none => ""
        | some w => "*" ++ w.text param).toList) (t.timesWave param f) := by
  obtain ⟨x, wave⟩ := t
  rcases wave with _ | w
  · show Writes _ _ (cs ++ []) f
    rw [List.append_nil]
    exact h.term
  · -- a sign has gone into `f` already, and binds tighter than the star
    have hlist : ("*" ++ w.text param).toList = '*' :: (w.text param).toList := by
      rw [String.toList_append]
      rfl
    show Writes _ _ (cs ++ ("*" ++ w.text param).toList) (.binary .mul f (w.formula param))
    rw [hlist]
    exact h.term.times (hwave w rfl).factor

theorem writes_magnitudeText (hparam : param = "u" ∨ param = "v") {t : Term}
    (ht : t.coefficient.isFinite) :
    Writes (.over Compiled.parameterNames) .term (t.magnitudeText param).toList
      (t.timesWave param (.number (writtenMagnitude t.coefficient))) := by
  rw [Term.magnitudeText, String.toList_append]
  exact writes_timesWave (fun w _ => writes_wave hparam w) (writes_magnitude ht).factor

/-- The first term is written with its sign, which binds to the number alone. -/
theorem writes_leadingText (hparam : param = "u" ∨ param = "v") {t : Term}
    (ht : t.coefficient.isFinite) :
    Writes (.over Compiled.parameterNames) .term (t.leadingText param).toList
      (t.leadingFormula param) := by
  rw [Term.leadingText, Term.leadingFormula, Term.isNegative]
  by_cases hneg : t.coefficient < 0
  · have hsigned := writes_timesWave (t := t) (fun w _ => writes_wave hparam w)
      (writes_magnitude ht).factor.minus
    rw [if_pos hneg, decide_eq_true hneg, if_pos rfl, Term.magnitudeText, String.toList_append,
      String.toList_append]
    exact hsigned
  · rw [if_neg hneg, decide_eq_false hneg, if_neg (by decide), String.empty_append]
    exact writes_magnitudeText hparam ht

/-- A later term goes on with the sum before it. -/
theorem writes_joinedText (hparam : param = "u" ∨ param = "v") {t : Term}
    (ht : t.coefficient.isFinite) {cs : List Char} {sum : Formula}
    (h : Writes (.over Compiled.parameterNames) .sum cs sum) :
    Writes (.over Compiled.parameterNames) .sum (cs ++ (t.joinedText param).toList)
      (Term.joinedFormula param sum t) := by
  have hterm := writes_magnitudeText hparam ht
  rw [Term.joinedText, Term.joinedFormula, Term.isNegative, String.toList_append]
  by_cases hneg : t.coefficient < 0
  · rw [if_pos hneg, decide_eq_true hneg, if_pos rfl]
    exact h.join (c := '-') rfl rfl hterm
  · rw [if_neg hneg, decide_eq_false hneg, if_neg (by decide)]
    exact h.join (c := '+') rfl rfl hterm

/-- Later terms one after another, by induction on them; the sum before them grows with each. -/
theorem writes_joinedTexts (hparam : param = "u" ∨ param = "v") {ts : List Term}
    (hts : ∀ t ∈ ts, t.coefficient.isFinite) {cs : List Char} {sum : Formula}
    (h : Writes (.over Compiled.parameterNames) .sum cs sum) :
    Writes (.over Compiled.parameterNames) .sum
      (cs ++ (String.join (ts.map (Term.joinedText param))).toList)
      (ts.foldl (Term.joinedFormula param) sum) := by
  induction ts generalizing cs sum with
  | nil =>
    show Writes _ _ (cs ++ []) sum
    rw [List.append_nil]
    exact h
  | cons t ts ih =>
    have hnext := writes_joinedText hparam (hts t List.mem_cons_self) h
    have hrest := ih (fun t ht => hts t (List.mem_cons_of_mem _ ht)) hnext
    rw [List.map_cons, String.join_cons, String.toList_append, ← List.append_assoc]
    exact hrest

/-- A sum of terms is written as its chain. -/
theorem writes_sumText (hparam : param = "u" ∨ param = "v") {ts : List Term}
    (hts : ∀ t ∈ ts, t.coefficient.isFinite) :
    Writes (.over Compiled.parameterNames) .sum (Term.sumText param ts).toList
      (Term.chain param ts) := by
  rcases ts with _ | ⟨t, ts⟩
  · exact (writes_natural 0).factor.term.sum
  · have hfirst := writes_leadingText hparam (hts t List.mem_cons_self)
    rw [Term.sumText, Term.chain, String.toList_append]
    exact writes_joinedTexts hparam (fun t ht => hts t (List.mem_cons_of_mem _ ht)) hfirst.sum

end Texts

/-! ## The variables of a chain -/

section Variables

variable {param name : String}

theorem occurrences_timesWave {t : Term} {f : Formula} (hf : ∀ name ∈ f.occurrences, name = param)
    (h : name ∈ (t.timesWave param f).occurrences) : name = param := by
  obtain ⟨x, _ | k | k⟩ := t
  · exact hf name h
  all_goals
    have h : name ∈ f.occurrences ++ [param] := h
    rw [List.mem_append, List.mem_singleton] at h
    exact h.elim (hf name) id

theorem occurrences_chain (ts : List Term) :
    ∀ name ∈ (Term.chain param ts).occurrences, name = param := by
  rcases ts with _ | ⟨t, ts⟩
  · exact nofun
  · have hfirst : ∀ name ∈ (t.leadingFormula param).occurrences, name = param := by
      intro name h
      refine occurrences_timesWave (fun name hname => ?_) h
      split at hname <;> cases hname
    rw [Term.chain]
    -- by induction on the later terms, whatever sum they go on with
    generalize t.leadingFormula param = sum at hfirst
    induction ts generalizing sum with
    | nil => exact hfirst
    | cons t ts ih =>
      refine ih _ fun name h => ?_
      have h : name ∈ sum.occurrences ++
          (t.timesWave param (.number (writtenMagnitude t.coefficient))).occurrences := h
      rcases List.mem_append.mp h with h | h
      · exact hfirst name h
      · exact occurrences_timesWave (fun _ hnumber => absurd hnumber List.not_mem_nil) h

end Variables

/-! ## Reading a rendered series -/

/-- A rendered series of finite numbers is read as the chain of its kept terms. -/
theorem ofText_expression {s : Series Float} {param : String} (hparam : param = "u" ∨ param = "v")
    (hfinite : ∀ t ∈ s.listing, t.coefficient.isFinite) :
    Compiled.ofText (s.expression param) =
      .ok ⟨s.expression param, Term.chain param s.kept⟩ := by
  apply Formula.Writes.ofText
  rw [Series.expression, filter_terms s hfinite]
  exact writes_sumText hparam fun t ht => hfinite t (List.mem_filter.mp ht).1

/-- A rendered series of finite numbers is read as the chain of its kept terms, in no variable but
its parameter, and no number that stands for a kept coefficient is zero. -/
theorem expression_compiles (s : Series Float) (param : String)
    (hparam : param = "u" ∨ param = "v") (hconstant : s.constant.isFinite)
    (hcosines : ∀ a ∈ s.cosines, a.isFinite) (hsines : ∀ b ∈ s.sines, b.isFinite) :
    ∃ c, Compiled.ofText (s.expression param) = .ok c ∧ c.formula = Term.chain param s.kept ∧
      (∀ name ∈ c.freeVariables, name = param) ∧
      ∀ t ∈ s.kept, (writtenMagnitude t.coefficient == 0) = false := by
  have hfinite : ∀ t ∈ s.listing, t.coefficient.isFinite := fun t ht =>
    isFinite_of_mem_listing hconstant hcosines hsines ht
  have hkept : ∀ t ∈ s.kept, t.coefficient.isFinite ∧
      Settings.coefficientEpsilon ≤ t.coefficient.abs := by
    intro t ht
    obtain ⟨hmem, hle⟩ := List.mem_filter.mp ht
    exact ⟨hfinite t hmem, of_decide_eq_true hle⟩
  have htext : Compiled.ofText (s.expression param) =
      .ok ⟨s.expression param, Term.chain param s.kept⟩ := by
    apply Writes.ofText
    rw [Series.expression, filter_terms s hfinite]
    exact writes_sumText hparam fun t ht => (hkept t ht).1
  refine ⟨_, htext, rfl, fun name h => ?_, fun t ht => ?_⟩
  · exact occurrences_chain _ name (Formula.mem_freeVariables.mp h)
  · exact writtenMagnitude_ne_zero (hkept t ht).1 (hkept t ht).2

/-- A negative mean, a wave that is added and one that is taken away; the second cosine has no
sine beside it. -/
theorem expression_compiles_mixed_signs :
    (⟨-3, [0.25, 7], [-2]⟩ : Series Float).expression "v" =
        "-1.5000 + 0.2500*cos(1*v) - 2.0000*sin(1*v)" ∧
      ∃ c, Compiled.ofText "-1.5000 + 0.2500*cos(1*v) - 2.0000*sin(1*v)" = .ok c ∧
        c.formula = Term.chain "v" (⟨-3, [0.25, 7], [-2]⟩ : Series Float).kept ∧
        (∀ name ∈ c.freeVariables, name = "v") ∧
        ∀ t ∈ (⟨-3, [0.25, 7], [-2]⟩ : Series Float).kept,
          (writtenMagnitude t.coefficient == 0) = false := by
  have htext : (⟨-3, [0.25, 7], [-2]⟩ : Series Float).expression "v" =
      "-1.5000 + 0.2500*cos(1*v) - 2.0000*sin(1*v)" := by decide +kernel
  have h := expression_compiles ⟨-3, [0.25, 7], [-2]⟩ "v" (.inr rfl) (by decide +kernel)
    (by decide +kernel) (by decide +kernel)
  rw [htext] at h
  exact ⟨htext, h⟩

end SurfaceStudio.Fourier
