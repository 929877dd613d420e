import SurfaceStudio.Proofs.Decimal.Written
import SurfaceStudio.Proofs.Formula.Bounds
import SurfaceStudio.Proofs.Fourier.Additions
import SurfaceStudio.Proofs.Fourier.Fit
import SurfaceStudio.Proofs.Fourier.Rendering
/-!
# Which rendered series are expressions

In place of a coefficient that is no number a word is written, `nan` or `inf`, and to the scanner
it is a name like any other. Over a scope that has both words every rendered series is an expression
(`Reads`); the surface parameters do not have them, so that it is an expression in these exactly if
all coefficients are finite: `expression_accepted_iff`.
-/

namespace SurfaceStudio

namespace Formula

variable {names names' : List String} {p : Phrase} {cs : List Char} {f : Formula}

/-- A text of a phrase is one over all lists that have the names in it. -/
theorem Writes.transfer (h : Writes (.over names) p cs f)
    (hf : ∀ name ∈ f.occurrences, name ∈ names') : Writes (.over names') p cs f := by
  have hadmits : ∀ fn n, (Grammar.over names).admits fn n → (Grammar.over names').admits fn n :=
    fun _ _ hn => hn
  obtain ⟨ts, hderives, hts⟩ := h.derives
  exact ⟨h.first, h.last, ts, hderives.transfer hadmits hf, hts⟩

/-- The text of a sum over a larger scope is compiled if there are none but the surface parameters
in it, and otherwise it is refused as it cannot be read. -/
theorem Writes.compiled_iff {text : String} (h : Writes (.over names) .sum text.toList f)
    (hnames : ∀ name ∈ Compiled.parameterNames, name ∈ names) :
    ((∃ c, Compiled.ofText text = .ok c) ↔
      ∀ name ∈ f.occurrences, name ∈ Compiled.parameterNames) ∧
    ((∃ reason, Compiled.ofText text = .error (.compile text reason none)) ↔
      ¬ ∀ name ∈ f.occurrences, name ∈ Compiled.parameterNames) := by
  -- both scopes read the same expression, as far as they read one
  have hparse : ∀ f', parse Compiled.parameterNames text = .ok f' → f' = f := by
    intro f' hf'
    have heq := (parse_mono hnames hf').symm.trans h.parse_eq
    cases heq
    rfl
  rcases Compiled.ofText_cases text with ⟨hblank, -⟩ | ⟨-, hnone, reason, hrefused⟩ | ⟨f', hf', hok⟩
  · exact absurd h.parse_eq (hblank.parse_ne_ok names f)
  · have hforeign : ¬ ∀ name ∈ f.occurrences, name ∈ Compiled.parameterNames :=
      fun hall => hnone f (parse_of_occurrences h.parse_eq hall)
    rw [hrefused, h.trim_eq]
    exact ⟨iff_of_false nofun hforeign, iff_of_true ⟨reason, rfl⟩ hforeign⟩
  · have hall : ∀ name ∈ f.occurrences, name ∈ Compiled.parameterNames := by
      rw [← hparse f' hf']
      exact mem_names_of_parse hf'
    rw [hok]
    exact ⟨iff_of_true ⟨_, rfl⟩ hall, iff_of_false nofun (not_not_intro hall)⟩

end Formula

namespace Fourier

open Formula (Writes Phrase)

/-! ## Texts with words in place of numbers -/

/-- The surface parameters and the words for what is no number. -/
def wideNames : List String := Compiled.parameterNames ++ Decimal.specialWords

/-- The characters are a text of a phrase over the wide names, in which there are none but the
surface parameters exactly under a condition. -/
def Reads (p : Phrase) (cs : List Char) (P : Prop) : Prop :=
  ∃ f, Writes (.over wideNames) p cs f ∧
    ((∀ name ∈ f.occurrences, name ∈ Compiled.parameterNames) ↔ P)

section Texts

variable {p q : Phrase} {param : String} {cs : List Char} {P : Prop}

/-- A text of the surface parameters alone. -/
theorem Reads.of_writes {f : Formula} (h : Writes (.over Compiled.parameterNames) p cs f) :
    Reads p cs True := by
  obtain ⟨ts, hderives, -⟩ := h.derives
  have hnames := hderives.mem_names
  refine ⟨f, h.transfer fun name hname => ?_, iff_true_intro hnames⟩
  exact List.mem_append_left _ (hnames name hname)

/-- A word for what is no number is read as a variable. -/
theorem reads_word {c : Char} {tail : List Char} (hword : Formula.IsWord c tail)
    (hlast : ∃ init d, c :: tail = init ++ [d] ∧ Text.isBlank d = false)
    (hname : Formula.IsPlainName ⟨.identifier, String.ofList (c :: tail), 0⟩)
    (hspecial : String.ofList (c :: tail) ∈ Decimal.specialWords) :
    Reads .primary (c :: tail) False := by
  have hforeign : ∀ word ∈ Decimal.specialWords, word ∉ Compiled.parameterNames := by decide
  have hwide : String.ofList (c :: tail) ∈ wideNames := List.mem_append_right _ hspecial
  refine ⟨.variable _, Writes.variable hword hlast hname hwide, iff_of_false (fun hall => ?_) id⟩
  exact hforeign _ hspecial (hall _ List.mem_cons_self)

theorem reads_special {word : String} (h : word ∈ Decimal.specialWords) :
    Reads .primary word.toList False := by
  simp only [Decimal.specialWords, List.mem_cons, List.not_mem_nil, or_false] at h
  rcases h with rfl | rfl
  · exact reads_word ⟨by decide, by decide, by decide, by decide +kernel, by decide +kernel⟩
      ⟨['n', 'a'], 'n', rfl, by decide⟩ ⟨rfl, by decide +kernel, by decide⟩ (by decide)
  · exact reads_word ⟨by decide, by decide, by decide, by decide +kernel, by decide +kernel⟩
      ⟨['i', 'n'], 'f', rfl, by decide⟩ ⟨rfl, by decide +kernel, by decide⟩ (by decide)

/-- A magnitude is read as a number if it is finite. -/
theorem reads_magnitude (x : Float) :
    Reads .primary (Decimal.fixed Settings.coefficientDecimals x.abs).toList
      (x.isFinite = true) := by
  cases hx : x.isFinite with
  | true =>
    obtain ⟨f, hf, hnames⟩ := Reads.of_writes (writes_magnitude hx)
    exact ⟨f, hf, by rw [hnames, eq_self]⟩
  | false =>
    obtain ⟨f, hf, hnames⟩ := reads_special (Decimal.fixed_mem_specialWords _ hx)
    exact ⟨f, hf, by rw [hnames, Bool.false_eq_true]⟩

/-- A wave has no names but the parameter in it. -/
theorem Reads.timesWave (hparam : param = "u" ∨ param = "v") {t : Term} (h : Reads .factor cs P) :
    Reads .term
      (cs ++ (match t.wave with
        | none => ""
        | some w => "*" ++ w.text param).toList) P := by
  obtain ⟨f, hf, hnames⟩ := h
  have hmem : param ∈ Compiled.parameterNames := by
    rcases hparam with rfl | rfl <;> decide
  refine ⟨t.timesWave param f, writes_timesWave (fun w _ => ?_) hf, ?_⟩
  · obtain ⟨ts, hderives, -⟩ := (writes_wave hparam w).derives
    exact (writes_wave hparam w).transfer fun name hname =>
      List.mem_append_left _ (hderives.mem_names name hname)
  · rw [← hnames]
    obtain ⟨x, _ | k | k⟩ := t
    · rfl
    all_goals
      show (∀ name ∈ f.occurrences ++ [param], _) ↔ _
      rw [List.forall_mem_append, List.forall_mem_singleton, and_iff_left hmem]

theorem reads_magnitudeText (hparam : param = "u" ∨ param = "v") (t : Term) :
    Reads .term (t.magnitudeText param).toList (t.coefficient.isFinite = true) := by
  obtain ⟨f, hf, hnames⟩ := reads_magnitude t.coefficient
  rw [Term.magnitudeText, String.toList_append]
  exact Reads.timesWave hparam ⟨f, hf.factor, hnames⟩

theorem reads_leadingText (hparam : param = "u" ∨ param = "v") (t : Term) :
    Reads .sum (t.leadingText param).toList (t.coefficient.isFinite = true) := by
  rw [Term.leadingText]
  cases t.isNegative with
  | true =>
    obtain ⟨f, hf, hnames⟩ := reads_magnitude t.coefficient
    have hsigned : Reads .factor ('-' :: _) (t.coefficient.isFinite = true) :=
      ⟨.signed .minus f, hf.factor.minus, hnames⟩
    obtain ⟨g, hg, hnames⟩ := hsigned.timesWave hparam (t := t)
    rw [if_pos rfl, Term.magnitudeText, String.toList_append, String.toList_append]
    exact ⟨g, hg.sum, hnames⟩
  | false =>
    obtain ⟨f, hf, hnames⟩ := reads_magnitudeText hparam t
    rw [if_neg (by decide), String.empty_append]
    exact ⟨f, hf.sum, hnames⟩

/-- A later term adds its condition to that of the sum before it. -/
theorem Reads.joinedText (hparam : param = "u" ∨ param = "v") (t : Term) (h : Reads .sum cs P) :
    Reads .sum (cs ++ (t.joinedText param).toList) (P ∧ t.coefficient.isFinite = true) := by
  obtain ⟨l, hl, hleft⟩ := h
  obtain ⟨r, hr, hright⟩ := reads_magnitudeText hparam t
  have hnames (op : Formula.Operation) : (∀ name ∈ (Formula.binary op l r).occurrences,
      name ∈ Compiled.parameterNames) ↔ P ∧ t.coefficient.isFinite = true := by
    rw [← hleft, ← hright]
    exact List.forall_mem_append
  rw [Term.joinedText, String.toList_append]
  cases t.isNegative with
  | true => exact ⟨_, hl.join (c := '-') rfl rfl hr, hnames .sub⟩
  | false => exact ⟨_, hl.join (c := '+') rfl rfl hr, hnames .add⟩

/-- Later terms one after another, by induction on them. -/
theorem Reads.joinedTexts (hparam : param = "u" ∨ param = "v") {ts : List Term}
    (h : Reads .sum cs P) :
    Reads .sum (cs ++ (String.join (ts.map (Term.joinedText param))).toList)
      (P ∧ ∀ t ∈ ts, t.coefficient.isFinite = true) := by
  induction ts generalizing cs P with
  | nil =>
    obtain ⟨f, hf, hnames⟩ := h
    refine ⟨f, ?_, by rw [hnames, and_iff_left (List.forall_mem_nil _)]⟩
    show Writes _ _ (cs ++ []) f
    rwa [List.append_nil]
  | cons t ts ih =>
    have hrest := ih (h.joinedText hparam t)
    rw [List.map_cons, String.join_cons, String.toList_append, ← List.append_assoc,
      List.forall_mem_cons, ← and_assoc]
    exact hrest

/-- A sum of terms is one of numbers if all coefficients are finite. -/
theorem reads_sumText (hparam : param = "u" ∨ param = "v") (ts : List Term) :
    Reads .sum (Term.sumText param ts).toList (∀ t ∈ ts, t.coefficient.isFinite = true) := by
  rcases ts with _ | ⟨t, ts⟩
  · obtain ⟨f, hf, hnames⟩ := Reads.of_writes (writes_natural 0)
    exact ⟨f, hf.factor.term.sum, by rw [hnames, true_iff]; exact List.forall_mem_nil _⟩
  · rw [Term.sumText, String.toList_append, List.forall_mem_cons]
    exact (reads_leadingText hparam t).joinedTexts hparam

end Texts

/-! ## Acceptance -/

/-- All coefficients of a series are finite. -/
structure Series.IsFinite (s : Series Float) : Prop where
  constant : s.constant.isFinite = true
  cosines : ∀ a ∈ s.cosines, a.isFinite = true
  sines : ∀ b ∈ s.sines, b.isFinite = true

/-- The terms of a series that are written have finite coefficients exactly if all terms have: what
is no number is never left out. -/
theorem forall_written_iff (s : Series Float) :
    (∀ t ∈ s.terms.filter fun t => !t.isNegligible, t.coefficient.isFinite = true) ↔
      ∀ t ∈ s.listing, t.coefficient.isFinite = true := by
  rw [terms_eq_listing]
  refine ⟨fun h t ht => ?_, fun h t ht => h t (List.mem_filter.mp ht).1⟩
  by_contra hspecial
  have hlarge := Decimal.not_lt_epsilon_of_special (Bool.eq_false_iff.mpr hspecial)
  refine hspecial (h t (List.mem_filter.mpr ⟨ht, ?_⟩))
  rw [Term.isNegligible, decide_eq_false hlarge]
  rfl

/-- The coefficients of a harmonic stand among the terms of the series. -/
theorem mem_listing {s : Series Float} {a b : Float} (h : (a, b) ∈ s.cosines.zip s.sines) :
    ∃ k, ⟨a, some (.cosine k)⟩ ∈ s.listing ∧ ⟨b, some (.sine k)⟩ ∈ s.listing := by
  rw [← List.zipIdx_map_fst 1 (s.cosines.zip s.sines)] at h
  obtain ⟨⟨ab, k⟩, hk, rfl⟩ := List.mem_map.mp h
  have hmem : ∀ t ∈ [⟨a, some (.cosine k)⟩, ⟨b, some (.sine k)⟩], t ∈ s.listing := fun t ht =>
    List.mem_cons_of_mem _ (List.mem_flatMap.mpr ⟨_, hk, ht⟩)
  exact ⟨k, hmem _ List.mem_cons_self, hmem _ (List.mem_cons_of_mem _ List.mem_cons_self)⟩

/-- Where every cosine has a sine beside it, the terms of a series have all of its coefficients. -/
theorem forall_listing_iff {s : Series Float} (h : s.cosines.length = s.sines.length) :
    (∀ t ∈ s.listing, t.coefficient.isFinite = true) ↔ s.IsFinite := by
  refine ⟨fun hall => ⟨?_, fun a ha => ?_, fun b hb => ?_⟩, fun hs t ht =>
    isFinite_of_mem_listing hs.constant hs.cosines hs.sines ht⟩
  · exact Decimal.isFinite_of_div (hall ⟨s.constant / 2, none⟩ List.mem_cons_self)
  · rw [← List.map_fst_zip h.le] at ha
    obtain ⟨⟨_, b⟩, hab, rfl⟩ := List.mem_map.mp ha
    obtain ⟨k, hcosine, -⟩ := mem_listing hab
    have hfinite := hall _ hcosine
    exact hfinite
  · rw [← List.map_snd_zip h.ge] at hb
    obtain ⟨⟨a, _⟩, hab, rfl⟩ := List.mem_map.mp hb
    obtain ⟨k, -, hsine⟩ := mem_listing hab
    have hfinite := hall _ hsine
    exact hfinite

/-- A rendered series is an expression in the surface parameters exactly if its coefficients are
finite, and otherwise it is refused as it cannot be read. -/
theorem expression_accepted_iff {s : Series Float} (h : s.cosines.length = s.sines.length)
    {param : String} (hparam : param = "u" ∨ param = "v") :
    ((∃ c, Compiled.ofText (s.expression param) = .ok c) ↔ s.IsFinite) ∧
    ((∃ reason, Compiled.ofText (s.expression param) =
      .error (.compile (s.expression param) reason none)) ↔ ¬ s.IsFinite) := by
  obtain ⟨f, hf, hnames⟩ := reads_sumText hparam (s.terms.filter fun t => !t.isNegligible)
  have hcompiled := Writes.compiled_iff hf fun name => List.mem_append_left _
  rwa [hnames, forall_written_iff, forall_listing_iff h] at hcompiled

/-- The expressions of a fit are accepted as far as the coefficients of its series are finite. -/
theorem Fit.IsProper.accepted_iff {f : Fit} {order : Json} (h : f.IsProper order) :
    (((∃ c, Compiled.ofText f.expressionX = .ok c) ↔ f.x.IsFinite) ∧
      ((∃ reason, Compiled.ofText f.expressionX = .error (.compile f.expressionX reason none)) ↔
        ¬ f.x.IsFinite)) ∧
    (((∃ c, Compiled.ofText f.expressionY = .ok c) ↔ f.y.IsFinite) ∧
      ((∃ reason, Compiled.ofText f.expressionY = .error (.compile f.expressionY reason none)) ↔
        ¬ f.y.IsFinite)) := by
  obtain ⟨k, -, -, -, hx, hy⟩ := h.orders
  rw [h.textX, h.textY]
  exact ⟨expression_accepted_iff (hx.cosines.trans hx.sines.symm) (.inl rfl),
    expression_accepted_iff (hy.cosines.trans hy.sines.symm) (.inl rfl)⟩

/-! ## Samples -/

/-- The constant of a fitted series is finite only if the samples are. -/
theorem isFinite_of_ofSamples {samples : List Float} {k : ℕ} {s : Series Float}
    (h : Series.ofSamples samples k = .ok s) (hs : s.IsFinite) :
    ∀ x ∈ samples, x.isFinite = true := by
  rw [Series.ofSamples] at h
  split at h
  · cases h
  · cases h
    exact (Series.addsUp_sum samples).isFinite (Decimal.isFinite_of_mul hs.constant).2

section Points

variable {points : List (Point Float)} {canvas : Canvas Float} {order : Json} {f : Fit}

/-- A point whose place in the frame of a canvas is finite is finite itself. -/
theorem x_isFinite_of_toFrame {p : Point Float} (h : (canvas.toFrame p).x.isFinite = true) :
    p.x.isFinite = true :=
  (Decimal.isFinite_of_sub (Decimal.isFinite_of_div h)).1

theorem y_isFinite_of_toFrame {p : Point Float} (h : (canvas.toFrame p).y.isFinite = true) :
    p.y.isFinite = true :=
  (Decimal.isFinite_of_sub (Decimal.isFinite_of_div h)).2

/-- A fitted series is finite only if the coordinates of the points in the frame of the canvas
are. -/
theorem Fit.toFrame_isFinite_of_ofPoints (h : Fit.ofPoints points canvas order = .ok f) :
    (f.x.IsFinite → ∀ p ∈ points, (canvas.toFrame p).x.isFinite = true) ∧
    (f.y.IsFinite → ∀ p ∈ points, (canvas.toFrame p).y.isFinite = true) := by
  obtain ⟨_, -, h⟩ := bind_eq_ok.mp h
  obtain ⟨⟨x, y⟩, hxy, h⟩ := bind_eq_ok.mp h
  cases h
  obtain ⟨k, -, hxy⟩ := bind_eq_ok.mp hxy
  obtain ⟨x', hx, hxy⟩ := bind_eq_ok.mp hxy
  obtain ⟨y', hy, hxy⟩ := bind_eq_ok.mp hxy
  cases hxy
  constructor
  · intro hfinite p hp
    have hsamples := isFinite_of_ofSamples (faulting_eq_ok.mp hx) hfinite
    exact hsamples _ (List.mem_map_of_mem (List.mem_map_of_mem hp))
  · intro hfinite p hp
    have hsamples := isFinite_of_ofSamples (faulting_eq_ok.mp hy) hfinite
    exact hsamples _ (List.mem_map_of_mem (List.mem_map_of_mem hp))

end Points

end Fourier

end SurfaceStudio
