import SurfaceStudio.Formula.Lexer
import SurfaceStudio.Proofs.Decimal.FixedPlaces
/-!
# The longest numeral at the front of a text

`NumeralForm` is the written form of numbers: digits with at most one point among, before or after
them, and then, if a digit follows the mark and its sign, a power of ten. `numeral` takes the
longest start of a text that has this form.
-/

namespace SurfaceStudio.Formula

open Decimal (isDigit takeWhile_append_of_all)

/-! ## The form of numbers -/

/-- A run of digits, with at least one in it. -/
structure Digits (ds : List Char) : Prop where
  nonempty : ds ≠ []
  all : ∀ c ∈ ds, isDigit c = true

/-- What stands before the power of ten. -/
inductive Mantissa : List Char → Prop where
  | whole {ds : List Char} : Digits ds → Mantissa ds
  | point {ds es : List Char} :
    Digits ds → (∀ c ∈ es, isDigit c = true) → Mantissa (ds ++ '.' :: es)
  | leadingPoint {ds : List Char} : Digits ds → Mantissa ('.' :: ds)

/-- The mark of a power of ten. -/
def IsPowerMark (e : Char) : Prop := e = 'e' ∨ e = 'E'

/-- A power of ten, or nothing. -/
inductive PowerForm : List Char → Prop where
  | none : PowerForm []
  | unsigned {e : Char} {ds : List Char} : IsPowerMark e → Digits ds → PowerForm (e :: ds)
  | signed {e s : Char} {ds : List Char} :
    IsPowerMark e → (s = '+' ∨ s = '-') → Digits ds → PowerForm (e :: s :: ds)

/-- The written form of a number. -/
def NumeralForm (cs : List Char) : Prop :=
  ∃ mantissa power, cs = mantissa ++ power ∧ Mantissa mantissa ∧ PowerForm power

/-- The longest start of `cs` that has a form. -/
structure IsLongest (form : List Char → Prop) (text cs : List Char) : Prop where
  start : text <+: cs
  holds : form text
  longest : ∀ other, other <+: cs → form other → other.length ≤ text.length

/-- There is only one longest start. -/
theorem IsLongest.unique {form : List Char → Prop} {text text' cs : List Char}
    (h : IsLongest form text cs) (h' : IsLongest form text' cs) : text = text' := by
  have hle : text.length ≤ text'.length := h'.longest text h.start h.holds
  have hge : text'.length ≤ text.length := h.longest text' h'.start h'.holds
  have hprefix : text <+: text' := List.prefix_of_prefix_length_le h.start h'.start hle
  exact hprefix.eq_of_length_le hge

/-- It stays the longest one when the text is cut off behind it. -/
theorem IsLongest.of_prefix {form : List Char → Prop} {text cs cs' : List Char}
    (h : IsLongest form text cs) (hstart : text <+: cs') (hcut : cs' <+: cs) :
    IsLongest form text cs' :=
  ⟨hstart, h.holds, fun other hother => h.longest other (hother.trans hcut)⟩

/-! ## Runs of digits -/

theorem digits_cons {c : Char} {ds : List Char} (hc : isDigit c = true)
    (hds : ∀ d ∈ ds, isDigit d = true) : Digits (c :: ds) :=
  ⟨List.cons_ne_nil c ds, List.forall_mem_cons.mpr ⟨hc, hds⟩⟩

theorem Digits.exists_cons {ds : List Char} (h : Digits ds) :
    ∃ d rest, ds = d :: rest ∧ isDigit d = true := by
  obtain ⟨d, rest, rfl⟩ := List.exists_cons_of_ne_nil h.nonempty
  exact ⟨d, rest, rfl, h.all d List.mem_cons_self⟩

theorem isDigit_of_mem_takeWhile {cs : List Char} : ∀ c ∈ cs.takeWhile isDigit, isDigit c = true :=
  List.all_eq_true.mp List.all_takeWhile

/-- Digits at the front of a text are among the ones that are taken from it. -/
theorem length_le_takeWhile {ds rest : List Char} (h : ∀ c ∈ ds, isDigit c = true) :
    ds.length ≤ ((ds ++ rest).takeWhile isDigit).length := by
  rw [List.takeWhile_append_of_pos h, List.length_append]
  exact Nat.le_add_right _ _

theorem startsWithDigit_iff {cs : List Char} :
    startsWithDigit cs = true ↔ ∃ d ∈ cs.head?, isDigit d = true := by
  cases cs <;> simp [startsWithDigit]

theorem Digits.startsWithDigit {ds : List Char} (h : Digits ds) (rest : List Char) :
    startsWithDigit (ds ++ rest) = true := by
  obtain ⟨d, more, rfl, hd⟩ := h.exists_cons
  exact hd

/-- Taking the digits of a text that starts with one yields some. -/
theorem digits_takeWhile {cs : List Char} (h : startsWithDigit cs = true) :
    Digits (cs.takeWhile isDigit) := by
  cases cs with
  | nil => cases h
  | cons d rest =>
    have hd : isDigit d = true := h
    rw [List.takeWhile_cons_of_pos hd]
    exact digits_cons hd isDigit_of_mem_takeWhile

/-! ## The power of ten -/

theorem IsPowerMark.not_digit {e : Char} (h : IsPowerMark e) : isDigit e = false := by
  rcases h with rfl | rfl <;> rfl

theorem IsPowerMark.ne_point {e : Char} (h : IsPowerMark e) : e ≠ '.' := by
  rcases h with rfl | rfl <;> decide

theorem isPowerMark_iff {e : Char} : (e = 'e' || e = 'E') = true ↔ IsPowerMark e := by
  rw [Bool.or_eq_true, decide_eq_true_iff, decide_eq_true_iff, IsPowerMark]

theorem not_digit_of_sign {s : Char} (h : s = '+' ∨ s = '-') : isDigit s = false := by
  rcases h with rfl | rfl <;> rfl

theorem sign_iff {s : Char} : (s = '+' || s = '-') = true ↔ s = '+' ∨ s = '-' := by
  rw [Bool.or_eq_true, decide_eq_true_iff, decide_eq_true_iff]

/-- Everything that `powerPart` can take, with the reason for it. -/
theorem powerPart_form (cs : List Char) : powerPart cs <+: cs ∧ PowerForm (powerPart cs) := by
  have hnone : ([] : List Char) <+: cs ∧ PowerForm [] := ⟨List.nil_prefix, .none⟩
  unfold powerPart
  split
  next e rest =>
    split
    next he =>
      have he : IsPowerMark e := isPowerMark_iff.mp he
      split
      next s more =>
        split
        next hs =>
          split
          next hdigit =>
            have hstart : s :: more.takeWhile isDigit <+: s :: more :=
              List.cons_prefix_cons.mpr ⟨rfl, List.takeWhile_prefix _⟩
            exact ⟨List.cons_prefix_cons.mpr ⟨rfl, hstart⟩,
              .signed he (sign_iff.mp hs) (digits_takeWhile hdigit)⟩
          next => exact hnone
        next =>
          split
          next hdigit =>
            exact ⟨List.cons_prefix_cons.mpr ⟨rfl, List.takeWhile_prefix _⟩,
              .unsigned he (digits_takeWhile hdigit)⟩
          next => exact hnone
      next => exact hnone
    next => exact hnone
  next => exact hnone

/-- A power of ten at the front of a text is taken. -/
theorem length_le_powerPart {power : List Char} (h : PowerForm power) (rest : List Char) :
    power.length ≤ (powerPart (power ++ rest)).length := by
  cases h with
  | none => exact Nat.zero_le _
  | @unsigned e ds he hds =>
    obtain ⟨d, more, rfl, hd⟩ := hds.exists_cons
    have hsign : ¬ (d = '+' || d = '-') = true := by
      intro hs
      rw [not_digit_of_sign (sign_iff.mp hs)] at hd
      cases hd
    simp only [List.cons_append, powerPart]
    rw [if_pos (isPowerMark_iff.mpr he), if_neg hsign, if_pos hd]
    have hle : (d :: more).length ≤ ((d :: more ++ rest).takeWhile isDigit).length :=
      length_le_takeWhile hds.all
    exact Nat.succ_le_succ hle
  | @signed e s ds he hs hds =>
    simp only [List.cons_append, powerPart]
    rw [if_pos (isPowerMark_iff.mpr he), if_pos (sign_iff.mpr hs),
      if_pos (hds.startsWithDigit rest)]
    exact Nat.succ_le_succ (Nat.succ_le_succ (length_le_takeWhile hds.all))

/-- The mark in front of a power ends a run of digits, and is no point. -/
theorem PowerForm.head {power : List Char} (h : PowerForm power) (hne : power ≠ [])
    (rest : List Char) : ∀ c ∈ (power ++ rest).head?, isDigit c = false ∧ c ≠ '.' := by
  cases h with
  | none => exact absurd rfl hne
  | unsigned he hds =>
    rintro c ⟨⟩
    exact ⟨he.not_digit, he.ne_point⟩
  | signed he hs hds =>
    rintro c ⟨⟩
    exact ⟨he.not_digit, he.ne_point⟩

/-! ## The digits before the power -/

/-- What `numeral` takes before the power of ten. -/
def mantissaPart (cs : List Char) : List Char :=
  cs.takeWhile isDigit ++ pointPart (cs.drop (cs.takeWhile isDigit).length)

theorem numeral_eq (cs : List Char) :
    numeral cs = mantissaPart cs ++ powerPart (cs.drop (mantissaPart cs).length) := by
  rw [numeral, mantissaPart, List.length_append]

theorem pointPart_start (cs : List Char) : pointPart cs <+: cs := by
  unfold pointPart
  split
  · exact List.cons_prefix_cons.mpr ⟨rfl, List.takeWhile_prefix _⟩
  · exact List.nil_prefix

/-- A start of a text and a start of what is left make a longer start. -/
theorem append_start {front more cs : List Char} (hfront : front <+: cs)
    (hmore : more <+: cs.drop front.length) : front ++ more <+: cs := by
  obtain ⟨rest, rfl⟩ := hfront
  rw [List.drop_left] at hmore
  exact (List.prefix_append_right_inj front).mpr hmore

theorem mantissaPart_start (cs : List Char) : mantissaPart cs <+: cs :=
  append_start (List.takeWhile_prefix _) (pointPart_start _)

theorem numeral_start (cs : List Char) : numeral cs <+: cs := by
  rw [numeral_eq]
  exact append_start (mantissaPart_start cs) (powerPart_form _).1

/-- A text that starts with a digit, or with a point and a digit. -/
def StartsNumeral : List Char → Prop
  | [] => False
  | c :: rest => isDigit c = true ∨ (c = '.' ∧ startsWithDigit rest = true)

theorem mantissa_mantissaPart {cs : List Char} (h : StartsNumeral cs) :
    Mantissa (mantissaPart cs) := by
  cases cs with
  | nil => exact absurd h id
  | cons c rest =>
    rcases h with hdigit | ⟨rfl, hdigit⟩
    · have hwhole : Digits ((c :: rest).takeWhile isDigit) := digits_takeWhile hdigit
      unfold mantissaPart pointPart
      split
      · exact .point hwhole isDigit_of_mem_takeWhile
      · rw [List.append_nil]
        exact .whole hwhole
    · exact .leadingPoint (digits_takeWhile hdigit)

/-- A mantissa at the front of a text is taken; it is all that is taken if no digit and no point
follows it. -/
theorem mantissaPart_append {mantissa : List Char} (h : Mantissa mantissa) (rest : List Char) :
    mantissa.length ≤ (mantissaPart (mantissa ++ rest)).length ∧
      ((∀ c ∈ rest.head?, isDigit c = false ∧ c ≠ '.') →
        mantissaPart (mantissa ++ rest) = mantissa) := by
  have hpoint : ∀ es : List Char, ∀ c ∈ ('.' :: es).head?, isDigit c = false := by
    rintro es c ⟨⟩
    rfl
  cases h with
  | whole hds =>
    refine ⟨?_, fun hrest => ?_⟩
    · rw [mantissaPart, List.length_append]
      exact (length_le_takeWhile hds.all).trans (Nat.le_add_right _ _)
    · rw [mantissaPart, takeWhile_append_of_all hds.all fun c hc => (hrest c hc).1, List.drop_left]
      have hnone : pointPart rest = [] := by
        unfold pointPart
        split
        · exact absurd rfl (hrest '.' rfl).2
        · rfl
      rw [hnone, List.append_nil]
  | @point ds es hds hes =>
    have hpart : mantissaPart (ds ++ '.' :: es ++ rest) =
        ds ++ '.' :: (es ++ rest).takeWhile isDigit := by
      rw [List.append_assoc, List.cons_append, mantissaPart,
        takeWhile_append_of_all hds.all (hpoint _), List.drop_left]
      rfl
    rw [hpart]
    refine ⟨?_, fun hrest => ?_⟩
    · simp only [List.length_append, List.length_cons]
      have hle : es.length ≤ ((es ++ rest).takeWhile isDigit).length := length_le_takeWhile hes
      omega
    · rw [takeWhile_append_of_all hes fun c hc => (hrest c hc).1]
  | @leadingPoint ds hds =>
    have hpart : mantissaPart ('.' :: ds ++ rest) = '.' :: (ds ++ rest).takeWhile isDigit := rfl
    rw [hpart]
    refine ⟨Nat.succ_le_succ (length_le_takeWhile hds.all), fun hrest => ?_⟩
    rw [takeWhile_append_of_all hds.all fun c hc => (hrest c hc).1]

/-! ## The longest numeral -/

theorem numeralForm_numeral {cs : List Char} (h : StartsNumeral cs) : NumeralForm (numeral cs) :=
  ⟨mantissaPart cs, _, numeral_eq cs, mantissa_mantissaPart h, (powerPart_form _).2⟩

/-- No start of a text that has the form of a number is longer than what `numeral` takes. -/
theorem length_le_numeral {other cs : List Char} (hstart : other <+: cs) (h : NumeralForm other) :
    other.length ≤ (numeral cs).length := by
  obtain ⟨rest, rfl⟩ := hstart
  obtain ⟨mantissa, power, rfl, hmantissa, hpower⟩ := h
  rw [List.append_assoc, numeral_eq]
  obtain ⟨hle, heq⟩ := mantissaPart_append hmantissa (power ++ rest)
  by_cases hne : power = []
  · subst hne
    rw [List.append_nil, List.length_append]
    exact hle.trans (Nat.le_add_right _ _)
  · -- the mark of the power ends the mantissa, so that the power is looked for where it stands
    rw [heq (hpower.head hne rest), List.drop_left, List.length_append, List.length_append]
    exact Nat.add_le_add_left (length_le_powerPart hpower rest) _

/-- Where a number starts, `numeral` takes the longest one. -/
theorem isLongest_numeral {cs : List Char} (h : StartsNumeral cs) :
    IsLongest NumeralForm (numeral cs) cs :=
  ⟨numeral_start cs, numeralForm_numeral h, fun _ hstart hform => length_le_numeral hstart hform⟩

/-- Nothing that has the form of a number starts otherwise. -/
theorem NumeralForm.startsNumeral {text : List Char} (h : NumeralForm text) (rest : List Char) :
    StartsNumeral (text ++ rest) := by
  obtain ⟨mantissa, power, rfl, hmantissa, -⟩ := h
  rw [List.append_assoc]
  cases hmantissa with
  | whole hds =>
    obtain ⟨d, more, rfl, hd⟩ := hds.exists_cons
    exact .inl hd
  | point hds hes =>
    obtain ⟨d, more, rfl, hd⟩ := hds.exists_cons
    exact .inl hd
  | leadingPoint hds => exact .inr ⟨rfl, hds.startsWithDigit _⟩

theorem NumeralForm.ne_nil {text : List Char} (h : NumeralForm text) : text ≠ [] := by
  rintro rfl
  exact h.startsNumeral []

end SurfaceStudio.Formula
