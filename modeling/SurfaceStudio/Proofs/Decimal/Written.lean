import SurfaceStudio.Proofs.Decimal.Numerals
/-!
# What is written with four places and read again

A magnitude is written as a whole number of the last of four places, at most one half of them away
from it, and read as a double nearest to what is written. The magnitude is a double itself, so what
is read is at most as far from what is written as the magnitude is: `abs_read_sub_le`. In place of
a magnitude that is no number a word is written.
-/

namespace SurfaceStudio.Decimal

open Float.Model Float.Model.UnpackedFloat

/-! ## Numerals of four places -/

theorem value_tenThousand : tenThousand.isFinite = true ∧ value tenThousand = 10 ^ 4 := by
  refine ⟨rfl, ?_⟩
  rw [value, unpacked_tenThousand]
  norm_num [valueOf_positive]

theorem length_toDigits_le_of_lt {n k : ℕ} (hk : 0 < k) (h : (n : ℚ) < 10 ^ k) :
    (Nat.toDigits 10 n).length ≤ k :=
  (Nat.length_toDigits_le_iff (by decide) hk).mpr (by exact_mod_cast h)

theorem rounds_ofScientific {n : ℕ} (hpos : 0 < n) :
    Rounds (n / 10 ^ 4) (Float.ofScientific n true 4) := by
  by_cases hfast : n < 2 ^ 53
  · obtain ⟨hfinite, hvalue⟩ := value_toFloat hfast
    obtain ⟨hfinite', hvalue'⟩ := value_tenThousand
    have hrounds := rounds_div hfinite hfinite' (by rw [hvalue']; norm_num)
    rwa [hvalue, hvalue', ← ofScientific_fast hfast] at hrounds
  · have hden : 0 < 10 ^ 4 := by decide
    have hrounds := rounds_of_isRounding (isRounding_div_finite .positive .positive 0 0 hpos hden)
    rw [valueOf_positive, valueOf_positive, zpow_zero, mul_one, mul_one] at hrounds
    rw [ofScientific_slow hpos hfast]
    exact_mod_cast hrounds

/-- A numeral of four places is read as a double nearest to it. -/
theorem rounds_nearest {n : ℕ} (h : (Nat.toDigits 10 n).length ≤ 404) :
    Rounds (n / 10 ^ 4) (nearest n (-4)) := by
  rcases Nat.eq_zero_or_pos n with rfl | hpos
  · have hzero : Rounds 0 0 := .refl (x := 0) rfl
    rw [Nat.cast_zero, zero_div]
    exact hzero
  · have hlow : 0 < (Nat.toDigits 10 n).length := Nat.length_toDigits_pos
    have hsmall : (n = 0 || decide (((Nat.toDigits 10 n).length : Int) + -4 < -400)) = false := by
      rw [decide_eq_false (by omega), decide_eq_false (by omega)]
      rfl
    simp only [nearest, hsmall]
    rw [if_neg (by decide), if_neg (by omega), if_pos (by decide)]
    exact rounds_ofScientific hpos

/-! ## Magnitudes and signs -/

section Magnitudes

variable {x : Float}

theorem isFinite_abs (hx : x.isFinite = true) : x.abs.isFinite = true := by
  have hx : (unpacked x).isFinite = true := hx
  show (unpacked x.abs).isFinite = true
  rw [unpacked_abs]
  generalize unpacked x = u at hx ⊢
  cases u <;> first | rfl | cases hx

theorem value_abs (x : Float) : value x.abs = |value x| := by
  rw [value, value, unpacked_abs]
  cases unpacked x with
  | finite s m e h =>
    rw [abs_valueOf]
    exact valueOf_positive m e h
  | _ => exact abs_zero.symm

theorem value_neg (x : Float) : value (-x) = -value x := by
  rw [value, unpacked_neg, valueOf_neg, value]

/-- Finite doubles are below each other as their values are. -/
theorem lt_iff_value {y : Float} (hx : x.isFinite = true) (hy : y.isFinite = true) :
    x < y ↔ value x < value y := by
  rw [lt_iff, compare_eq (canonical_unpacked hx) (canonical_unpacked hy), Option.some.injEq,
    compare_lt_iff_lt]
  rfl

/-- A number with a sign in front. -/
def signed (negative : Bool) (q : ℚ) : ℚ := if negative then -q else q

theorem apply_mul_eq_signed (s : Sign) (n : ℕ) (q : ℚ) :
    s.apply n * q = signed (isMinus s) (n * q) := by
  cases s
  · rw [Sign.apply, Int.cast_neg]
    exact neg_mul (n : ℚ) q
  · rfl

theorem abs_signed {q : ℚ} (hq : 0 ≤ q) (negative : Bool) : |signed negative q| = q := by
  cases negative
  · exact abs_of_nonneg hq
  · rw [signed, if_pos rfl, abs_neg, abs_of_nonneg hq]

theorem abs_signed_sub (negative : Bool) (q r : ℚ) :
    |signed negative q - signed negative r| = |q - r| := by
  cases negative
  · rfl
  · rw [signed, signed, if_pos rfl, if_pos rfl, neg_sub_neg, abs_sub_comm]

theorem abs_signed_not_sub {q r : ℚ} (hq : 0 ≤ q) (hr : 0 ≤ r) (negative : Bool) :
    |signed (!negative) q - signed negative r| = q + r := by
  cases negative
  · show |-q - r| = q + r
    rw [← neg_add', abs_neg, abs_of_nonneg (add_nonneg hq hr)]
  · show |q - -r| = q + r
    rw [sub_neg_eq_add, abs_of_nonneg (add_nonneg hq hr)]

theorem signed_zero (negative : Bool) : signed negative 0 = 0 := by
  cases negative
  · rfl
  · exact neg_zero

theorem value_eq_signed {negative : Bool} {m : ℕ} {e : ℤ}
    (h : Double.ofFloat x = .finite negative m e) :
    value x = signed negative (m * 2 ^ e) := by
  rw [ofFloat_eq] at h
  rw [value]
  generalize unpacked x = u at h ⊢
  cases u with
  | zero s =>
    obtain ⟨-, rfl, -⟩ := Double.finite.inj h
    rw [Nat.cast_zero, zero_mul, signed_zero]
    rfl
  | finite s m' e' hpos =>
    obtain ⟨rfl, rfl, rfl⟩ := Double.finite.inj h
    exact apply_mul_eq_signed s m' _
  | _ => cases h

theorem value_of_parts {m : ℕ} {e : ℤ} (h : Double.ofFloat x = .finite false m e) :
    value x = m * 2 ^ e :=
  value_eq_signed h

end Magnitudes

/-! ## Rounding to four places -/

/-- Rounding is off by one half at most. -/
theorem abs_round_sub_le (f : Fraction) (hden : 0 < f.den) :
    |(f.round : ℚ) - f.num / f.den| ≤ 1 / 2 := by
  have hpos : (0 : ℚ) < f.den := Nat.cast_pos.mpr hden
  obtain ⟨hlow, hhigh⟩ := round_nearest f hden
  have hlow : (2 : ℚ) * f.num ≤ (2 * f.round + 1) * f.den := by exact_mod_cast hlow
  have hhigh : (2 : ℚ) * f.round * f.den ≤ 2 * f.num + f.den := by exact_mod_cast hhigh
  have hquotient : (f.num / f.den : ℚ) * f.den = f.num := div_mul_cancel₀ _ hpos.ne'
  rw [abs_le]
  constructor
  · nlinarith
  · nlinarith

theorem even_round_of_tie {f : Fraction} (hden : 0 < f.den)
    (h : |(f.round : ℚ) - f.num / f.den| = 1 / 2) : f.round % 2 = 0 := by
  have hpos : (0 : ℚ) < f.den := Nat.cast_pos.mpr hden
  have hquotient : (f.num / f.den : ℚ) * f.den = f.num := div_mul_cancel₀ _ hpos.ne'
  have htie : 2 * f.round * f.den = 2 * f.num + f.den ∨
      2 * f.round * f.den + f.den = 2 * f.num := by
    rcases (abs_eq (by norm_num)).mp h with heq | heq
    · have hscaled : (2 : ℚ) * f.round * f.den = 2 * f.num + f.den := by
        linear_combination (2 * (f.den : ℚ)) * heq + 2 * hquotient
      exact .inl (by exact_mod_cast hscaled)
    · have hscaled : (2 : ℚ) * f.round * f.den + f.den = 2 * f.num := by
        linear_combination (2 * (f.den : ℚ)) * heq + 2 * hquotient
      exact .inr (by exact_mod_cast hscaled)
  have hdiv : f.den * (f.num / f.den) + f.num % f.den = f.num := Nat.div_add_mod _ _
  have hmod : f.num % f.den < f.den := Nat.mod_lt _ hden
  rcases round_cases f with ⟨hround, heven, hle⟩ | ⟨hround, heven, hle⟩
  · refine heven ?_
    have hproduct : 2 * f.round * f.den = 2 * (f.den * (f.num / f.den)) := by
      rw [hround]
      ring
    omega
  · refine heven ?_
    have hproduct : 2 * f.round * f.den = 2 * (f.den * (f.num / f.den)) + 2 * f.den := by
      rw [hround]
      ring
    omega

theorem ofBinary_den_pos (m : ℕ) (e : ℤ) : 0 < (Fraction.ofBinary m e).den :=
  Nat.two_pow_pos _

theorem ofBinary_value (m : ℕ) (e : ℤ) :
    ((Fraction.ofBinary m e).num / (Fraction.ofBinary m e).den : ℚ) = m * 2 ^ e := by
  have hpower : (2 : ℚ) ^ e * 2 ^ (-e).toNat = 2 ^ e.toNat := by
    rw [← zpow_natCast, ← zpow_natCast, ← zpow_add₀ two_ne_zero]
    congr 1
    omega
  have hnum : (Fraction.ofBinary m e).num = m * 2 ^ e.toNat := rfl
  have hden : (Fraction.ofBinary m e).den = 2 ^ (-e).toNat := rfl
  rw [hnum, hden]
  push_cast
  rw [div_eq_iff (pow_pos two_pos _).ne', mul_assoc, hpower]

section Places

variable {x : Float} (hx : x.isFinite = true) {n : ℕ}
  (hn : unitsOfTen? (-4) x.abs = some (n : ℤ))

include hx hn

/-- The units that a magnitude is written with are at most one half away from it. -/
theorem abs_units_sub_le : |(n : ℚ) - value x.abs * 10 ^ 4| ≤ 1 / 2 := by
  obtain ⟨m, e, hparts⟩ := ofFloat_abs hx
  obtain ⟨f, hf⟩ : ∃ f, (Fraction.ofBinary m e).shift 4 = f := ⟨_, rfl⟩
  have hround : f.round = n := by
    have hunits : unitsOfTen? (-4) x.abs = some ((f.round : ℕ) : ℤ) := by
      rw [unitsOfTen?, magnitude?, hparts, isNegative, hparts, ← hf]
      rfl
    exact_mod_cast Option.some.inj (hunits.symm.trans hn)
  have hden : f.den = (Fraction.ofBinary m e).den := by
    rw [← hf]
    exact Nat.mul_one _
  have hnum : f.num = (Fraction.ofBinary m e).num * 10 ^ 4 := by
    rw [← hf]
    rfl
  have hvalue : value x.abs * 10 ^ 4 = f.num / f.den := by
    rw [value_of_parts hparts, ← ofBinary_value, hnum, hden]
    push_cast
    ring
  rw [hvalue, ← hround]
  exact abs_round_sub_le f (hden ▸ ofBinary_den_pos m e)

/-- Far fewer digits than a numeral may have. -/
theorem length_toDigits_le : (Nat.toDigits 10 n).length ≤ 404 := by
  have hunits := (abs_le.mp (abs_units_sub_le hx hn)).2
  have hlarge : value x.abs ≤ 10 ^ 384 := by
    calc value x.abs ≤ 2 ^ (1024 : ℤ) := (abs_lt.mp (abs_value_lt (isFinite_abs hx))).2.le
      _ = (2 ^ 8) ^ 128 := by
          rw [← pow_mul]
          exact zpow_natCast 2 1024
      _ ≤ (10 ^ 3) ^ 128 := pow_le_pow_left₀ (by norm_num) (by norm_num) 128
      _ = 10 ^ 384 := (pow_mul _ _ _).symm
  have hone : (1 : ℚ) ≤ 10 ^ 384 := one_le_pow₀ (by norm_num)
  have hlimit : (n : ℚ) < 10 ^ 384 * 10 ^ 20 := by
    generalize (10 : ℚ) ^ 384 = b at hlarge hone ⊢
    linarith
  rw [← pow_add] at hlimit
  exact length_toDigits_le_of_lt (by decide) hlimit

theorem abs_written_sub_le : |(n : ℚ) / 10 ^ 4 - value x.abs| ≤ 1 / 2 / 10 ^ 4 := by
  have hscale : (n : ℚ) / 10 ^ 4 - value x.abs = (n - value x.abs * 10 ^ 4) / 10 ^ 4 := by
    rw [sub_div, mul_div_cancel_right₀ _ (by norm_num)]
  rw [hscale, abs_div, abs_of_pos (by norm_num : (0 : ℚ) < 10 ^ 4)]
  exact div_le_div_of_nonneg_right (abs_units_sub_le hx hn) (by norm_num)

/-- What is written for the greatest double is read as a double too. -/
theorem isFinite_nearest : (nearest n (-4)).isFinite = true := by
  have hzero : Float.isFinite 0 = true ∧ value 0 = 0 := ⟨rfl, rfl⟩
  have habs := isFinite_abs hx
  have hgreatest : value x.abs ≤ greatest :=
    (isBinary_value habs).le_greatest (abs_lt.mp (abs_value_lt habs)).2
  have hwritten := (abs_le.mp (abs_written_sub_le hx hn)).2
  have hlastBit : 1 ≤ lastBit := one_le_zpow₀ one_le_two (by norm_num)
  refine (rounds_nearest (length_toDigits_le hx hn)).isFinite_of_lt hzero.1 ?_ ?_
  · rw [hzero.2]
    exact div_nonneg (Nat.cast_nonneg n) (by norm_num)
  · linarith

/-- What is read for a magnitude is at most one unit of the last of four places away from it. -/
theorem abs_read_sub_le : |value (nearest n (-4)) - value x.abs| ≤ 1 / 10 ^ 4 := by
  have hwritten := abs_written_sub_le hx hn
  -- the magnitude itself is no nearer to what is written
  have hread := ((rounds_nearest (length_toDigits_le hx hn)).isNearest
    (isFinite_nearest hx hn)).le _ (isBinary_value (isFinite_abs hx))
  rw [abs_sub_comm (value x.abs)] at hread
  calc |value (nearest n (-4)) - value x.abs|
      ≤ |value (nearest n (-4)) - n / 10 ^ 4| + |(n : ℚ) / 10 ^ 4 - value x.abs| :=
        abs_sub_le _ _ _
    _ ≤ 1 / 2 / 10 ^ 4 + 1 / 2 / 10 ^ 4 := add_le_add (hread.trans hwritten) hwritten
    _ = 1 / 10 ^ 4 := by norm_num

end Places

/-! ## The threshold -/

theorem value_epsilon : Settings.coefficientEpsilon.isFinite = true ∧
    value Settings.coefficientEpsilon = 7378697629483821 * 2 ^ (-66 : ℤ) := by
  refine ⟨rfl, ?_⟩
  rw [value, unpacked_epsilon, valueOf_positive]
  norm_num

/-- The threshold is a little above a unit of the last of four places, and the next double below it
is a little below. -/
theorem value_lt_of_not_epsilon_le {x : Float} (hx : x.isFinite = true)
    (h : ¬ Settings.coefficientEpsilon ≤ x.abs) : value x.abs < 1 / 10 ^ 4 := by
  have habs := isFinite_abs hx
  obtain ⟨hfinite, hepsilon⟩ := value_epsilon
  have hlt : value x.abs < 7378697629483821 * 2 ^ (-66 : ℤ) := by
    rw [← hepsilon]
    exact not_le.mp fun hle => h ((le_iff_value hfinite habs).mpr hle)
  rcases lt_or_ge (value x.abs) (2 ^ (-66 + 52 : ℤ)) with hsmall | hlarge
  · exact hsmall.trans (by norm_num)
  · -- a multiple of the last bit of the threshold
    obtain ⟨j, hj⟩ := (isBinary_value habs).exists_eq_mul (t := -66)
      (.inr (hlarge.trans (le_abs_self _)))
    have hpos : (0 : ℚ) < 2 ^ (-66 : ℤ) := zpow_pos two_pos _
    rw [hj] at hlt ⊢
    have hmantissa : j ≤ 7378697629483820 :=
      Int.lt_add_one_iff.mp (by exact_mod_cast lt_of_mul_lt_mul_right hlt hpos.le)
    have hmantissa : (j : ℚ) ≤ 7378697629483820 := by exact_mod_cast hmantissa
    calc (j : ℚ) * 2 ^ (-66 : ℤ) ≤ 7378697629483820 * 2 ^ (-66 : ℤ) :=
          mul_le_mul_of_nonneg_right hmantissa hpos.le
      _ < 1 / 10 ^ 4 := by norm_num

/-! ## Doubles that are no numbers -/

/-- The words for magnitudes that are no numbers. -/
def specialWords : List String := ["nan", "inf"]

theorem fixed_mem_specialWords (places : ℕ) {x : Float} (hx : x.isFinite = false) :
    fixed places x.abs ∈ specialWords := by
  have hx : (unpacked x).isFinite = false := hx
  simp only [fixed, magnitude?, specialText, ofFloat_eq, unpacked_abs]
  cases hu : unpacked x with
  | notANumber => exact List.mem_cons_self
  | infinity s => exact List.mem_cons_of_mem _ List.mem_cons_self
  | zero s =>
    rw [hu] at hx
    cases hx
  | finite s m e h =>
    rw [hu] at hx
    cases hx

/-- What is no number does not count as small. -/
theorem not_lt_epsilon_of_special {x : Float} (hx : x.isFinite = false) :
    ¬ x.abs < Settings.coefficientEpsilon := by
  have hx : (unpacked x).isFinite = false := hx
  rw [lt_iff, unpacked_abs, unpacked_epsilon]
  generalize unpacked x = u at hx ⊢
  cases u with
  | notANumber => exact nofun
  | infinity s => exact nofun
  | zero s => cases hx
  | finite s m e h => cases hx

end SurfaceStudio.Decimal
