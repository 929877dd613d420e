import SurfaceStudio.Proofs.Decimal.Division
import SurfaceStudio.Proofs.Decimal.Nearest
/-!
# Unpacked forms in exact numbers

A sum, a difference, a product or a quotient of unpacked forms is a binary number nearest to the
exact result: `IsRounding r u`. All four go through one rounding, which cuts a mantissa to 53 bits
and keeps two bits of what is cut off; `Cuts` is what those bits mean.
-/

namespace SurfaceStudio.Decimal

open Float.Model Float.Model.UnpackedFloat

/-! ## Rounding a mantissa -/

/-- The two bits behind a mantissa stand for a fraction: whether it reaches one half, and whether
there is more than that bit. -/
structure Cuts (em : ExtendedMantissa) (f : ℚ) : Prop where
  nonneg : 0 ≤ f
  lt_one : f < 1
  roundBit : em.roundBit = true ↔ 1 / 2 ≤ f
  stickyBit : em.stickyBit = true ↔ f ≠ 0 ∧ f ≠ 1 / 2

/-- What an accuracy says about a fraction. -/
def Tells : Accuracy → ℚ → Prop
  | .exact, f => f = 0
  | .inexact .lt, f => 0 < f ∧ f < 1 / 2
  | .inexact .eq, f => f = 1 / 2
  | .inexact .gt, f => 1 / 2 < f ∧ f < 1

theorem cuts_ofMantissaAndAccuracy (m : ℕ) {a : Accuracy} {f : ℚ} (h : Tells a f) :
    Cuts (.ofMantissaAndAccuracy m a) f := by
  rcases a with _ | (_ | _ | _)
  · obtain rfl : f = 0 := h
    exact ⟨by norm_num, by norm_num, by simp [ExtendedMantissa.ofMantissaAndAccuracy],
      by simp [ExtendedMantissa.ofMantissaAndAccuracy]⟩
  · obtain ⟨hlow, hhigh⟩ : 0 < f ∧ f < 1 / 2 := h
    refine ⟨hlow.le, by linarith, ⟨nofun, fun hf => ?_⟩,
      ⟨fun _ => ⟨hlow.ne', hhigh.ne⟩, fun _ => rfl⟩⟩
    linarith
  · obtain rfl : f = 1 / 2 := h
    exact ⟨by norm_num, by norm_num, ⟨fun _ => le_rfl, fun _ => rfl⟩,
      ⟨nofun, fun hf => absurd rfl hf.2⟩⟩
  · obtain ⟨hlow, hhigh⟩ : 1 / 2 < f ∧ f < 1 := h
    exact ⟨by linarith, hhigh, ⟨fun _ => hlow.le, fun _ => rfl⟩,
      ⟨fun _ => ⟨by linarith, hlow.ne'⟩, fun _ => rfl⟩⟩

namespace Cuts

variable {em : ExtendedMantissa} {f : ℚ}

/-- Shifting by one bit halves a mantissa together with its fraction. -/
theorem shiftRightOne (h : Cuts em f) :
    Cuts em.shiftRightOne (((em.mantissa % 2 : ℕ) + f) / 2) := by
  have hbit : ((em.mantissa % 2 : ℕ) : ℚ) = 0 ∧ em.shiftRightOne.roundBit = false ∨
      ((em.mantissa % 2 : ℕ) : ℚ) = 1 ∧ em.shiftRightOne.roundBit = true := by
    rcases Nat.mod_two_eq_zero_or_one em.mantissa with hm | hm
    · exact .inl ⟨by rw [hm]; rfl, by simp [ExtendedMantissa.shiftRightOne, hm]⟩
    · exact .inr ⟨by rw [hm]; rfl, by simp [ExtendedMantissa.shiftRightOne, hm]⟩
  -- both bits together are lost in the sticky one
  have hsticky : em.shiftRightOne.stickyBit = true ↔ f ≠ 0 := by
    have hor : em.shiftRightOne.stickyBit = (em.roundBit || em.stickyBit) := rfl
    rw [hor, Bool.or_eq_true, h.roundBit, h.stickyBit]
    constructor
    · rintro (hf | hf)
      · linarith
      · exact hf.1
    · intro hf
      by_cases hhalf : f = 1 / 2
      · exact .inl hhalf.ge
      · exact .inr ⟨hf, hhalf⟩
  have hnonneg := h.nonneg
  have hlt := h.lt_one
  rcases hbit with ⟨hb, hround⟩ | ⟨hb, hround⟩ <;> rw [hb]
  · refine ⟨by linarith, by linarith, ?_, ?_⟩
    · rw [hround]
      exact ⟨nofun, fun hf => by linarith⟩
    · rw [hsticky]
      exact ⟨fun hf => ⟨fun hz => hf (by linarith), fun hz => by linarith⟩,
        fun hf hz => hf.1 (by rw [hz]; norm_num)⟩
  · refine ⟨by linarith, by linarith, ?_, ?_⟩
    · rw [hround]
      exact ⟨fun _ => by linarith, fun _ => rfl⟩
    · rw [hsticky]
      exact ⟨fun hf => ⟨fun hz => by linarith, fun hz => hf (by linarith)⟩,
        fun hf hz => hf.2 (by rw [hz]; norm_num)⟩

theorem shiftRight (h : Cuts em f) (n : ℕ) :
    ∃ f', Cuts (em >>> n) f' ∧ ((em >>> n).mantissa + f' : ℚ) = (em.mantissa + f) / 2 ^ n := by
  induction n with
  | zero => exact ⟨f, h, by rw [pow_zero, div_one]; rfl⟩
  | succ n ih =>
    obtain ⟨f', hf', hvalue⟩ := ih
    refine ⟨_, hf'.shiftRightOne, ?_⟩
    have hdiv : ((em >>> n).mantissa : ℚ) =
        2 * ((em >>> n).mantissa / 2 : ℕ) + ((em >>> n).mantissa % 2 : ℕ) := by
      exact_mod_cast (Nat.div_add_mod _ 2).symm
    show (((em >>> n).mantissa / 2 : ℕ) + (((em >>> n).mantissa % 2 : ℕ) + f') / 2 : ℚ) = _
    rw [pow_succ, ← div_div, ← hvalue, hdiv]
    ring

/-- A mantissa goes up only if the fraction reaches one half, and stays only if it does not pass
it. -/
theorem roundedMantissa_cases (h : Cuts em f) :
    em.roundedMantissa = em.mantissa ∧ f ≤ 1 / 2 ∨
      em.roundedMantissa = em.mantissa + 1 ∧ 1 / 2 ≤ f := by
  obtain ⟨m, round, sticky⟩ := em
  have hround : round = true ↔ 1 / 2 ≤ f := h.roundBit
  cases round with
  | false =>
    have hlow : f ≤ 1 / 2 := le_of_not_ge fun hf => absurd (hround.mpr hf) (by decide)
    cases sticky <;> exact .inl ⟨rfl, hlow⟩
  | true =>
    have hhigh : 1 / 2 ≤ f := hround.mp rfl
    cases sticky with
    | true => exact .inr ⟨rfl, hhigh⟩
    | false =>
      -- a tie goes to the even neighbour
      have hsticky : false = true ↔ f ≠ 0 ∧ f ≠ 1 / 2 := h.stickyBit
      have htie : f = 1 / 2 := by
        by_contra hf
        exact absurd (hsticky.mpr ⟨by linarith, hf⟩) (by decide)
      have hrounded : ExtendedMantissa.roundedMantissa ⟨m, true, false⟩ = m + m % 2 := rfl
      rw [hrounded]
      rcases Nat.mod_two_eq_zero_or_one m with hm | hm
      · exact .inl ⟨by rw [hm]; rfl, htie.le⟩
      · exact .inr ⟨by rw [hm], htie.ge⟩

/-- A mantissa is rounded to a nearest whole number. -/
theorem abs_roundedMantissa_sub_le (h : Cuts em f) :
    |(em.roundedMantissa : ℚ) - (em.mantissa + f)| ≤ 1 / 2 := by
  have hnonneg := h.nonneg
  have hlt := h.lt_one
  rw [abs_le]
  rcases h.roundedMantissa_cases with ⟨hr, hf⟩ | ⟨hr, hf⟩ <;> rw [hr]
  · constructor <;> linarith
  · push_cast
    constructor <;> linarith

end Cuts

/-- What is cut from a mantissa with a fraction behind it is rounded to a nearest whole number. -/
theorem abs_cut_sub_le {m : ℕ} {e : ℤ} {a : Accuracy} {f : ℚ} (h : Tells a f) :
    |((cut m e a).roundedMantissa : ℚ) - (m + f) / 2 ^ (targetOf m e - e).toNat| ≤ 1 / 2 := by
  obtain ⟨f', hf', hvalue⟩ := (cuts_ofMantissaAndAccuracy m h).shiftRight (targetOf m e - e).toNat
  rw [mantissa_ofMantissaAndAccuracy] at hvalue
  rw [← hvalue]
  exact hf'.abs_roundedMantissa_sub_le

/-! ## Rounding an exact number -/

/-- The exact value of an unpacked form; zero for one that is not finite. -/
def valueOf : UnpackedFloat → ℚ
  | .finite s m e _ => s.apply m * 2 ^ e
  | _ => 0

/-- A form that fits but for an exponent that may be too large. -/
inductive Canonical : UnpackedFloat → Prop where
  | zero (s : Sign) : Canonical (.zero s)
  | finite (s : Sign) (m : ℕ) (e : ℤ) (h : 0 < m) : m < 2 ^ 53 → -1074 ≤ e →
      (2 ^ 52 ≤ m ∨ e = -1074) → Canonical (.finite s m e h)

/-- A sign as a factor. -/
def factor (s : Sign) : ℤ := s.apply 1

theorem apply_eq (s : Sign) (n : ℤ) : s.apply n = factor s * n := by
  cases s <;> simp [factor, Sign.apply]

theorem abs_factor (s : Sign) : |(factor s : ℚ)| = 1 := by
  cases s <;> simp [factor, Sign.apply]

section Rounding

variable (s : Sign) {m : ℕ} {e : ℤ} {a : Accuracy} {f : ℚ}

theorem valueOf_round (he : e ≤ targetOf m e) :
    valueOf (roundWithAccuracy .binary64 s m e a) =
      (factor s * (cut m e a).roundedMantissa : ℤ) * 2 ^ targetOf m e := by
  have hle := roundedMantissa_cut_le m e a
  rw [round_eq s m e a he]
  generalize (cut m e a).roundedMantissa = r at hle ⊢
  split
  · next hzero => simp [valueOf, hzero]
  · split
    · rw [valueOf, apply_eq]
    · -- the halved mantissa stands one bit higher
      obtain rfl : r = 2 ^ 53 := by omega
      rw [valueOf, apply_eq, zpow_add_one₀ two_ne_zero]
      push_cast
      ring

theorem canonical_round (he : e ≤ targetOf m e) :
    Canonical (roundWithAccuracy .binary64 s m e a) := by
  have hle := roundedMantissa_cut_le m e a
  have hlow := (roundedMantissa_bounds (cut m e a)).1
  rw [mantissa_cut] at hlow
  have htarget : -1074 ≤ targetOf m e := by rw [targetOf]; omega
  rw [round_eq s m e a he]
  generalize (cut m e a).roundedMantissa = r at hle hlow ⊢
  split
  · exact .zero s
  · split
    · next hlt =>
      refine .finite s r _ _ hlt htarget ?_
      by_cases hleast : targetOf m e = -1074
      · exact .inr hleast
      · exact .inl ((le_cut he hleast).trans hlow)
    · exact .finite s _ _ _ (by decide) (by omega) (.inl (by decide))

/-- Rounding an exact number gives a nearest one. -/
theorem isNearest_round (hf : Tells a f) (he : e ≤ targetOf m e) :
    IsNearest (factor s * ((m + f) * 2 ^ e)) (valueOf (roundWithAccuracy .binary64 s m e a)) := by
  have hle := roundedMantissa_cut_le m e a
  have hhalf := abs_cut_sub_le (m := m) (e := e) hf
  have hnonneg : 0 ≤ f := (cuts_ofMantissaAndAccuracy m hf).nonneg
  have hlow : -1074 ≤ targetOf m e := by rw [targetOf]; omega
  have hmagnitude : |(factor s * ((m + f) * 2 ^ e) : ℚ)| = (m + f) * 2 ^ e := by
    rw [abs_mul, abs_factor, one_mul, abs_of_nonneg]
    positivity
  have hshift : (2 : ℚ) ^ targetOf m e = 2 ^ e * 2 ^ (targetOf m e - e).toNat := by
    rw [← zpow_natCast, ← zpow_add₀ two_ne_zero]
    congr 1
    omega
  rw [valueOf_round s he]
  refine isNearest_of_half ?_ hlow ?_ ?_
  · rw [abs_mul, Nat.abs_cast]
    have hone : |factor s| = 1 := by exact_mod_cast abs_factor s
    rw [hone, one_mul]
    exact_mod_cast hle
  · have hdiv : (factor s * ((m + f) * 2 ^ e) / 2 ^ targetOf m e : ℚ) =
        factor s * ((m + f) / 2 ^ (targetOf m e - e).toNat) := by
      rw [hshift]
      field_simp
    rw [hdiv, Int.cast_mul, Int.cast_natCast, ← mul_sub, abs_mul, abs_factor, one_mul]
    exact hhalf
  · rw [hmagnitude]
    by_cases hleast : targetOf m e = -1074
    · exact .inl hleast
    · refine .inr ?_
      have hm : (2 : ℚ) ^ (52 + (targetOf m e - e).toNat) ≤ m := by
        have hfull := le_cut he hleast
        rw [Nat.le_div_iff_mul_le (Nat.two_pow_pos _), ← pow_add] at hfull
        exact_mod_cast hfull
      have hexponent : (2 : ℚ) ^ (targetOf m e + 52) =
          2 ^ (52 + (targetOf m e - e).toNat) * 2 ^ e := by
        rw [← zpow_natCast, ← zpow_add₀ two_ne_zero]
        congr 1
        push_cast
        omega
      rw [hexponent]
      exact mul_le_mul_of_nonneg_right (by linarith) (zpow_pos two_pos e).le

end Rounding

/-! ## Unpacked forms -/

theorem isBinary_valueOf {u : UnpackedFloat} (h : Canonical u) : IsBinary (valueOf u) := by
  cases h with
  | zero s => exact isBinary_zero
  | finite s m e h hm he hor =>
    refine ⟨s.apply m, e, ?_, he, rfl⟩
    have hone : |factor s| = 1 := by exact_mod_cast abs_factor s
    rw [apply_eq, abs_mul, hone, one_mul, Nat.abs_cast]
    exact_mod_cast hm

/-- A form is the nearest one to an exact number. -/
structure IsRounding (r : ℚ) (u : UnpackedFloat) : Prop where
  canonical : Canonical u
  isNearest : IsNearest r (valueOf u)

theorem IsRounding.refl {u : UnpackedFloat} (h : Canonical u) : IsRounding (valueOf u) u :=
  ⟨h, .refl (isBinary_valueOf h)⟩

/-- Moving bits between mantissa and exponent does not change a number. -/
theorem decreaseExponent_value (m : ℕ) (e t : ℤ) :
    ((decreaseExponent m e t).1 * 2 ^ (decreaseExponent m e t).2 : ℚ) = m * 2 ^ e := by
  have hexponent : (2 : ℚ) ^ e = 2 ^ (e - t).toNat * 2 ^ (e - ((e - t).toNat : ℕ) : ℤ) := by
    rw [← zpow_natCast, ← zpow_add₀ two_ne_zero]
    congr 1
    omega
  rw [decreaseExponent, hexponent, Nat.shiftLeft_eq]
  push_cast
  ring

theorem isRounding_round (s : Sign) {m : ℕ} (hm : m ≠ 0) (e : ℤ) :
    IsRounding (factor s * (m * 2 ^ e)) (UnpackedFloat.round .binary64 s m e) := by
  have hvalue := decreaseExponent_value m e (targetOf m e)
  have htarget : (decreaseExponent m e (targetOf m e)).2 ≤
      targetOf (decreaseExponent m e (targetOf m e)).1 (decreaseExponent m e (targetOf m e)).2 := by
    show e - ((e - targetOf m e).toNat : ℕ) ≤
      targetOf (m <<< (e - targetOf m e).toNat) (e - ((e - targetOf m e).toNat : ℕ))
    rw [targetOf, targetOf, log2_shiftLeft hm]
    omega
  have hround : UnpackedFloat.round .binary64 s m e =
      roundWithAccuracy .binary64 s (decreaseExponent m e (targetOf m e)).1
        (decreaseExponent m e (targetOf m e)).2 .exact := by
    rw [UnpackedFloat.round]
    simp only [targetExponent_eq]
  rw [hround]
  refine ⟨canonical_round s htarget, ?_⟩
  have hnearest := isNearest_round s (a := .exact) (f := 0) rfl htarget
  rwa [add_zero, hvalue] at hnearest

theorem isRounding_normalize (k e : ℤ) :
    IsRounding (k * 2 ^ e) (UnpackedFloat.normalize .binary64 k e .positive) := by
  rw [UnpackedFloat.normalize]
  rcases lt_trichotomy k 0 with hk | rfl | hk
  · rw [Int.compare_eq_lt.mpr hk]
    have hround := isRounding_round .negative (m := (-k).toNat) (by omega) e
    have hcast : (((-k).toNat : ℕ) : ℚ) = -k := by
      exact_mod_cast Int.toNat_of_nonneg (show 0 ≤ -k by omega)
    rw [hcast] at hround
    simpa [factor, Sign.apply] using hround
  · have hzero : IsRounding (valueOf (.zero .positive)) (.zero .positive) := .refl (.zero _)
    simpa [valueOf] using hzero
  · rw [Int.compare_eq_gt.mpr hk]
    have hround := isRounding_round .positive (m := k.toNat) (by omega) e
    have hcast : ((k.toNat : ℕ) : ℚ) = k := by
      exact_mod_cast Int.toNat_of_nonneg (show 0 ≤ k by omega)
    rw [hcast] at hround
    simpa [factor, Sign.apply] using hround

/-! ## The operations -/

section Operations

variable {u v : UnpackedFloat}

/-- A mantissa at a smaller exponent. -/
theorem lowered_value (s : Sign) (m : ℕ) {e t : ℤ} (ht : t ≤ e) :
    (s.apply (decreaseExponent m e t).1 * 2 ^ t : ℚ) = s.apply m * 2 ^ e := by
  have hvalue := decreaseExponent_value m e t
  have hexponent : (decreaseExponent m e t).2 = t := by
    show e - ((e - t).toNat : ℕ) = t
    omega
  rw [hexponent] at hvalue
  rw [apply_eq, apply_eq]
  push_cast
  rw [mul_assoc, hvalue, mul_assoc]

theorem isRounding_add (hu : Canonical u) (hv : Canonical v) :
    IsRounding (valueOf u + valueOf v) (UnpackedFloat.add .binary64 u v) := by
  cases hu with
  | zero s =>
    have hzero : valueOf (.zero s) = 0 := rfl
    rw [hzero, zero_add]
    cases hv with
    | zero s' =>
      rw [UnpackedFloat.add]
      split
      · exact .refl (.zero s)
      · exact .refl (.zero .positive)
    | finite s' m' e' h' hm' he' hor' => exact .refl (.finite s' m' e' h' hm' he' hor')
  | finite s m e h hm he hor =>
    cases hv with
    | zero s' =>
      have hzero : valueOf (.zero s') = 0 := rfl
      rw [hzero, add_zero]
      exact .refl (.finite s m e h hm he hor)
    | finite s' m' e' h' hm' he' hor' =>
      -- both mantissas are brought to the smaller exponent and added
      have hleft := lowered_value s m (min_le_left e e')
      have hright := lowered_value s' m' (min_le_right e e')
      have hsum : valueOf (.finite s m e h) + valueOf (.finite s' m' e' h') =
          (s.apply (decreaseExponent m e (min e e')).1 +
            s'.apply (decreaseExponent m' e' (min e e')).1 : ℤ) * 2 ^ min e e' := by
        rw [Int.cast_add, add_mul, hleft, hright]
        rfl
      rw [hsum]
      exact isRounding_normalize _ _

theorem canonical_neg (hu : Canonical u) : Canonical u.neg := by
  cases hu with
  | zero s => exact .zero _
  | finite s m e h hm he hor => exact .finite _ m e h hm he hor

theorem factor_neg (s : Sign) : factor (-s) = -factor s := by
  cases s <;> rfl

theorem valueOf_neg (u : UnpackedFloat) : valueOf u.neg = -valueOf u := by
  cases u with
  | finite s m e h =>
    rw [UnpackedFloat.neg, valueOf, valueOf, apply_eq, apply_eq, factor_neg]
    push_cast
    ring
  | _ => simp [UnpackedFloat.neg, valueOf]

/-- A difference is a sum with the sign changed. -/
theorem sub_eq_add (hu : Canonical u) (hv : Canonical v) :
    UnpackedFloat.sub .binary64 u v = UnpackedFloat.add .binary64 u v.neg := by
  cases hu with
  | zero s => cases hv <;> rfl
  | finite s m e h hm he hor =>
    cases hv with
    | zero s' => rfl
    | finite s' m' e' h' hm' he' hor' =>
      rw [UnpackedFloat.neg, UnpackedFloat.sub, UnpackedFloat.add]
      simp only [apply_eq, factor_neg, neg_mul, ← sub_eq_add_neg]

theorem isRounding_sub (hu : Canonical u) (hv : Canonical v) :
    IsRounding (valueOf u - valueOf v) (UnpackedFloat.sub .binary64 u v) := by
  have hadd := isRounding_add hu (canonical_neg hv)
  rwa [valueOf_neg, ← sub_eq_add hu hv, ← sub_eq_add_neg] at hadd

theorem factor_mul (s s' : Sign) : factor (s * s') = factor s * factor s' := by
  cases s <;> cases s' <;> rfl

/-- A product of mantissas is rounded once, if it has enough bits. -/
theorem isRounding_mul_finite (s s' : Sign) {m m' : ℕ} {e e' : ℤ} (h : 0 < m) (h' : 0 < m')
    (hbits : 52 ≤ (m * m').log2 ∨ e + e' ≤ -1074) :
    IsRounding (valueOf (.finite s m e h) * valueOf (.finite s' m' e' h'))
      (UnpackedFloat.mul .binary64 (.finite s m e h) (.finite s' m' e' h')) := by
  have htarget := le_targetOf hbits
  have hproduct : valueOf (.finite s m e h) * valueOf (.finite s' m' e' h') =
      factor (s * s') * (((m * m' : ℕ) + 0) * 2 ^ (e + e')) := by
    rw [valueOf, valueOf, apply_eq, apply_eq, factor_mul, zpow_add₀ two_ne_zero]
    push_cast
    ring
  rw [hproduct]
  exact ⟨canonical_round _ htarget, isNearest_round _ rfl htarget⟩

theorem isRounding_mul (hu : Canonical u) (hv : Canonical v) :
    IsRounding (valueOf u * valueOf v) (UnpackedFloat.mul .binary64 u v) := by
  cases hu with
  | zero s =>
    have hzero : valueOf (.zero s) = 0 := rfl
    rw [hzero, zero_mul]
    cases hv <;> exact .refl (.zero _)
  | finite s m e h hm he hor =>
    cases hv with
    | zero s' =>
      have hzero : valueOf (.zero s') = 0 := rfl
      rw [hzero, mul_zero]
      exact .refl (.zero _)
    | finite s' m' e' h' hm' he' hor' =>
      refine isRounding_mul_finite s s' h h' ?_
      have hne : m * m' ≠ 0 := Nat.mul_ne_zero h.ne' h'.ne'
      rcases hor with hfull | rfl
      · exact .inl ((Nat.le_log2 hne).mpr (hfull.trans (Nat.le_mul_of_pos_right m h')))
      · rcases hor' with hfull' | rfl
        · exact .inl ((Nat.le_log2 hne).mpr (hfull'.trans (Nat.le_mul_of_pos_left m' h)))
        · exact .inr (by norm_num)

theorem factor_div (s s' : Sign) : factor (s / s') = factor s * factor s' := by
  cases s <;> cases s' <;> rfl

/-- What is said about the remainder of a division tells its fraction. -/
theorem tells_accuracyOfFraction {r d : ℕ} (h : r < d) :
    Tells (accuracyOfFraction r d) (r / d : ℚ) := by
  have hd : (0 : ℚ) < d := by exact_mod_cast (Nat.zero_le r).trans_lt h
  rw [accuracyOfFraction]
  split
  · next hr =>
    rw [hr]
    simp [Tells]
  · next hr =>
    have hpos : (0 : ℚ) < r / d := div_pos (by exact_mod_cast Nat.pos_of_ne_zero hr) hd
    rcases lt_trichotomy (2 * r) d with hlt | heq | hgt
    · rw [Nat.compare_eq_lt.mpr hlt]
      have hlt : (2 * r : ℚ) < d := by exact_mod_cast hlt
      exact ⟨hpos, by rw [div_lt_iff₀ hd]; linarith⟩
    · rw [Nat.compare_eq_eq.mpr heq]
      have heq : (2 * r : ℚ) = d := by exact_mod_cast heq
      exact (div_eq_iff hd.ne').mpr (by linarith)
    · rw [Nat.compare_eq_gt.mpr hgt]
      have hgt : (d : ℚ) < 2 * r := by exact_mod_cast hgt
      have hone : (r : ℚ) < d := by exact_mod_cast h
      exact ⟨by rw [lt_div_iff₀ hd]; linarith, by rwa [div_lt_one hd]⟩

/-- A division shifts the dividend, and cuts the exponent down by as much. -/
theorem divCore_eq (m : ℕ) (e : ℤ) (m' : ℕ) (e' : ℤ) :
    ∃ k : ℕ, divCore .binary64 m e m' e' =
      ((m <<< k) / m', e - e' - k, accuracyOfFraction ((m <<< k) % m') m') := by
  refine ⟨_, Prod.ext rfl (Prod.ext ?_ rfl)⟩
  rw [divCore]
  dsimp only
  omega

/-- A quotient of mantissas is rounded once, whatever their bits. -/
theorem isRounding_div_finite (s s' : Sign) {m m' : ℕ} (e e' : ℤ) (h : 0 < m) (h' : 0 < m') :
    IsRounding (valueOf (.finite s m e h) / valueOf (.finite s' m' e' h'))
      (UnpackedFloat.div .binary64 (.finite s m e h) (.finite s' m' e' h')) := by
  obtain ⟨q, t, a, hcore, hbits, -⟩ := divCore_spec e e' h.ne' h'.ne'
  have htarget := le_targetOf hbits
  obtain ⟨k, hk⟩ := divCore_eq m e m' e'
  rw [hk, Prod.mk.injEq, Prod.mk.injEq] at hcore
  obtain ⟨rfl, rfl, rfl⟩ := hcore
  have hquotient : valueOf (.finite s m e h) / valueOf (.finite s' m' e' h') =
      factor (s / s') * ((((m <<< k) / m' : ℕ) + ((m <<< k) % m' : ℕ) / m') *
        2 ^ (e - e' - k)) := by
    have hm' : (m' : ℚ) ≠ 0 := by exact_mod_cast h'.ne'
    have hself : (factor s' : ℚ) * factor s' = 1 := by
      cases s' <;> norm_num [factor, Sign.apply]
    have hdividend : (((m <<< k) / m' : ℕ) + ((m <<< k) % m' : ℕ) / m' : ℚ) =
        m * 2 ^ k / m' := by
      have hsplit : (m * 2 ^ k : ℚ) = m' * ((m <<< k) / m' : ℕ) + ((m <<< k) % m' : ℕ) := by
        rw [Nat.shiftLeft_eq]
        exact_mod_cast (Nat.div_add_mod (m * 2 ^ k) m').symm
      rw [hsplit]
      field_simp
    have hsign : (factor s' : ℚ) ≠ 0 := left_ne_zero_of_mul_eq_one hself
    rw [hdividend, valueOf, valueOf, apply_eq, apply_eq, factor_div,
      zpow_sub₀ two_ne_zero, zpow_sub₀ two_ne_zero, zpow_natCast]
    push_cast
    field_simp
    linear_combination (-factor s : ℚ) * hself
  rw [hquotient, UnpackedFloat.div, hk]
  exact ⟨canonical_round _ htarget,
    isNearest_round _ (tells_accuracyOfFraction (Nat.mod_lt _ h')) htarget⟩

theorem isRounding_div (hu : Canonical u) (hv : Canonical v) (hne : valueOf v ≠ 0) :
    IsRounding (valueOf u / valueOf v) (UnpackedFloat.div .binary64 u v) := by
  cases hv with
  | zero s' => exact absurd rfl hne
  | finite s' m' e' h' hm' he' hor' =>
    cases hu with
    | zero s =>
      have hzero : valueOf (.zero s) = 0 := rfl
      rw [hzero, zero_div]
      exact .refl (.zero _)
    | finite s m e h hm he hor => exact isRounding_div_finite s s' e e' h h'

end Operations

theorem abs_valueOf (s : Sign) (m : ℕ) (e : ℤ) (h : 0 < m) :
    |valueOf (.finite s m e h)| = m * 2 ^ e := by
  rw [valueOf, apply_eq, Int.cast_mul, Int.cast_natCast, mul_assoc, abs_mul, abs_factor, one_mul,
    abs_of_nonneg]
  positivity

end SurfaceStudio.Decimal
