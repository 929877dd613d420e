import SurfaceStudio.Proofs.Decimal.Arithmetic
/-!
# Whole numbers as nearest doubles

A whole number is read as a double nearest to it. Those from half of the last bit behind the
greatest double on have no double: `ofInteger?_eq_none_iff`.
-/

namespace SurfaceStudio.Decimal

open Float.Model Float.Model.UnpackedFloat

theorem Rounds.refl {x : Float} (hx : x.isFinite = true) : Rounds (value x) x :=
  ⟨value x, .refl (isBinary_value hx), .finite hx rfl⟩

/-! ## Whole numbers -/

theorem valueOf_positive (m : ℕ) (e : ℤ) (h : 0 < m) :
    valueOf (.finite .positive m e h) = m * 2 ^ e := by
  simp [valueOf, Sign.apply]

/-- A whole number of more than 53 bits is read through a product by one. -/
theorem ofNat_slow {n : ℕ} (h : ¬ n < 2 ^ 53) :
    ∃ hpos : 0 < n <<< 53, Float.ofNat n = .ofModel (.pack (UnpackedFloat.mul .binary64
      (.finite .positive (n <<< 53) (-53) hpos) (.finite .positive (10 ^ 0) 0 (by decide)))) := by
  have hsmall : ¬ (0 : ℤ) < -((2 ^ 11 : ℤ) + n.log2) := by omega
  have hne : n ≠ 0 := by omega
  refine ⟨by rw [Nat.shiftLeft_eq]; positivity, ?_⟩
  show Float.ofScientific n false 0 = _
  rw [Float.ofScientific, dif_neg fun hfast => h hfast.1]
  show Float.ofModel (.pack (UnpackedFloat.ofScientific .binary64 n 0)) = _
  rw [UnpackedFloat.ofScientific, dif_neg hne, if_neg (by decide), if_neg hsmall,
    if_pos (by decide)]
  rfl

/-- A whole number is read as a double nearest to it. -/
theorem rounds_ofNat (n : ℕ) : Rounds n (Float.ofNat n) := by
  by_cases hfast : n < 2 ^ 53
  · obtain ⟨hfinite, hvalue⟩ := value_ofNat hfast
    rw [← hvalue]
    exact .refl hfinite
  · obtain ⟨hpos, hslow⟩ := ofNat_slow hfast
    have hbits : 52 ≤ (n <<< 53 * 10 ^ 0).log2 := by
      rw [Nat.pow_zero, Nat.mul_one, log2_shiftLeft (by omega)]
      omega
    have hone : 0 < 10 ^ 0 := by decide
    have hrounds : Rounds
        (valueOf (.finite .positive (n <<< 53) (-53) hpos) *
          valueOf (.finite .positive (10 ^ 0) 0 hone)) _ :=
      rounds_of_isRounding (isRounding_mul_finite .positive .positive hpos hone (.inl hbits))
    have hvalue : valueOf (.finite .positive (n <<< 53) (-53) hpos) *
        valueOf (.finite .positive (10 ^ 0) 0 (by decide)) = n := by
      have hshift : (2 : ℚ) ^ 53 * 2 ^ (-53 : ℤ) = 1 := by norm_num
      rw [valueOf_positive, valueOf_positive, Nat.shiftLeft_eq, Nat.cast_mul, Nat.cast_pow,
        Nat.cast_ofNat, mul_assoc (n : ℚ), hshift, pow_zero, Nat.cast_one, zpow_zero, mul_one,
        mul_one, mul_one]
    rwa [hvalue, ← hslow] at hrounds

/-! ## Negated doubles -/

theorem unpacked_neg (x : Float) : unpacked (-x) = (unpacked x).neg := by
  have hfits : Fits (unpacked x).neg := by
    have hfits := fits_unpacked x
    generalize unpacked x = u at hfits ⊢
    cases hfits with
    | notANumber => exact .notANumber
    | infinity s => exact .infinity _
    | zero s => exact .zero _
    | finite s m e h hm he he' hor => exact .finite _ m e h hm he he' hor
  exact unpack_pack hfits

theorem isFinite_neg (x : Float) : (-x).isFinite = x.isFinite := by
  show (unpacked (-x)).isFinite = (unpacked x).isFinite
  rw [unpacked_neg]
  cases unpacked x <;> rfl

/-! ## Integers without a double -/

/-- The whole number half of the last bit behind the greatest double. It and all greater ones are
rounded to an infinity. -/
def wholeLimit : ℕ := 2 ^ 1024 - 2 ^ 970

theorem wholeLimit_eq : (wholeLimit : ℚ) = greatest + lastBit / 2 := by
  have hle : (2 : ℕ) ^ 970 ≤ 2 ^ 1024 := by gcongr <;> norm_num
  have hend : greatest + lastBit = 2 ^ 1024 := by
    rw [greatest_add_lastBit]
    exact zpow_natCast 2 1024
  have hhalf : lastBit / 2 = 2 ^ 970 := by
    rw [div_eq_iff two_ne_zero, ← pow_succ, lastBit]
    exact zpow_natCast 2 971
  calc (wholeLimit : ℚ) = 2 ^ 1024 - 2 ^ 970 := by
        rw [wholeLimit, Nat.cast_sub hle, Nat.cast_pow, Nat.cast_pow, Nat.cast_ofNat]
    _ = greatest + lastBit - lastBit / 2 := by rw [hend, hhalf]
    _ = greatest + lastBit / 2 := by ring

/-- Between the limit and the end of the range the end is nearer than the greatest double. -/
theorem isFinite_ofNat_iff (n : ℕ) : (Float.ofNat n).isFinite = true ↔ n < wholeLimit := by
  have hrounds := rounds_ofNat n
  have hlastBit := lastBit_pos
  constructor
  · intro hfinite
    by_contra hge
    have hnearest := hrounds.isNearest hfinite
    have hle : value (Float.ofNat n) ≤ greatest :=
      (isBinary_value hfinite).le_greatest (lt_of_abs_lt (abs_value_lt hfinite))
    rcases (not_lt.mp hge).lt_or_eq with hgt | rfl
    · have hgt : greatest + lastBit / 2 < n := by
        rw [← wholeLimit_eq]
        exact_mod_cast hgt
      have hend : IsBinary (greatest + lastBit) := by
        rw [greatest_add_lastBit]
        exact isBinary_two_zpow (by norm_num)
      rcases le_total (n : ℚ) (greatest + lastBit) with hbelow | habove
      · have hnearer := hnearest.le _ hend
        rw [abs_of_nonneg (by linarith : 0 ≤ greatest + lastBit - n), abs_sub_comm,
          abs_of_nonneg (by linarith : 0 ≤ n - value (Float.ofNat n))] at hnearer
        linarith
      · have hbeyond := hnearest.ge_of_ge hend habove
        linarith
    · -- a tie, which goes to the even mantissa
      exact absurd hfinite (by decide +kernel)
  · intro hlt
    have hzero : Float.isFinite 0 = true ∧ value 0 = 0 := ⟨rfl, rfl⟩
    refine hrounds.isFinite_of_lt hzero.1 ?_ ?_
    · rw [hzero.2]
      exact Nat.cast_nonneg n
    · rw [← wholeLimit_eq]
      exact_mod_cast hlt

theorem isFinite_ofInt_iff (n : ℤ) : (Float.ofInt n).isFinite = true ↔ n.natAbs < wholeLimit := by
  cases n with
  | ofNat n => exact isFinite_ofNat_iff n
  | negSucc n =>
    have hneg : (Float.ofInt (.negSucc n)).isFinite = (Float.ofNat (n + 1)).isFinite :=
      isFinite_neg _
    rw [hneg]
    exact isFinite_ofNat_iff (n + 1)

/-- The integers without a double are those from the limit on. -/
theorem ofInteger?_eq_none_iff (n : ℤ) : ofInteger? n = none ↔ wholeLimit ≤ n.natAbs := by
  rw [← not_lt, ← isFinite_ofInt_iff, ofInteger?]
  simp

end SurfaceStudio.Decimal
