import Mathlib
/-!
# The numbers that doubles are rounded to

A number is binary if it has a mantissa of at most 53 bits and an exponent that is not below the
least one of a double. There is no greatest exponent here: arithmetic rounds to a nearest binary
number first, and only then does what is too large become an infinity. `IsNearest r q` says that
`q` is such a number for `r`; which of two equally near ones it is, is left open.
-/

namespace SurfaceStudio.Decimal

variable {q r : ℚ}

/-- A number with at most 53 bits, none of them below the least positive double. -/
def IsBinary (q : ℚ) : Prop := ∃ k e : ℤ, |k| < 2 ^ 53 ∧ -1074 ≤ e ∧ q = k * 2 ^ e

/-- A binary number that no other one is nearer to `r` than. -/
structure IsNearest (r q : ℚ) : Prop where
  isBinary : IsBinary q
  le : ∀ p, IsBinary p → |q - r| ≤ |p - r|

/-! ## Binary numbers -/

theorem isBinary_zero : IsBinary 0 := ⟨0, 0, by norm_num, by norm_num, by norm_num⟩

theorem IsBinary.neg (h : IsBinary q) : IsBinary (-q) := by
  obtain ⟨k, e, hk, he, rfl⟩ := h
  exact ⟨-k, e, by rwa [abs_neg], he, by push_cast; ring⟩

/-- A multiple of a power of two is binary even if its mantissa is the first one too long. -/
theorem isBinary_mul {k t : ℤ} (hk : |k| ≤ 2 ^ 53) (ht : -1074 ≤ t) :
    IsBinary (k * 2 ^ t : ℚ) := by
  rcases hk.lt_or_eq with hlt | heq
  · exact ⟨k, t, hlt, ht, rfl⟩
  · -- one bit of the mantissa goes into the exponent
    have hsplit : (2 : ℚ) ^ (t + 1) = 2 ^ t * 2 := zpow_add_one₀ two_ne_zero t
    rcases (abs_eq (by norm_num)).mp heq with rfl | rfl
    · exact ⟨2 ^ 52, t + 1, by norm_num, by omega, by rw [hsplit]; push_cast; ring⟩
    · exact ⟨-2 ^ 52, t + 1, by norm_num, by omega, by rw [hsplit]; push_cast; ring⟩

theorem isBinary_two_zpow {e : ℤ} (he : -1074 ≤ e) : IsBinary (2 ^ e) :=
  ⟨1, e, by norm_num, he, by norm_num⟩

theorem isBinary_natCast {n : ℕ} (h : n ≤ 2 ^ 53) : IsBinary n := by
  have hbinary := isBinary_mul (k := n) (t := 0) (by rw [Nat.abs_cast]; exact_mod_cast h)
    (by norm_num)
  simpa using hbinary

/-- A binary number is a multiple of each power of two that is not above its last bit. -/
theorem IsBinary.exists_eq_mul {t : ℤ} (h : IsBinary q) (ht : t = -1074 ∨ 2 ^ (t + 52) ≤ |q|) :
    ∃ j : ℤ, q = j * 2 ^ t := by
  obtain ⟨k, e, hk, he, rfl⟩ := h
  have hte : t ≤ e := by
    rcases ht with rfl | ht
    · exact he
    · have hk : |(k : ℚ)| < 2 ^ (53 : ℤ) := by exact_mod_cast hk
      have hlt : |(k * 2 ^ e : ℚ)| < 2 ^ (53 + e) := by
        rw [abs_mul, abs_of_pos (zpow_pos (two_pos : (0 : ℚ) < 2) e), zpow_add₀ two_ne_zero]
        exact mul_lt_mul_of_pos_right hk (zpow_pos two_pos e)
      have hexp := (zpow_lt_zpow_iff_right₀ one_lt_two).mp (ht.trans_lt hlt)
      omega
  obtain ⟨n, rfl⟩ := Int.le.dest hte
  refine ⟨k * 2 ^ n, ?_⟩
  rw [zpow_add₀ two_ne_zero, zpow_natCast]
  push_cast
  ring

/-- Two binary numbers are at least the least positive double apart. -/
theorem IsBinary.two_zpow_le_sub (hq : IsBinary q) (hr : IsBinary r) (h : q < r) :
    2 ^ (-1074 : ℤ) ≤ r - q := by
  have hpos : (0 : ℚ) < 2 ^ (-1074 : ℤ) := zpow_pos two_pos _
  obtain ⟨i, rfl⟩ := hq.exists_eq_mul (.inl rfl)
  obtain ⟨j, rfl⟩ := hr.exists_eq_mul (.inl rfl)
  have hij : i < j := by exact_mod_cast lt_of_mul_lt_mul_right h hpos.le
  have hone : (1 : ℚ) ≤ j - i := by exact_mod_cast Int.sub_pos_of_lt hij
  calc (2 : ℚ) ^ (-1074 : ℤ) = 1 * 2 ^ (-1074 : ℤ) := (one_mul _).symm
    _ ≤ (j - i) * 2 ^ (-1074 : ℤ) := mul_le_mul_of_nonneg_right hone hpos.le
    _ = j * 2 ^ (-1074 : ℤ) - i * 2 ^ (-1074 : ℤ) := sub_mul _ _ _

/-- The last bit of the greatest doubles. -/
def lastBit : ℚ := 2 ^ (971 : ℤ)

/-- The greatest double. -/
def greatest : ℚ := (2 ^ 53 - 1) * lastBit

theorem lastBit_pos : 0 < lastBit := zpow_pos two_pos _

theorem two_zpow_eq_mul_lastBit (k : ℕ) : (2 : ℚ) ^ (k + 971 : ℤ) = 2 ^ k * lastBit := by
  rw [zpow_add₀ two_ne_zero, zpow_natCast, lastBit]

/-- Behind the greatest double there is one last bit to the end of the range. -/
theorem greatest_add_lastBit : greatest + lastBit = 2 ^ (1024 : ℤ) := by
  rw [greatest, sub_mul, one_mul, sub_add_cancel]
  exact (two_zpow_eq_mul_lastBit 53).symm

theorem isBinary_greatest : IsBinary greatest :=
  ⟨2 ^ 53 - 1, 971, by norm_num, by norm_num, congrArg (· * lastBit) (by norm_num)⟩

/-- No binary number is between the greatest double and the end of the range. -/
theorem IsBinary.le_greatest (h : IsBinary q) (hq : q < 2 ^ (1024 : ℤ)) : q ≤ greatest := by
  have hpos := lastBit_pos
  rcases lt_or_ge q (2 ^ (1023 : ℤ)) with hlt | hge
  · have hsplit : (2 : ℚ) ^ (1023 : ℤ) = 2 ^ 52 * lastBit := two_zpow_eq_mul_lastBit 52
    rw [hsplit] at hlt
    rw [greatest]
    linarith only [hlt, hpos]
  · obtain ⟨j, rfl⟩ := h.exists_eq_mul (t := 971) (.inr (hge.trans (le_abs_self _)))
    have hsplit : (2 : ℚ) ^ (1024 : ℤ) = 2 ^ 53 * lastBit := two_zpow_eq_mul_lastBit 53
    rw [hsplit] at hq
    have hj : j < 2 ^ 53 := by exact_mod_cast lt_of_mul_lt_mul_right hq hpos.le
    have hone : (j : ℚ) ≤ 2 ^ 53 - 1 := by exact_mod_cast Int.le_sub_one_of_lt hj
    exact mul_le_mul_of_nonneg_right hone hpos.le

/-! ## Nearest numbers -/

/-- Counted in a power of two, distances are divided by it. -/
theorem abs_mul_sub (x r : ℚ) (t : ℤ) : |x * 2 ^ t - r| = |x - r / 2 ^ t| * 2 ^ t := by
  have hpos : (0 : ℚ) < 2 ^ t := zpow_pos two_pos t
  rw [← abs_of_pos hpos, ← abs_mul, abs_of_pos hpos, sub_mul, div_mul_cancel₀ _ hpos.ne']

/-- An integer that is at most one half away is a nearest one. -/
theorem abs_sub_le_of_half {k j : ℤ} {z : ℚ} (h : |k - z| ≤ 1 / 2) : |k - z| ≤ |j - z| := by
  rcases eq_or_ne k j with rfl | hne
  · exact le_rfl
  · have hone : (1 : ℚ) ≤ |(k : ℚ) - j| := by
      exact_mod_cast Int.one_le_abs (sub_ne_zero.mpr hne)
    have htriangle : |(k : ℚ) - j| ≤ |k - z| + |j - z| := by
      rw [abs_sub_comm (j : ℚ) z]
      exact abs_sub_le _ _ _
    linarith

/-- Rounding a number to a multiple of a power of two goes to a nearest binary number, if the power
is the last bit of the mantissa. -/
theorem isNearest_of_half {k t : ℤ} (hk : |k| ≤ 2 ^ 53) (ht : -1074 ≤ t)
    (hhalf : |k - r / 2 ^ t| ≤ 1 / 2) (hr : t = -1074 ∨ 2 ^ (t + 52) ≤ |r|) :
    IsNearest r (k * 2 ^ t) := by
  have hpos : (0 : ℚ) < 2 ^ t := zpow_pos two_pos t
  have hmultiple : ∀ j : ℤ, |(k * 2 ^ t : ℚ) - r| ≤ |(j * 2 ^ t : ℚ) - r| := by
    intro j
    rw [abs_mul_sub, abs_mul_sub]
    exact mul_le_mul_of_nonneg_right (abs_sub_le_of_half hhalf) hpos.le
  refine ⟨isBinary_mul hk ht, fun p hp => ?_⟩
  by_cases hpt : t = -1074 ∨ 2 ^ (t + 52) ≤ |p|
  · obtain ⟨j, rfl⟩ := hp.exists_eq_mul hpt
    exact hmultiple j
  · -- `p` is farther away than the multiple between it and `r`
    obtain ⟨hne, hlt⟩ := not_or.mp hpt
    have hr : (2 : ℚ) ^ (t + 52) ≤ |r| := hr.resolve_left hne
    have hsplit : (2 : ℚ) ^ (t + 52) = 2 ^ (52 : ℕ) * 2 ^ t := by
      rw [zpow_add₀ two_ne_zero, mul_comm]
      rfl
    have hfar : |r| - 2 ^ (t + 52) ≤ |p - r| := by
      have htriangle := abs_sub_abs_le_abs_sub r p
      rw [abs_sub_comm] at htriangle
      linarith [not_le.mp hlt]
    obtain ⟨j, hj⟩ : ∃ j : ℤ, |(j * 2 ^ t : ℚ) - r| = |r| - 2 ^ (t + 52) := by
      rcases le_total 0 r with hsign | hsign
      · rw [abs_of_nonneg hsign] at hr ⊢
        refine ⟨2 ^ 52, ?_⟩
        rw [Int.cast_pow, Int.cast_ofNat, ← hsplit, abs_sub_comm, abs_of_nonneg (by linarith)]
      · rw [abs_of_nonpos hsign] at hr ⊢
        refine ⟨-2 ^ 52, ?_⟩
        rw [Int.cast_neg, Int.cast_pow, Int.cast_ofNat, neg_mul, ← hsplit,
          abs_of_nonneg (by linarith)]
        ring
    exact (hmultiple j).trans (hj.trans_le hfar)

namespace IsNearest

variable {q' r' : ℚ}

/-- A binary number is the only one nearest to itself. -/
theorem eq_of_isBinary (h : IsNearest r q) (hr : IsBinary r) : q = r := by
  have hzero := h.le r hr
  rw [sub_self, abs_zero] at hzero
  exact sub_eq_zero.mp (abs_nonpos_iff.mp hzero)

/-- The lesser of two numbers has no greater nearest number. -/
theorem le_of_lt (h : IsNearest r q) (h' : IsNearest r' q') (hr : r < r') : q ≤ q' := by
  by_contra hlt
  have hcrossed : 0 < (q - q') * (r' - r) :=
    mul_pos (sub_pos.mpr (not_le.mp hlt)) (sub_pos.mpr hr)
  -- were they crossed, one of the two numbers would be nearer to the other one's
  have hleft : (q - r) ^ 2 ≤ (q' - r) ^ 2 := sq_le_sq.mpr (h.le q' h'.isBinary)
  have hright : (q' - r') ^ 2 ≤ (q - r') ^ 2 := sq_le_sq.mpr (h'.le q h.isBinary)
  linarith

theorem refl (h : IsBinary q) : IsNearest q q := ⟨h, fun p _ => by simp⟩

theorem le_of_le (h : IsNearest r q) {b : ℚ} (hb : IsBinary b) (hr : r ≤ b) : q ≤ b := by
  rcases hr.lt_or_eq with hlt | rfl
  · exact h.le_of_lt (refl hb) hlt
  · exact (h.eq_of_isBinary hb).le

theorem ge_of_ge (h : IsNearest r q) {b : ℚ} (hb : IsBinary b) (hr : b ≤ r) : b ≤ q := by
  rcases hr.lt_or_eq with hlt | rfl
  · exact (refl hb).le_of_lt h hlt
  · exact (h.eq_of_isBinary hb).ge

theorem abs_le_of_le (h : IsNearest r q) {b : ℚ} (hb : IsBinary b) (hr : |r| ≤ b) : |q| ≤ b := by
  obtain ⟨hlow, hhigh⟩ := abs_le.mp hr
  exact abs_le.mpr ⟨h.ge_of_ge hb.neg hlow, h.le_of_le hb hhigh⟩

/-- What is less than half of the last bit above the greatest double stays in the range. -/
theorem lt_of_lt (h : IsNearest r q) (hr : r < greatest + lastBit / 2) :
    q < 2 ^ (1024 : ℤ) := by
  have hpos := lastBit_pos
  rw [← greatest_add_lastBit]
  by_contra hq
  have hq : greatest + lastBit ≤ q := not_lt.mp hq
  rcases le_total r greatest with hle | hge
  · have hbound := h.le_of_le isBinary_greatest hle
    linarith
  · -- the greatest double would be nearer
    have hnearer := h.le _ isBinary_greatest
    rw [abs_sub_comm greatest, abs_of_nonneg (sub_nonneg.mpr hge),
      abs_of_nonneg (by linarith : 0 ≤ q - r)] at hnearer
    linarith

/-- A nearest number is off by half of the last bit of the mantissa at most. -/
theorem abs_sub_le (h : IsNearest r q) {k : ℤ} (hk : -1021 ≤ k) (hr : |r| ≤ 2 ^ k) :
    |q - r| ≤ 2 ^ (k - 54) := by
  have hpos : (0 : ℚ) < 2 ^ (k - 53) := zpow_pos two_pos _
  have hsplit : (2 : ℚ) ^ k = 2 ^ 53 * 2 ^ (k - 53) := by
    rw [← zpow_natCast (2 : ℚ) 53, ← zpow_add₀ two_ne_zero]
    congr 1
    omega
  have hhalf : (2 : ℚ) ^ (k - 53) = 2 * 2 ^ (k - 54) := by
    rw [← zpow_one_add₀ two_ne_zero]
    congr 1
    omega
  -- the multiple of the last bit that is nearest
  obtain ⟨j, hj⟩ : ∃ j : ℤ, j = round (r / 2 ^ (k - 53)) := ⟨_, rfl⟩
  have hround : |j - r / 2 ^ (k - 53)| ≤ 1 / 2 := by
    rw [abs_sub_comm, hj]
    exact abs_sub_round _
  have hle : |r / 2 ^ (k - 53)| ≤ 2 ^ 53 := by
    rw [abs_div, abs_of_pos hpos, div_le_iff₀ hpos, ← hsplit]
    exact hr
  have hmantissa : |j| ≤ 2 ^ 53 := by
    have htriangle : |(j : ℚ)| - |r / 2 ^ (k - 53)| ≤ |j - r / 2 ^ (k - 53)| :=
      abs_sub_abs_le_abs_sub _ _
    have hsmall : |(j : ℚ)| < 2 ^ 53 + 1 := by linarith
    exact Int.lt_add_one_iff.mp (by exact_mod_cast hsmall)
  calc |q - r| ≤ |(j * 2 ^ (k - 53) : ℚ) - r| :=
        h.le _ (isBinary_mul (t := k - 53) hmantissa (by omega))
    _ = |j - r / 2 ^ (k - 53)| * 2 ^ (k - 53) := abs_mul_sub _ _ _
    _ ≤ 1 / 2 * 2 ^ (k - 53) := mul_le_mul_of_nonneg_right hround hpos.le
    _ = 2 ^ (k - 54) := by rw [hhalf]; ring

end IsNearest

end SurfaceStudio.Decimal
