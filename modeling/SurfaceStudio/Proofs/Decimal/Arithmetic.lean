import SurfaceStudio.Proofs.Decimal.FixedPlaces
import SurfaceStudio.Proofs.Decimal.Rounding
/-!
# Arithmetic of doubles in exact numbers

A sum, a difference, a product or a quotient of finite doubles is a binary number nearest to the
exact result, or an infinity if that number is beyond all doubles: `Rounds r x`. Doubles are in the
order of their exact values, and whole numbers of at most 53 bits are doubles.
-/

namespace SurfaceStudio.Decimal

open Float.Model Float.Model.UnpackedFloat

/-! ## Doubles -/

/-- The exact value of a double; zero for one that is not finite. -/
def value (x : Float) : ℚ := valueOf (unpacked x)

/-- What becomes of a binary number as a double: itself, or an infinity if it is too large. -/
inductive Becomes (q : ℚ) (x : Float) : Prop where
  | finite : x.isFinite = true → value x = q → Becomes q x
  | above : 2 ^ (1024 : ℤ) ≤ q → unpacked x = .infinity .positive → Becomes q x
  | below : q ≤ -2 ^ (1024 : ℤ) → unpacked x = .infinity .negative → Becomes q x

/-- A double is what a nearest binary number to an exact number becomes. -/
def Rounds (r : ℚ) (x : Float) : Prop := ∃ q, IsNearest r q ∧ Becomes q x

section Doubles

variable {x y : Float}

theorem canonical_unpacked (h : x.isFinite = true) : Canonical (unpacked x) := by
  have h : (unpacked x).isFinite := h
  have hfits := fits_unpacked x
  generalize unpacked x = u at h hfits
  cases hfits with
  | notANumber => cases h
  | infinity s => cases h
  | zero s => exact .zero s
  | finite s m e hpos hm he he' hor => exact .finite s m e hpos hm he hor

theorem isBinary_value (h : x.isFinite = true) : IsBinary (value x) :=
  isBinary_valueOf (canonical_unpacked h)

/-- A finite double is within the range. -/
theorem abs_value_lt (h : x.isFinite = true) : |value x| < 2 ^ (1024 : ℤ) := by
  have h : (unpacked x).isFinite := h
  have hfits := fits_unpacked x
  rw [value]
  generalize unpacked x = u at h hfits ⊢
  cases hfits with
  | notANumber => cases h
  | infinity s => cases h
  | zero s =>
    show |(0 : ℚ)| < _
    rw [abs_zero]
    exact zpow_pos two_pos _
  | finite s m e hpos hm he he' hor =>
    rw [abs_valueOf]
    have hm : (m : ℚ) < 2 ^ (53 : ℤ) := by exact_mod_cast hm
    calc (m * 2 ^ e : ℚ) < 2 ^ (53 : ℤ) * 2 ^ e := mul_lt_mul_of_pos_right hm (zpow_pos two_pos e)
      _ = 2 ^ (53 + e) := (zpow_add₀ two_ne_zero _ _).symm
      _ ≤ 2 ^ (1024 : ℤ) := zpow_le_zpow_right₀ one_le_two (by omega)

theorem becomes_pack {u : UnpackedFloat} (hu : Canonical u) :
    Becomes (valueOf u) (.ofModel (.pack u)) := by
  cases hu with
  | zero s =>
    have hunpack := unpack_pack (.zero s)
    exact .finite (congrArg UnpackedFloat.isFinite hunpack) (congrArg valueOf hunpack)
  | finite s m e h hm he hor =>
    by_cases hmax : e ≤ 971
    · have hunpack := unpack_pack (.finite s m e h hm he hmax hor)
      exact .finite (congrArg UnpackedFloat.isFinite hunpack) (congrArg valueOf hunpack)
    · have hunpack : unpacked (.ofModel (.pack (.finite s m e h))) = .infinity s := by
        show UnpackedFloat.unpack .binary64 (UnpackedFloat.pack .binary64 (.finite s m e h)) = _
        rw [pack_of_overflow (by omega)]
        cases s <;> rfl
      have hm : (2 : ℚ) ^ (52 : ℤ) ≤ m := by exact_mod_cast hor.resolve_right (by omega)
      have hlarge : (2 : ℚ) ^ (1024 : ℤ) ≤ m * 2 ^ e := by
        calc (2 : ℚ) ^ (1024 : ℤ) ≤ 2 ^ (52 + e) := zpow_le_zpow_right₀ one_le_two (by omega)
          _ = 2 ^ (52 : ℤ) * 2 ^ e := zpow_add₀ two_ne_zero _ _
          _ ≤ m * 2 ^ e := mul_le_mul_of_nonneg_right hm (zpow_pos two_pos e).le
      cases s with
      | positive => exact .above (by simpa [valueOf, Sign.apply] using hlarge) hunpack
      | negative => exact .below (by simpa [valueOf, Sign.apply] using hlarge) hunpack

theorem rounds_of_isRounding {r : ℚ} {u : UnpackedFloat} (h : IsRounding r u) :
    Rounds r (.ofModel (.pack u)) :=
  ⟨valueOf u, h.isNearest, becomes_pack h.canonical⟩

theorem rounds_add (hx : x.isFinite = true) (hy : y.isFinite = true) :
    Rounds (value x + value y) (x + y) :=
  rounds_of_isRounding (isRounding_add (canonical_unpacked hx) (canonical_unpacked hy))

theorem rounds_sub (hx : x.isFinite = true) (hy : y.isFinite = true) :
    Rounds (value x - value y) (x - y) :=
  rounds_of_isRounding (isRounding_sub (canonical_unpacked hx) (canonical_unpacked hy))

theorem rounds_mul (hx : x.isFinite = true) (hy : y.isFinite = true) :
    Rounds (value x * value y) (x * y) :=
  rounds_of_isRounding (isRounding_mul (canonical_unpacked hx) (canonical_unpacked hy))

theorem rounds_div (hx : x.isFinite = true) (hy : y.isFinite = true) (hne : value y ≠ 0) :
    Rounds (value x / value y) (x / y) :=
  rounds_of_isRounding (isRounding_div (canonical_unpacked hx) (canonical_unpacked hy) hne)

end Doubles

/-! ## The order of doubles -/

section Order

/-- Of two canonical forms the one with the greater exponent is the greater one. -/
theorem mul_zpow_lt {m m' : ℕ} {e e' : ℤ} (hm : m < 2 ^ 53) (hm' : 2 ^ 52 ≤ m') (h : e < e') :
    (m * 2 ^ e : ℚ) < m' * 2 ^ e' := by
  have hm : (m : ℚ) < 2 ^ (53 : ℤ) := by exact_mod_cast hm
  have hm' : (2 : ℚ) ^ (52 : ℤ) ≤ m' := by exact_mod_cast hm'
  calc (m * 2 ^ e : ℚ) < 2 ^ (53 : ℤ) * 2 ^ e := mul_lt_mul_of_pos_right hm (zpow_pos two_pos e)
    _ = 2 ^ (53 + e) := (zpow_add₀ two_ne_zero _ _).symm
    _ ≤ 2 ^ (52 + e') := zpow_le_zpow_right₀ one_le_two (by omega)
    _ = 2 ^ (52 : ℤ) * 2 ^ e' := zpow_add₀ two_ne_zero _ _
    _ ≤ m' * 2 ^ e' := mul_le_mul_of_nonneg_right hm' (zpow_pos two_pos e').le

/-- Magnitudes are compared by exponent and then by mantissa. -/
theorem compare_then_eq {m m' : ℕ} {e e' : ℤ} (hm : m < 2 ^ 53) (hm' : m' < 2 ^ 53)
    (he : -1074 ≤ e) (he' : -1074 ≤ e') (hor : 2 ^ 52 ≤ m ∨ e = -1074)
    (hor' : 2 ^ 52 ≤ m' ∨ e' = -1074) :
    (compare e e').then (compare m m') = compare (m * 2 ^ e : ℚ) (m' * 2 ^ e') := by
  rcases lt_trichotomy e e' with hlt | rfl | hgt
  · have hless := mul_zpow_lt hm (hor'.resolve_right (by omega)) hlt
    rw [Int.compare_eq_lt.mpr hlt, compare_lt_iff_lt.mpr hless]
    rfl
  · have hpos : (0 : ℚ) < 2 ^ e := zpow_pos two_pos e
    rw [Int.compare_eq_eq.mpr rfl]
    show compare m m' = _
    rcases lt_trichotomy m m' with hlt | rfl | hgt
    · rw [Nat.compare_eq_lt.mpr hlt, compare_lt_iff_lt.mpr]
      exact mul_lt_mul_of_pos_right (by exact_mod_cast hlt) hpos
    · rw [Nat.compare_eq_eq.mpr rfl, compare_eq_iff_eq.mpr rfl]
    · rw [Nat.compare_eq_gt.mpr hgt, compare_gt_iff_gt.mpr]
      exact mul_lt_mul_of_pos_right (by exact_mod_cast hgt) hpos
  · have hless := mul_zpow_lt hm' (hor.resolve_right (by omega)) hgt
    rw [Int.compare_eq_gt.mpr hgt, compare_gt_iff_gt.mpr hless]
    rfl

theorem swap_compare (a b : ℚ) : (compare a b).swap = compare (-a) (-b) := by
  rcases lt_trichotomy a b with hlt | rfl | hgt
  · rw [compare_lt_iff_lt.mpr hlt, compare_gt_iff_gt.mpr (neg_lt_neg hlt)]
    rfl
  · rw [compare_eq_iff_eq.mpr rfl, compare_eq_iff_eq.mpr rfl]
    rfl
  · rw [compare_gt_iff_gt.mpr hgt, compare_lt_iff_lt.mpr (neg_lt_neg hgt)]
    rfl

/-- Canonical forms are in the order of their exact values. -/
theorem compare_eq {u v : UnpackedFloat} (hu : Canonical u) (hv : Canonical v) :
    u.compare v = some (compare (valueOf u) (valueOf v)) := by
  have hzero : ∀ s, valueOf (.zero s) = 0 := fun s => rfl
  have hplus : ∀ m e h, valueOf (.finite .positive m e h) = m * 2 ^ e := by
    intro m e h
    simp [valueOf, Sign.apply]
  have hminus : ∀ m e h, valueOf (.finite .negative m e h) = -(m * 2 ^ e) := by
    intro m e h
    simp [valueOf, Sign.apply]
  have hpos : ∀ (m : ℕ) (e : ℤ), 0 < m → (0 : ℚ) < m * 2 ^ e := by
    intro m e h
    exact mul_pos (by exact_mod_cast h) (zpow_pos two_pos e)
  cases hu with
  | zero s =>
    cases hv with
    | zero s' => rw [hzero, hzero, compare_eq_iff_eq.mpr rfl]; rfl
    | finite s' m' e' h' =>
      have hpos' := hpos m' e' h'
      cases s' with
      | positive => rw [hzero, hplus, compare_lt_iff_lt.mpr hpos']; rfl
      | negative => rw [hzero, hminus, compare_gt_iff_gt.mpr (neg_neg_of_pos hpos')]; rfl
  | finite s m e h hm he hor =>
    have hpos₁ := hpos m e h
    cases hv with
    | zero s' =>
      cases s with
      | positive => rw [hzero, hplus, compare_gt_iff_gt.mpr hpos₁]; rfl
      | negative => rw [hzero, hminus, compare_lt_iff_lt.mpr (neg_neg_of_pos hpos₁)]; rfl
    | finite s' m' e' h' hm' he' hor' =>
      have hpos₂ := hpos m' e' h'
      have hmagnitudes := compare_then_eq hm hm' he he' hor hor'
      cases s <;> cases s'
      · rw [hminus, hminus, ← swap_compare, ← hmagnitudes]; rfl
      · rw [hminus, hplus, compare_lt_iff_lt.mpr (by linarith)]; rfl
      · rw [hplus, hminus, compare_gt_iff_gt.mpr (by linarith)]; rfl
      · rw [hplus, hplus, ← hmagnitudes]; rfl

variable {x y : Float}

theorem le_iff_value (hx : x.isFinite = true) (hy : y.isFinite = true) :
    x ≤ y ↔ value x ≤ value y := by
  rw [le_iff, compare_eq (canonical_unpacked hx) (canonical_unpacked hy), Option.any_some]
  exact Ordering.isLE_iff_ne_gt.trans compare_le_iff_le

theorem beq_iff_value (hx : x.isFinite = true) (hy : y.isFinite = true) :
    (x == y) = true ↔ value x = value y := by
  show ((unpacked x).compare (unpacked y) == some .eq) = true ↔ _
  rw [compare_eq (canonical_unpacked hx) (canonical_unpacked hy), beq_iff_eq,
    Option.some.injEq, compare_eq_iff_eq]
  rfl

theorem isFinite_of_beq (hy : y.isFinite = true) (h : (x == y) = true) : x.isFinite = true := by
  obtain ⟨-, -, rfl | ⟨rfl, -⟩ | ⟨rfl, -⟩⟩ := Float.beq_iff_ne_nan_and_eq.mp h
  · exact hy
  · rfl
  · rfl

/-- Only the two zeros are different doubles of one value. -/
theorem eq_of_value_eq (hx : x.isFinite = true) (hy : y.isFinite = true) (h : value x = value y)
    (hne : value x ≠ 0) : x = y := by
  obtain ⟨-, -, hxy | ⟨rfl, -⟩ | ⟨rfl, -⟩⟩ :=
    Float.beq_iff_ne_nan_and_eq.mp ((beq_iff_value hx hy).mpr h)
  · exact hxy
  · exact absurd rfl hne
  · exact absurd rfl hne

end Order

/-! ## Rounded results -/

namespace Rounds

variable {r r' b : ℚ} {x x' : Float}

/-- What is not too large stays finite. -/
theorem becomes_finite {q : ℚ} (h : Becomes q x) (hlt : |q| < 2 ^ (1024 : ℤ)) :
    x.isFinite = true ∧ value x = q := by
  have hrange := abs_lt.mp hlt
  rcases h with ⟨hx, hvalue⟩ | ⟨hq, -⟩ | ⟨hq, -⟩
  · exact ⟨hx, hvalue⟩
  · exact absurd hrange.2 (not_lt.mpr hq)
  · exact absurd hrange.1 (not_lt.mpr hq)

/-- A finite result is a nearest binary number. -/
theorem isNearest (h : Rounds r x) (hx : x.isFinite = true) : IsNearest r (value x) := by
  obtain ⟨q, hq, hbecomes⟩ := h
  have hx : (unpacked x).isFinite = true := hx
  rcases hbecomes with ⟨-, rfl⟩ | ⟨-, hinfinite⟩ | ⟨-, hinfinite⟩
  · exact hq
  · rw [hinfinite] at hx
    cases hx
  · rw [hinfinite] at hx
    cases hx

theorem value_eq (h : Rounds r x) (hx : x.isFinite = true) (hr : IsBinary r) : value x = r :=
  (h.isNearest hx).eq_of_isBinary hr

/-- A result that is a double itself is exact. -/
theorem exact (h : Rounds r x) (hr : IsBinary r) (hlt : |r| < 2 ^ (1024 : ℤ)) :
    x.isFinite = true ∧ value x = r := by
  obtain ⟨q, hq, hbecomes⟩ := h
  obtain rfl := hq.eq_of_isBinary hr
  exact becomes_finite hbecomes hlt

/-- The lesser of two exact numbers has no greater result. -/
theorem value_le (h : Rounds r x) (h' : Rounds r' x') (hx : x.isFinite = true)
    (hx' : x'.isFinite = true) (hr : r < r') : value x ≤ value x' :=
  (h.isNearest hx).le_of_lt (h'.isNearest hx') hr

/-- A result between two doubles is finite. -/
theorem isFinite_of_between (h : Rounds r x) {lo hi : Float} (hlo : lo.isFinite = true)
    (hhi : hi.isFinite = true) (hge : value lo ≤ r) (hle : r ≤ value hi) :
    x.isFinite = true := by
  obtain ⟨q, hq, hbecomes⟩ := h
  have hlow := hq.ge_of_ge (isBinary_value hlo) hge
  have hhigh := hq.le_of_le (isBinary_value hhi) hle
  have hrange := abs_lt.mp (abs_value_lt hlo)
  have hrange' := abs_lt.mp (abs_value_lt hhi)
  exact (becomes_finite hbecomes (abs_lt.mpr ⟨by linarith, by linarith⟩)).1

theorem isFinite_of_abs_le (h : Rounds r x) (hr : |r| ≤ 2 ^ (1023 : ℤ)) : x.isFinite = true := by
  obtain ⟨q, hq, hbecomes⟩ := h
  have hle := hq.abs_le_of_le (isBinary_two_zpow (by norm_num)) hr
  exact (becomes_finite hbecomes
    (hle.trans_lt (zpow_lt_zpow_right₀ one_lt_two (by norm_num)))).1

/-- A result between a double and the end of the range is finite. -/
theorem isFinite_of_lt (h : Rounds r x) {lo : Float} (hlo : lo.isFinite = true)
    (hge : value lo ≤ r) (hlt : r < greatest + lastBit / 2) : x.isFinite = true := by
  obtain ⟨q, hq, hbecomes⟩ := h
  have hlow := hq.ge_of_ge (isBinary_value hlo) hge
  have hrange := abs_lt.mp (abs_value_lt hlo)
  exact (becomes_finite hbecomes (abs_lt.mpr ⟨by linarith, hq.lt_of_lt hlt⟩)).1

end Rounds

/-- An operation that is strictly monotone in exact numbers is monotone in doubles, if it is exact
at the zeros. -/
theorem value_map_le {f : Float → Float} {g : ℚ → ℚ}
    (hf : ∀ x, x.isFinite = true → Rounds (g (value x)) (f x)) (hg : StrictMono g)
    (hzero : IsBinary (g 0)) {x y : Float} (hx : x.isFinite = true) (hy : y.isFinite = true)
    (hfx : (f x).isFinite = true) (hfy : (f y).isFinite = true) (h : value x ≤ value y) :
    value (f x) ≤ value (f y) := by
  rcases h.lt_or_eq with hlt | heq
  · exact (hf x hx).value_le (hf y hy) hfx hfy (hg hlt)
  · by_cases hvalue : value x = 0
    · -- the two zeros may be different doubles, but not their results
      have hx' := (hf x hx).value_eq hfx (by rwa [hvalue])
      have hy' := (hf y hy).value_eq hfy (by rwa [← heq, hvalue])
      rw [hx', hy', heq]
    · rw [eq_of_value_eq hx hy heq hvalue]

/-! ## Results that are finite -/

section Finite

variable {x y : Float}

theorem isFinite_of_pack {u : UnpackedFloat}
    (h : (unpacked (.ofModel (.pack u))).isFinite = true) : u.isFinite = true := by
  cases u with
  | notANumber => exact absurd h (by decide)
  | infinity s => cases s <;> exact absurd h (by decide)
  | zero s => rfl
  | finite s m e hpos => rfl

/-- A sum is finite only if both of its terms are. -/
theorem isFinite_add {u v : UnpackedFloat} (h : (UnpackedFloat.add .binary64 u v).isFinite = true) :
    u.isFinite = true ∧ v.isFinite = true := by
  cases u <;> cases v <;> first | exact ⟨rfl, rfl⟩ | cases h | skip
  case infinity.infinity s s' => cases s <;> cases s' <;> cases h

theorem isFinite_sub {u v : UnpackedFloat} (h : (UnpackedFloat.sub .binary64 u v).isFinite = true) :
    u.isFinite = true ∧ v.isFinite = true := by
  cases u <;> cases v <;> first | exact ⟨rfl, rfl⟩ | cases h | skip
  case infinity.infinity s s' => cases s <;> cases s' <;> cases h

theorem isFinite_mul {u v : UnpackedFloat} (h : (UnpackedFloat.mul .binary64 u v).isFinite = true) :
    u.isFinite = true ∧ v.isFinite = true := by
  cases u <;> cases v <;> first | exact ⟨rfl, rfl⟩ | cases h

/-- A quotient by an infinity can be finite, one of an infinity cannot. -/
theorem isFinite_div {u v : UnpackedFloat} (h : (UnpackedFloat.div .binary64 u v).isFinite = true) :
    u.isFinite = true := by
  cases u <;> cases v <;> first | rfl | cases h

theorem isFinite_of_add (h : (x + y).isFinite = true) : x.isFinite = true ∧ y.isFinite = true :=
  isFinite_add (isFinite_of_pack h)

theorem isFinite_of_sub (h : (x - y).isFinite = true) : x.isFinite = true ∧ y.isFinite = true :=
  isFinite_sub (isFinite_of_pack h)

theorem isFinite_of_mul (h : (x * y).isFinite = true) : x.isFinite = true ∧ y.isFinite = true :=
  isFinite_mul (isFinite_of_pack h)

theorem isFinite_of_div (h : (x / y).isFinite = true) : x.isFinite = true :=
  isFinite_div (isFinite_of_pack h)

end Finite

/-! ## Whole numbers -/

section WholeNumbers

variable {n : ℕ} (h : n < 2 ^ 53)

include h

theorem abs_natCast_lt : |(n : ℚ)| < 2 ^ (1024 : ℤ) := by
  have hn : (n : ℚ) < 2 ^ (53 : ℤ) := by exact_mod_cast h
  rw [Nat.abs_cast]
  exact hn.trans (zpow_lt_zpow_right₀ one_lt_two (by norm_num))

/-- A word of at most 53 bits is a double. -/
theorem value_toFloat :
    n.toUInt64.toFloat.isFinite = true ∧ value n.toUInt64.toFloat = n := by
  have hword : Rounds n n.toUInt64.toFloat := by
    have hn : ((n.toUInt64.toNat : ℤ) * 2 ^ (0 : ℤ) : ℚ) = n := by
      have hsmall : n.toUInt64.toNat = n := by
        show n % 2 ^ 64 = n
        omega
      rw [hsmall, zpow_zero, mul_one, Int.cast_natCast]
    have hrounds := rounds_of_isRounding (isRounding_normalize n.toUInt64.toNat 0)
    rw [hn] at hrounds
    exact hrounds
  exact hword.exact (isBinary_natCast h.le) (abs_natCast_lt h)

/-- A whole number of at most 53 bits is a double. -/
theorem value_ofNat : (Float.ofNat n).isFinite = true ∧ value (Float.ofNat n) = n := by
  obtain ⟨hfinite, hvalue⟩ := value_toFloat h
  -- it is also scaled by the zeroth power of ten
  obtain ⟨one, hone, heq⟩ : ∃ one : Float, (one.isFinite = true ∧ value one = 1) ∧
      Float.ofNat n = n.toUInt64.toFloat * one := by
    refine ⟨Float.exactlyRepresentablePowersOfTen[0], ⟨rfl, ?_⟩, ?_⟩
    · have hunpacked : unpacked Float.exactlyRepresentablePowersOfTen[0] =
          .finite .positive (2 ^ 52) (-52) (by decide) := by rfl
      rw [value, hunpacked]
      norm_num [valueOf, Sign.apply]
    · show Float.ofScientific n false 0 = _
      rw [Float.ofScientific, dif_pos ⟨h, by decide⟩]
      rfl
  have hproduct := rounds_mul hfinite hone.1
  rw [hvalue, hone.2, mul_one, ← heq] at hproduct
  exact hproduct.exact (isBinary_natCast h.le) (abs_natCast_lt h)

end WholeNumbers

/-! ## Units of the least positive double -/

/-- A signed mantissa in units of the least positive double. -/
theorem signed_units (s : Sign) (m : ℕ) {e : ℤ} (he : -1074 ≤ e) :
    ((if isMinus s then -(m * twoTo (e + 1074).toNat : ℤ) else m * twoTo (e + 1074).toNat : ℤ) *
      2 ^ (-1074 : ℤ) : ℚ) = s.apply m * 2 ^ e := by
  have hunits : (m * twoTo (e + 1074).toNat * 2 ^ (-1074 : ℤ) : ℚ) = m * 2 ^ e := by
    have hexponent : ((e + 1074).toNat : ℤ) + -1074 = e := by omega
    rw [twoTo_eq, Nat.cast_pow, Nat.cast_ofNat, mul_assoc, ← zpow_natCast,
      ← zpow_add₀ two_ne_zero, hexponent]
  cases s with
  | positive =>
    rw [if_neg (by decide), Int.cast_mul, Int.cast_natCast, Int.cast_natCast]
    exact hunits
  | negative =>
    have hminus : isMinus .negative = true := rfl
    rw [if_pos hminus, Int.cast_neg, Int.cast_mul, Int.cast_natCast, Int.cast_natCast, neg_mul,
      hunits, Sign.apply, Int.cast_neg, Int.cast_natCast, neg_mul]

theorem units?_eq_some {x : Float} {n : ℤ} (h : units? x = some n) :
    x.isFinite = true ∧ value x = n * 2 ^ (-1074 : ℤ) := by
  have hfits := fits_unpacked x
  rw [units?, ofFloat_eq] at h
  show (unpacked x).isFinite = true ∧ valueOf (unpacked x) = _
  generalize unpacked x = u at h hfits ⊢
  cases hfits with
  | notANumber => cases h
  | infinity s => cases h
  | zero s =>
    obtain rfl := Option.some.inj h
    have hzero : (s.apply (0 : ℕ) * 2 ^ (-1074 : ℤ) : ℚ) = 0 := by
      rw [apply_eq, Nat.cast_zero, mul_zero, Int.cast_zero, zero_mul]
    exact ⟨rfl, hzero.symm.trans (signed_units s 0 le_rfl).symm⟩
  | finite s m e hpos hm he he' hor =>
    obtain rfl := Option.some.inj h
    exact ⟨rfl, (signed_units s m he).symm⟩

end SurfaceStudio.Decimal
