import SurfaceStudio.Proofs.Decimal.Arithmetic
import SurfaceStudio.Proofs.Grid.Points
/-!
# The interval that an axis covers

A position along an axis between two doubles comes out of four roundings: of the width, of its
product with the number of the position, of the quotient by the number of steps, and of the sum with
the lower end. Each of them keeps the order, so the positions are in order as long as they are
finite. Together they move the last position away from the upper end by a few units in the last
place; where they do, the axis does not cover its interval.
-/

namespace SurfaceStudio.Grid

open Decimal

/-- The positions of an axis lie in order in an interval and reach both of its ends. -/
structure Covers (lo hi : Float) (us : List Float) : Prop where
  finite : ∀ u ∈ us, u.isFinite = true
  sorted : us.Pairwise (· ≤ ·)
  within : ∀ u ∈ us, lo ≤ u ∧ u ≤ hi
  first : ∃ u, us.head? = some u ∧ (u == lo) = true
  last : ∃ u, us.getLast? = some u ∧ (u == hi) = true

/-- The ends and the steps of an axis as an accepted grid has them. -/
structure Admissible (lo hi : Float) (steps : ℕ) : Prop where
  lo_finite : lo.isFinite = true
  hi_finite : hi.isFinite = true
  lt : value lo < value hi
  four_le : 4 ≤ steps
  small : steps < 2 ^ 53

/-! ## The positions of an axis -/

section Positions

variable (lo hi : Float) (steps : ℕ)

/-- The width of an axis times the number of a position. -/
def stretched (i : ℕ) : Float := (hi - lo) * Float.ofNat i

/-- The distance of a position from the lower end. -/
def offset (i : ℕ) : Float := stretched lo hi i / Float.ofNat steps

def place (i : ℕ) : Float := lo + offset lo hi steps i

theorem axis_eq : axis lo hi steps = (List.range (steps + 1)).map (place lo hi steps) := rfl

theorem forall_mem_axis {p : Float → Prop} :
    (∀ u ∈ axis lo hi steps, p u) ↔ ∀ i ≤ steps, p (place lo hi steps i) := by
  rw [axis_eq, List.forall_mem_map]
  simp only [List.mem_range, Nat.lt_succ_iff]

theorem head?_axis : (axis lo hi steps).head? = some (place lo hi steps 0) := by
  rw [axis_eq, List.range_succ_eq_map, List.map_cons, List.head?_cons]

theorem getLast?_axis : (axis lo hi steps).getLast? = some (place lo hi steps steps) := by
  rw [axis_eq, List.range_succ, List.map_append, List.map_singleton, List.getLast?_concat]

end Positions

/-! ## The error of three roundings -/

section Roundings

variable {d w p q : ℚ} {n : ℕ} {k : ℤ}

/-- Multiplying out and dividing again is off by less than twice the error of one rounding. -/
theorem abs_div_sub_lt (hp : IsNearest (w * n) p) (hpos : 0 < n) (hk : -1021 ≤ k)
    (hw : |w| ≤ 2 ^ k) : |p / n - w| < 2 * 2 ^ (k - 54) := by
  have hn : (0 : ℚ) < n := by exact_mod_cast hpos
  -- the least power of two that is not below the number of steps is less than twice the number
  obtain ⟨t, hlow, hhigh⟩ := exists_mem_Ioc_zpow hn (one_lt_two : (1 : ℚ) < 2)
  have ht : -1 ≤ t := by
    have hone : (1 : ℚ) ≤ n := by exact_mod_cast hpos
    have hzero : (2 : ℚ) ^ (0 : ℤ) ≤ 2 ^ (t + 1) := hone.trans hhigh
    have hle := (zpow_le_zpow_iff_right₀ one_lt_two).mp hzero
    omega
  have hproduct : |w * n| ≤ 2 ^ (k + (t + 1)) := by
    rw [abs_mul, Nat.abs_cast, zpow_add₀ two_ne_zero]
    exact mul_le_mul hw hhigh hn.le (zpow_pos two_pos k).le
  have herror := hp.abs_sub_le (by omega) hproduct
  have hsplit : (2 : ℚ) ^ (k + (t + 1) - 54) = 2 * 2 ^ (k - 54) * 2 ^ t := by
    rw [← zpow_one_add₀ two_ne_zero, ← zpow_add₀ two_ne_zero]
    congr 1
    omega
  have hscale : |p / n - w| * n = |p - w * n| := by
    rw [← Nat.abs_cast n, ← abs_mul, Nat.abs_cast, sub_mul, div_mul_cancel₀ _ hn.ne']
  have hlt : |p / n - w| * n < 2 * 2 ^ (k - 54) * n := by
    calc |p / n - w| * n ≤ 2 * 2 ^ (k - 54) * 2 ^ t := by rw [hscale, ← hsplit]; exact herror
      _ < 2 * 2 ^ (k - 54) * n :=
        mul_lt_mul_of_pos_left hlow (mul_pos two_pos (zpow_pos two_pos _))
  exact lt_of_mul_lt_mul_right hlt hn.le

/-- A width that is rounded, multiplied out, divided again and rounded each time is off by less than
four times the error of one rounding. -/
theorem abs_sub_lt_of_roundings (hw : IsNearest d w) (hp : IsNearest (w * n) p)
    (hq : IsNearest (p / n) q) (hpos : 0 < n) (hn : n ≤ 2 ^ 53) (hk : -1021 ≤ k)
    (hd : |d| ≤ 2 ^ k) : |q - d| < 2 ^ (k - 52) := by
  have hn0 : (0 : ℚ) < n := by exact_mod_cast hpos
  have hw' : |w| ≤ 2 ^ k := hw.abs_le_of_le (isBinary_two_zpow (by omega)) hd
  have hp' : |p| ≤ n * 2 ^ k := by
    have hbinary : IsBinary ((n : ℤ) * 2 ^ k : ℚ) :=
      isBinary_mul (by rw [Nat.abs_cast]; exact_mod_cast hn) (by omega)
    refine hp.abs_le_of_le hbinary ?_
    rw [abs_mul, Nat.abs_cast, mul_comm]
    exact mul_le_mul_of_nonneg_left hw' hn0.le
  have hquotient : |p / n| ≤ 2 ^ k := by
    rw [abs_div, Nat.abs_cast, div_le_iff₀ hn0, mul_comm]
    exact hp'
  have hwidth := hw.abs_sub_le hk hd
  have hstretched := abs_div_sub_lt hp hpos hk hw'
  have hoffset := hq.abs_sub_le hk hquotient
  have htotal : (2 : ℚ) ^ (k - 52) = 4 * 2 ^ (k - 54) := by
    have hfour : (4 : ℚ) = 2 ^ (2 : ℤ) := by norm_num
    rw [hfour, ← zpow_add₀ two_ne_zero]
    congr 1
    omega
  have hparts : q - d = (q - p / n) + (p / n - w) + (w - d) := by ring
  calc |q - d| ≤ |q - p / n| + |p / n - w| + |w - d| := hparts ▸ abs_add_three _ _ _
    _ < 2 ^ (k - 52) := by rw [htotal]; linarith

end Roundings

namespace Admissible

variable {lo hi : Float} {n : ℕ}

/-! ## The roundings of a position -/

theorem one_le_steps (h : Admissible lo hi n) : (1 : ℚ) ≤ n := by
  exact_mod_cast (show 1 ≤ 4 by decide).trans h.four_le

theorem steps_pos (h : Admissible lo hi n) : (0 : ℚ) < n := zero_lt_one.trans_le h.one_le_steps

theorem gap_pos (h : Admissible lo hi n) : 0 < value hi - value lo := sub_pos.mpr h.lt

theorem rounds_width (h : Admissible lo hi n) : Rounds (value hi - value lo) (hi - lo) :=
  rounds_sub h.hi_finite h.lo_finite

theorem rounds_stretched (h : Admissible lo hi n) (hw : (hi - lo).isFinite = true) {i : ℕ}
    (hi' : i ≤ n) : Rounds (value (hi - lo) * i) (stretched lo hi i) := by
  obtain ⟨hfinite, hvalue⟩ := value_ofNat (hi'.trans_lt h.small)
  have hrounds := rounds_mul hw hfinite
  rwa [hvalue] at hrounds

theorem rounds_div_steps (h : Admissible lo hi n) {x : Float} (hx : x.isFinite = true) :
    Rounds (value x / n) (x / Float.ofNat n) := by
  obtain ⟨hfinite, hvalue⟩ := value_ofNat h.small
  have hrounds := rounds_div hx hfinite (by rw [hvalue]; exact h.steps_pos.ne')
  rwa [hvalue] at hrounds

theorem rounds_lo_add (h : Admissible lo hi n) {x : Float} (hx : x.isFinite = true) :
    Rounds (value lo + value x) (lo + x) :=
  rounds_add h.lo_finite hx

/-- The ends are apart, however near they are. -/
theorem width_pos (h : Admissible lo hi n) (hw : (hi - lo).isFinite = true) :
    0 < value (hi - lo) := by
  have hgap := (isBinary_value h.lo_finite).two_zpow_le_sub (isBinary_value h.hi_finite) h.lt
  have hle := (h.rounds_width.isNearest hw).ge_of_ge (isBinary_two_zpow le_rfl) hgap
  exact (zpow_pos two_pos _).trans_le hle

/-! ## Positions that are finite -/

theorem width_finite {i : ℕ} (hfinite : (stretched lo hi i).isFinite = true) :
    (hi - lo).isFinite = true :=
  (isFinite_of_mul hfinite).1

section Finite

variable (h : Admissible lo hi n) (hfinite : (stretched lo hi n).isFinite = true)

include h hfinite

theorem stretched_finite {i : ℕ} (hi' : i ≤ n) :
    (stretched lo hi i).isFinite = true ∧ 0 ≤ value (stretched lo hi i) := by
  have hw := width_finite hfinite
  have hpos := h.width_pos hw
  rcases hi'.lt_or_eq with hlt | rfl
  · obtain ⟨q, hq, hbecomes⟩ := h.rounds_stretched hw hi'
    have hlow : 0 ≤ q := hq.ge_of_ge isBinary_zero (by positivity)
    -- the last product is no less, and it is in the range
    have hexact : value (hi - lo) * i < value (hi - lo) * n :=
      mul_lt_mul_of_pos_left (by exact_mod_cast hlt) hpos
    have hhigh : q ≤ value (stretched lo hi n) :=
      hq.le_of_lt ((h.rounds_stretched hw le_rfl).isNearest hfinite) hexact
    have hrange := (abs_lt.mp (abs_value_lt hfinite)).2
    obtain ⟨hx, rfl⟩ := Rounds.becomes_finite hbecomes
      (by rw [abs_of_nonneg hlow]; exact hhigh.trans_lt hrange)
    exact ⟨hx, hlow⟩
  · refine ⟨hfinite, ?_⟩
    have hnearest := (h.rounds_stretched hw le_rfl).isNearest hfinite
    exact hnearest.ge_of_ge isBinary_zero (by positivity)

theorem stretched_le {i j : ℕ} (hij : i ≤ j) (hj : j ≤ n) :
    value (stretched lo hi i) ≤ value (stretched lo hi j) := by
  have hw := width_finite hfinite
  have hi' := hij.trans hj
  rcases hij.lt_or_eq with hlt | rfl
  · have hexact : value (hi - lo) * i < value (hi - lo) * j :=
      mul_lt_mul_of_pos_left (by exact_mod_cast hlt) (h.width_pos hw)
    exact (h.rounds_stretched hw hi').value_le (h.rounds_stretched hw hj)
      (h.stretched_finite hfinite hi').1 (h.stretched_finite hfinite hj).1 hexact
  · exact le_rfl

theorem offset_finite {i : ℕ} (hi' : i ≤ n) : (offset lo hi n i).isFinite = true := by
  obtain ⟨hx, hnonneg⟩ := h.stretched_finite hfinite hi'
  obtain ⟨hzero, hvalue⟩ := value_ofNat (n := 0) (by norm_num)
  refine (h.rounds_div_steps hx).isFinite_of_between hzero hx ?_
    (div_le_self hnonneg h.one_le_steps)
  rw [hvalue]
  exact div_nonneg hnonneg h.steps_pos.le

theorem offset_nonneg {i : ℕ} (hi' : i ≤ n) : 0 ≤ value (offset lo hi n i) := by
  obtain ⟨hx, hnonneg⟩ := h.stretched_finite hfinite hi'
  have hnearest := (h.rounds_div_steps hx).isNearest (h.offset_finite hfinite hi')
  exact hnearest.ge_of_ge isBinary_zero (div_nonneg hnonneg h.steps_pos.le)

theorem offset_le {i j : ℕ} (hij : i ≤ j) (hj : j ≤ n) :
    value (offset lo hi n i) ≤ value (offset lo hi n j) := by
  have hi' := hij.trans hj
  refine value_map_le (f := fun x => x / Float.ofNat n) (g := fun r => r / n)
    (fun x hx => h.rounds_div_steps hx) (fun a b hab => div_lt_div_of_pos_right hab h.steps_pos)
    (by rw [zero_div]; exact isBinary_zero) (h.stretched_finite hfinite hi').1
    (h.stretched_finite hfinite hj).1 (h.offset_finite hfinite hi') (h.offset_finite hfinite hj)
    (h.stretched_le hfinite hij hj)

/-- The distance of the last position is near the exact width. -/
theorem abs_offset_sub_lt {k : ℤ} (hk : -1021 ≤ k) (hd : value hi - value lo ≤ 2 ^ k) :
    |value (offset lo hi n n) - (value hi - value lo)| < 2 ^ (k - 52) := by
  have hw := width_finite hfinite
  have hpos : 0 < n := (show 0 < 4 by decide).trans_le h.four_le
  have hd' : |value hi - value lo| ≤ 2 ^ k := by
    rwa [abs_of_pos h.gap_pos]
  exact abs_sub_lt_of_roundings (h.rounds_width.isNearest hw)
    ((h.rounds_stretched hw le_rfl).isNearest hfinite)
    ((h.rounds_div_steps hfinite).isNearest (h.offset_finite hfinite le_rfl)) hpos h.small.le hk hd'

/-- If the last product is finite, the width is in the range by a factor of four. -/
theorem width_le : value hi - value lo ≤ 2 ^ (1022 : ℤ) := by
  have hw := width_finite hfinite
  by_contra hlarge
  have hwidth : 2 ^ (1022 : ℤ) ≤ value (hi - lo) :=
    (h.rounds_width.isNearest hw).ge_of_ge (isBinary_two_zpow (by norm_num)) (not_le.mp hlarge).le
  have hfour : (4 : ℚ) ≤ n := by exact_mod_cast h.four_le
  have hsplit : (2 : ℚ) ^ (1024 : ℤ) = 2 ^ (1022 : ℤ) * 4 := by
    have htwo : (4 : ℚ) = 2 ^ (2 : ℤ) := by norm_num
    rw [htwo]
    exact zpow_add₀ two_ne_zero 1022 2
  have hproduct : 2 ^ (1024 : ℤ) ≤ value (hi - lo) * n := by
    rw [hsplit]
    exact mul_le_mul hwidth hfour (by norm_num) (h.width_pos hw).le
  have hreached := ((h.rounds_stretched hw le_rfl).isNearest hfinite).ge_of_ge
    (isBinary_two_zpow (by norm_num)) hproduct
  exact absurd (abs_lt.mp (abs_value_lt hfinite)).2 (not_lt.mpr hreached)

theorem place_finite {i : ℕ} (hi' : i ≤ n) : (place lo hi n i).isFinite = true := by
  have hoffset := h.offset_finite hfinite hi'
  refine (h.rounds_lo_add hoffset).isFinite_of_lt h.lo_finite ?_ ?_
  · exact le_add_of_nonneg_right (h.offset_nonneg hfinite hi')
  · -- the upper end is a double, and the distance is off by less than half of the last bit
    have hhi := (isBinary_value h.hi_finite).le_greatest (abs_lt.mp (abs_value_lt h.hi_finite)).2
    have hlast := h.offset_le hfinite hi' le_rfl
    have herror := h.abs_offset_sub_lt hfinite (by norm_num) (h.width_le hfinite)
    have hhalf : (2 : ℚ) ^ (1022 - 52 : ℤ) = lastBit / 2 := by
      have hdouble : lastBit = 2 ^ (970 : ℤ) * 2 := zpow_add_one₀ two_ne_zero 970
      rw [hdouble, mul_div_cancel_right₀ _ two_ne_zero]
      rfl
    rw [hhalf] at herror
    have hbelow := (abs_lt.mp herror).2
    linarith

theorem place_le {i j : ℕ} (hij : i ≤ j) (hj : j ≤ n) :
    value (place lo hi n i) ≤ value (place lo hi n j) := by
  have hi' := hij.trans hj
  exact value_map_le (f := fun x => lo + x) (g := fun r => value lo + r)
    (fun x hx => h.rounds_lo_add hx) (fun a b hab => add_lt_add_right hab (value lo))
    (by rw [add_zero]; exact isBinary_value h.lo_finite) (h.offset_finite hfinite hi')
    (h.offset_finite hfinite hj) (h.place_finite hfinite hi') (h.place_finite hfinite hj)
    (h.offset_le hfinite hij hj)

theorem value_place_zero : value (place lo hi n 0) = value lo := by
  have hw := width_finite hfinite
  have hstretched : value (stretched lo hi 0) = 0 := by
    have hrounds := h.rounds_stretched hw n.zero_le
    rw [Nat.cast_zero, mul_zero] at hrounds
    exact hrounds.value_eq (h.stretched_finite hfinite n.zero_le).1 isBinary_zero
  have hoffset : value (offset lo hi n 0) = 0 := by
    have hrounds := h.rounds_div_steps (h.stretched_finite hfinite n.zero_le).1
    rw [hstretched, zero_div] at hrounds
    exact hrounds.value_eq (h.offset_finite hfinite n.zero_le) isBinary_zero
  have hrounds := h.rounds_lo_add (h.offset_finite hfinite n.zero_le)
  rw [hoffset, add_zero] at hrounds
  exact hrounds.value_eq (h.place_finite hfinite n.zero_le) (isBinary_value h.lo_finite)

/-- The last position misses the upper end by a few units in the last place at most. -/
theorem abs_place_sub_le {k : ℤ} (hk : -1021 ≤ k) (hlo : |value lo| ≤ 2 ^ k)
    (hhi : |value hi| ≤ 2 ^ k) : |value (place lo hi n n) - value hi| ≤ 2 ^ (k - 50) := by
  have hpos : (0 : ℚ) < 2 ^ (k - 53) := zpow_pos two_pos _
  have hscale : ∀ (e : ℤ) (j : ℕ), e = j + (k - 53) → (2 : ℚ) ^ e = 2 ^ j * 2 ^ (k - 53) := by
    rintro e j rfl
    rw [zpow_add₀ two_ne_zero, zpow_natCast]
  have hd : value hi - value lo ≤ 2 ^ (k + 1) := by
    rw [zpow_add_one₀ two_ne_zero]
    linarith [(abs_le.mp hlo).1, (abs_le.mp hhi).2]
  have herror := h.abs_offset_sub_lt hfinite (by omega) hd
  rw [hscale (k + 1 - 52) 2 (by omega)] at herror
  have hsum : |value lo + value (offset lo hi n n)| ≤ 2 ^ (k + 1) := by
    rw [hscale k 53 (by omega)] at hhi
    rw [hscale (k + 1) 54 (by omega)]
    obtain ⟨hlow, hhigh⟩ := abs_lt.mp herror
    obtain ⟨hlow', hhigh'⟩ := abs_le.mp hhi
    exact abs_le.mpr ⟨by linarith, by linarith⟩
  have hnearest : IsNearest (value lo + value (offset lo hi n n)) (value (place lo hi n n)) :=
    (h.rounds_lo_add (h.offset_finite hfinite le_rfl)).isNearest (h.place_finite hfinite le_rfl)
  have hlast := hnearest.abs_sub_le (by omega) hsum
  rw [hscale (k + 1 - 54) 0 (by omega)] at hlast
  rw [hscale (k - 50) 3 (by omega)]
  obtain ⟨hlow, hhigh⟩ := abs_lt.mp herror
  obtain ⟨hlow', hhigh'⟩ := abs_le.mp hlast
  exact abs_le.mpr ⟨by linarith, by linarith⟩

end Finite

/-- If the width and the last product are doubles, nothing is rounded on the way to the last
position. -/
theorem value_place_of_exact (h : Admissible lo hi n) (hd : IsBinary (value hi - value lo))
    (hs : IsBinary ((value hi - value lo) * n)) (hlt : (value hi - value lo) * n < 2 ^ (1024 : ℤ)) :
    (stretched lo hi n).isFinite = true ∧ value (place lo hi n n) = value hi := by
  have hpos := h.gap_pos
  have hsmall : |value hi - value lo| < 2 ^ (1024 : ℤ) := by
    rw [abs_of_pos hpos]
    exact (le_mul_of_one_le_right hpos.le h.one_le_steps).trans_lt hlt
  obtain ⟨hw, hwidth⟩ := h.rounds_width.exact hd hsmall
  have hrounds := h.rounds_stretched hw le_rfl
  rw [hwidth] at hrounds
  obtain ⟨hfinite, hstretched⟩ := hrounds.exact hs
    (by rwa [abs_of_pos (mul_pos hpos h.steps_pos)])
  refine ⟨hfinite, ?_⟩
  have hoffset : value (offset lo hi n n) = value hi - value lo := by
    have hquotient := h.rounds_div_steps hfinite
    rw [hstretched, mul_div_cancel_right₀ _ h.steps_pos.ne'] at hquotient
    exact hquotient.value_eq (h.offset_finite hfinite le_rfl) hd
  have hsum := h.rounds_lo_add (h.offset_finite hfinite le_rfl)
  rw [hoffset, add_sub_cancel] at hsum
  exact hsum.value_eq (h.place_finite hfinite le_rfl) (isBinary_value h.hi_finite)

/-- The multiplied width is finite if it is not near the end of the range. -/
theorem stretched_finite_of_le (h : Admissible lo hi n)
    (hle : (value hi - value lo) * n ≤ 2 ^ (1022 : ℤ)) :
    (stretched lo hi n).isFinite = true := by
  have hpos := h.gap_pos
  have hsplit : (2 : ℚ) ^ (1023 : ℤ) = 2 ^ (1022 : ℤ) * 2 := zpow_add_one₀ two_ne_zero 1022
  have hw : (hi - lo).isFinite = true := by
    refine h.rounds_width.isFinite_of_abs_le ?_
    rw [abs_of_pos hpos, hsplit]
    exact ((le_mul_of_one_le_right hpos.le h.one_le_steps).trans hle).trans
      (le_mul_of_one_le_right (zpow_pos two_pos _).le one_le_two)
  have hpos' := h.width_pos hw
  -- zero is not nearer to the exact width than the rounded one
  have hdouble : value (hi - lo) ≤ (value hi - value lo) * 2 := by
    have hzero := (h.rounds_width.isNearest hw).le 0 isBinary_zero
    rw [zero_sub, abs_neg, abs_of_pos hpos] at hzero
    linarith only [(abs_le.mp hzero).2]
  refine (h.rounds_stretched hw le_rfl).isFinite_of_abs_le ?_
  rw [abs_of_pos (mul_pos hpos' h.steps_pos), hsplit]
  calc value (hi - lo) * n ≤ (value hi - value lo) * 2 * n :=
        mul_le_mul_of_nonneg_right hdouble h.steps_pos.le
    _ = (value hi - value lo) * n * 2 := mul_right_comm _ _ _
    _ ≤ 2 ^ (1022 : ℤ) * 2 := mul_le_mul_of_nonneg_right hle two_pos.le

/-! ## Whole axes -/

theorem finite_iff (h : Admissible lo hi n) :
    (∀ u ∈ axis lo hi n, u.isFinite = true) ↔ (stretched lo hi n).isFinite = true := by
  rw [forall_mem_axis]
  constructor
  · intro hall
    have hoffset : (offset lo hi n n).isFinite = true := (isFinite_of_add (hall n le_rfl)).2
    exact isFinite_of_div hoffset
  · intro hfinite i hi'
    exact h.place_finite hfinite hi'

theorem sorted (h : Admissible lo hi n) (hfinite : (stretched lo hi n).isFinite = true) :
    (axis lo hi n).Pairwise (· ≤ ·) := by
  rw [axis_eq, List.pairwise_map]
  refine List.pairwise_lt_range.imp_of_mem fun {i j} hi' hj hij => ?_
  have hi' := Nat.lt_succ_iff.mp (List.mem_range.mp hi')
  have hj := Nat.lt_succ_iff.mp (List.mem_range.mp hj)
  rw [le_iff_value (h.place_finite hfinite hi') (h.place_finite hfinite hj)]
  exact h.place_le hfinite hij.le hj

theorem lo_le (h : Admissible lo hi n) (hfinite : (stretched lo hi n).isFinite = true) :
    ∀ u ∈ axis lo hi n, lo ≤ u := by
  rw [forall_mem_axis]
  intro i hi'
  rw [le_iff_value h.lo_finite (h.place_finite hfinite hi'), ← h.value_place_zero hfinite]
  exact h.place_le hfinite i.zero_le hi'

theorem place_zero_beq (h : Admissible lo hi n) (hfinite : (stretched lo hi n).isFinite = true) :
    (place lo hi n 0 == lo) = true :=
  (beq_iff_value (h.place_finite hfinite n.zero_le) h.lo_finite).mpr (h.value_place_zero hfinite)

/-- An axis covers its interval if its last position is the upper end. -/
theorem covers_iff (h : Admissible lo hi n) :
    Covers lo hi (axis lo hi n) ↔ (place lo hi n n == hi) = true := by
  constructor
  · intro hcovers
    obtain ⟨u, hu, hbeq⟩ := hcovers.last
    rw [getLast?_axis, Option.some.injEq] at hu
    rwa [hu]
  · intro hbeq
    have hlast := isFinite_of_beq h.hi_finite hbeq
    have hfinite : (stretched lo hi n).isFinite = true :=
      isFinite_of_div (isFinite_of_add hlast).2
    have hvalue := (beq_iff_value hlast h.hi_finite).mp hbeq
    refine ⟨h.finite_iff.mpr hfinite, h.sorted hfinite, fun u hu => ⟨h.lo_le hfinite u hu, ?_⟩,
      ⟨_, head?_axis lo hi n, h.place_zero_beq hfinite⟩, ⟨_, getLast?_axis lo hi n, hbeq⟩⟩
    revert u
    rw [forall_mem_axis]
    intro i hi'
    rw [le_iff_value (h.place_finite hfinite hi') h.hi_finite, ← hvalue]
    exact h.place_le hfinite hi' le_rfl

end Admissible

/-- What holds of the positions of an accepted axis. The first one is the lower end and the others
follow in order, all of them finite unless the multiplied width is too large. The last one is near
the upper end; if it is the upper end, the axis covers its interval, as it does if the width and its
product with the number of steps are doubles. -/
structure Spans (lo hi : Float) (steps : ℕ) (us : List Float) : Prop where
  length : us.length = steps + 1
  finite_iff : (∀ u ∈ us, u.isFinite = true) ↔ ((hi - lo) * Float.ofNat steps).isFinite = true
  finite : (value hi - value lo) * steps ≤ 2 ^ (1022 : ℤ) → ∀ u ∈ us, u.isFinite = true
  sorted : (∀ u ∈ us, u.isFinite = true) → us.Pairwise (· ≤ ·) ∧ ∀ u ∈ us, lo ≤ u
  first : (∀ u ∈ us, u.isFinite = true) → ∃ u, us.head? = some u ∧ (u == lo) = true
  last : (∀ u ∈ us, u.isFinite = true) → ∃ u, us.getLast? = some u ∧
    ∀ k : ℤ, -1021 ≤ k → |value lo| ≤ 2 ^ k → |value hi| ≤ 2 ^ k →
      |value u - value hi| ≤ 2 ^ (k - 50)
  covers_iff : Covers lo hi us ↔ ∃ u, us.getLast? = some u ∧ (u == hi) = true
  covers : IsBinary (value hi - value lo) → IsBinary ((value hi - value lo) * steps) →
    (value hi - value lo) * steps < 2 ^ (1024 : ℤ) → Covers lo hi us

theorem Admissible.spans {lo hi : Float} {n : ℕ} (h : Admissible lo hi n) :
    Spans lo hi n (axis lo hi n) where
  length := length_axis lo hi n
  finite_iff := h.finite_iff
  finite := fun hle => h.finite_iff.mpr (h.stretched_finite_of_le hle)
  sorted := fun hall => ⟨h.sorted (h.finite_iff.mp hall), h.lo_le (h.finite_iff.mp hall)⟩
  first := fun hall => ⟨_, head?_axis lo hi n, h.place_zero_beq (h.finite_iff.mp hall)⟩
  last := fun hall => ⟨_, getLast?_axis lo hi n, fun _ hk hlo hhi =>
    h.abs_place_sub_le (h.finite_iff.mp hall) hk hlo hhi⟩
  covers_iff := by
    rw [h.covers_iff, getLast?_axis]
    simp only [Option.some.injEq, exists_eq_left']
  covers := by
    intro hd hs hlt
    obtain ⟨hfinite, hvalue⟩ := h.value_place_of_exact hd hs hlt
    rw [h.covers_iff, beq_iff_value (h.place_finite hfinite le_rfl) h.hi_finite]
    exact hvalue

/-- Between ends that are far apart the width alone is too large. -/
example : ((1e308 - -1e308) * Float.ofNat 4 : Float).isFinite = false := by decide +kernel

/-! ## Accepted grids -/

theorem finiteBound_float_eq_ok {x : Float} {b : MeasuredBound}
    (h : finiteBound (.float x) = .ok b) :
    x.isFinite = true ∧ b.bound = .double x ∧ value x = b.units * 2 ^ (-1074 : ℤ) := by
  simp only [finiteBound, bound?, measure?] at h
  rcases hx : units? x with _ | n
  · rw [hx] at h
    cases h
  · rw [hx] at h
    cases h
    obtain ⟨hfinite, hvalue⟩ := units?_eq_some hx
    exact ⟨hfinite, rfl, hvalue⟩

theorem steps?_eq_some {v : Json} {n : ℕ} (h : steps? v = some n) : v = .int n ∧ 4 ≤ n := by
  cases v with
  | int k =>
    rw [steps?, Settings.minSteps] at h
    split at h
    · next hk =>
      obtain rfl := Option.some.inj h
      exact ⟨by rw [Int.toNat_of_nonneg (by omega)], by omega⟩
    · cases h
  | _ => cases h

/-- The axes of a grid that is accepted with doubles for its bounds. -/
theorem admissible_of_validate {a b c d : Float} {m n : Json} {g : Grid}
    (h : validate ⟨.float a, .float b, .float c, .float d, m, n⟩ = .ok g) :
    m = .int g.uSteps ∧ n = .int g.vSteps ∧
      g = ⟨.double a, .double b, .double c, .double d, g.uSteps, g.vSteps⟩ ∧
      Admissible a b g.uSteps ∧ Admissible c d g.vSteps := by
  rw [validate] at h
  obtain ⟨uMin, huMin, h⟩ := bind_eq_ok.mp h
  obtain ⟨uMax, huMax, h⟩ := bind_eq_ok.mp h
  obtain ⟨vMin, hvMin, h⟩ := bind_eq_ok.mp h
  obtain ⟨vMax, hvMax, h⟩ := bind_eq_ok.mp h
  obtain ⟨ha, ha', hav⟩ := finiteBound_float_eq_ok huMin
  obtain ⟨hb, hb', hbv⟩ := finiteBound_float_eq_ok huMax
  obtain ⟨hc, hc', hcv⟩ := finiteBound_float_eq_ok hvMin
  obtain ⟨hd, hd', hdv⟩ := finiteBound_float_eq_ok hvMax
  split at h
  · cases h
  next hordered =>
  rcases hm : steps? m with _ | i
  · rw [hm] at h
    cases h
  rcases hn : steps? n with _ | j
  · rw [hm, hn] at h
    cases h
  obtain ⟨rfl, hi⟩ := steps?_eq_some hm
  obtain ⟨rfl, hj⟩ := steps?_eq_some hn
  simp only [hm, hn] at h
  split at h
  · cases h
  next hcells =>
  rw [Settings.maxGridCells, not_lt] at hcells
  cases h
  have hlt : ∀ {k l : ℤ}, k < l → (k * 2 ^ (-1074 : ℤ) : ℚ) < l * 2 ^ (-1074 : ℤ) :=
    fun hkl => mul_lt_mul_of_pos_right (by exact_mod_cast hkl) (zpow_pos two_pos _)
  simp only [Bool.or_eq_true, decide_eq_true_eq, not_or, not_le] at hordered
  have hi' : i < 2 ^ 53 := by
    have hle : i * 4 ≤ i * j := Nat.mul_le_mul_left i hj
    omega
  have hj' : j < 2 ^ 53 := by
    have hle : 4 * j ≤ i * j := Nat.mul_le_mul_right j hi
    omega
  exact ⟨rfl, rfl, by rw [ha', hb', hc', hd'],
    ⟨ha, hb, by rw [hav, hbv]; exact hlt hordered.1, hi, hi'⟩,
    ⟨hc, hd, by rw [hcv, hdv]; exact hlt hordered.2, hj, hj'⟩⟩

/-- A grid over doubles is accepted if the bounds are in order and the steps in their range. -/
theorem validate_doubles {a b c d : Float} {i j k l : ℤ} {m n : ℕ} (ha : units? a = some i)
    (hb : units? b = some j) (hc : units? c = some k) (hd : units? d = some l) (hij : i < j)
    (hkl : k < l) (hm : 4 ≤ m) (hn : 4 ≤ n) (hcells : m * n ≤ 50000) :
    validate ⟨.float a, .float b, .float c, .float d, .int m, .int n⟩ =
      .ok ⟨.double a, .double b, .double c, .double d, m, n⟩ := by
  have hm' : (4 : ℤ) ≤ m := by exact_mod_cast hm
  have hn' : (4 : ℤ) ≤ n := by exact_mod_cast hn
  simp [validate, finiteBound, bound?, measure?, steps?, bind, Except.bind, Settings.minSteps,
    Settings.maxGridCells, ha, hb, hc, hd, not_le.mpr hij, not_le.mpr hkl, hm', hn',
    not_lt.mpr hcells]

end SurfaceStudio.Grid
