import Mathlib.Logic.Equiv.Defs
import SurfaceStudio.Fourier.Fit
import SurfaceStudio.Proofs.Fourier.Sums
/-!
# Curves on a canvas

Over the real numbers a canvas with sides above zero and its frame correspond to each other point by
point: what one function maps into the frame, the other one maps back. So a curve is traced through a
point of a stroke exactly at those angles at which its series take the coordinates that the point was
fitted with. Both coordinates have one unit, half of the shorter side, which lengths are divided by.
-/

namespace SurfaceStudio

attribute [ext] Point

/-- The distance of two points. -/
noncomputable def Point.distance (p q : Point ℝ) : ℝ :=
  √((p.x - q.x) ^ 2 + (p.y - q.y) ^ 2)

/-! ## The frame -/

namespace Canvas

/-- There is something to draw on. -/
structure IsOpen (c : Canvas ℝ) : Prop where
  width_pos : 0 < c.width
  height_pos : 0 < c.height

section

variable (c : Canvas ℝ) (p : Point ℝ)

theorem unit_eq : c.unit = min c.width c.height / 2 := by
  have hshorter : c.shorter = min c.width c.height := by
    rcases lt_or_ge c.height c.width with h | h
    · have hless : Scalar.less c.height c.width = true := decide_eq_true h
      rw [shorter, if_pos hless, min_eq_right h.le]
    · have hless : Scalar.less c.height c.width = false := decide_eq_false h.not_gt
      rw [shorter, hless, min_eq_left h]
      rfl
  rw [unit, hshorter, Scalar.half_real]

theorem toFrame_eq :
    c.toFrame p = ⟨(p.x - c.width / 2) / c.unit, (c.height / 2 - p.y) / c.unit⟩ := by
  rw [toFrame, Scalar.half_real, Scalar.half_real]

theorem ofFrame_eq :
    c.ofFrame p = ⟨c.width / 2 + p.x * c.unit, c.height / 2 - p.y * c.unit⟩ := by
  rw [ofFrame, Scalar.half_real, Scalar.half_real]

end

section

variable {c : Canvas ℝ} (hc : c.IsOpen)

include hc

theorem IsOpen.unit_pos : 0 < c.unit := by
  rw [unit_eq]
  exact half_pos (lt_min hc.width_pos hc.height_pos)

theorem IsOpen.ofFrame_toFrame (p : Point ℝ) : c.ofFrame (c.toFrame p) = p := by
  have hunit : c.unit ≠ 0 := hc.unit_pos.ne'
  rw [toFrame_eq, ofFrame_eq]
  ext
  · show c.width / 2 + (p.x - c.width / 2) / c.unit * c.unit = p.x
    rw [div_mul_cancel₀ _ hunit, add_sub_cancel]
  · show c.height / 2 - (c.height / 2 - p.y) / c.unit * c.unit = p.y
    rw [div_mul_cancel₀ _ hunit, sub_sub_cancel]

theorem IsOpen.toFrame_ofFrame (p : Point ℝ) : c.toFrame (c.ofFrame p) = p := by
  have hunit : c.unit ≠ 0 := hc.unit_pos.ne'
  rw [ofFrame_eq, toFrame_eq]
  ext
  · show (c.width / 2 + p.x * c.unit - c.width / 2) / c.unit = p.x
    rw [add_sub_cancel_left, mul_div_cancel_right₀ _ hunit]
  · show (c.height / 2 - (c.height / 2 - p.y * c.unit)) / c.unit = p.y
    rw [sub_sub_cancel, mul_div_cancel_right₀ _ hunit]

end

/-- The points of a canvas and the points of its frame. -/
noncomputable def frame {c : Canvas ℝ} (hc : c.IsOpen) : Point ℝ ≃ Point ℝ where
  toFun := c.toFrame
  invFun := c.ofFrame
  left_inv := hc.ofFrame_toFrame
  right_inv := hc.toFrame_ofFrame

section

variable (c : Canvas ℝ) (p q : Point ℝ)

theorem toFrame_x_sub : (c.toFrame p).x - (c.toFrame q).x = (p.x - q.x) / c.unit := by
  rw [toFrame_eq, toFrame_eq, ← sub_div, sub_sub_sub_cancel_right]

/-- The second coordinate of the frame goes the other way. -/
theorem toFrame_y_sub : (c.toFrame p).y - (c.toFrame q).y = (q.y - p.y) / c.unit := by
  rw [toFrame_eq, toFrame_eq, ← sub_div, sub_sub_sub_cancel_left]

theorem IsOpen.distance_toFrame {c : Canvas ℝ} (hc : c.IsOpen) :
    (c.toFrame p).distance (c.toFrame q) = p.distance q / c.unit := by
  have hunit : 0 < c.unit := hc.unit_pos
  have hsquares : ((p.x - q.x) / c.unit) ^ 2 + ((q.y - p.y) / c.unit) ^ 2 =
      ((p.x - q.x) ^ 2 + (p.y - q.y) ^ 2) / c.unit ^ 2 := by
    ring
  rw [Point.distance, toFrame_x_sub, toFrame_y_sub, hsquares, Real.sqrt_div' _ (sq_nonneg _),
    Real.sqrt_sq hunit.le, Point.distance]

end

end Canvas

/-! ## Traces -/

namespace Fourier

/-- A series takes the same value at both ends of a period. -/
theorem Series.value_angle_last (s : Series ℝ) {n : ℕ} (hn : 0 < n) :
    s.value (Series.angle n n) = s.value (Series.angle 0 n) := by
  have hn' : (n : ℝ) ≠ 0 := Nat.cast_ne_zero.mpr hn.ne'
  have hlast : (Series.angle n n : ℝ) = 2 * Real.pi := by
    rw [Series.angle_real, mul_div_cancel_right₀ _ hn']
  have hfirst : (Series.angle 0 n : ℝ) = 0 := by
    rw [Series.angle_real, Nat.cast_zero, mul_zero, zero_div]
  have hwave (w : Wave) : w.value (2 * Real.pi) = w.value 0 := by
    cases w with
    | cosine k => rw [Wave.value_cosine, Wave.value_cosine, Real.cos_nat_mul_two_pi, mul_zero,
        Real.cos_zero]
    | sine k =>
      have hsine : Real.sin (k * (2 * Real.pi)) = 0 := by
        have h := Real.sin_nat_mul_pi (k * 2)
        rwa [Nat.cast_mul, Nat.cast_ofNat, mul_assoc] at h
      rw [Wave.value_sine, Wave.value_sine, hsine, mul_zero, Real.sin_zero]
  rw [hlast, hfirst, Series.value_eq, Series.value_eq]
  simp only [hwave]

variable (x y : Series ℝ) (c : Canvas ℝ) (n : ℕ)

theorem length_trace : (trace x y c n).length = n + 1 := by
  rw [trace, List.length_map, List.length_range]

theorem getElem?_trace {i : ℕ} (hi : i ≤ n) : (trace x y c n)[i]? =
    some (c.ofFrame ⟨x.value (Series.angle i n), y.value (Series.angle i n)⟩) := by
  rw [trace, List.getElem?_map, List.getElem?_range (Nat.lt_succ_of_le hi)]
  rfl

/-- A trace over a period, in some steps, has one point more than steps, and its last point is its
first one. At the angle of a point of it the series take the coordinates of a point of the stroke in
the frame exactly if the trace is at that point of the stroke itself. The frame has one unit for both
coordinates, half of the shorter side of the canvas, and its second coordinate goes upwards, so that
distances in it are the distances in pixels divided by the unit. -/
theorem trace_meets_stroke {c : Canvas ℝ} (hc : c.IsOpen) (points : List (Point ℝ))
    (x y : Series ℝ) {n : ℕ} (hn : 0 < n) :
    (trace x y c n).length = n + 1 ∧ (trace x y c n)[n]? = (trace x y c n)[0]? ∧
    (∀ i ≤ n, ∀ (j : ℕ) (p : Point ℝ), points[j]? = some p →
      ((points.map c.toFrame)[j]? = some
          ⟨x.value (2 * Real.pi * i / n), y.value (2 * Real.pi * i / n)⟩ ↔
        (trace x y c n)[i]? = some p)) ∧
    ∀ p q : Point ℝ,
      (c.toFrame p).x - (c.toFrame q).x = (p.x - q.x) / (min c.width c.height / 2) ∧
      (c.toFrame p).y - (c.toFrame q).y = -((p.y - q.y) / (min c.width c.height / 2)) ∧
      (c.toFrame p).distance (c.toFrame q) = p.distance q / (min c.width c.height / 2) := by
  refine ⟨length_trace x y c n, ?_, ?_, ?_⟩
  · rw [getElem?_trace x y c n le_rfl, getElem?_trace x y c n (Nat.zero_le n),
      x.value_angle_last hn, y.value_angle_last hn]
  · intro i hi j p hj
    rw [getElem?_trace x y c n hi, List.getElem?_map, hj, Series.angle_real, Option.map_some,
      Option.some.injEq, Option.some.injEq]
    -- the point in the frame and the point on the canvas determine each other
    exact (Canvas.frame hc).eq_symm_apply.symm.trans eq_comm
  · intro p q
    rw [← c.unit_eq, c.toFrame_x_sub, c.toFrame_y_sub, ← neg_div, neg_sub]
    exact ⟨rfl, rfl, hc.distance_toFrame p q⟩

/-- A quarter of the way round a circle on a wide canvas. -/
theorem trace_meets_stroke_quarter :
    (⟨400, 300⟩ : Canvas ℝ).IsOpen ∧ 0 < 4 ∧
    (trace ⟨0, [1], [0]⟩ ⟨0, [0], [1]⟩ (⟨400, 300⟩ : Canvas ℝ) 4)[1]? = some ⟨200, 0⟩ := by
  have hopen : (⟨400, 300⟩ : Canvas ℝ).IsOpen := ⟨by norm_num, by norm_num⟩
  obtain ⟨-, -, hmeets, -⟩ := trace_meets_stroke hopen [⟨350, 150⟩, ⟨200, 0⟩]
    ⟨0, [1], [0]⟩ ⟨0, [0], [1]⟩ (n := 4) (by decide)
  refine ⟨hopen, by decide, (hmeets 1 (by decide) 1 ⟨200, 0⟩ rfl).mp ?_⟩
  have hangle : 2 * Real.pi * (1 : ℕ) / (4 : ℕ) = Real.pi / 2 := by
    norm_num
    ring
  have hx : (⟨0, [1], [0]⟩ : Series ℝ).value (Real.pi / 2) = 0 := by
    rw [Series.value_eq]
    simp [Series.waves, harmonics]
  have hy : (⟨0, [0], [1]⟩ : Series ℝ).value (Real.pi / 2) = 1 := by
    rw [Series.value_eq]
    simp [Series.waves, harmonics]
  have hframe : (⟨400, 300⟩ : Canvas ℝ).toFrame ⟨200, 0⟩ = ⟨0, 1⟩ := by
    rw [Canvas.toFrame_eq, Canvas.unit_eq]
    norm_num
  rw [hangle, hx, hy]
  exact congrArg some hframe

end Fourier

end SurfaceStudio
