import SurfaceStudio.Fourier.Fit
import SurfaceStudio.Proofs.Outcomes
/-!
# What a fit has

The number of harmonics is moved into its range before anything is computed, both series have that
many of them, and no fit is made of too few points.
-/

namespace SurfaceStudio.Fourier

/-! ## The number of harmonics -/

theorem clampInteger_mem (n : Int) : 1 ≤ clampInteger n ∧ clampInteger n ≤ 60 := by
  simp only [clampInteger, Settings.minFourierOrder, Settings.maxFourierOrder]
  omega

/-- A submitted order that is accepted comes out in its range. -/
theorem clampOrder_mem {v : Json} {k : Nat} (h : clampOrder v = .ok k) : 1 ≤ k ∧ k ≤ 60 := by
  unfold clampOrder at h
  split at h
  · -- without an order the default one is taken
    cases h
    decide
  · rcases hn : integerOf v with fault | n
    · rw [hn] at h
      cases h
    · rw [hn] at h
      cases h
      exact clampInteger_mem n

theorem le_of_checkCount {count : Nat} {r : Unit} (h : checkCount count = .ok r) :
    16 ≤ count := by
  rw [checkCount] at h
  split at h
  · cases h
  · next hcount => exact Nat.le_of_not_lt hcount

theorem harmonicsFor_eq_ok {m n : Nat} {order : Json} {k : Nat}
    (h : harmonicsFor m n order = .ok k) : clampOrder order = .ok k := by
  rw [harmonicsFor] at h
  split at h
  · cases h
  · obtain ⟨_, -, h⟩ := bind_eq_ok.mp h
    exact faulting_eq_ok.mp h

/-! ## Series -/

/-- A series with `k` coefficients of either kind. -/
structure Series.HasOrder {α : Type} (s : Series α) (k : Nat) : Prop where
  cosines : s.cosines.length = k
  sines : s.sines.length = k

section

variable {α : Type} [Scalar α]

theorem Series.ofSamples_hasOrder {samples : List α} {k : Nat} {s : Series α}
    (h : Series.ofSamples samples k = .ok s) : s.HasOrder k := by
  rw [Series.ofSamples] at h
  split at h
  · cases h
  · cases h
    exact ⟨by rw [List.length_map, List.length_range], by rw [List.length_map, List.length_range]⟩

theorem fitSamples_hasOrder {xs ys : List α} {order : Json} {x y : Series α}
    (h : fitSamples xs ys order = .ok (x, y)) :
    ∃ k, clampOrder order = .ok k ∧ x.HasOrder k ∧ y.HasOrder k := by
  -- one order is read, and both series are made with it
  obtain ⟨k, hk, h⟩ := bind_eq_ok.mp h
  obtain ⟨x', hx, h⟩ := bind_eq_ok.mp h
  obtain ⟨y', hy, h⟩ := bind_eq_ok.mp h
  cases h
  exact ⟨k, harmonicsFor_eq_ok hk, Series.ofSamples_hasOrder (faulting_eq_ok.mp hx),
    Series.ofSamples_hasOrder (faulting_eq_ok.mp hy)⟩

end

/-! ## Fits -/

/-- A fit of as many points as are needed, with the order that was asked for moved into its range,
and with the expressions of its series. -/
structure Fit.IsProper (f : Fit) (order : Json) : Prop where
  orders : ∃ k, clampOrder order = .ok k ∧ 1 ≤ k ∧ k ≤ 60 ∧ f.x.HasOrder k ∧ f.y.HasOrder k
  samples : 16 ≤ f.sampleCount
  textX : f.expressionX = f.x.expression "u"
  textY : f.expressionY = f.y.expression "u"

theorem Fit.ofPoints_isProper {points : List (Point Float)} {canvas : Canvas Float} {order : Json}
    {f : Fit} (h : Fit.ofPoints points canvas order = .ok f) :
    f.IsProper order ∧ f.sampleCount = points.length := by
  obtain ⟨_, hcount, h⟩ := bind_eq_ok.mp h
  obtain ⟨⟨x, y⟩, hxy, h⟩ := bind_eq_ok.mp h
  cases h
  obtain ⟨k, hk, hx, hy⟩ := fitSamples_hasOrder hxy
  have hrange := clampOrder_mem hk
  have hsamples := le_of_checkCount (refusing_eq_ok.mp hcount)
  exact ⟨⟨⟨k, hk, hrange.1, hrange.2, hx, hy⟩, hsamples, rfl, rfl⟩, rfl⟩

theorem Fit.ofStroke_isProper {points : List (Point Float)} {canvas : Canvas Json} {order : Json}
    {f : Fit} (h : Fit.ofStroke points canvas order = .ok f) :
    f.IsProper order ∧ f.sampleCount = points.length := by
  obtain ⟨_, -, h⟩ := bind_eq_ok.mp h
  obtain ⟨c, -, h⟩ := bind_eq_ok.mp h
  exact Fit.ofPoints_isProper h

end SurfaceStudio.Fourier
