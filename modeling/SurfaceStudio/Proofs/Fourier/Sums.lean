import SurfaceStudio.Proofs.Fourier.Additions
import SurfaceStudio.Proofs.Reals
import Mathlib.Algebra.BigOperators.Group.Finset.Basic
/-!
# Series in exact arithmetic

Over the real numbers a sum does not depend on the order of its additions. The value of a series is
the mean and the sum of its waves, and a coefficient that is fitted to samples is a sum over the
places of one period.
-/

namespace SurfaceStudio.Fourier

/-! ## The value of a series -/

@[simp]
theorem Wave.value_cosine (k : ℕ) (t : ℝ) : (Wave.cosine k).value t = Real.cos (k * t) := rfl

@[simp]
theorem Wave.value_sine (k : ℕ) (t : ℝ) : (Wave.sine k).value t = Real.sin (k * t) := rfl

/-- Terms that are added one after another are added to what the sum begins with. -/
theorem foldl_add_eq {β : Type} (f : β → ℝ) (bs : List β) (x : ℝ) :
    bs.foldl (fun sum b => sum + f b) x = x + (bs.map f).sum := by
  induction bs generalizing x with
  | nil => simp
  | cons b bs ih => rw [List.foldl_cons, ih, List.map_cons, List.sum_cons, add_assoc]

theorem Series.value_eq (s : Series ℝ) (t : ℝ) :
    s.value t = s.constant / 2 + (s.waves.map fun w => w.1 * w.2.value t).sum :=
  foldl_add_eq (fun w : ℝ × Wave => w.1 * w.2.value t) s.waves s.mean

/-- Waves with coefficients that are given by their places, from harmonic `k` on. -/
theorem sum_harmonics (a b : ℕ → ℝ) (t : ℝ) (n k : ℕ) :
    ((harmonics k ((List.range n).map a) ((List.range n).map b)).map
        fun w => w.1 * w.2.value t).sum =
      ∑ i ∈ Finset.range n,
        (a i * Real.cos ((i + k : ℕ) * t) + b i * Real.sin ((i + k : ℕ) * t)) := by
  induction n generalizing a b k with
  | zero => simp [harmonics]
  | succ n ih =>
    have hshift (f : ℕ → ℝ) : (List.range (n + 1)).map f =
        f 0 :: (List.range n).map fun i => f (i + 1) := by
      rw [List.range_succ_eq_map, List.map_cons, List.map_map]
      rfl
    have hplace (i : ℕ) : i + (k + 1) = i + 1 + k := by omega
    rw [hshift a, hshift b, harmonics, List.map_cons, List.map_cons, List.sum_cons, List.sum_cons,
      ih, Finset.sum_range_succ', ← add_assoc, add_comm, Wave.value_cosine, Wave.value_sine,
      Nat.zero_add]
    simp only [hplace]

/-- The value of a series whose coefficients are given by their places. -/
theorem Series.value_ofPlaces (constant : ℝ) (a b : ℕ → ℝ) (n : ℕ) (t : ℝ) :
    (⟨constant, (List.range n).map a, (List.range n).map b⟩ : Series ℝ).value t =
      constant / 2 + ∑ i ∈ Finset.range n,
        (a i * Real.cos ((i + 1 : ℕ) * t) + b i * Real.sin ((i + 1 : ℕ) * t)) := by
  rw [Series.value_eq]
  exact congrArg _ (sum_harmonics a b t n 1)

/-! ## Fitted coefficients -/

theorem sum_map_range (f : ℕ → ℝ) (n : ℕ) :
    ((List.range n).map f).sum = ∑ i ∈ Finset.range n, f i := rfl

/-- In exact arithmetic the order of the additions does not matter. -/
theorem AddsUp.eq_sum {xs : Multiset ℝ} {x : ℝ} (h : AddsUp xs x) : x = xs.sum := by
  induction h with
  | zero => rw [Scalar.zero_real, Multiset.sum_zero]
  | one x => rw [Multiset.sum_singleton]
  | add _ _ hx hy => rw [Multiset.sum_add, hx, hy]

theorem Series.sum_eq (xs : List ℝ) : Series.sum xs = xs.sum := by
  rw [(Series.addsUp_sum xs).eq_sum, Multiset.sum_coe]

/-- The places of one period. -/
theorem Series.angle_real (i n : ℕ) : (Series.angle i n : ℝ) = 2 * Real.pi * i / n := rfl

variable (f : ℕ → ℝ) (n : ℕ)

theorem Series.coefficient_eq (w : Wave) :
    Series.coefficient ((List.range n).map f) w =
      2 / n * ∑ i ∈ Finset.range n, w.value (Series.angle i n) * f i := by
  have hproducts : (((List.range n).map f).mapIdx fun i x => w.value (Series.angle i n : ℝ) * x) =
      (List.range n).map fun i => w.value (Series.angle i n : ℝ) * f i := by
    refine List.ext_getElem (by simp) fun i _ _ => ?_
    simp
  rw [Series.coefficient, List.length_map, List.length_range, Series.sum_eq, hproducts,
    sum_map_range]
  rfl

/-- The series that fits as many samples as are needed to have one. -/
theorem Series.ofSamples_eq (hn : n ≠ 0) (k : ℕ) :
    Series.ofSamples ((List.range n).map f) k = .ok {
      constant := 2 / n * ∑ i ∈ Finset.range n, f i
      cosines := (List.range k).map fun j =>
        2 / n * ∑ i ∈ Finset.range n, Real.cos ((j + 1 : ℕ) * Series.angle i n) * f i
      sines := (List.range k).map fun j =>
        2 / n * ∑ i ∈ Finset.range n, Real.sin ((j + 1 : ℕ) * Series.angle i n) * f i } := by
  have hsome : ((List.range n).map f).isEmpty = false := by simpa using hn
  rw [Series.ofSamples, hsome, if_neg (by decide), List.length_map, List.length_range]
  simp only [Series.coefficient_eq, Series.sum_eq, sum_map_range, Wave.value_cosine,
    Wave.value_sine]
  rfl

end SurfaceStudio.Fourier
