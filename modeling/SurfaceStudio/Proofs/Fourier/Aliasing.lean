import SurfaceStudio.Proofs.Fourier.Fit
import SurfaceStudio.Proofs.Fourier.Sums
/-!
# The series that fits a pure tone

Samples of a constant and one harmonic, spread evenly over a period and fitted in exact arithmetic.
Frequencies that differ by a multiple of the number of samples agree at all of them, and so do a
frequency and its negative up to the sign of the sine. The fit cannot tell such frequencies apart:
each coefficient holds the share of every frequency that its wave agrees with. As long as the
harmonic and the order together stay below the number of samples, no two of them agree, and the fit
is the tone itself. From there on it is not, whichever harmonic up to the order is taken.
-/

namespace SurfaceStudio.Fourier

open Series (angle)

/-! ## Sums over one period -/

/-- One for frequencies that agree at `n` places of a period, zero for others. -/
def agreement (n : ℕ) (j k : ℤ) : ℝ := if (n : ℤ) ∣ j - k then 1 else 0

theorem agreement_of_dvd {n : ℕ} {j k : ℤ} (h : (n : ℤ) ∣ j - k) : agreement n j k = 1 := if_pos h

theorem agreement_nonneg (n : ℕ) (j k : ℤ) : 0 ≤ agreement n j k := by
  rw [agreement]
  split
  · exact zero_le_one
  · exact le_refl 0

/-- Different frequencies that are not a number of places apart do not agree. -/
theorem agreement_of_near {n : ℕ} {j k : ℤ} (hlt : |j - k| < n) (hne : j ≠ k) :
    agreement n j k = 0 := by
  refine if_neg fun hdvd => hne ?_
  exact sub_eq_zero.mp (Int.eq_zero_of_abs_lt_dvd hdvd hlt)

variable {n : ℕ}

/-- A whole number of turns, in as many places. -/
theorem mul_angle (d : ℤ) (i : ℕ) (hn : n ≠ 0) :
    ((n * d : ℤ) : ℝ) * angle i n = (d * i : ℤ) * (2 * Real.pi) := by
  have hn : (n : ℝ) ≠ 0 := Nat.cast_ne_zero.mpr hn
  rw [Series.angle_real]
  push_cast
  field_simp

/-- The places of a frequency as an arithmetic progression. -/
theorem frequency_mul_angle (j : ℤ) (i : ℕ) :
    (j : ℝ) * angle i n = j * (2 * Real.pi) / n * i + 0 := by
  rw [Series.angle_real]
  ring

/-- The step of a frequency is no whole number of turns, unless it agrees with zero. -/
theorem step_ne_turns {j : ℤ} (hn : n ≠ 0) (h : ¬ (n : ℤ) ∣ j) (k : ℤ) :
    (j : ℝ) * (2 * Real.pi) / n ≠ k * (2 * Real.pi) := by
  intro heq
  have hn : (n : ℝ) ≠ 0 := Nat.cast_ne_zero.mpr hn
  have hpi := Real.two_pi_pos.ne'
  rw [div_eq_iff hn, mul_right_comm] at heq
  have hreal : (j : ℝ) = (k * n : ℤ) := by
    push_cast
    exact mul_right_cancel₀ hpi heq
  exact h ⟨k, by rw [Int.cast_inj.mp hreal, mul_comm]⟩

/-- The steps of a frequency come to half turns. -/
theorem sin_steps {j : ℤ} (hn : n ≠ 0) :
    Real.sin (n * (j * (2 * Real.pi) / n) / 2) = 0 := by
  have hn : (n : ℝ) ≠ 0 := Nat.cast_ne_zero.mpr hn
  rw [mul_div_cancel₀ _ hn, ← mul_assoc, mul_right_comm, mul_div_assoc, div_self two_ne_zero,
    mul_one]
  exact Real.sin_int_mul_pi j

theorem sum_cos_angle (hn : n ≠ 0) (j k : ℤ) :
    ∑ i ∈ Finset.range n, Real.cos ((j - k : ℤ) * angle i n) = n * agreement n j k := by
  by_cases h : (n : ℤ) ∣ j - k
  · obtain ⟨d, hd⟩ := id h
    have hone (i : ℕ) : Real.cos ((j - k : ℤ) * angle i n) = 1 := by
      rw [hd, mul_angle d i hn]
      exact Real.cos_int_mul_two_pi _
    rw [agreement_of_dvd h, Finset.sum_congr rfl fun i _ => hone i, Finset.sum_const,
      Finset.card_range, nsmul_one, mul_one]
  · rw [agreement, if_neg h, mul_zero]
    simp only [frequency_mul_angle]
    rw [Real.sum_cos n (step_ne_turns hn h), sin_steps hn, zero_mul, zero_div]

theorem sum_sin_angle (hn : n ≠ 0) (j : ℤ) :
    ∑ i ∈ Finset.range n, Real.sin (j * angle i n) = 0 := by
  by_cases h : (n : ℤ) ∣ j
  · obtain ⟨d, rfl⟩ := h
    refine Finset.sum_eq_zero fun i _ => ?_
    rw [mul_angle d i hn, ← mul_assoc, ← Int.cast_ofNat (R := ℝ) 2, ← Int.cast_mul]
    exact Real.sin_int_mul_pi _
  · simp only [frequency_mul_angle]
    rw [Real.sum_sin n (step_ne_turns hn h), sin_steps hn, zero_mul, zero_div]

/-- The sums of products are sums at the difference and at the sum of the frequencies. -/
theorem sum_cos_mul_cos (hn : n ≠ 0) (j k : ℤ) :
    ∑ i ∈ Finset.range n, Real.cos (j * angle i n) * Real.cos (k * angle i n) =
      n / 2 * (agreement n j k + agreement n j (-k)) := by
  have hproduct (i : ℕ) : Real.cos (j * angle i n) * Real.cos (k * angle i n) =
      (Real.cos ((j - k : ℤ) * angle i n) + Real.cos ((j - -k : ℤ) * angle i n)) / 2 := by
    rw [eq_div_iff two_ne_zero, mul_comm, ← mul_assoc, Real.two_mul_cos_mul_cos, ← sub_mul,
      ← add_mul, sub_neg_eq_add, Int.cast_sub, Int.cast_add]
  simp only [hproduct]
  rw [← Finset.sum_div, Finset.sum_add_distrib, sum_cos_angle hn, sum_cos_angle hn]
  ring

theorem sum_sin_mul_sin (hn : n ≠ 0) (j k : ℤ) :
    ∑ i ∈ Finset.range n, Real.sin (j * angle i n) * Real.sin (k * angle i n) =
      n / 2 * (agreement n j k - agreement n j (-k)) := by
  have hproduct (i : ℕ) : Real.sin (j * angle i n) * Real.sin (k * angle i n) =
      (Real.cos ((j - k : ℤ) * angle i n) - Real.cos ((j - -k : ℤ) * angle i n)) / 2 := by
    rw [eq_div_iff two_ne_zero, mul_comm, ← mul_assoc, Real.two_mul_sin_mul_sin, ← sub_mul,
      ← add_mul, sub_neg_eq_add, Int.cast_sub, Int.cast_add]
  simp only [hproduct]
  rw [← Finset.sum_div, Finset.sum_sub_distrib, sum_cos_angle hn, sum_cos_angle hn]
  ring

theorem sum_sin_mul_cos (hn : n ≠ 0) (j k : ℤ) :
    ∑ i ∈ Finset.range n, Real.sin (j * angle i n) * Real.cos (k * angle i n) = 0 := by
  have hproduct (i : ℕ) : Real.sin (j * angle i n) * Real.cos (k * angle i n) =
      (Real.sin ((j - k : ℤ) * angle i n) + Real.sin ((j + k : ℤ) * angle i n)) / 2 := by
    rw [eq_div_iff two_ne_zero, mul_comm, ← mul_assoc, Real.two_mul_sin_mul_cos, ← sub_mul,
      ← add_mul, Int.cast_sub, Int.cast_add]
  simp only [hproduct]
  rw [← Finset.sum_div, Finset.sum_add_distrib, sum_sin_angle hn, sum_sin_angle hn, add_zero,
    zero_div]

/-! ## Tones -/

/-- A constant and one harmonic. -/
structure Tone where
  constant : ℝ
  cosine : ℝ
  sine : ℝ
  harmonic : ℕ

namespace Tone

/-- The value of a tone at an angle. -/
noncomputable def value (v : Tone) (t : ℝ) : ℝ :=
  v.constant + v.cosine * Real.cos (v.harmonic * t) + v.sine * Real.sin (v.harmonic * t)

/-- The values of a tone at `n` places of a period. -/
noncomputable def samples (v : Tone) (n : ℕ) : List ℝ :=
  (List.range n).map fun i => v.value (angle i n)

/-- A tone as a series: no coefficient but those of its own harmonic. -/
def series (v : Tone) (order : ℕ) : Series ℝ where
  constant := 2 * v.constant
  cosines := (List.range order).map fun k => if k + 1 = v.harmonic then v.cosine else 0
  sines := (List.range order).map fun k => if k + 1 = v.harmonic then v.sine else 0

/-- What a fit to `n` samples makes of a tone. A harmonic takes in the constant and the waves of the
tone as far as it agrees with them. -/
def aliased (v : Tone) (n order : ℕ) : Series ℝ where
  constant := 2 * (v.constant + v.cosine * agreement n v.harmonic 0)
  cosines := (List.range order).map fun k =>
    2 * v.constant * agreement n (k + 1 : ℕ) 0 +
      v.cosine * (agreement n (k + 1 : ℕ) v.harmonic + agreement n (k + 1 : ℕ) (-v.harmonic))
  sines := (List.range order).map fun k =>
    v.sine * (agreement n (k + 1 : ℕ) v.harmonic - agreement n (k + 1 : ℕ) (-v.harmonic))

@[simp]
theorem length_samples (v : Tone) (n : ℕ) : (v.samples n).length = n := by
  rw [samples, List.length_map, List.length_range]

section Sums

variable (hn : n ≠ 0) (v : Tone) (k : ℕ)

include hn

theorem sum_value :
    ∑ i ∈ Finset.range n, v.value (angle i n) =
      n * (v.constant + v.cosine * agreement n v.harmonic 0) := by
  have hcos := sum_cos_angle hn v.harmonic 0
  have hsin := sum_sin_angle hn v.harmonic
  rw [sub_zero] at hcos
  push_cast at hcos hsin
  simp only [value]
  rw [Finset.sum_add_distrib, Finset.sum_add_distrib, ← Finset.mul_sum, ← Finset.mul_sum, hcos,
    hsin, Finset.sum_const, Finset.card_range, nsmul_eq_mul]
  ring

theorem sum_cos_value :
    ∑ i ∈ Finset.range n, Real.cos (k * angle i n) * v.value (angle i n) =
      n / 2 * (2 * v.constant * agreement n k 0 +
        v.cosine * (agreement n k v.harmonic + agreement n k (-v.harmonic))) := by
  have hconstant := sum_cos_angle hn k 0
  have hcos := sum_cos_mul_cos hn k v.harmonic
  have hsin := sum_sin_mul_cos hn v.harmonic k
  rw [sub_zero] at hconstant
  push_cast at hconstant hcos hsin
  have hsplit (t : ℝ) : Real.cos (k * t) * v.value t =
      v.constant * Real.cos (k * t) +
        v.cosine * (Real.cos (k * t) * Real.cos (v.harmonic * t)) +
        v.sine * (Real.sin (v.harmonic * t) * Real.cos (k * t)) := by
    rw [value]
    ring
  simp only [hsplit]
  rw [Finset.sum_add_distrib, Finset.sum_add_distrib, ← Finset.mul_sum, ← Finset.mul_sum,
    ← Finset.mul_sum, hconstant, hcos, hsin]
  ring

theorem sum_sin_value :
    ∑ i ∈ Finset.range n, Real.sin (k * angle i n) * v.value (angle i n) =
      n / 2 * (v.sine * (agreement n k v.harmonic - agreement n k (-v.harmonic))) := by
  have hconstant := sum_sin_angle hn k
  have hcos := sum_sin_mul_cos hn k v.harmonic
  have hsin := sum_sin_mul_sin hn k v.harmonic
  push_cast at hconstant hcos hsin
  have hsplit (t : ℝ) : Real.sin (k * t) * v.value t =
      v.constant * Real.sin (k * t) +
        v.cosine * (Real.sin (k * t) * Real.cos (v.harmonic * t)) +
        v.sine * (Real.sin (k * t) * Real.sin (v.harmonic * t)) := by
    rw [value]
    ring
  simp only [hsplit]
  rw [Finset.sum_add_distrib, Finset.sum_add_distrib, ← Finset.mul_sum, ← Finset.mul_sum,
    ← Finset.mul_sum, hconstant, hcos, hsin]
  ring

/-- A tone is fitted with its aliases. -/
theorem ofSamples_samples :
    Series.ofSamples (v.samples n) k = .ok (v.aliased n k) := by
  have hn' : (n : ℝ) ≠ 0 := Nat.cast_ne_zero.mpr hn
  have hcancel (x : ℝ) : 2 / n * (n / 2 * x) = x := by field_simp
  rw [samples, Series.ofSamples_eq _ n hn]
  simp only [sum_value hn, sum_cos_value hn, sum_sin_value hn, hcancel]
  rw [aliased, ← mul_assoc, div_mul_cancel₀ _ hn']

end Sums

/-! ## Recovery -/

variable {v : Tone} {order : ℕ}

/-- Below the number of samples no harmonic agrees with another wave of the tone. -/
theorem aliased_eq_series (hpos : 1 ≤ v.harmonic) (hlt : v.harmonic + order < n) :
    v.aliased n order = v.series order := by
  have hzero (k : ℕ) (hk : 0 < k) (hkn : k < n) : agreement n k 0 = 0 :=
    agreement_of_near (by rw [sub_zero, abs_of_nonneg] <;> omega) (by omega)
  have hopposite (k : ℕ) (hk : k < order) :
      agreement n (k + 1 : ℕ) (-v.harmonic) = 0 :=
    agreement_of_near (by rw [sub_neg_eq_add, abs_of_nonneg] <;> omega) (by omega)
  have hsame (k : ℕ) (hk : k < order) :
      agreement n (k + 1 : ℕ) v.harmonic = if k + 1 = v.harmonic then 1 else 0 := by
    split
    · next h => exact agreement_of_dvd (by rw [h, sub_self]; exact dvd_zero _)
    · next h => exact agreement_of_near (by rw [abs_lt]; omega) (by omega)
  rw [aliased, series, hzero v.harmonic hpos (by omega), mul_zero, add_zero]
  congr 1
  · refine List.map_congr_left fun k hk => ?_
    have hk := List.mem_range.mp hk
    rw [hzero (k + 1) (by omega) (by omega), hopposite k hk, hsame k hk, mul_zero, zero_add,
      add_zero, mul_ite, mul_one, mul_zero]
  · refine List.map_congr_left fun k hk => ?_
    have hk := List.mem_range.mp hk
    rw [hopposite k hk, hsame k hk, sub_zero, mul_ite, mul_one, mul_zero]

/-- The series of a tone has its values. -/
theorem value_series (hpos : 1 ≤ v.harmonic) (hle : v.harmonic ≤ order) (t : ℝ) :
    (v.series order).value t = v.value t := by
  obtain ⟨m, hm⟩ := Nat.exists_eq_add_of_le' hpos
  have hmem : m ∈ Finset.range order := Finset.mem_range.mpr (by omega)
  have hterm (k : ℕ) : (if k + 1 = v.harmonic then v.cosine else 0) * Real.cos ((k + 1 : ℕ) * t) +
      (if k + 1 = v.harmonic then v.sine else 0) * Real.sin ((k + 1 : ℕ) * t) =
      if k = m then v.cosine * Real.cos (v.harmonic * t) + v.sine * Real.sin (v.harmonic * t)
      else 0 := by
    by_cases h : k = m
    · rw [if_pos h, if_pos (by omega), if_pos (by omega), h, hm]
    · rw [if_neg h, if_neg (by omega), if_neg (by omega), zero_mul, zero_mul, add_zero]
  rw [series, Series.value_ofPlaces]
  simp only [hterm]
  rw [Finset.sum_ite_eq', if_pos hmem, mul_div_cancel_left₀ _ two_ne_zero, value, add_assoc]

/-- A cosine without a constant that is fitted as itself. -/
theorem agreements_of_fit {m : ℕ} (h : (⟨0, 1, 0, m⟩ : Tone).aliased n order =
    (⟨0, 1, 0, m⟩ : Tone).series order) :
    agreement n m 0 = 0 ∧ ∀ k < order,
      agreement n (k + 1 : ℕ) m + agreement n (k + 1 : ℕ) (-m) = if k + 1 = m then 1 else 0 := by
  rw [aliased, series, Series.mk.injEq] at h
  obtain ⟨hconstant, hcosines, -⟩ := h
  refine ⟨?_, fun k hk => ?_⟩
  · rwa [zero_add, one_mul, mul_zero, mul_eq_zero_iff_left two_ne_zero] at hconstant
  · have hplace := (List.map_inj_left.mp hcosines) k (List.mem_range.mpr hk)
    rwa [mul_zero, zero_mul, zero_add, one_mul] at hplace

/-- From the number of samples on, some harmonic of the order agrees with a cosine of another
frequency, or with the negative of its own. -/
theorem aliased_ne_series {m : ℕ} (hn : n ≠ 0) (hle : m ≤ order) (hge : n ≤ m + order) :
    (⟨0, 1, 0, m⟩ : Tone).aliased n order ≠ (⟨0, 1, 0, m⟩ : Tone).series order := by
  intro h
  obtain ⟨hconstant, hcosines⟩ := agreements_of_fit h
  rcases Nat.lt_trichotomy m n with hlt | rfl | hgt
  · -- the harmonic that the negative of the frequency agrees with
    obtain ⟨k, hk⟩ := Nat.exists_eq_add_of_lt hlt
    have hplace := hcosines k (by omega)
    have hnegative : agreement n (k + 1 : ℕ) (-m) = 1 :=
      agreement_of_dvd ⟨1, by rw [hk]; push_cast; ring⟩
    rw [hnegative] at hplace
    split at hplace
    · next heq =>
      have hown : agreement n (k + 1 : ℕ) m = 1 :=
        agreement_of_dvd (by rw [heq, sub_self]; exact dvd_zero _)
      rw [hown] at hplace
      norm_num at hplace
    · linarith [agreement_nonneg n (k + 1 : ℕ) m]
  · -- the waves of the tone agree with the constant
    rw [agreement_of_dvd (by rw [sub_zero])] at hconstant
    exact one_ne_zero hconstant
  · obtain ⟨k, hk⟩ := Nat.exists_eq_add_of_lt hgt
    have hplace := hcosines k (by omega)
    have hown : agreement n (k + 1 : ℕ) m = 1 :=
      agreement_of_dvd ⟨-1, by rw [hk]; push_cast; ring⟩
    rw [hown, if_neg (by omega)] at hplace
    linarith [agreement_nonneg n (k + 1 : ℕ) (-m)]

end Tone

/-! ## Fits -/

section

variable {k : ℕ} {order : Json} (hn : 16 ≤ n) (hk : clampOrder order = .ok k)

include hn hk

theorem harmonicsFor_of_clampOrder : harmonicsFor n n order = .ok k := by
  have hcount : checkCount n = .ok () := if_neg (Nat.not_lt.mpr hn)
  rw [harmonicsFor, if_neg (fun hne => hne rfl), hcount, hk]
  rfl

theorem fitSamples_samples (v w : Tone) :
    fitSamples (v.samples n) (w.samples n) order = .ok (v.aliased n k, w.aliased n k) := by
  rw [fitSamples, v.length_samples, w.length_samples, harmonicsFor_of_clampOrder hn hk]
  show (do
    let x ← faulting (Series.ofSamples (v.samples n) k)
    let y ← faulting (Series.ofSamples (w.samples n) k)
    return (x, y)) = _
  rw [v.ofSamples_samples (by omega), w.ofSamples_samples (by omega)]
  rfl

/-- A fit of tones has the aliases of the tones. They are the tones, as series and at every angle,
for each harmonic that stays below the number of samples together with the order, and no other
harmonic up to the order is recovered from all of its tones. -/
theorem fit_recovers_iff :
    (∀ v : Tone, Series.ofSamples (v.samples n) k = .ok (v.aliased n k)) ∧
    (∀ v w : Tone,
      fitSamples (v.samples n) (w.samples n) order = .ok (v.aliased n k, w.aliased n k)) ∧
    ∀ m, 1 ≤ m → m ≤ k →
      (m + k < n → ∀ v : Tone, v.harmonic = m →
        v.aliased n k = v.series k ∧ ∀ t, (v.aliased n k).value t = v.value t) ∧
      (n ≤ m + k → ∃ v : Tone, v.harmonic = m ∧ v.aliased n k ≠ v.series k) := by
  refine ⟨fun v => v.ofSamples_samples (by omega) k, fitSamples_samples hn hk,
    fun m hpos hle => ⟨?_, fun hge => ?_⟩⟩
  · rintro hlt v rfl
    have hseries := Tone.aliased_eq_series hpos hlt
    exact ⟨hseries, fun t => by rw [hseries, Tone.value_series hpos hle]⟩
  · exact ⟨⟨0, 1, 0, m⟩, rfl, Tone.aliased_ne_series (by omega) hle hge⟩

end

/-- The highest harmonic of order seven, in as few samples as a fit takes. -/
theorem fit_recovers_seventh :
    clampOrder (.int 7) = .ok 7 ∧ ∃ s,
      fitSamples ((⟨1, 2, 3, 7⟩ : Tone).samples 16) ((⟨1, 2, 3, 7⟩ : Tone).samples 16)
        (.int 7) = .ok (s, s) ∧
      s = ⟨2, [0, 0, 0, 0, 0, 0, 2], [0, 0, 0, 0, 0, 0, 3]⟩ ∧
      ∀ t, s.value t = 1 + 2 * Real.cos (7 * t) + 3 * Real.sin (7 * t) := by
  have horder : clampOrder (.int 7) = .ok 7 := rfl
  obtain ⟨-, hfit, hrecover⟩ := fit_recovers_iff (n := 16) (by decide) horder
  obtain ⟨hseries, hvalue⟩ := (hrecover 7 (by decide) (by decide)).1 (by decide) ⟨1, 2, 3, 7⟩ rfl
  refine ⟨horder, _, hfit _ _, hseries.trans ?_, hvalue⟩
  simp [Tone.series, List.range_succ]

/-- Samples that alternate between one and minus one are those of the eighth cosine. Of order eight
its coefficient is fitted as two. -/
theorem fit_doubles_alternation :
    (⟨0, 1, 0, 8⟩ : Tone).samples 16 = (List.range 16).map (fun i => (-1) ^ i) ∧
      ∃ s, fitSamples ((⟨0, 1, 0, 8⟩ : Tone).samples 16) ((⟨0, 1, 0, 8⟩ : Tone).samples 16)
          (.int 8) = .ok (s, s) ∧
        s.cosines[7]? = some 2 ∧ ((⟨0, 1, 0, 8⟩ : Tone).series 8).cosines[7]? = some 1 := by
  refine ⟨List.map_congr_left fun i _ => ?_, _,
    fitSamples_samples (k := 8) (by decide) rfl _ _, ?_, ?_⟩
  · have hangle : (8 : ℕ) * (angle i 16 : ℝ) = i * Real.pi := by
      rw [Series.angle_real]
      push_cast
      ring
    rw [Tone.value, hangle, Real.cos_nat_mul_pi]
    ring
  · have hown : agreement 16 (8 : ℕ) 8 = 1 := agreement_of_dvd (by decide)
    have hnegative : agreement 16 (8 : ℕ) (-8) = 1 := agreement_of_dvd (by decide)
    have hplace : ((⟨0, 1, 0, 8⟩ : Tone).aliased 16 8).cosines[7]? = some (2 * 0 *
        agreement 16 (8 : ℕ) 0 + 1 * (agreement 16 (8 : ℕ) 8 + agreement 16 (8 : ℕ) (-8))) := rfl
    rw [hplace, hown, hnegative]
    norm_num
  · simp [Tone.series, List.range_succ]

end SurfaceStudio.Fourier
