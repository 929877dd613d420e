import SurfaceStudio.Proofs.Decimal.Written
import SurfaceStudio.Proofs.Fourier.Rendering
import SurfaceStudio.Proofs.Fourier.Sums
/-!
# How close a rendered series is to the series

A rendered series is compared with the series in exact arithmetic. Every coefficient is off by one
ten-thousandth at most: one that is too small is left out, and one that is written is rounded to
four places and read as a double. A harmonic puts its two coefficients on a cosine and a sine, whose
magnitudes come to the square root of two together, and so the harmonics and the mean add up. Up to
six harmonics this is less than one thousandth, and with seven it may be more.
-/

namespace SurfaceStudio.Fourier

open Decimal (value)

/-! ## One coefficient -/

/-- The number that is written for a coefficient, with its sign. -/
noncomputable def signedMagnitude (x : Float) : ℝ :=
  if x < 0 then -Scalar.literal (writtenMagnitude x) else Scalar.literal (writtenMagnitude x)

/-- What stands for a coefficient in an expression: nothing if it is too small. -/
noncomputable def writtenCoefficient (x : Float) : ℝ :=
  if Settings.coefficientEpsilon ≤ x.abs then signedMagnitude x else 0

section Coefficients

variable {x : Float} (hx : x.isFinite = true)

include hx

theorem abs_signedMagnitude_sub_le : |signedMagnitude x - value x| ≤ 1 / 10 ^ 4 := by
  obtain ⟨n, -, -, hunits, -⟩ := Decimal.fixed_abs hx
  have hread := (Rat.cast_le (K := ℝ)).mpr (Decimal.abs_read_sub_le hx hunits)
  rw [← writtenMagnitude_of_units hunits, Decimal.value_abs] at hread
  push_cast at hread
  have hnegative : x < 0 ↔ value x < 0 := Decimal.lt_iff_value hx (y := 0) rfl
  rw [signedMagnitude, Scalar.literal_real]
  split
  · next h =>
    have hvalue : (value x : ℝ) < 0 := by exact_mod_cast hnegative.mp h
    rw [abs_of_neg hvalue] at hread
    rwa [← abs_neg, neg_sub', neg_neg]
  · next h =>
    have hvalue : 0 ≤ (value x : ℝ) := by exact_mod_cast not_lt.mp fun hlt => h (hnegative.mpr hlt)
    rwa [abs_of_nonneg hvalue] at hread

theorem abs_writtenCoefficient_sub_le : |writtenCoefficient x - value x| ≤ 1 / 10 ^ 4 := by
  rw [writtenCoefficient]
  split
  · exact abs_signedMagnitude_sub_le hx
  · next h =>
    have hsmall := (Rat.cast_le (K := ℝ)).mpr (Decimal.value_lt_of_not_epsilon_le hx h).le
    rw [Decimal.value_abs] at hsmall
    push_cast at hsmall
    rwa [zero_sub, abs_neg]

/-- Half of a double is exact, unless it is among the least of all doubles. -/
theorem half_exact_or_small : value (x / 2) = value x / 2 ∨
    |value x / 2| ≤ 2 ^ (-1022 : ℤ) ∧ |value (x / 2)| ≤ 2 ^ (-1022 : ℤ) := by
  obtain ⟨htwo, hvalue⟩ := Decimal.value_ofNat (n := 2) (by decide)
  have hrounds : Decimal.Rounds (value x / 2) (x / 2) := by
    have hrounds := Decimal.rounds_div hx htwo (by rw [hvalue]; norm_num)
    rwa [hvalue] at hrounds
  have hnearest := hrounds.isNearest (Decimal.isFinite_half hx)
  obtain ⟨k, e, hk, he, hbinary⟩ := Decimal.isBinary_value hx
  by_cases hleast : e = -1074
  · have hsmall : |value x / 2| ≤ 2 ^ (-1022 : ℤ) := by
      have hk : |(k : ℚ)| ≤ 2 ^ (53 : ℤ) := by exact_mod_cast hk.le
      have hlast : (0 : ℚ) < 2 ^ (-1074 : ℤ) := zpow_pos two_pos _
      calc |value x / 2| = |(k : ℚ)| * 2 ^ (-1074 : ℤ) / 2 := by
            rw [hbinary, hleast, abs_div, abs_mul, abs_of_pos hlast, abs_two]
        _ ≤ 2 ^ (53 : ℤ) * 2 ^ (-1074 : ℤ) / 2 := by gcongr
        _ = 2 ^ (-1022 : ℤ) := by
            rw [← zpow_add₀ two_ne_zero, div_eq_iff two_ne_zero, ← zpow_add_one₀ two_ne_zero]
            norm_num
    exact .inr ⟨hsmall, hnearest.abs_le_of_le (Decimal.isBinary_two_zpow (by norm_num)) hsmall⟩
  · refine .inl (hnearest.eq_of_isBinary ⟨k, e - 1, hk, by omega, ?_⟩)
    rw [hbinary, zpow_sub_one₀ two_ne_zero, mul_div_assoc, div_eq_mul_inv]

/-- The mean is no farther from what stands for it than any coefficient. -/
theorem abs_writtenCoefficient_half_sub_le :
    |writtenCoefficient (x / 2) - (value x : ℝ) / 2| ≤ 1 / 10 ^ 4 := by
  rcases half_exact_or_small hx with hexact | ⟨hsmall, hwritten⟩
  · have hcoefficient := abs_writtenCoefficient_sub_le (x := x / 2) (Decimal.isFinite_half hx)
    rw [hexact] at hcoefficient
    push_cast at hcoefficient
    exact hcoefficient
  · have hleft : ¬ Settings.coefficientEpsilon ≤ (x / 2).abs := by
      have habs := Decimal.isFinite_abs (Decimal.isFinite_half hx)
      obtain ⟨hfinite, hepsilon⟩ := Decimal.value_epsilon
      intro hle
      have hle := (Decimal.le_iff_value hfinite habs).mp hle
      rw [hepsilon, Decimal.value_abs] at hle
      have hlarge : (2 : ℚ) ^ (-1022 : ℤ) < 7378697629483821 * 2 ^ (-66 : ℤ) := by
        calc (2 : ℚ) ^ (-1022 : ℤ) < 2 ^ (-66 : ℤ) :=
              zpow_lt_zpow_right₀ one_lt_two (by norm_num)
          _ ≤ 7378697629483821 * 2 ^ (-66 : ℤ) :=
              le_mul_of_one_le_left (zpow_pos two_pos _).le (by norm_num)
      exact absurd (hle.trans hwritten) (not_le.mpr hlarge)
    have hbound : |value x / 2| ≤ 1 / 10 ^ 4 := by
      calc |value x / 2| ≤ 2 ^ (-1022 : ℤ) := hsmall
        _ ≤ 2 ^ (-14 : ℤ) := zpow_le_zpow_right₀ one_le_two (by norm_num)
        _ ≤ 1 / 10 ^ 4 := by norm_num
    have hbound := (Rat.cast_le (K := ℝ)).mpr hbound
    push_cast at hbound
    rwa [writtenCoefficient, if_neg hleft, zero_sub, abs_neg]

end Coefficients

/-! ## The value of a rendered series -/

/-- The number of a harmonic. -/
def Wave.harmonic : Wave → ℕ
  | .cosine k => k
  | .sine k => k

/-- What the coefficient of a term is multiplied by at an angle. -/
noncomputable def Term.amount (t : ℝ) (term : Term) : ℝ :=
  match term.wave with
  | none => 1
  | some w => w.value t

section Evaluation

variable {env : String → ℝ} {param : String}

theorem eval_wave {w : Wave} (hw : w.harmonic < 2 ^ 53) :
    (w.formula param).eval env = w.value (env param) := by
  have hnumber (k : ℕ) (hk : k < 2 ^ 53) : (Scalar.literal (Float.ofNat k) : ℝ) = k := by
    rw [Scalar.literal_real, (Decimal.value_ofNat hk).2, Rat.cast_natCast]
  cases w with
  | cosine k =>
    show Real.cos (Scalar.literal (Float.ofNat k) * env param) = _
    rw [hnumber k hw, Wave.value_cosine]
  | sine k =>
    show Real.sin (Scalar.literal (Float.ofNat k) * env param) = _
    rw [hnumber k hw, Wave.value_sine]

/-- The waves of a term are all of harmonics that are read exactly. -/
def Term.IsExact (t : Term) : Prop := ∀ w, t.wave = some w → w.harmonic < 2 ^ 53

theorem eval_timesWave {t : Term} (ht : t.IsExact) (f : Formula) :
    (t.timesWave param f).eval env = f.eval env * t.amount (env param) := by
  obtain ⟨x, _ | w⟩ := t
  · exact (mul_one _).symm
  · show f.eval env * (w.formula param).eval env = _
    rw [eval_wave (ht w rfl)]
    rfl

theorem eval_leadingFormula {t : Term} (ht : t.IsExact) :
    (t.leadingFormula param).eval env =
      signedMagnitude t.coefficient * t.amount (env param) := by
  rw [Term.leadingFormula, eval_timesWave ht, signedMagnitude]
  split <;> rfl

theorem eval_joinedFormula {t : Term} (ht : t.IsExact) (sum : Formula) :
    (Term.joinedFormula param sum t).eval env =
      sum.eval env + signedMagnitude t.coefficient * t.amount (env param) := by
  have hproduct : (t.timesWave param _).eval env = _ :=
    eval_timesWave ht (.number (writtenMagnitude t.coefficient))
  rw [Term.joinedFormula, signedMagnitude]
  split
  · show sum.eval env - (t.timesWave param _).eval env = _
    rw [hproduct, neg_mul, ← sub_eq_add_neg]
    rfl
  · show sum.eval env + (t.timesWave param _).eval env = _
    rw [hproduct]
    rfl

theorem eval_joinedFormulas {ts : List Term} (hts : ∀ t ∈ ts, t.IsExact) (sum : Formula) :
    (ts.foldl (Term.joinedFormula param) sum).eval env =
      sum.eval env +
        (ts.map fun t => signedMagnitude t.coefficient * t.amount (env param)).sum := by
  induction ts generalizing sum with
  | nil => exact (add_zero _).symm
  | cons t ts ih =>
    rw [List.foldl_cons, ih fun t ht => hts t (List.mem_cons_of_mem _ ht),
      eval_joinedFormula (hts t List.mem_cons_self), List.map_cons, List.sum_cons, add_assoc]

/-- A chain has the sum of its terms as its value. -/
theorem eval_chain {ts : List Term} (hts : ∀ t ∈ ts, t.IsExact) :
    (Term.chain param ts).eval env =
      (ts.map fun t => signedMagnitude t.coefficient * t.amount (env param)).sum := by
  rcases ts with _ | ⟨t, ts⟩
  · have hzero : value 0 = 0 := rfl
    show Scalar.literal 0 = (0 : ℝ)
    rw [Scalar.literal_real, hzero, Rat.cast_zero]
  · rw [Term.chain, eval_joinedFormulas fun t ht => hts t (List.mem_cons_of_mem _ ht),
      eval_leadingFormula (hts t List.mem_cons_self), List.map_cons, List.sum_cons]

end Evaluation

/-- What is left out counts as zero. -/
theorem sum_filter (p : Term → Prop) [DecidablePred p] (f : Term → ℝ) (ts : List Term) :
    ((ts.filter fun t => p t).map f).sum = (ts.map fun t => if p t then f t else 0).sum := by
  induction ts with
  | nil => rfl
  | cons t ts ih =>
    by_cases ht : p t
    · simp [ht, ih]
    · simp [ht, ih]

/-- A rendered series has the sum of what stands for its coefficients as its value. -/
theorem eval_chain_kept {s : Series Float} (hs : ∀ w ∈ s.waves, w.2.harmonic < 2 ^ 53)
    {env : String → ℝ} {param : String} :
    (Term.chain param s.kept).eval env = writtenCoefficient (s.constant / 2) +
      (s.waves.map fun w => writtenCoefficient w.1 * w.2.value (env param)).sum := by
  have hexact : ∀ t ∈ s.terms, t.IsExact := by
    intro t ht
    rcases List.mem_cons.mp ht with rfl | ht
    · exact nofun
    · obtain ⟨w, hw, rfl⟩ := List.mem_map.mp ht
      rintro _ ⟨⟩
      exact hs w hw
  have hkept : ∀ t ∈ s.kept, t.IsExact := fun t ht =>
    hexact t (terms_eq_listing s ▸ (List.mem_filter.mp ht).1)
  have hzero (t : Term) :
      (if Settings.coefficientEpsilon ≤ t.coefficient.abs then
        signedMagnitude t.coefficient * t.amount (env param) else 0) =
      writtenCoefficient t.coefficient * t.amount (env param) := by
    rw [writtenCoefficient, ite_mul, zero_mul]
  rw [eval_chain hkept, Series.kept, sum_filter, ← terms_eq_listing, Series.terms]
  simp only [hzero, List.map_cons, List.sum_cons, List.map_map]
  exact congrArg (· + _) (mul_one _)

/-! ## Adding up -/

/-- A series in exact arithmetic. -/
noncomputable def Series.exact (s : Series Float) : Series ℝ where
  constant := Scalar.literal s.constant
  cosines := s.cosines.map Scalar.literal
  sines := s.sines.map Scalar.literal

/-- The number of harmonics that have both coefficients. -/
def Series.harmonicCount (s : Series Float) : ℕ := min s.cosines.length s.sines.length

theorem harmonics_map (f : Float → ℝ) (k : ℕ) (as bs : List Float) :
    harmonics k (as.map f) (bs.map f) = (harmonics k as bs).map fun w => (f w.1, w.2) := by
  induction as generalizing k bs with
  | nil => rfl
  | cons a as ih =>
    rcases bs with _ | ⟨b, bs⟩
    · rfl
    · rw [List.map_cons, List.map_cons, harmonics, harmonics, ih]
      rfl

theorem harmonic_lt_of_mem {k : ℕ} {as bs : List Float} {w : Float × Wave}
    (hw : w ∈ harmonics k as bs) : w.2.harmonic < k + min as.length bs.length := by
  induction as generalizing k bs with
  | nil => cases hw
  | cons a as ih =>
    rcases bs with _ | ⟨b, bs⟩
    · cases hw
    · rw [List.length_cons, List.length_cons]
      rcases List.mem_cons.mp hw with rfl | hw
      · show k < _
        omega
      rcases List.mem_cons.mp hw with rfl | hw
      · show k < _
        omega
      · have := ih hw
        omega

theorem abs_cos_add_abs_sin_le (t : ℝ) : |Real.cos t| + |Real.sin t| ≤ √2 := by
  refine Real.le_sqrt_of_sq_le ?_
  have hone : |Real.cos t| ^ 2 + |Real.sin t| ^ 2 = 1 := by
    rw [sq_abs, sq_abs, add_comm]
    exact Real.sin_sq_add_cos_sq t
  linarith [sq_nonneg (|Real.cos t| - |Real.sin t|), add_sq |Real.cos t| |Real.sin t|,
    sub_sq |Real.cos t| |Real.sin t|]

/-- The waves of each harmonic scale the errors of its two coefficients by the square root of two at
most. -/
theorem abs_sum_harmonics_le {error : Float → ℝ} {bound : ℝ} (t : ℝ) (k : ℕ) {as bs : List Float}
    (has : ∀ a ∈ as, |error a| ≤ bound) (hbs : ∀ b ∈ bs, |error b| ≤ bound) :
    |((harmonics k as bs).map fun w => error w.1 * w.2.value t).sum| ≤
      bound * √2 * (min as.length bs.length : ℕ) := by
  induction as generalizing k bs with
  | nil => simp [harmonics]
  | cons a as ih =>
    rcases bs with _ | ⟨b, bs⟩
    · simp [harmonics]
    · have ha := has a List.mem_cons_self
      have hb := hbs b List.mem_cons_self
      have hrest := ih (k + 1) (fun a ha => has a (List.mem_cons_of_mem _ ha))
        fun b hb => hbs b (List.mem_cons_of_mem _ hb)
      have hbound : 0 ≤ bound := (abs_nonneg _).trans ha
      obtain ⟨rest, hsum⟩ : ∃ rest, ((harmonics (k + 1) as bs).map
          fun w => error w.1 * w.2.value t).sum = rest := ⟨_, rfl⟩
      rw [hsum] at hrest
      rw [harmonics, List.map_cons, List.map_cons, List.sum_cons, List.sum_cons, hsum,
        List.length_cons, List.length_cons, Nat.add_min_add_right, Nat.cast_succ]
      calc |error a * Real.cos (k * t) + (error b * Real.sin (k * t) + rest)|
          ≤ |error a * Real.cos (k * t)| + (|error b * Real.sin (k * t)| + |rest|) :=
            (abs_add_le _ _).trans (add_le_add_right (abs_add_le _ _) _)
        _ = |error a| * |Real.cos (k * t)| + |error b| * |Real.sin (k * t)| + |rest| := by
            rw [abs_mul, abs_mul, add_assoc]
        _ ≤ bound * |Real.cos (k * t)| + bound * |Real.sin (k * t)| + |rest| := by gcongr
        _ = bound * (|Real.cos (k * t)| + |Real.sin (k * t)|) + |rest| := by rw [mul_add]
        _ ≤ bound * √2 + bound * √2 * (min as.length bs.length : ℕ) :=
            add_le_add (mul_le_mul_of_nonneg_left (abs_cos_add_abs_sin_le _) hbound) hrest
        _ = bound * √2 * ((min as.length bs.length : ℕ) + 1) := by ring

/-- The value of a series in exact arithmetic is one sum as well. -/
theorem exact_value_eq (s : Series Float) (t : ℝ) :
    s.exact.value t =
      (value s.constant : ℝ) / 2 + (s.waves.map fun w => (value w.1 : ℝ) * w.2.value t).sum := by
  have hwaves : s.exact.waves = s.waves.map fun w => ((value w.1 : ℝ), w.2) :=
    harmonics_map Scalar.literal 1 s.cosines s.sines
  rw [Series.value_eq, hwaves, List.map_map]
  rfl

section Bounds

variable {s : Series Float} (hconstant : s.constant.isFinite = true)
  (hcosines : ∀ a ∈ s.cosines, a.isFinite = true) (hsines : ∀ b ∈ s.sines, b.isFinite = true)

include hconstant hcosines hsines

theorem abs_eval_chain_sub_le (hcount : s.harmonicCount ≤ 60) (env : String → ℝ)
    (param : String) :
    |(Term.chain param s.kept).eval env - s.exact.value (env param)| ≤
      (1 + √2 * s.harmonicCount) / 10 ^ 4 := by
  have hharmonics : ∀ w ∈ s.waves, w.2.harmonic < 2 ^ 53 := by
    intro w hw
    have hlt : w.2.harmonic < 1 + s.harmonicCount := harmonic_lt_of_mem hw
    omega
  obtain ⟨t, ht⟩ : ∃ t, env param = t := ⟨_, rfl⟩
  let error (x : Float) : ℝ := writtenCoefficient x - value x
  have hmean := abs_writtenCoefficient_half_sub_le hconstant
  have hcosine : ∀ a ∈ s.cosines, |error a| ≤ 1 / 10 ^ 4 := fun a ha =>
    abs_writtenCoefficient_sub_le (hcosines a ha)
  have hsine : ∀ b ∈ s.sines, |error b| ≤ 1 / 10 ^ 4 := fun b hb =>
    abs_writtenCoefficient_sub_le (hsines b hb)
  have hwaves := abs_sum_harmonics_le t 1 hcosine hsine
  -- the sum of what stands for the coefficients is that of the coefficients and of the errors
  have hsplit : (s.waves.map fun w => writtenCoefficient w.1 * w.2.value t).sum =
      (s.waves.map fun w => (value w.1 : ℝ) * w.2.value t).sum +
        (s.waves.map fun w => error w.1 * w.2.value t).sum := by
    rw [← List.sum_map_add]
    congr 2
    funext w
    ring
  rw [eval_chain_kept hharmonics, exact_value_eq, ht, hsplit]
  calc |writtenCoefficient (s.constant / 2) +
          ((s.waves.map fun w => (value w.1 : ℝ) * w.2.value t).sum +
            (s.waves.map fun w => error w.1 * w.2.value t).sum) -
          ((value s.constant : ℝ) / 2 +
            (s.waves.map fun w => (value w.1 : ℝ) * w.2.value t).sum)|
      = |(writtenCoefficient (s.constant / 2) - (value s.constant : ℝ) / 2) +
          (s.waves.map fun w => error w.1 * w.2.value t).sum| := by
        congr 1
        ring
    _ ≤ 1 / 10 ^ 4 + 1 / 10 ^ 4 * √2 * s.harmonicCount :=
        (abs_add_le _ _).trans (add_le_add hmean hwaves)
    _ = (1 + √2 * s.harmonicCount) / 10 ^ 4 := by ring

/-- A rendered series of finite numbers and at most 60 harmonics is compiled, and its value is off
by one ten-thousandth for the mean and by the square root of two of them for each harmonic at most;
up to six harmonics by less than one thousandth. -/
theorem expression_is_close (hcount : s.harmonicCount ≤ 60) :
    ∃ c, Compiled.ofText (s.expression "u") = .ok c ∧ ∀ t v : ℝ,
      |c.value t v - s.exact.value t| ≤ (1 + √2 * s.harmonicCount) / 10 ^ 4 ∧
      (s.harmonicCount ≤ 6 → |c.value t v - s.exact.value t| < 1 / 10 ^ 3) := by
  have htext := ofText_expression (.inl rfl) fun t ht =>
    isFinite_of_mem_listing hconstant hcosines hsines ht
  refine ⟨_, htext, fun t v => ?_⟩
  have hle : |Compiled.value ⟨s.expression "u", Term.chain "u" s.kept⟩ t v - s.exact.value t| ≤
      (1 + √2 * s.harmonicCount) / 10 ^ 4 :=
    abs_eval_chain_sub_le hconstant hcosines hsines hcount (Formula.parameters t v) "u"
  refine ⟨hle, fun hsix => hle.trans_lt ?_⟩
  have hroot : √2 < 3 / 2 - 1 / 20 := by
    rw [Real.sqrt_lt' (by norm_num)]
    norm_num
  have hsix : (s.harmonicCount : ℝ) ≤ 6 := by exact_mod_cast hsix
  calc (1 + √2 * s.harmonicCount) / 10 ^ 4 ≤ (1 + (3 / 2 - 1 / 20) * 6 : ℝ) / 10 ^ 4 := by
        gcongr
    _ < 1 / 10 ^ 3 := by norm_num

end Bounds

/-- Of three harmonics one coefficient is left out, and others are rounded. -/
theorem expression_is_close_three :
    (⟨1, [0.12345, 0, 0.00009], [0, -2, 0.33333]⟩ : Series Float).expression "u" =
        "0.5000 + 0.1235*cos(1*u) - 2.0000*sin(2*u) + 0.3333*sin(3*u)" ∧
      ∃ c, Compiled.ofText "0.5000 + 0.1235*cos(1*u) - 2.0000*sin(2*u) + 0.3333*sin(3*u)" = .ok c ∧
        ∀ t v : ℝ, |c.value t v - (⟨1, [0.12345, 0, 0.00009], [0, -2, 0.33333]⟩ :
          Series Float).exact.value t| < 1 / 10 ^ 3 := by
  have htext : (⟨1, [0.12345, 0, 0.00009], [0, -2, 0.33333]⟩ : Series Float).expression "u" =
      "0.5000 + 0.1235*cos(1*u) - 2.0000*sin(2*u) + 0.3333*sin(3*u)" := by decide +kernel
  obtain ⟨c, hc, hclose⟩ := expression_is_close
    (s := ⟨1, [0.12345, 0, 0.00009], [0, -2, 0.33333]⟩) (by decide +kernel) (by decide +kernel)
    (by decide +kernel) (by decide)
  exact ⟨htext, c, htext ▸ hc, fun t v => (hclose t v).2 (by decide)⟩

/-! ## Seven harmonics -/

/-- Seven harmonics, each coefficient of which is a little below the threshold. -/
def belowThreshold : Series Float where
  constant := 0.0001998
  cosines := [0.0000999, 0.0000999, 0.0000999, 0.0000999, -0.0000999, -0.0000999, -0.0000999]
  sines := List.replicate 7 0.0000999

/-- Multiples of an eighth of a half turn. -/
theorem cos_sin_eighths :
    Real.cos (3 * (Real.pi / 8)) = Real.sin (Real.pi / 8) ∧
    Real.sin (3 * (Real.pi / 8)) = Real.cos (Real.pi / 8) ∧
    Real.cos (5 * (Real.pi / 8)) = -Real.sin (Real.pi / 8) ∧
    Real.sin (5 * (Real.pi / 8)) = Real.cos (Real.pi / 8) ∧
    Real.cos (7 * (Real.pi / 8)) = -Real.cos (Real.pi / 8) ∧
    Real.sin (7 * (Real.pi / 8)) = Real.sin (Real.pi / 8) := by
  have h3 : 3 * (Real.pi / 8) = Real.pi / 2 - Real.pi / 8 := by ring
  have h5 : 5 * (Real.pi / 8) = Real.pi / 8 + Real.pi / 2 := by ring
  have h7 : 7 * (Real.pi / 8) = Real.pi - Real.pi / 8 := by ring
  rw [h3, h5, h7]
  exact ⟨Real.cos_pi_div_two_sub _, Real.sin_pi_div_two_sub _, Real.cos_add_pi_div_two _,
    Real.sin_add_pi_div_two _, Real.cos_pi_sub _, Real.sin_pi_sub _⟩

theorem cos_sin_quarters :
    Real.cos (2 * (Real.pi / 8)) = √2 / 2 ∧ Real.sin (2 * (Real.pi / 8)) = √2 / 2 ∧
    Real.cos (4 * (Real.pi / 8)) = 0 ∧ Real.sin (4 * (Real.pi / 8)) = 1 ∧
    Real.cos (6 * (Real.pi / 8)) = -(√2 / 2) ∧ Real.sin (6 * (Real.pi / 8)) = √2 / 2 := by
  have h2 : 2 * (Real.pi / 8) = Real.pi / 4 := by ring
  have h4 : 4 * (Real.pi / 8) = Real.pi / 2 := by ring
  have h6 : 6 * (Real.pi / 8) = Real.pi - Real.pi / 4 := by ring
  rw [h2, h4, h6, Real.cos_pi_sub, Real.sin_pi_sub]
  exact ⟨Real.cos_pi_div_four, Real.sin_pi_div_four, Real.cos_pi_div_two, Real.sin_pi_div_two,
    congrArg _ Real.cos_pi_div_four, Real.sin_pi_div_four⟩

theorem lt_sqrt_two : 1.414 < √2 := by
  rw [Real.lt_sqrt (by norm_num)]
  norm_num

/-- The sum of both squares is one, and twice the product is the sine of an eighth of a turn. -/
theorem lt_cos_add_sin_eighth : 1.306 < Real.cos (Real.pi / 8) + Real.sin (Real.pi / 8) := by
  have hsquare : (Real.cos (Real.pi / 8) + Real.sin (Real.pi / 8)) ^ 2 = 1 + √2 / 2 := by
    have hdouble : Real.sin (2 * (Real.pi / 8)) = √2 / 2 := cos_sin_quarters.2.1
    rw [Real.sin_two_mul] at hdouble
    linear_combination Real.sin_sq_add_cos_sq (Real.pi / 8) + hdouble
  have hroot := lt_sqrt_two
  have hcos : 0 ≤ Real.cos (Real.pi / 8) := by
    rw [Real.cos_pi_div_eight]
    positivity
  have hsin : 0 ≤ Real.sin (Real.pi / 8) := by
    rw [Real.sin_pi_div_eight]
    positivity
  refine lt_of_pow_lt_pow_left₀ 2 (add_nonneg hcos hsin) ?_
  rw [hsquare]
  linarith

theorem belowThreshold_coefficients : value 0.0000999 = 7371318931854337 * 2 ^ (-66 : ℤ) ∧
    value 0.0001998 = 7371318931854337 * 2 ^ (-65 : ℤ) :=
  ⟨Decimal.value_of_parts (by decide +kernel), Decimal.value_of_parts (by decide +kernel)⟩

/-- There the signs agree with those of the waves, and the magnitudes add up. -/
theorem belowThreshold_value :
    belowThreshold.exact.value (Real.pi / 8) = value 0.0000999 *
      (2 + 4 * (Real.cos (Real.pi / 8) + Real.sin (Real.pi / 8)) + 2 * √2) := by
  have hdouble : value 0.0001998 = 2 * value 0.0000999 := by
    rw [belowThreshold_coefficients.1, belowThreshold_coefficients.2]
    norm_num
  have hnegative : value (-0.0000999) = -value 0.0000999 := Decimal.value_neg _
  obtain ⟨hcos3, hsin3, hcos5, hsin5, hcos7, hsin7⟩ := cos_sin_eighths
  obtain ⟨hcos2, hsin2, hcos4, hsin4, hcos6, hsin6⟩ := cos_sin_quarters
  rw [exact_value_eq]
  simp only [belowThreshold, Series.waves, harmonics, List.replicate, List.map_cons, List.map_nil,
    List.sum_cons, List.sum_nil, Wave.value_cosine, Wave.value_sine, Nat.cast_ofNat, Nat.cast_one,
    one_mul, hdouble, hnegative, Nat.reduceAdd, hcos3, hsin3, hcos5, hsin5, hcos7, hsin7, hcos2,
    hsin2, hcos4, hsin4, hcos6, hsin6]
  push_cast
  ring

/-- All seven harmonics are left out, and with them more than one thousandth. -/
theorem expression_of_seven_harmonics :
    belowThreshold.harmonicCount = 7 ∧ belowThreshold.expression "u" = "0" ∧
      ∃ c, Compiled.ofText "0" = .ok c ∧ ∀ v : ℝ,
        1 / 10 ^ 3 < |c.value (Real.pi / 8) v - belowThreshold.exact.value (Real.pi / 8)| := by
  have hread : Compiled.ofText "0" = .ok ⟨"0", .number 0⟩ :=
    Formula.Writes.ofText (writes_natural 0).factor.term.sum
  refine ⟨rfl, by decide +kernel, _, hread, fun v => ?_⟩
  have hzero : Compiled.value ⟨"0", .number 0⟩ (Real.pi / 8) v = 0 := by
    show Scalar.literal 0 = (0 : ℝ)
    rw [Scalar.literal_real]
    exact Rat.cast_zero
  have hsum := lt_cos_add_sin_eighth
  have hroot := lt_sqrt_two
  rw [hzero, belowThreshold_value, belowThreshold_coefficients.1, zero_sub, abs_neg]
  refine lt_of_lt_of_le ?_ (le_abs_self _)
  push_cast
  calc (1 / 10 ^ 3 : ℝ) < 7371318931854337 * 2 ^ (-66 : ℤ) * 10.05 := by norm_num
    _ ≤ 7371318931854337 * 2 ^ (-66 : ℤ) *
          (2 + 4 * (Real.cos (Real.pi / 8) + Real.sin (Real.pi / 8)) + 2 * √2) := by
        gcongr
        linarith

end SurfaceStudio.Fourier
