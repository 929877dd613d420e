import SurfaceStudio.Binary32
import SurfaceStudio.Proofs.Decimal.Written
/-!
# The order of the 32-bit floats

The 32-bit floats without a sign are in the order of their bits, so that the bits of the float
nearest to a number are found by the middles to the neighbours on both sides: `IsNearestBits`. The
bits of the infinity come right behind those of the greatest float, where the next power of two
would be; a number to which these bits or later ones are the nearest becomes the infinity.
-/

namespace SurfaceStudio.Binary32

open Decimal

/-! ## Floats in the order of their bits -/

/-- The distance from the number with the bits `k` to the next one. -/
def gap (k : ℕ) : ℚ := 2 ^ ((k / 2 ^ 23 - 1 : ℕ) - 149 : ℤ)

/-- The number with the bits `k` and no sign. Behind the last float the numbers go on in the same
way. -/
def magnitude (k : ℕ) : ℚ :=
  (k % 2 ^ 23 + if k / 2 ^ 23 = 0 then 0 else 2 ^ 23 : ℕ) * gap k

theorem gap_pos (k : ℕ) : 0 < gap k := zpow_pos two_pos _

section Codes

variable {E n : ℕ}

/-- A mantissa of 24 bits adds one to the exponent in front of it. -/
theorem magnitude_add (hn : n ≤ 2 ^ 24) (hE : 2 ^ 23 ≤ n ∨ E = 0) :
    magnitude (E * 2 ^ 23 + n) = n * 2 ^ (E - 149 : ℤ) := by
  rcases hn.lt_or_eq with hlt | rfl
  · rcases Nat.lt_or_ge n (2 ^ 23) with hshort | hfull
    · obtain rfl : E = 0 := hE.resolve_left (by omega)
      have hdiv : (0 * 2 ^ 23 + n) / 2 ^ 23 = 0 := by omega
      have hmod : (0 * 2 ^ 23 + n) % 2 ^ 23 = n := by omega
      rw [magnitude, gap, hdiv, hmod, if_pos rfl]
      rfl
    · have hdiv : (E * 2 ^ 23 + n) / 2 ^ 23 = E + 1 := by omega
      have hmod : (E * 2 ^ 23 + n) % 2 ^ 23 + 2 ^ 23 = n := by omega
      rw [magnitude, gap, hdiv, if_neg (by omega), hmod, Nat.add_sub_cancel]
  · -- the next power of two
    have hdiv : (E * 2 ^ 23 + 2 ^ 24) / 2 ^ 23 = E + 1 + 1 := by omega
    have hmod : (E * 2 ^ 23 + 2 ^ 24) % 2 ^ 23 = 0 := by omega
    have hnext : (2 : ℚ) ^ ((E + 1 : ℕ) - 149 : ℤ) = 2 * 2 ^ (E - 149 : ℤ) := by
      have hexponent : ((E + 1 : ℕ) - 149 : ℤ) = 1 + (E - 149) := by
        push_cast
        ring
      rw [hexponent, zpow_one_add₀ two_ne_zero]
    rw [magnitude, gap, hdiv, if_neg (by omega), hmod, Nat.add_sub_cancel, hnext]
    push_cast
    ring

theorem le_gap_add (hE : 2 ^ 23 ≤ n ∨ E = 0) : 2 ^ (E - 149 : ℤ) ≤ gap (E * 2 ^ 23 + n) := by
  refine zpow_le_zpow_right₀ one_le_two ?_
  have hle : E ≤ (E * 2 ^ 23 + n) / 2 ^ 23 - 1 := by omega
  omega

end Codes

theorem magnitude_succ (k : ℕ) : magnitude (k + 1) = magnitude k + gap k := by
  obtain ⟨E, hE⟩ : ∃ E, k / 2 ^ 23 - 1 = E := ⟨_, rfl⟩
  obtain ⟨n, hk, hlt, hor⟩ : ∃ n, k = E * 2 ^ 23 + n ∧ n < 2 ^ 24 ∧ (2 ^ 23 ≤ n ∨ E = 0) :=
    ⟨k - E * 2 ^ 23, by omega, by omega, by omega⟩
  have hgap : gap k = 2 ^ (E - 149 : ℤ) := by rw [gap, hE]
  have hnext := magnitude_add (E := E) (n := n + 1) hlt (hor.imp_left Nat.le_succ_of_le)
  rw [hgap, hk, magnitude_add hlt.le hor, Nat.add_assoc, hnext]
  push_cast
  ring

theorem magnitude_strictMono : StrictMono magnitude :=
  strictMono_nat_of_lt_succ fun k => by
    rw [magnitude_succ]
    exact lt_add_of_pos_right _ (gap_pos k)

section Neighbours

variable {E n j : ℕ}

/-- Later bits are at least one unit of the exponent farther on. -/
theorem add_unit_le (hE : 2 ^ 23 ≤ n ∨ E = 0) (hj : E * 2 ^ 23 + n < j) :
    magnitude (E * 2 ^ 23 + n) + 2 ^ (E - 149 : ℤ) ≤ magnitude j := by
  have hnext := magnitude_strictMono.monotone (Nat.succ_le_of_lt hj)
  rw [Nat.succ_eq_add_one, magnitude_succ] at hnext
  linarith [le_gap_add hE]

/-- Earlier bits are at least one unit of the exponent behind, but for those of a power of two. -/
theorem add_unit_le' (hE : 2 ^ 23 < n ∨ E = 0) (hj : j < E * 2 ^ 23 + n) :
    magnitude j + 2 ^ (E - 149 : ℤ) ≤ magnitude (E * 2 ^ 23 + n) := by
  obtain ⟨n, rfl⟩ := Nat.exists_eq_add_one_of_ne_zero (n := n) (by omega)
  have hbefore : magnitude j ≤ magnitude (E * 2 ^ 23 + n) :=
    magnitude_strictMono.monotone (Nat.le_of_lt_succ hj)
  rw [← Nat.add_assoc, magnitude_succ]
  linarith [le_gap_add (hE.imp_left Nat.le_of_lt_succ)]

end Neighbours

theorem magnitude_zero : magnitude 0 = 0 := by
  rw [magnitude, Nat.zero_mod, if_pos (Nat.zero_div _), Nat.cast_zero, zero_mul]

theorem magnitude_nonneg (k : ℕ) : 0 ≤ magnitude k := by
  rw [← magnitude_zero]
  exact magnitude_strictMono.monotone (Nat.zero_le k)

/-! ## The nearest bits -/

/-- The bits of a number nearest to `r`: it is not beyond the middle to any other number, and only
even bits are at the middle. -/
structure IsNearestBits (r : ℚ) (k : ℕ) : Prop where
  above : ∀ j, k < j → 2 * r ≤ magnitude k + magnitude j ∧
    (2 * r = magnitude k + magnitude j → k % 2 = 0)
  below : ∀ j, j < k → magnitude j + magnitude k ≤ 2 * r ∧
    (2 * r = magnitude j + magnitude k → k % 2 = 0)

namespace IsNearestBits

variable {r : ℚ} {k j : ℕ}

theorem abs_sub_le (h : IsNearestBits r k) (j : ℕ) : |magnitude k - r| ≤ |magnitude j - r| := by
  rcases lt_trichotomy k j with hlt | rfl | hgt
  · have hmiddle := (h.above j hlt).1
    have horder := magnitude_strictMono hlt
    refine le_trans ?_ (le_abs_self _)
    exact abs_le.mpr ⟨by linarith, by linarith⟩
  · exact le_rfl
  · have hmiddle := (h.below j hgt).1
    have horder := magnitude_strictMono hgt
    refine le_trans ?_ (neg_le_abs _)
    exact abs_le.mpr ⟨by linarith, by linarith⟩

theorem even_of_tie (h : IsNearestBits r k) (hne : j ≠ k)
    (htie : |magnitude j - r| = |magnitude k - r|) : k % 2 = 0 := by
  have hmiddle : 2 * r = magnitude k + magnitude j := by
    rcases abs_eq_abs.mp htie with heq | heq
    · exact absurd (magnitude_strictMono.injective (by linarith)) hne
    · linarith
  rcases lt_or_gt_of_ne hne with hlt | hgt
  · exact (h.below j hlt).2 (by linarith)
  · exact (h.above j hgt).2 hmiddle

end IsNearestBits

/-! ## Rounding a mantissa -/

section Magnitudes

variable {E n : ℕ} {z : ℚ}

/-- A mantissa that a number is rounded to, behind the exponent it is counted in, makes the nearest
bits. -/
theorem isNearestBits_of_round (hz : z < 2 ^ 24) (hE : 2 ^ 23 ≤ z ∨ E = 0)
    (hhalf : |n - z| ≤ 1 / 2) (htie : |n - z| = 1 / 2 → n % 2 = 0) :
    IsNearestBits (z * 2 ^ (E - 149 : ℤ)) (E * 2 ^ 23 + n) := by
  obtain ⟨hlow, hhigh⟩ := abs_le.mp hhalf
  have hn : n ≤ 2 ^ 24 := by
    have hlt : (n : ℚ) < 2 ^ 24 + 1 := by linarith
    exact Nat.le_of_lt_succ (by exact_mod_cast hlt)
  have hnE : 2 ^ 23 ≤ n ∨ E = 0 := by
    refine hE.imp_left fun hfull => ?_
    have hlt : (2 ^ 23 : ℚ) < n + 1 := by linarith
    exact Nat.le_of_lt_succ (by exact_mod_cast hlt)
  have hparity : (E * 2 ^ 23 + n) % 2 = n % 2 := by omega
  have hvalue := magnitude_add hn hnE
  have hpos : (0 : ℚ) < 2 ^ (E - 149 : ℤ) := zpow_pos two_pos _
  constructor
  · intro j hj
    have hnext := add_unit_le hnE hj
    rw [hvalue] at hnext
    rw [hvalue, hparity]
    generalize (2 : ℚ) ^ (E - 149 : ℤ) = unit at hnext hpos ⊢
    refine ⟨by nlinarith, fun heq => htie ?_⟩
    have hmiddle : n + 1 / 2 ≤ z := le_of_mul_le_mul_right (by linarith) hpos
    rw [abs_of_nonpos] <;> linarith
  · intro j hj
    by_cases hfull : 2 ^ 23 < n ∨ E = 0
    · have hbefore := add_unit_le' hfull hj
      rw [hvalue] at hbefore
      rw [hvalue, hparity]
      generalize (2 : ℚ) ^ (E - 149 : ℤ) = unit at hbefore hpos ⊢
      refine ⟨by nlinarith, fun heq => htie ?_⟩
      have hmiddle : z ≤ n - 1 / 2 := le_of_mul_le_mul_right (by linarith) hpos
      rw [abs_of_nonneg] <;> linarith
    · -- a power of two, which is not above the number
      have hpower : (n : ℚ) ≤ z := by
        have hn : n ≤ 2 ^ 23 := by omega
        have hn : (n : ℚ) ≤ 2 ^ 23 := by exact_mod_cast hn
        exact hn.trans (hE.resolve_right (by omega))
      have hlt := magnitude_strictMono hj
      have hle : n * 2 ^ (E - 149 : ℤ) ≤ z * 2 ^ (E - 149 : ℤ) :=
        mul_le_mul_of_nonneg_right hpower hpos.le
      rw [hvalue] at hlt ⊢
      exact ⟨by linarith, fun heq => absurd heq (by linarith)⟩

end Magnitudes

/-- The bits of a mantissa and an exponent are the nearest ones, or those of the infinity if these
come first. -/
theorem exists_isNearestBits (m : ℕ) (e : ℤ) :
    ∃ k, IsNearestBits (m * 2 ^ e) k ∧ magnitudeBits m e = min k infinityBits := by
  rcases Nat.eq_zero_or_pos m with rfl | hm
  · refine ⟨0, ⟨fun j _ => ?_, nofun⟩, ?_⟩
    · rw [Nat.cast_zero, zero_mul, mul_zero, magnitude_zero, zero_add]
      exact ⟨magnitude_nonneg j, fun _ => rfl⟩
    · rw [magnitudeBits, if_pos rfl, Nat.zero_min]
  · obtain ⟨last, hlast⟩ : ∃ last, max (m.log2 + e - 23) (-149) = last := ⟨_, rfl⟩
    obtain ⟨f, hf⟩ : ∃ f, Fraction.ofBinary m (e - last) = f := ⟨_, rfl⟩
    have hden : 0 < f.den := hf ▸ ofBinary_den_pos _ _
    have hquotient : (f.num / f.den : ℚ) = m * 2 ^ (e - last) := hf ▸ ofBinary_value _ _
    have hexponent : ((last + 149).toNat - 149 : ℤ) = last := by omega
    have hvalue : (m * 2 ^ e : ℚ) = f.num / f.den * 2 ^ ((last + 149).toNat - 149 : ℤ) := by
      rw [hquotient, hexponent, mul_assoc, ← zpow_add₀ two_ne_zero, sub_add_cancel]
    have hbits : magnitudeBits m e = min ((last + 149).toNat * 2 ^ 23 + f.round) infinityBits := by
      rw [magnitudeBits, if_neg hm.ne', ← hf, ← hlast, min_def_lt]
      rfl
    refine ⟨_, ?_, hbits⟩
    have hlow : (2 : ℚ) ^ (m.log2 + (e - last) : ℤ) ≤ m * 2 ^ (e - last) := by
      have hle : (2 : ℚ) ^ m.log2 ≤ m := by exact_mod_cast Nat.log2_self_le hm.ne'
      rw [zpow_add₀ two_ne_zero, zpow_natCast]
      exact mul_le_mul_of_nonneg_right hle (zpow_pos two_pos _).le
    have hhigh : (m * 2 ^ (e - last) : ℚ) < 2 ^ (m.log2 + 1 + (e - last) : ℤ) := by
      have hlt : (m : ℚ) < 2 ^ (m.log2 + 1) := by exact_mod_cast Nat.lt_log2_self
      rw [zpow_add₀ two_ne_zero]
      exact mul_lt_mul_of_pos_right (by exact_mod_cast hlt) (zpow_pos two_pos _)
    rw [hvalue]
    refine isNearestBits_of_round ?_ ?_ (abs_round_sub_le f hden) (even_round_of_tie hden)
    · rw [hquotient]
      exact hhigh.trans_le (zpow_le_zpow_right₀ one_le_two (n := 24) (by omega))
    · rw [hquotient]
      rcases Nat.eq_zero_or_pos (last + 149).toNat with hzero | hpos
      · exact .inr hzero
      · exact .inl ((zpow_le_zpow_right₀ one_le_two (m := 23) (by omega)).trans hlow)

/-! ## Beyond the greatest float -/

/-- The middle between the greatest float and the power of two behind it. -/
def limit : ℚ := 2 ^ 128 - 2 ^ 103

theorem magnitude_infinityBits : magnitude infinityBits = 2 ^ 128 := by
  have hvalue := magnitude_add (E := 254) (n := 2 ^ 23) (by norm_num) (.inl le_rfl)
  have hbits : 254 * 2 ^ 23 + 2 ^ 23 = infinityBits := by decide
  rw [hbits] at hvalue
  rw [hvalue]
  norm_num

theorem magnitude_greatest : magnitude (infinityBits - 1) = 2 ^ 128 - 2 ^ 104 := by
  have hvalue := magnitude_add (E := 253) (n := 2 ^ 24 - 1) (by norm_num) (.inl (by norm_num))
  have hbits : 253 * 2 ^ 23 + (2 ^ 24 - 1) = infinityBits - 1 := by decide
  rw [hbits] at hvalue
  rw [hvalue]
  norm_num

theorem IsNearestBits.lt_infinityBits_iff {r : ℚ} {k : ℕ} (h : IsNearestBits r k) :
    k < infinityBits ↔ r < limit := by
  constructor
  · intro hk
    have hmiddle := h.above infinityBits hk
    have hle := magnitude_strictMono.monotone (Nat.le_sub_one_of_lt hk)
    rw [magnitude_infinityBits] at hmiddle
    rw [magnitude_greatest] at hle
    refine lt_of_le_of_ne (by rw [limit]; linarith) fun heq => ?_
    -- the greatest float is odd
    have hgreatest : magnitude k = magnitude (infinityBits - 1) := by
      rw [magnitude_greatest]
      rw [limit] at heq
      linarith
    have heven := hmiddle.2 (by rw [hgreatest, magnitude_greatest, heq, limit]; ring)
    rw [magnitude_strictMono.injective hgreatest] at heven
    exact absurd heven (by decide)
  · intro hr
    by_contra hk
    have hmiddle := (h.below (infinityBits - 1) (by rw [infinityBits] at hk ⊢; omega)).1
    have hle := magnitude_strictMono.monotone (not_lt.mp hk)
    rw [magnitude_greatest] at hmiddle
    rw [magnitude_infinityBits] at hle
    rw [limit] at hr
    linarith

end SurfaceStudio.Binary32
