import SurfaceStudio.Decimal.Numeral
import SurfaceStudio.Proofs.Decimal.Unpacked
/-!
# Rounding and division of doubles

A quotient of two doubles is computed with enough bits and then rounded to a mantissa of 53 bits.
`round_spec` says what rounding does; the place of the leading bit, `m.log2 + e`, is what the bounds
on its result are stated in.
-/

namespace SurfaceStudio.Decimal

open Float.Model Float.Model.UnpackedFloat

/-! ## Shifting -/

theorem mantissa_shiftRight (em : ExtendedMantissa) (n : Nat) :
    (em >>> n).mantissa = em.mantissa / 2 ^ n := by
  induction n generalizing em with
  | zero => exact (Nat.div_one _).symm
  | succ n ih =>
    show (em >>> n).mantissa / 2 = _
    rw [ih, Nat.div_div_eq_div_mul, Nat.pow_succ]

theorem mantissa_ofMantissaAndAccuracy (m : Nat) (a : Accuracy) :
    (ExtendedMantissa.ofMantissaAndAccuracy m a).mantissa = m := by
  rcases a with _ | (_ | _ | _) <;> rfl

theorem roundedMantissa_bounds (em : ExtendedMantissa) :
    em.mantissa ≤ em.roundedMantissa ∧ em.roundedMantissa ≤ em.mantissa + 1 := by
  obtain ⟨m, r, s⟩ := em
  rcases r <;> rcases s <;>
    simp only [ExtendedMantissa.roundedMantissa, ExtendedMantissa.accuracy,
      Accuracy.roundToNearestEven] <;>
    omega

/-- The exponent that the leading bit of `m * 2 ^ e` asks for. -/
def targetOf (m : Nat) (e : Int) : Int := max (m.log2 + e - 52) (-1074)

theorem targetExponent_eq (m : Nat) (e : Int) :
    Format.binary64.targetExponent (totalExponent m e) = targetOf m e := by
  have hbits : (Format.binary64.mantissaBits : Int) = 53 := rfl
  have hmin : Format.binary64.minExponent = -1074 := rfl
  simp only [Format.targetExponent, totalExponent, targetOf, hbits, hmin]
  omega

theorem div_two_pow_lt {m n : Nat} (h : m.log2 ≤ 52 + n) : m / 2 ^ n < 2 ^ 53 := by
  have hm : m < 2 ^ (m.log2 + 1) := Nat.lt_log2_self
  rw [Nat.div_lt_iff_lt_mul (Nat.two_pow_pos n), ← Nat.pow_add]
  exact Nat.lt_of_lt_of_le hm (Nat.pow_le_pow_right (by decide) (by omega))

theorem le_div_two_pow {m n k : Nat} (hm : m ≠ 0) (h : k + n ≤ m.log2) : 2 ^ k ≤ m / 2 ^ n := by
  rw [Nat.le_div_iff_mul_le (Nat.two_pow_pos n), ← Nat.pow_add]
  exact Nat.le_trans (Nat.pow_le_pow_right (by decide) h) (Nat.log2_self_le hm)

/-! ## Rounding -/

/-- A mantissa that is not too long stays as it is. -/
theorem shift_of_le {r : Nat} {e : Int} (h : targetOf r e ≤ e) :
    shiftToTargetExponent .binary64 r e .exact = (⟨r, false, false⟩, e) := by
  have hn : (targetOf r e - e).toNat = 0 := by omega
  rw [shiftToTargetExponent, targetExponent_eq, shiftToExponent, hn]
  exact Prod.ext rfl (Int.add_zero e)

/-- A mantissa that rounding has made too long by one bit is halved. -/
theorem shift_of_overflow {e : Int} (he : -1074 ≤ e) :
    shiftToTargetExponent .binary64 (2 ^ 53) e .exact = (⟨2 ^ 52, false, false⟩, e + 1) := by
  have htarget : targetOf (2 ^ 53) e = e + 1 := by
    rw [targetOf, Nat.log2_two_pow]
    omega
  have hn : (e + 1 - e).toNat = 1 := by omega
  rw [shiftToTargetExponent, targetExponent_eq, htarget, shiftToExponent, hn]
  rfl

/-- A mantissa cut to its target, with what has been cut off. -/
def cut (m : Nat) (e : Int) (a : Accuracy) : ExtendedMantissa :=
  ExtendedMantissa.ofMantissaAndAccuracy m a >>> (targetOf m e - e).toNat

theorem mantissa_cut (m : Nat) (e : Int) (a : Accuracy) :
    (cut m e a).mantissa = m / 2 ^ (targetOf m e - e).toNat := by
  rw [cut, mantissa_shiftRight, mantissa_ofMantissaAndAccuracy]

theorem roundedMantissa_cut_le (m : Nat) (e : Int) (a : Accuracy) :
    (cut m e a).roundedMantissa ≤ 2 ^ 53 := by
  have hshort : m / 2 ^ (targetOf m e - e).toNat < 2 ^ 53 := by
    apply div_two_pow_lt
    rw [targetOf]
    omega
  have hbounds := (roundedMantissa_bounds (cut m e a)).2
  rw [mantissa_cut] at hbounds
  omega

/-- Rounding cuts the mantissa to its target and rounds it there; if that makes it too long it is
halved. -/
theorem round_eq (s : Sign) (m : Nat) (e : Int) (a : Accuracy) (he : e ≤ targetOf m e) :
    roundWithAccuracy .binary64 s m e a =
      if h : (cut m e a).roundedMantissa = 0 then .zero s
      else if (cut m e a).roundedMantissa < 2 ^ 53 then
        .finite s (cut m e a).roundedMantissa (targetOf m e) (Nat.pos_of_ne_zero h)
      else .finite s (2 ^ 52) (targetOf m e + 1) (by decide) := by
  -- the first shift, to the exponent that the leading bit asks for
  have hcut : shiftToTargetExponent .binary64 m e a = (cut m e a, targetOf m e) := by
    rw [shiftToTargetExponent, targetExponent_eq]
    refine Prod.ext rfl ?_
    show e + ((targetOf m e - e).toNat : Int) = targetOf m e
    omega
  have hlow : -1074 ≤ targetOf m e := by rw [targetOf]; omega
  have hr := roundedMantissa_cut_le m e a
  rw [roundWithAccuracy, hcut]
  dsimp only
  generalize (cut m e a).roundedMantissa = r at hr ⊢
  -- the second shift does something only if rounding up has filled the mantissa
  by_cases hfull : r < 2 ^ 53
  · have hle : targetOf r (targetOf m e) ≤ targetOf m e := by
      have hlog : r.log2 ≤ 52 := by
        by_cases hzero : r = 0
        · rw [hzero]; decide
        · have hlt := (Nat.log2_lt hzero).mpr hfull
          omega
      rw [targetOf]
      omega
    simp only [shift_of_le hle]
    by_cases hzero : r = 0
    · rw [dif_pos hzero, dif_pos hzero]
    · rw [dif_neg hzero, dif_neg hzero, if_pos hfull]
  · obtain rfl : r = 2 ^ 53 := by omega
    simp only [shift_of_overflow hlow]
    rw [dif_neg (by decide), dif_neg (by decide), if_neg hfull]

/-- The mantissa goes up by one at most where it is cut. -/
theorem round_spec (s : Sign) (m : Nat) (e : Int) (a : Accuracy) (he : e ≤ targetOf m e) :
    ∃ r, m / 2 ^ (targetOf m e - e).toNat ≤ r ∧ r ≤ m / 2 ^ (targetOf m e - e).toNat + 1 ∧
      r ≤ 2 ^ 53 ∧
      roundWithAccuracy .binary64 s m e a =
        if h : r = 0 then .zero s
        else if r < 2 ^ 53 then .finite s r (targetOf m e) (Nat.pos_of_ne_zero h)
        else .finite s (2 ^ 52) (targetOf m e + 1) (by decide) := by
  have hbounds := roundedMantissa_bounds (cut m e a)
  rw [mantissa_cut] at hbounds
  exact ⟨_, hbounds.1, hbounds.2, roundedMantissa_cut_le m e a, round_eq s m e a he⟩

/-- Above the least exponent the cut leaves exactly 53 bits. -/
theorem le_cut {m : Nat} {e : Int} (he : e ≤ targetOf m e) (hleast : targetOf m e ≠ -1074) :
    2 ^ 52 ≤ m / 2 ^ (targetOf m e - e).toNat := by
  have hcut : 52 + (targetOf m e - e).toNat = m.log2 := by
    rw [targetOf] at hleast he ⊢
    omega
  have hm : m ≠ 0 := by
    rintro rfl
    rw [Nat.log2_zero] at hcut
    omega
  exact le_div_two_pow hm (by omega)

section Rounding

variable {s : Sign} {m : Nat} {e : Int} {a : Accuracy}

theorem le_targetOf (h : 52 ≤ m.log2 ∨ e ≤ -1074) : e ≤ targetOf m e := by
  rw [targetOf]
  omega

/-- What is rounded fits, if it had enough bits and is not too large. -/
theorem round_fits (hbits : 52 ≤ m.log2 ∨ e ≤ -1074) (hmax : m.log2 + e ≤ 1022) :
    Fits (roundWithAccuracy .binary64 s m e a) := by
  have he := le_targetOf hbits
  obtain ⟨r, hlo, -, -, hround⟩ := round_spec s m e a he
  have htarget : -1074 ≤ targetOf m e ∧ targetOf m e ≤ 970 := by
    rw [targetOf]
    omega
  rw [hround]
  split
  · exact .zero s
  · split
    · next hlt =>
      refine .finite s r _ _ hlt htarget.1 (by omega) ?_
      by_cases hleast : targetOf m e = -1074
      · exact .inr hleast
      · exact .inl (Nat.le_trans (le_cut he hleast) hlo)
    · exact .finite s _ _ _ (by decide) (by omega) (by omega) (.inl (by decide))

theorem round_isFinite : (roundWithAccuracy .binary64 s m e a).isFinite := by
  simp only [roundWithAccuracy]
  split <;> rfl

/-- Above the short mantissas, what is rounded has all of its 53 bits, and the leading bit stands
where it stood or one place higher. -/
theorem round_full (hbits : 52 ≤ m.log2) (hmin : -1022 ≤ m.log2 + e) :
    ∃ m' e' h, roundWithAccuracy .binary64 s m e a = .finite s m' e' h ∧
      2 ^ 52 ≤ m' ∧ m' < 2 ^ 53 ∧ m.log2 + e ≤ e' + 52 ∧ e' + 52 ≤ m.log2 + e + 1 := by
  obtain ⟨r, hlo, -, -, hround⟩ := round_spec s m e a (le_targetOf (.inl hbits))
  have htarget : targetOf m e = m.log2 + e - 52 := by
    rw [targetOf]
    omega
  have hm : m ≠ 0 := by
    rintro rfl
    rw [Nat.log2_zero] at hbits
    omega
  have hfull : 2 ^ 52 ≤ r := Nat.le_trans (le_div_two_pow hm (by omega)) hlo
  rw [hround, dif_neg (by omega)]
  split
  · next hlt => exact ⟨r, _, by omega, rfl, hfull, hlt, by omega, by omega⟩
  · exact ⟨2 ^ 52, _, by decide, rfl, Nat.le_refl _, by decide, by omega, by omega⟩

end Rounding

/-! ## Division -/

section Division

variable {m₁ m₂ k : Nat}

/-- The leading bit of a quotient stands no higher than the difference of the leading bits. -/
theorem log2_quotient_le (h₂ : m₂ ≠ 0) (hq : (m₁ <<< k) / m₂ ≠ 0) :
    ((m₁ <<< k) / m₂).log2 + m₂.log2 ≤ m₁.log2 + k := by
  have hlt : m₁ <<< k < 2 ^ (m₁.log2 + 1 + k) := by
    rw [Nat.shiftLeft_eq, Nat.pow_add]
    exact Nat.mul_lt_mul_of_pos_right Nat.lt_log2_self (Nat.two_pow_pos k)
  have hmul : ((m₁ <<< k) / m₂) * m₂ ≤ m₁ <<< k := Nat.div_mul_le_self _ _
  have hprod : 2 ^ (((m₁ <<< k) / m₂).log2 + m₂.log2) ≤ ((m₁ <<< k) / m₂) * m₂ := by
    rw [Nat.pow_add]
    exact Nat.mul_le_mul (Nat.log2_self_le hq) (Nat.log2_self_le h₂)
  -- powers of two on both sides, so that their exponents can be compared
  have hpow := Nat.lt_of_le_of_lt (Nat.le_trans hprod hmul) hlt
  have hexp := (Nat.pow_lt_pow_iff_right (by decide : 1 < 2)).mp hpow
  omega

/-- The leading bit of a quotient stands at most one place below that difference. -/
theorem le_log2_quotient (h₁ : m₁ ≠ 0) (h₂ : m₂ ≠ 0) (h : m₂.log2 + 1 ≤ m₁.log2 + k) :
    (m₁ <<< k) / m₂ ≠ 0 ∧ m₁.log2 + k ≤ ((m₁ <<< k) / m₂).log2 + m₂.log2 + 1 := by
  have hle : 2 ^ (m₁.log2 + k) ≤ m₁ <<< k := by
    rw [Nat.shiftLeft_eq, Nat.pow_add]
    exact Nat.mul_le_mul_right _ (Nat.log2_self_le h₁)
  have hquotient : 2 ^ (m₁.log2 + k - m₂.log2 - 1) ≤ (m₁ <<< k) / m₂ := by
    rw [Nat.le_div_iff_mul_le (Nat.pos_of_ne_zero h₂)]
    refine Nat.le_trans (Nat.mul_le_mul_left _ (Nat.le_of_lt Nat.lt_log2_self)) ?_
    rw [← Nat.pow_add]
    refine Nat.le_trans (Nat.pow_le_pow_right (by decide) ?_) hle
    omega
  have hq : (m₁ <<< k) / m₂ ≠ 0 := by
    have hpos := Nat.two_pow_pos (m₁.log2 + k - m₂.log2 - 1)
    omega
  have hlog := (Nat.le_log2 hq).mpr hquotient
  exact ⟨hq, by omega⟩

end Division

/-- The quotient that is rounded in a division: it has enough bits, it is not too large, and it is
not zero above the short mantissas. -/
theorem divCore_spec {m₁ m₂ : Nat} (e₁ e₂ : Int) (h₁ : m₁ ≠ 0) (h₂ : m₂ ≠ 0) :
    ∃ q t a, divCore .binary64 m₁ e₁ m₂ e₂ = (q, t, a) ∧
      (52 ≤ q.log2 ∨ t ≤ -1074) ∧
      q.log2 + t ≤ max (m₁.log2 + e₁ - (m₂.log2 + e₂)) (-1074) ∧
      (-1021 ≤ m₁.log2 + e₁ - (m₂.log2 + e₂) →
        52 ≤ q.log2 ∧ m₁.log2 + e₁ - (m₂.log2 + e₂) - 1 ≤ q.log2 + t) := by
  have htarget : Format.binary64.targetExponent (totalExponent m₁ e₁ - totalExponent m₂ e₂) =
      max (m₁.log2 + e₁ - (m₂.log2 + e₂) - 53) (-1074) := by
    have hbits : (Format.binary64.mantissaBits : Int) = 53 := rfl
    have hmin : Format.binary64.minExponent = -1074 := rfl
    simp only [Format.targetExponent, totalExponent, hbits, hmin]
    omega
  refine ⟨_, _, _, rfl, ?_⟩
  rw [htarget]
  obtain ⟨t, ht⟩ : ∃ t, min (e₁ - e₂) (max (m₁.log2 + e₁ - (m₂.log2 + e₂) - 53) (-1074)) = t :=
    ⟨_, rfl⟩
  rw [ht]
  obtain ⟨k, hk⟩ : ∃ k : Nat, (e₁ - e₂ - t).toNat = k := ⟨_, rfl⟩
  rw [hk]
  -- either the dividend is moved far enough for a quotient above one, or the exponent is the least
  by_cases henough : m₂.log2 + 1 ≤ m₁.log2 + k
  · obtain ⟨hq, hlo⟩ := le_log2_quotient h₁ h₂ henough
    have hhi := log2_quotient_le h₂ hq
    exact ⟨by omega, by omega, by omega⟩
  · by_cases hq : (m₁ <<< k) / m₂ = 0
    · rw [hq, Nat.log2_zero]
      exact ⟨by omega, by omega, by omega⟩
    · have hhi := log2_quotient_le h₂ hq
      exact ⟨by omega, by omega, by omega⟩

/-! ## Quotients of doubles -/

section Quotients

variable {s₁ s₂ : Sign} {m₁ m₂ : Nat} {e₁ e₂ : Int} {h₁ : 0 < m₁} {h₂ : 0 < m₂}

theorem div_isFinite :
    (UnpackedFloat.div .binary64 (.finite s₁ m₁ e₁ h₁) (.finite s₂ m₂ e₂ h₂)).isFinite := by
  rw [UnpackedFloat.div]
  exact round_isFinite

theorem div_fits (hmax : m₁.log2 + e₁ - (m₂.log2 + e₂) ≤ 1022) :
    Fits (UnpackedFloat.div .binary64 (.finite s₁ m₁ e₁ h₁) (.finite s₂ m₂ e₂ h₂)) := by
  obtain ⟨q, t, a, hcore, hbits, hhi, -⟩ :=
    divCore_spec e₁ e₂ (Nat.ne_of_gt h₁) (Nat.ne_of_gt h₂)
  rw [UnpackedFloat.div, hcore]
  exact round_fits hbits (by omega)

theorem div_full (hmin : -1021 ≤ m₁.log2 + e₁ - (m₂.log2 + e₂)) :
    ∃ m e h, UnpackedFloat.div .binary64 (.finite s₁ m₁ e₁ h₁) (.finite s₂ m₂ e₂ h₂) =
      .finite (s₁ / s₂) m e h ∧ 2 ^ 52 ≤ m ∧ m < 2 ^ 53 ∧ -1074 ≤ e := by
  obtain ⟨q, t, a, hcore, -, -, hlo⟩ :=
    divCore_spec e₁ e₂ (Nat.ne_of_gt h₁) (Nat.ne_of_gt h₂)
  obtain ⟨hbits, hlo⟩ := hlo hmin
  obtain ⟨m, e, h, hround, hm, hm', he, -⟩ :=
    round_full (s := s₁ / s₂) (a := a) (e := t) hbits (by omega)
  rw [UnpackedFloat.div, hcore]
  exact ⟨m, e, h, hround, hm, hm', by omega⟩

end Quotients

theorem unpacked_two : unpacked (Float.ofNat 2) = .finite .positive (2 ^ 52) (-51) (by decide) := by
  rfl

/-- Half of a finite double is finite. -/
theorem isFinite_half {x : Float} (h : x.isFinite) : (x / Float.ofNat 2).isFinite := by
  have hfits := fits_unpacked x
  have hhalf : Fits (UnpackedFloat.div .binary64 (unpacked x) (unpacked (Float.ofNat 2))) ∧
      (UnpackedFloat.div .binary64 (unpacked x) (unpacked (Float.ofNat 2))).isFinite := by
    rw [unpacked_two]
    have h : (unpacked x).isFinite := h
    generalize unpacked x = u at hfits h ⊢
    cases hfits with
    | notANumber => cases h
    | infinity s => cases h
    | zero s => exact ⟨.zero _, rfl⟩
    | finite s m e hpos hm he he' hor =>
      have hlog : m.log2 < 53 := (Nat.log2_lt (by omega)).mpr hm
      have htwo : (2 ^ 52 : Nat).log2 = 52 := Nat.log2_two_pow
      exact ⟨div_fits (by omega), div_isFinite⟩
  have hunpacked : unpacked (x / Float.ofNat 2) = _ := unpack_pack hhalf.1
  show (unpacked (x / Float.ofNat 2)).isFinite
  rw [hunpacked]
  exact hhalf.2

/-! ## Numerals that are not zero -/

/-- Neither of the two zeros. -/
def IsNonzero (u : UnpackedFloat) : Prop := ∀ s, u ≠ .zero s

theorem beq_zero_of_isNonzero {x : Float} (h : IsNonzero (unpacked x)) : (x == 0) = false := by
  show ((unpacked x).compare (.zero .positive) == some .eq) = false
  generalize unpacked x = u at h ⊢
  cases u with
  | notANumber => rfl
  | infinity s => cases s <;> rfl
  | zero s => exact absurd rfl (h s)
  | finite s m e hpos => cases s <;> rfl

/-- A number above the greatest finite double is packed as an infinity. -/
theorem pack_of_overflow {s : Sign} {m : Nat} {e : Int} {h : 0 < m} (he : 971 < e) :
    UnpackedFloat.pack .binary64 (.finite s m e h) = packedInfinity .binary64 s := by
  have hbiased : 2 ^ Format.binary64.exponentBits ≤ (e + Format.binary64.exponentBias +
      Format.binary64.mantissaBitsWithoutImplicit).toNat + 1 := by
    show 2 ^ 11 ≤ (e + 1023 + 52).toNat + 1
    omega
  rw [UnpackedFloat.pack]
  exact if_pos hbiased

/-- A mantissa with all of its bits does not become zero when it is packed. -/
theorem isNonzero_pack {s : Sign} {m : Nat} {e : Int} {h : 0 < m} (hlo : 2 ^ 52 ≤ m)
    (hhi : m < 2 ^ 53) (he : -1074 ≤ e) :
    IsNonzero (Float.Model.pack (.finite s m e h)).unpack := by
  by_cases hmax : e ≤ 971
  · rw [unpack_pack (.finite s m e h hhi he hmax (.inl hlo))]
    exact nofun
  · have hunpack : (Float.Model.pack (.finite s m e h)).unpack = .infinity s := by
      show UnpackedFloat.unpack .binary64 (UnpackedFloat.pack .binary64 (.finite s m e h)) = _
      rw [pack_of_overflow (by omega)]
      cases s <;> rfl
    rw [hunpack]
    exact nofun

/-- A quotient is not zero if its leading bit stands high enough. -/
theorem isNonzero_div {s₁ s₂ : Sign} {m₁ m₂ : Nat} {e₁ e₂ : Int} {h₁ : 0 < m₁} {h₂ : 0 < m₂}
    (hmin : -1021 ≤ m₁.log2 + e₁ - (m₂.log2 + e₂)) :
    IsNonzero (Float.Model.pack
      (UnpackedFloat.div .binary64 (.finite s₁ m₁ e₁ h₁) (.finite s₂ m₂ e₂ h₂))).unpack := by
  obtain ⟨m, e, h, hdiv, hlo, hhi, he⟩ := div_full hmin
  rw [hdiv]
  exact isNonzero_pack hlo hhi he

theorem log2_shiftLeft {m : Nat} (hm : m ≠ 0) (k : Nat) : (m <<< k).log2 = m.log2 + k := by
  rw [Nat.shiftLeft_eq]
  induction k with
  | zero => rw [Nat.pow_zero, Nat.mul_one, Nat.add_zero]
  | succ k ih =>
    have hne : m * 2 ^ k ≠ 0 := Nat.mul_ne_zero hm (Nat.ne_of_gt (Nat.two_pow_pos k))
    rw [Nat.pow_succ, ← Nat.mul_assoc, Nat.mul_comm _ 2, Nat.log2_two_mul hne, ih]
    rfl

/-- A whole number of at most 53 bits as a double. -/
theorem unpacked_toFloat {n : Nat} (hpos : 0 < n) (hlt : n < 2 ^ 53) :
    ∃ m e h, unpacked n.toUInt64.toFloat = .finite .positive m e h ∧ n.log2 ≤ m.log2 + e := by
  have hn : n.toUInt64.toNat = n := by
    show n % 2 ^ 64 = n
    omega
  have hlog : n.log2 < 53 := (Nat.log2_lt (by omega)).mpr hlt
  have htarget : targetOf n 0 = n.log2 - 52 := by
    rw [targetOf]
    omega
  have hshift : (n <<< (52 - n.log2)).log2 = 52 := by
    rw [log2_shiftLeft (by omega)]
    omega
  have hround : UnpackedFloat.ofUInt64 .binary64 n.toUInt64 =
      roundWithAccuracy .binary64 .positive (n <<< (52 - n.log2)) (n.log2 - 52) .exact := by
    have hcompare : compare (n : Int) 0 = .gt := Int.compare_eq_gt.mpr (by omega)
    have hamount : (0 - ((n.log2 : Int) - 52)).toNat = 52 - n.log2 := by omega
    have hexponent : (0 : Int) - (52 - n.log2 : Nat) = n.log2 - 52 := by omega
    rw [UnpackedFloat.ofUInt64, UnpackedFloat.ofNat, UnpackedFloat.ofInt, hn,
      UnpackedFloat.normalize, hcompare]
    simp only [UnpackedFloat.round, Int.toNat_natCast, targetExponent_eq, htarget, decreaseExponent,
      hamount, hexponent]
  obtain ⟨m, e, h, hfull, hlo, hhi, he, he'⟩ := round_full (s := .positive) (a := .exact)
    (m := n <<< (52 - n.log2)) (e := n.log2 - 52) (by omega) (by omega)
  have hfits : Fits (.finite .positive m e h) :=
    .finite _ _ _ _ hhi (by omega) (by omega) (.inl hlo)
  refine ⟨m, e, h, ?_, ?_⟩
  · show (Float.Model.pack (UnpackedFloat.ofUInt64 .binary64 n.toUInt64)).unpack = _
    rw [hround, hfull]
    exact unpack_pack hfits
  · have hlog := log2_eq_of_full hlo hhi
    omega

/-- The double that a numeral with four places is divided by. -/
def tenThousand : Float := Float.ofBits 0x40C3880000000000

theorem unpacked_tenThousand :
    unpacked tenThousand = .finite .positive 5497558138880000 (-39) (by decide) := by
  rfl

/-- The fast reading of a numeral with four places divides two doubles. -/
theorem ofScientific_fast {n : Nat} (h : n < 2 ^ 53) :
    Float.ofScientific n true 4 = n.toUInt64.toFloat / tenThousand := by
  rw [Float.ofScientific, dif_pos ⟨h, by decide⟩]
  rfl

/-- The slow reading divides whole numbers. -/
theorem ofScientific_slow {n : Nat} (hpos : 0 < n) (h : ¬ n < 2 ^ 53) :
    Float.ofScientific n true 4 = .ofModel (.pack (UnpackedFloat.div .binary64
      (.finite .positive n 0 hpos) (.finite .positive (10 ^ 4) 0 (by decide)))) := by
  have hsmall : ¬ (-4 : Int) < -((2 ^ 11 : Int) + n.log2) := by omega
  have hscientific : UnpackedFloat.ofScientific .binary64 n (-4) =
      UnpackedFloat.div .binary64 (.finite .positive n 0 hpos)
        (.finite .positive (10 ^ 4) 0 (by decide)) := by
    rw [UnpackedFloat.ofScientific, dif_neg (by omega), if_neg (by decide), if_neg hsmall,
      if_neg (by decide)]
    rfl
  rw [Float.ofScientific, dif_neg fun hfast => h hfast.1, ← hscientific]
  rfl

/-- A numeral with four places that is not zero is not read as zero. -/
theorem isNonzero_ofScientific {n : Nat} (hpos : 0 < n) :
    IsNonzero (unpacked (OfScientific.ofScientific n true 4)) := by
  show IsNonzero (unpacked (Float.ofScientific n true 4))
  -- both ways divide by ten thousand, which has 14 bits
  by_cases hfast : n < 2 ^ 53
  · obtain ⟨m, e, h, hn, hlo⟩ := unpacked_toFloat hpos hfast
    have hlog : (5497558138880000 : Nat).log2 = 52 := by decide
    rw [ofScientific_fast hfast]
    show IsNonzero (Float.Model.pack (UnpackedFloat.div .binary64 (unpacked n.toUInt64.toFloat)
      (unpacked tenThousand))).unpack
    rw [hn, unpacked_tenThousand]
    exact isNonzero_div (by omega)
  · have hlog : (10 ^ 4 : Nat).log2 = 13 := by decide
    rw [ofScientific_slow hpos hfast]
    show IsNonzero (Float.Model.pack _).unpack
    exact isNonzero_div (by omega)

/-- A positive number of units of four places is not read as zero. -/
theorem nearest_ne_zero {n : Nat} (hpos : 0 < n) : (nearest n (-4) == 0) = false := by
  have hsize : 0 < (Nat.toDigits 10 n).length := Nat.length_toDigits_pos
  have hlow : (n = 0 || decide (((Nat.toDigits 10 n).length : Int) + -4 < -400)) = false := by
    have hn : n ≠ 0 := by omega
    have hlt : ¬ ((Nat.toDigits 10 n).length : Int) + -4 < -400 := by omega
    simp [hn, hlt]
  simp only [nearest, hlow]
  by_cases hhigh : (400 : Int) < (Nat.toDigits 10 n).length + -4
  · rw [if_neg (by decide), if_pos hhigh]
    decide +kernel
  · rw [if_neg (by decide), if_neg hhigh, if_pos (by decide)]
    exact beq_zero_of_isNonzero (isNonzero_ofScientific hpos)

/-! ## Whole numbers -/

/-- A whole number beyond the doubles is read as an infinity. -/
theorem ofScientific_beyond {n : Nat} (h : 1024 ≤ n.log2) :
    Float.ofScientific n false 0 = 1 / 0 := by
  have hn : n ≠ 0 := by
    rintro rfl
    rw [Nat.log2_zero] at h
    omega
  have hslow : ¬ (n < 2 ^ 53 ∧ 0 ≤ 22) := by
    intro hfast
    have hlog := (Nat.log2_lt hn).mpr hfast.1
    omega
  have hlog : (n <<< 53 * 10 ^ 0).log2 = n.log2 + 53 := by
    rw [Nat.pow_zero, Nat.mul_one, log2_shiftLeft hn]
  obtain ⟨m, e, hpos, hround, -, -, he, -⟩ := round_full (s := .positive) (a := .exact)
    (m := n <<< 53 * 10 ^ 0) (e := -53 + 0) (by omega) (by omega)
  have hscientific : UnpackedFloat.ofScientific .binary64 n 0 = .finite .positive m e hpos := by
    have hsmall : ¬ (0 : Int) < -((2 ^ 11 : Int) + n.log2) := by omega
    rw [UnpackedFloat.ofScientific, dif_neg hn, if_neg (by decide), if_neg hsmall,
      if_pos (by decide)]
    exact hround
  have hpack : Float.Model.pack (.finite .positive m e hpos) =
      Float.Model.pack (.infinity .positive) := by
    have hbits : UnpackedFloat.pack .binary64 (.finite .positive m e hpos) =
        UnpackedFloat.pack .binary64 (.infinity .positive) := pack_of_overflow (by omega)
    rw [Float.Model.pack, Float.Model.pack]
    simp only [hbits]
  rw [Float.ofScientific, dif_neg hslow]
  show Float.ofModel (.pack (UnpackedFloat.ofScientific .binary64 n 0)) = 1 / 0
  rw [hscientific, hpack]
  rfl

/-- A digit holds more than three bits. -/
theorem le_log2_of_lt_digits {n k : Nat} (hk : 0 < k) (h : k < (Nat.toDigits 10 n).length) :
    3 * k ≤ n.log2 := by
  have hlarge : 10 ^ k ≤ n := by
    by_contra hlt
    have hle := (Nat.length_toDigits_le_iff (by decide) hk).mpr (Nat.lt_of_not_le hlt)
    omega
  have hpos : 0 < n := Nat.lt_of_lt_of_le (Nat.pow_pos (by decide)) hlarge
  rw [Nat.le_log2 (by omega), Nat.pow_mul]
  calc (2 ^ 3) ^ k ≤ 10 ^ k := Nat.pow_le_pow_left (by decide) k
    _ ≤ n := hlarge

/-- A whole number is read as the double next to it. -/
theorem nearest_whole (n : Nat) : nearest n 0 = Float.ofNat n := by
  by_cases hzero : n = 0
  · rw [hzero]
    rfl
  · have hlow : (n = 0 || decide (((Nat.toDigits 10 n).length : Int) + 0 < -400)) = false := by
      rw [decide_eq_false hzero, decide_eq_false (by omega)]
      rfl
    simp only [nearest, hlow]
    by_cases hhigh : (400 : Int) < (Nat.toDigits 10 n).length + 0
    · have hlog : 3 * 400 ≤ n.log2 := le_log2_of_lt_digits (by decide) (by omega)
      rw [if_neg (by decide), if_pos hhigh]
      exact (ofScientific_beyond (Nat.le_trans (by decide) hlog)).symm
    · rw [if_neg (by decide), if_neg hhigh, if_neg (by decide)]
      rfl

end SurfaceStudio.Decimal
