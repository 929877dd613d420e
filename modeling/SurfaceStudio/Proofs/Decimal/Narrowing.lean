import SurfaceStudio.Proofs.Decimal.BitOrder
/-!
# Doubles rounded to 32 bits

A double becomes the float nearest to it with its sign in front, and an even one of two that are as
near. From the middle behind the greatest float on it becomes an infinity: `Narrows`.
-/

namespace SurfaceStudio.Binary32

open Decimal Float.Model Float.Model.UnpackedFloat

/-! ## Floats by their bits -/

/-- The exact value of a float; zero for one that is not finite. -/
def value (y : Float32) : ℚ := valueOf y.toModel.unpack

/-- The bits of a float without its sign. -/
def unsigned (y : Float32) : ℕ := y.toBits.toNat % 2 ^ 31

/-- The sign bit of a float. -/
def isNegative (y : Float32) : Bool := y.toBits.toNat / 2 ^ 31 == 1

/-- What a float is by its bits without the sign. -/
inductive HasKind (k : ℕ) (negative : Bool) : UnpackedFloat → Prop
  | finite (u : UnpackedFloat) : k < infinityBits → u.isFinite = true →
      valueOf u = signed negative (magnitude k) → HasKind k negative u
  | infinity (s : Sign) : k = infinityBits → isMinus s = negative → HasKind k negative (.infinity s)
  | notANumber : infinityBits < k → HasKind k negative .notANumber

theorem hasKind_unpack (b : BitVec Format.binary32.numBits) :
    HasKind (b.toNat % 2 ^ 31) (b.toNat / 2 ^ 31 == 1) (UnpackedFloat.unpack .binary32 b) := by
  have hsign : isMinus (Sign.ofBitVec (unpackSign b)) = (b.toNat / 2 ^ 31 == 1) :=
    isMinus_unpackSign b
  have hfield : (unpackExponent b).toNat = b.toNat / 2 ^ 23 % 2 ^ 8 := toNat_unpackExponent b
  have htail : (unpackMantissa b).toNat = b.toNat % 2 ^ 23 := toNat_unpackMantissa b
  have hlast : unpackExponent b = -1#8 ↔ (unpackExponent b).toNat = 255 := BitVec.toNat_eq
  have hfirst : unpackExponent b = 0#8 ↔ (unpackExponent b).toNat = 0 := BitVec.toNat_eq
  have hzero : unpackMantissa b = 0#23 ↔ (unpackMantissa b).toNat = 0 := BitVec.toNat_eq
  have hdiv : b.toNat % 2 ^ 31 / 2 ^ 23 = (unpackExponent b).toNat := by omega
  have hmod : b.toNat % 2 ^ 31 % 2 ^ 23 = (unpackMantissa b).toNat := by omega
  generalize b.toNat % 2 ^ 31 = k at hdiv hmod
  rw [UnpackedFloat.unpack, ← hsign]
  by_cases hl : (unpackExponent b).toNat = 255
  · rw [if_pos (hlast.mpr hl)]
    by_cases hz : (unpackMantissa b).toNat = 0
    · rw [if_pos (hzero.mpr hz)]
      exact .infinity _ (by rw [infinityBits]; omega) rfl
    · rw [if_neg (mt hzero.mp hz)]
      exact .notANumber (by rw [infinityBits]; omega)
  · rw [if_neg (mt hlast.mp hl)]
    have hk : k < infinityBits := by
      have hlt : (unpackExponent b).toNat < 2 ^ 8 := (unpackExponent b).isLt
      rw [infinityBits]
      omega
    by_cases hf : (unpackExponent b).toNat = 0
    · -- no implicit bit: zero, or a short mantissa with the least exponent
      rw [if_pos (hfirst.mpr hf)]
      have hvalue : magnitude k = (unpackMantissa b).toNat * 2 ^ (-149 : ℤ) := by
        rw [magnitude, gap, hdiv, hf, hmod, if_pos rfl]
        rfl
      by_cases hz : (unpackMantissa b).toNat = 0
      · rw [dif_pos (hzero.mpr hz)]
        refine .finite _ hk rfl ?_
        rw [hvalue, hz, Nat.cast_zero, zero_mul, signed_zero]
        rfl
      · rw [dif_neg (mt hzero.mp hz)]
        refine .finite _ hk rfl ?_
        rw [hvalue, ← apply_mul_eq_signed, valueOf, hf]
        rfl
    · rw [if_neg (mt hfirst.mp hf)]
      refine .finite _ hk rfl ?_
      have hexponent : (((unpackExponent b).toNat - 1 : ℕ) - 149 : ℤ) =
          (unpackExponent b).toNat - (127 + 23) := by omega
      have hvalue : magnitude k = (1#1 ++ unpackMantissa b).toNat *
          2 ^ ((unpackExponent b).toNat - (127 + 23) : ℤ) := by
        rw [magnitude, gap, hdiv, hmod, if_neg hf, hexponent, toNat_implicit_append, Nat.add_comm]
      rw [hvalue, ← apply_mul_eq_signed, valueOf]
      rfl

section Floats

variable {y : Float32}

theorem hasKind (y : Float32) : HasKind (unsigned y) (isNegative y) y.toModel.unpack :=
  hasKind_unpack _

theorem isFinite_iff : y.isFinite = true ↔ unsigned y < infinityBits := by
  have hkind := hasKind y
  show y.toModel.unpack.isFinite = true ↔ _
  generalize y.toModel.unpack = u at hkind ⊢
  cases hkind with
  | finite _ hk hu hvalue => exact iff_of_true hu hk
  | infinity s hk hs => exact iff_of_false nofun hk.ge.not_gt
  | notANumber hk => exact iff_of_false nofun hk.not_gt

theorem isNaN_iff : y.isNaN = true ↔ infinityBits < unsigned y := by
  have hkind := hasKind y
  show y.toModel.unpack.isNaN = true ↔ _
  generalize y.toModel.unpack = u at hkind ⊢
  cases hkind with
  | finite _ hk hu hvalue =>
    refine iff_of_false ?_ hk.not_gt
    cases u with
    | notANumber => cases hu
    | _ => exact nofun
  | infinity s hk hs => exact iff_of_false nofun hk.not_gt
  | notANumber hk => exact iff_of_true rfl hk

theorem isInf_iff : y.isInf = true ↔ unsigned y = infinityBits := by
  have hkind := hasKind y
  show y.toModel.unpack.isInf = true ↔ _
  generalize y.toModel.unpack = u at hkind ⊢
  cases hkind with
  | finite _ hk hu hvalue =>
    refine iff_of_false ?_ hk.ne
    cases u with
    | infinity s => cases hu
    | _ => exact nofun
  | infinity s hk hs => exact iff_of_true rfl hk
  | notANumber hk => exact iff_of_false nofun hk.ne'

theorem value_eq (hy : y.isFinite = true) :
    value y = signed (isNegative y) (magnitude (unsigned y)) := by
  have hkind := hasKind y
  have hy : y.toModel.unpack.isFinite = true := hy
  rw [value]
  generalize y.toModel.unpack = u at hkind hy ⊢
  cases hkind with
  | finite _ hk hu hvalue => exact hvalue
  | infinity s hk hs => cases hy
  | notANumber hk => cases hy

/-- Bits that are no number are not kept; all others are. -/
theorem toBits_ofBits {w : UInt32} (h : w.toNat % 2 ^ 31 ≤ infinityBits) :
    (Float32.ofBits w).toBits = w := by
  have hnumber : @isNaNBits .binary32 w.toBitVec = false := by
    refine decide_eq_false fun hnan => ?_
    have hfield : w.toNat / 2 ^ 23 % 2 ^ 8 = 255 :=
      (@toNat_unpackExponent .binary32 w.toBitVec).symm.trans (congrArg BitVec.toNat hnan.1)
    have htail : w.toNat % 2 ^ 23 ≠ 0 := fun hzero => hnan.2 (BitVec.eq_of_toNat_eq
      ((@toNat_unpackMantissa .binary32 w.toBitVec).trans hzero))
    rw [infinityBits] at h
    omega
  have hpack : UnpackedFloat.pack .binary32 (UnpackedFloat.unpack .binary32 w.toBitVec) =
      w.toBitVec := by
    rw [pack_unpack, hnumber, if_neg Bool.false_ne_true]
  exact congrArg UInt32.ofBitVec hpack

end Floats

/-! ## Nearest floats -/

section Nearest

/-- A float by its sign and the bits behind it. -/
def withSign (negative : Bool) (k : ℕ) : Float32 :=
  Float32.ofBits ((if negative then twoTo 31 else 0) + k).toUInt32

theorem toBits_withSign {negative : Bool} {k : ℕ} (hk : k ≤ infinityBits) :
    (withSign negative k).toBits.toNat = (if negative then 2 ^ 31 else 0) + k := by
  rw [infinityBits] at hk
  have hlt : (if negative then 2 ^ 31 else 0) + k < 2 ^ 32 := by
    split <;> omega
  have hnat : ((if negative then 2 ^ 31 else 0) + k).toUInt32.toNat =
      (if negative then 2 ^ 31 else 0) + k := Nat.mod_eq_of_lt hlt
  have hbits := toBits_ofBits (w := ((if negative then 2 ^ 31 else 0) + k).toUInt32) (by
    rw [hnat, infinityBits]
    split <;> omega)
  exact (congrArg UInt32.toNat hbits).trans hnat

theorem unsigned_withSign {negative : Bool} {k : ℕ} (hk : k ≤ infinityBits) :
    unsigned (withSign negative k) = k := by
  rw [unsigned, toBits_withSign hk]
  rw [infinityBits] at hk
  split <;> omega

theorem isNegative_withSign {negative : Bool} {k : ℕ} (hk : k ≤ infinityBits) :
    isNegative (withSign negative k) = negative := by
  rw [isNegative, toBits_withSign hk]
  rw [infinityBits] at hk
  cases negative
  · exact beq_eq_false_iff_ne.mpr (by rw [if_neg Bool.false_ne_true]; omega)
  · exact beq_iff_eq.mpr (by rw [if_pos rfl]; omega)

variable {x : Float} {negative : Bool} {m : ℕ} {e : ℤ}

theorem exists_parts (hx : x.isFinite = true) :
    ∃ negative m e, Double.ofFloat x = .finite negative m e := by
  have hx : (unpacked x).isFinite = true := hx
  rw [ofFloat_eq]
  generalize unpacked x = u at hx
  cases u with
  | zero s => exact ⟨_, _, _, rfl⟩
  | finite s m e h => exact ⟨_, _, _, rfl⟩
  | _ => cases hx

/-- The float that a finite double is rounded to: no other one is nearer, an even one is preferred
to another one that is as near, and the sign is kept. -/
structure IsRounded (x : Float) (y : Float32) : Prop where
  finite : y.isFinite = true
  sign : isNegative y = Decimal.isNegative x
  le : ∀ z : Float32, z.isFinite = true →
    |value y - Decimal.value x| ≤ |value z - Decimal.value x|
  even : ∀ z : Float32, z.isFinite = true → value z ≠ value y →
    |value z - Decimal.value x| = |value y - Decimal.value x| → y.toBits.toNat % 2 = 0

/-- The infinity in place of a double that is too large. -/
structure IsInfinity (x : Float) (y : Float32) : Prop where
  infinite : y.isInf = true
  sign : isNegative y = Decimal.isNegative x

theorem isRounded_withSign {k : ℕ} (h : Double.ofFloat x = .finite negative m e)
    (hk : IsNearestBits (m * 2 ^ e) k) (hlt : k < infinityBits) :
    IsRounded x (withSign negative k) := by
  have hunsigned : unsigned (withSign negative k) = k := unsigned_withSign hlt.le
  have hnegative : isNegative (withSign negative k) = negative := isNegative_withSign hlt.le
  have hfinite : (withSign negative k).isFinite = true := isFinite_iff.mpr (by rwa [hunsigned])
  have hvalue : value (withSign negative k) = signed negative (magnitude k) := by
    rw [value_eq hfinite, hunsigned, hnegative]
  have hnonneg : (0 : ℚ) ≤ m * 2 ^ e := by positivity
  have hdistance : |value (withSign negative k) - Decimal.value x| =
      |magnitude k - m * 2 ^ e| := by
    rw [hvalue, value_eq_signed h, abs_signed_sub]
  -- without the signs another float is no farther away
  have hother : ∀ z : Float32, z.isFinite = true →
      |magnitude (unsigned z) - m * 2 ^ e| ≤ |value z - Decimal.value x| := by
    intro z hz
    have habs := abs_abs_sub_abs_le (value z) (Decimal.value x)
    rwa [value_eq hz, abs_signed (magnitude_nonneg _), value_eq_signed h, abs_signed hnonneg,
      ← value_eq hz, ← value_eq_signed h] at habs
  refine ⟨hfinite, ?_, fun z hz => ?_, fun z hz hne htie => ?_⟩
  · rw [hnegative, Decimal.isNegative, h]
  · rw [hdistance]
    exact (hk.abs_sub_le _).trans (hother z hz)
  · have heq : |magnitude (unsigned z) - m * 2 ^ e| = |magnitude k - m * 2 ^ e| :=
      le_antisymm ((hother z hz).trans_eq (htie.trans hdistance)) (hk.abs_sub_le _)
    have hj : unsigned z ≠ k := by
      intro hj
      -- the same bits with the other sign are farther away, unless both floats are zero
      rw [value_eq hz, hj] at hne htie
      have hsign : isNegative z = !negative := by
        refine Bool.eq_not_of_ne fun hsame => hne ?_
        rw [hsame, hvalue]
      rw [hsign, hdistance, value_eq_signed h, abs_signed_not_sub (magnitude_nonneg k) hnonneg]
        at htie
      have hzero := hk.abs_sub_le 0
      rw [magnitude_zero, zero_sub, abs_neg, abs_of_nonneg hnonneg, ← htie] at hzero
      have hk : magnitude k = 0 := le_antisymm (by linarith) (magnitude_nonneg k)
      rw [hvalue, hk, signed_zero, signed_zero] at hne
      exact hne rfl
    have heven := hk.even_of_tie hj heq
    rw [toBits_withSign hlt.le]
    split <;> omega

/-- A float in place of a double: the double rounded, or an infinity from the middle behind the
greatest float on. -/
inductive Narrows (x : Float) (y : Float32) : Prop where
  | rounded : |Decimal.value x| < limit → IsRounded x y → Narrows x y
  | infinity : limit ≤ |Decimal.value x| → IsInfinity x y → Narrows x y

theorem Narrows.isFinite_iff {y : Float32} (h : Narrows x y) :
    y.isFinite = true ↔ |Decimal.value x| < limit := by
  cases h with
  | rounded hlt hy => exact iff_of_true hy.finite hlt
  | infinity hle hy =>
    refine iff_of_false (fun hfinite => ?_) hle.not_gt
    have hlt := Binary32.isFinite_iff.mp hfinite
    rw [isInf_iff.mp hy.infinite] at hlt
    exact lt_irrefl _ hlt

theorem Narrows.isNaN_eq_false {y : Float32} (h : Narrows x y) : y.isNaN = false := by
  have hle : unsigned y ≤ infinityBits := by
    cases h with
    | rounded _ hy => exact (Binary32.isFinite_iff.mp hy.finite).le
    | infinity _ hy => exact (isInf_iff.mp hy.infinite).le
  exact Bool.eq_false_of_not_eq_true (mt isNaN_iff.mp hle.not_gt)

theorem narrows_nearest (hx : x.isFinite = true) : Narrows x (nearest x) := by
  obtain ⟨negative, m, e, h⟩ := exists_parts hx
  obtain ⟨k, hk, hbits⟩ := exists_isNearestBits m e
  have hnonneg : (0 : ℚ) ≤ m * 2 ^ e := by positivity
  have hnearest : nearest x = withSign negative (min k infinityBits) := by
    rw [nearest, h, ← hbits]
    rfl
  have hvalue : |Decimal.value x| = m * 2 ^ e := by rw [value_eq_signed h, abs_signed hnonneg]
  rw [hnearest]
  rcases lt_or_ge k infinityBits with hlt | hge
  · rw [min_eq_left hlt.le]
    exact .rounded (hvalue ▸ hk.lt_infinityBits_iff.mp hlt) (isRounded_withSign h hk hlt)
  · rw [min_eq_right hge]
    have hle : limit ≤ m * 2 ^ e := not_lt.mp (mt hk.lt_infinityBits_iff.mpr hge.not_gt)
    refine .infinity (hvalue ▸ hle) ⟨?_, ?_⟩
    · exact isInf_iff.mpr (unsigned_withSign le_rfl)
    · rw [isNegative_withSign le_rfl, Decimal.isNegative, h]

end Nearest

end SurfaceStudio.Binary32
