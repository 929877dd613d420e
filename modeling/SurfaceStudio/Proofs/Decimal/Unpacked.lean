import Mathlib
import SurfaceStudio.Decimal.Double
/-!
# Doubles unpacked

The arithmetic of doubles is defined on their unpacked form: a sign, a mantissa and an exponent.
Here that form is tied to `Double.ofFloat`, which reads the same parts off the bits by whole-number
arithmetic, and it is shown that packing a form that fits loses nothing.
-/

namespace SurfaceStudio.Decimal

open Float.Model Float.Model.UnpackedFloat

/-- The unpacked form of a double. -/
abbrev unpacked (x : Float) : UnpackedFloat := x.toModel.unpack

/-! ## The three fields of the bits -/

section Fields

variable {spec : Format} (b : BitVec spec.numBits)

theorem toNat_unpackMantissa :
    (unpackMantissa b).toNat = b.toNat % 2 ^ spec.mantissaBitsWithoutImplicit := by
  rw [unpackMantissa_def, BitVec.extractLsb'_toNat, Nat.shiftRight_zero]

theorem toNat_unpackExponent : (unpackExponent b).toNat =
    b.toNat / 2 ^ spec.mantissaBitsWithoutImplicit % 2 ^ spec.exponentBits := by
  rw [unpackExponent_def, BitVec.extractLsb'_toNat, Nat.shiftRight_eq_div_pow]

theorem toNat_unpackSign : (unpackSign b).toNat =
    b.toNat / 2 ^ (spec.mantissaBitsWithoutImplicit + spec.exponentBits) := by
  have hb : b.toNat < 2 ^ (1 + spec.exponentBits + spec.mantissaBitsWithoutImplicit) := b.isLt
  rw [unpackSign_def, BitVec.extractLsb'_toNat, Nat.shiftRight_eq_div_pow]
  refine Nat.mod_eq_of_lt (Nat.div_lt_of_lt_mul ?_)
  rwa [Nat.add_assoc, Nat.pow_add, Nat.mul_comm, Nat.add_comm spec.exponentBits] at hb

end Fields

/-- The implicit bit stands above the bits of the mantissa. -/
theorem toNat_implicit_append {n : ℕ} (m : BitVec n) : (1#1 ++ m).toNat = 2 ^ n + m.toNat := by
  rw [BitVec.toNat_append, ← Nat.shiftLeft_add_eq_or_of_lt m.isLt, Nat.shiftLeft_eq]
  exact congrArg (· + m.toNat) (Nat.one_mul _)

/-! ## Forms that fit -/

/-- A form that fits into 64 bits: a mantissa of at most 53 bits and an exponent in its range, where
only the least exponent goes with a shorter mantissa. -/
inductive Fits : UnpackedFloat → Prop where
  | notANumber : Fits .notANumber
  | infinity (s : Sign) : Fits (.infinity s)
  | zero (s : Sign) : Fits (.zero s)
  | finite (s : Sign) (m : Nat) (e : Int) (h : 0 < m) : m < 2 ^ 53 → -1074 ≤ e → e ≤ 971 →
      (2 ^ 52 ≤ m ∨ e = -1074) → Fits (.finite s m e h)

/-- What is unpacked fits. -/
theorem fits_unpack (b : BitVec Format.binary64.numBits) :
    Fits (UnpackedFloat.unpack .binary64 b) := by
  have hm : (unpackMantissa b).toNat < 2 ^ 52 := (unpackMantissa b).isLt
  have he : (unpackExponent b).toNat < 2 ^ 11 := (unpackExponent b).isLt
  rw [UnpackedFloat.unpack]
  split
  · split
    · exact .infinity _
    · exact .notANumber
  · next hnot =>
    have hnot : (unpackExponent b).toNat ≠ 2047 := fun h => hnot (BitVec.eq_of_toNat_eq h)
    split
    · -- no implicit bit: zero, or a short mantissa with the least exponent
      next hzero =>
      split
      · exact .zero _
      · have hfield : (unpackExponent b).toNat = 0 := by rw [hzero]; rfl
        refine .finite _ _ _ _ (by omega) ?_ ?_ (.inr ?_) <;>
          simp only [hfield, Format.exponentBias] <;> omega
    · next hpos =>
      have hpos : (unpackExponent b).toNat ≠ 0 := fun h => hpos (BitVec.eq_of_toNat_eq h)
      have happend : (1#1 ++ unpackMantissa b).toNat = 2 ^ 52 + (unpackMantissa b).toNat :=
        toNat_implicit_append _
      refine .finite _ _ _ _ (by omega) ?_ ?_ (.inl (by omega)) <;>
        simp only [Format.exponentBias] <;> omega

theorem fits_unpacked (x : Float) : Fits (unpacked x) := fits_unpack _

theorem log2_eq_of_full {m : Nat} (hlo : 2 ^ 52 ≤ m) (hhi : m < 2 ^ 53) : m.log2 = 52 :=
  (Nat.log2_eq_iff (by omega)).mpr ⟨hlo, hhi⟩

theorem log2_lt_of_short {m : Nat} (hpos : 0 < m) (hhi : m < 2 ^ 52) : m.log2 < 52 :=
  (Nat.log2_lt (by omega)).mpr hhi

theorem unpack_pack_full (s : Sign) (m : Nat) (e : Int) (h : 0 < m) (hlo : 2 ^ 52 ≤ m)
    (hhi : m < 2 ^ 53) (he : -1074 ≤ e) (he' : e ≤ 971) :
    UnpackedFloat.unpack .binary64 (UnpackedFloat.pack .binary64 (.finite s m e h)) =
      .finite s m e h := by
  -- the exponent as it stands in the bits, neither the first nor the last of its range
  obtain ⟨field, hfield⟩ : ∃ field : Nat, (field : Int) = e + 1075 :=
    ⟨(e + 1075).toNat, by omega⟩
  have hbiased : (e + Format.binary64.exponentBias + Format.binary64.mantissaBitsWithoutImplicit
      ).toNat = field := by
    show (e + 1023 + 52).toNat = field
    omega
  have hlog : m.log2 + 1 = Format.binary64.mantissaBits := by
    rw [log2_eq_of_full hlo hhi]
    rfl
  have hne : BitVec.ofNat 11 field ≠ -1#11 := by
    intro heq
    have hnat : field % 2 ^ 11 = 2047 := congrArg BitVec.toNat heq
    omega
  have hne' : BitVec.ofNat 11 field ≠ 0#11 := by
    intro heq
    have hnat : field % 2 ^ 11 = 0 := congrArg BitVec.toNat heq
    omega
  -- the bits hold the mantissa without its leading one, which unpacking puts back
  have hmantissa : (1#1 ++ BitVec.ofNat 52 m).toNat = m := by
    rw [toNat_implicit_append, BitVec.toNat_ofNat]
    omega
  have hexponent : ((BitVec.ofNat 11 field).toNat : Int) -
      (Format.binary64.exponentBias + Format.binary64.mantissaBitsWithoutImplicit) = e := by
    rw [BitVec.toNat_ofNat]
    show ((field % 2 ^ 11 : Nat) : Int) - (1023 + 52) = e
    omega
  have hpack : UnpackedFloat.pack .binary64 (.finite s m e h) =
      packComponents .binary64 s (BitVec.ofNat 11 field) (BitVec.ofNat 52 m) := by
    rw [UnpackedFloat.pack]
    simp only [hbiased]
    rw [if_neg (show ¬ 2 ^ 11 ≤ field + 1 by omega), if_pos hlog]
  rw [hpack, UnpackedFloat.unpack]
  simp only [unpackMantissa_packComponents, unpackExponent_packComponents,
    unpackSign_packComponents, Sign.ofBitVec_toBitVec]
  rw [if_neg hne, if_neg hne']
  simp only [hmantissa, hexponent]

theorem unpack_pack_least (s : Sign) (m : Nat) (h : 0 < m) (hhi : m < 2 ^ 52) :
    UnpackedFloat.unpack .binary64 (UnpackedFloat.pack .binary64 (.finite s m (-1074) h)) =
      .finite s m (-1074) h := by
  have hlog : ¬ m.log2 + 1 = Format.binary64.mantissaBits := by
    have hlog := log2_lt_of_short h hhi
    show ¬ m.log2 + 1 = 53
    omega
  have hmantissa : (BitVec.ofNat 52 m).toNat = m := by
    rw [BitVec.toNat_ofNat]
    omega
  have hne : BitVec.ofNat 52 m ≠ 0#52 := by
    intro heq
    have hnat : m % 2 ^ 52 = 0 := congrArg BitVec.toNat heq
    omega
  -- the leading bit is missing, so that the exponent field is zero
  have hpack : UnpackedFloat.pack .binary64 (.finite s m (-1074) h) =
      packComponents .binary64 s 0#11 (BitVec.ofNat 52 m) := by
    rw [UnpackedFloat.pack]
    rw [if_neg (by decide), if_neg hlog]
  rw [hpack, UnpackedFloat.unpack]
  simp only [unpackMantissa_packComponents, unpackExponent_packComponents,
    unpackSign_packComponents, Sign.ofBitVec_toBitVec]
  rw [if_neg (by decide), if_pos trivial, dif_neg hne]
  simp only [hmantissa]
  rfl

/-- Packing a form that fits loses nothing. -/
theorem unpack_pack {u : UnpackedFloat} (hu : Fits u) : (Float.Model.pack u).unpack = u := by
  show UnpackedFloat.unpack .binary64 (UnpackedFloat.pack .binary64 u) = u
  cases hu with
  | notANumber => rfl
  | infinity s => cases s <;> rfl
  | zero s => cases s <;> rfl
  | finite s m e h hm he he' hor =>
    by_cases hlo : 2 ^ 52 ≤ m
    · exact unpack_pack_full s m e h hlo hm he he'
    · obtain rfl : e = -1074 := hor.resolve_left hlo
      exact unpack_pack_least s m h (by omega)

/-! ## The parts of a double -/

/-- A negative sign. -/
def isMinus : Sign → Bool
  | .negative => true
  | .positive => false

/-- The kind and the parts of an unpacked form. -/
def Double.ofUnpacked : UnpackedFloat → Double
  | .notANumber => .undefined
  | .infinity s => .infinite (isMinus s)
  | .zero s => .finite (isMinus s) 0 (-1074)
  | .finite s m e _ => .finite (isMinus s) m e

theorem twoTo_eq (n : Nat) : twoTo n = 2 ^ n := rfl

theorem isMinus_unpackSign {spec : Format} (b : BitVec spec.numBits) :
    isMinus (Sign.ofBitVec (unpackSign b)) =
      (b.toNat / 2 ^ (spec.mantissaBitsWithoutImplicit + spec.exponentBits) == 1) := by
  have hsign := toNat_unpackSign b
  have hlt : (unpackSign b).toNat < 2 := (unpackSign b).isLt
  by_cases h : unpackSign b = 0#1
  · have hzero : (unpackSign b).toNat = 0 := by rw [h]; rfl
    rw [h, ← hsign, hzero]
    rfl
  · have hone : (unpackSign b).toNat = 1 := by
      have hne : (unpackSign b).toNat ≠ 0 := fun hz => h (BitVec.eq_of_toNat_eq hz)
      omega
    rw [Sign.ofBitVec, if_neg h, ← hsign, hone]
    rfl

/-- The parts read off the bits are those of the unpacked form. -/
theorem ofFloat_eq (x : Float) : Double.ofFloat x = .ofUnpacked (unpacked x) := by
  show Double.ofFloat x = .ofUnpacked (UnpackedFloat.unpack .binary64 x.toBits.toBitVec)
  -- from here on only the bits matter, whichever double they belong to
  obtain ⟨b, hb⟩ : ∃ b : BitVec Format.binary64.numBits, x.toBits.toBitVec = b := ⟨_, rfl⟩
  have hbits : x.toBits.toNat = b.toNat := by rw [← hb]; rfl
  rw [hb]
  have hsign : isMinus (Sign.ofBitVec (unpackSign b)) = (b.toNat / 2 ^ 63 == 1) :=
    isMinus_unpackSign b
  have hfield : (unpackExponent b).toNat = b.toNat / 2 ^ 52 % 2 ^ 11 := toNat_unpackExponent b
  have htail : (unpackMantissa b).toNat = b.toNat % 2 ^ 52 := toNat_unpackMantissa b
  simp only [Double.ofFloat, twoTo_eq, hbits]
  rw [← hfield, ← htail, ← hsign, UnpackedFloat.unpack]
  -- both sides ask the same of the fields, one of bit vectors and one of numbers
  have hlast : unpackExponent b = -1#11 ↔ (unpackExponent b).toNat = 2047 := BitVec.toNat_eq
  have hfirst : unpackExponent b = 0#11 ↔ (unpackExponent b).toNat = 0 := BitVec.toNat_eq
  have hzero : unpackMantissa b = 0#52 ↔ (unpackMantissa b).toNat = 0 := BitVec.toNat_eq
  by_cases hl : (unpackExponent b).toNat = 2047
  · rw [if_pos (hlast.mpr hl), if_pos hl]
    by_cases hz : (unpackMantissa b).toNat = 0
    · rw [if_pos (hzero.mpr hz), if_pos hz]
      rfl
    · rw [if_neg (mt hzero.mp hz), if_neg hz]
      rfl
  · rw [if_neg (mt hlast.mp hl), if_neg hl]
    by_cases hf : (unpackExponent b).toNat = 0
    · rw [if_pos (hfirst.mpr hf), if_pos hf]
      by_cases hz : (unpackMantissa b).toNat = 0
      · rw [dif_pos (hzero.mpr hz), hz]
        rfl
      · rw [dif_neg (mt hzero.mp hz), Double.ofUnpacked, hf]
        rfl
    · rw [if_neg (mt hfirst.mp hf), if_neg hf, Double.ofUnpacked, toNat_implicit_append]
      rfl

/-! ## Absolute values -/

theorem unpacked_abs (x : Float) : unpacked x.abs = (unpacked x).abs := by
  have hfits : Fits (unpacked x).abs := by
    have hfits := fits_unpacked x
    generalize unpacked x = u at hfits ⊢
    cases hfits with
    | notANumber => exact .notANumber
    | infinity s => exact .infinity _
    | zero s => exact .zero _
    | finite s m e h hm he he' hor => exact .finite _ m e h hm he he' hor
  exact unpack_pack hfits

end SurfaceStudio.Decimal
