import SurfaceStudio.Decimal.Numeral
import SurfaceStudio.Decimal.Rounding
import SurfaceStudio.Settings
import SurfaceStudio.Proofs.Decimal.Division
/-!
# Fixed decimals and their value

A finite double written with four places is at least one digit, a point and four digits, and it is
read back as its rounded number of units of the last place.
-/

namespace SurfaceStudio.Decimal

/-! ## Digits -/

theorem digitsValue_eq (ds : List Char) : digitsValue ds = Nat.ofDigitChars 10 ds 0 := by
  rw [digitsValue, Nat.ofDigitChars_eq_foldl]
  congr 1
  funext n c
  rw [Nat.mul_comm]

theorem digitsValue_digits (n : Nat) : digitsValue (digits n) = n := by
  rw [digitsValue_eq, digits, Nat.ofDigitChars_ten_toDigits]

theorem digitsValue_padLeft (width : Nat) (ds : List Char) :
    digitsValue (padLeft width ds) = digitsValue ds := by
  rw [digitsValue_eq, digitsValue_eq, padLeft, Nat.ofDigitChars_append,
    Nat.ofDigitChars_replicate_zero, Nat.mul_zero]

theorem isDigit_eq (c : Char) : isDigit c = c.isDigit := by
  rw [isDigit, Char.isDigit]
  rfl

theorem isDigit_of_mem_digits {n : Nat} {c : Char} (h : c ∈ digits n) : isDigit c = true := by
  rw [isDigit_eq]
  exact Nat.isDigit_of_mem_toDigits (by decide) (by decide) h

theorem isDigit_of_mem_padLeft {width n : Nat} {c : Char} (h : c ∈ padLeft width (digits n)) :
    isDigit c = true := by
  rw [padLeft, List.mem_append] at h
  rcases h with h | h
  · rw [List.eq_of_mem_replicate h]
    decide
  · exact isDigit_of_mem_digits h

theorem le_length_padLeft (width : Nat) (ds : List Char) : width ≤ (padLeft width ds).length := by
  rw [padLeft, List.length_append, List.length_replicate]
  omega

/-! ## Numerals -/

/-- What is taken ends where the next character fails. -/
theorem takeWhile_append_of_all {p : Char → Bool} {ds rest : List Char}
    (hds : ∀ c ∈ ds, p c = true) (hrest : ∀ c ∈ rest.head?, p c = false) :
    (ds ++ rest).takeWhile p = ds := by
  rw [List.takeWhile_append_of_pos hds]
  rcases rest with _ | ⟨c, rest⟩
  · rw [List.takeWhile_nil, List.append_nil]
  · have hc : ¬ p c = true := by
      rw [hrest c rfl]
      decide
    rw [List.takeWhile_cons_of_neg hc, List.append_nil]

theorem takeWhile_of_all {p : Char → Bool} {ds : List Char} (hds : ∀ c ∈ ds, p c = true) :
    ds.takeWhile p = ds := by
  have h : (ds ++ []).takeWhile p = ds := takeWhile_append_of_all hds nofun
  rwa [List.append_nil] at h

/-- A digit or a point does not begin a power of ten. -/
theorem ne_mark_of_isDigit {c : Char} (h : isDigit c = true ∨ c = '.') :
    (c != 'e' && c != 'E') = true := by
  rw [Bool.and_eq_true, bne_iff_ne, bne_iff_ne]
  constructor
  · rintro rfl
    rcases h with h | h <;> cases h
  · rintro rfl
    rcases h with h | h <;> cases h

/-- A numeral of digits, a point and digits. -/
theorem numeralValue_point {whole part : List Char} (hwhole : ∀ c ∈ whole, isDigit c = true)
    (hpart : ∀ c ∈ part, isDigit c = true) :
    numeralValue (whole ++ '.' :: part) =
      nearest (digitsValue (whole ++ part)) (-(part.length : Int)) := by
  have hbody : (whole ++ '.' :: part).takeWhile (fun c => c != 'e' && c != 'E') =
      whole ++ '.' :: part := by
    refine takeWhile_of_all fun c hc => ne_mark_of_isDigit ?_
    rcases List.mem_append.mp hc with hc | hc
    · exact .inl (hwhole c hc)
    · rcases List.mem_cons.mp hc with hc | hc
      · exact .inr hc
      · exact .inl (hpart c hc)
  have hpoint : ∀ c ∈ ('.' :: part).head?, isDigit c = false := by
    rintro c ⟨⟩
    decide
  have htake : (whole ++ '.' :: part).takeWhile isDigit = whole :=
    takeWhile_append_of_all hwhole hpoint
  have hpower : (whole ++ '.' :: part).drop ((whole ++ '.' :: part).length + 1) = [] :=
    List.drop_eq_nil_of_le (by omega)
  have hrest : (whole ++ '.' :: part).drop (whole.length + 1) = part := by
    rw [List.drop_length_add_append]
    rfl
  simp only [numeralValue, hbody, htake, hpower, hrest]
  rw [show powerValue [] = 0 from rfl, Int.zero_sub]

theorem numeralValue_whole {whole : List Char} (hwhole : ∀ c ∈ whole, isDigit c = true) :
    numeralValue whole = nearest (digitsValue whole) 0 := by
  have hbody : whole.takeWhile (fun c => c != 'e' && c != 'E') = whole :=
    takeWhile_of_all fun c hc => ne_mark_of_isDigit (.inl (hwhole c hc))
  have hpower : whole.drop (whole.length + 1) = [] := List.drop_eq_nil_of_le (by omega)
  simp only [numeralValue, hbody, takeWhile_of_all hwhole, hpower, List.append_nil]
  rfl

/-! ## Four places -/

/-- The parts of the absolute value of a finite double. -/
theorem ofFloat_abs {x : Float} (h : x.isFinite) :
    ∃ m e, Double.ofFloat x.abs = .finite false m e := by
  have h : (unpacked x).isFinite := h
  rw [ofFloat_eq, unpacked_abs]
  generalize unpacked x = u at h ⊢
  cases u with
  | notANumber => cases h
  | infinity s => cases h
  | zero s => exact ⟨0, -1074, rfl⟩
  | finite s m e hpos => exact ⟨m, e, rfl⟩

/-- The text of a finite magnitude with four places, and the units that it is read back as. -/
theorem fixed_abs {x : Float} (h : x.isFinite) :
    ∃ (n : Nat) (whole part : List Char), unitsOfTen? (-4) x.abs = some (n : Int) ∧
      fixed 4 x.abs = String.ofList (whole ++ '.' :: part) ∧ whole ≠ [] ∧ part ≠ [] ∧
      (∀ c ∈ whole, isDigit c = true) ∧ (∀ c ∈ part, isDigit c = true) ∧
      numeralValue (whole ++ '.' :: part) = nearest n (-4) := by
  obtain ⟨m, e, hparts⟩ := ofFloat_abs h
  have hmagnitude : magnitude? x.abs = some (.ofBinary m e) := by rw [magnitude?, hparts]
  have hnegative : isNegative x.abs = false := by rw [isNegative, hparts]
  -- the units, and their digits with zeros in front of them up to one place before the point
  obtain ⟨n, hn⟩ : ∃ n, ((Fraction.ofBinary m e).shift 4).round = n := ⟨_, rfl⟩
  obtain ⟨ds, hds⟩ : ∃ ds, padLeft 5 (digits n) = ds := ⟨_, rfl⟩
  have hlength : 5 ≤ ds.length := hds ▸ le_length_padLeft 5 _
  have hdigits : ∀ c ∈ ds, isDigit c = true := hds ▸ fun c hc => isDigit_of_mem_padLeft hc
  refine ⟨n, ds.take (ds.length - 4), ds.drop (ds.length - 4), ?_, ?_, ?_, ?_, ?_, ?_, ?_⟩
  · rw [unitsOfTen?, hmagnitude, Option.map_some, hnegative]
    exact congrArg (fun n : Nat => some (n : Int)) hn
  · have hfixed : fixed 4 x.abs =
        String.ofList ([] ++ (padLeft 5 (digits n)).take ((padLeft 5 (digits n)).length - 4) ++
          '.' :: (padLeft 5 (digits n)).drop ((padLeft 5 (digits n)).length - 4)) := by
      rw [← hn, fixed, hmagnitude, signText, hnegative]
      rfl
    rw [hfixed, hds, List.nil_append]
  · intro hnil
    have hlen := congrArg List.length hnil
    rw [List.length_take, List.length_nil] at hlen
    omega
  · intro hnil
    have hlen := congrArg List.length hnil
    rw [List.length_drop, List.length_nil] at hlen
    omega
  · exact fun c hc => hdigits c (List.mem_of_mem_take hc)
  · exact fun c hc => hdigits c (List.mem_of_mem_drop hc)
  · rw [numeralValue_point (fun c hc => hdigits c (List.mem_of_mem_take hc))
      fun c hc => hdigits c (List.mem_of_mem_drop hc), List.take_append_drop, ← hds,
      digitsValue_padLeft, digitsValue_digits, hds, List.length_drop]
    congr 1
    omega

/-! ## The least magnitude that is written -/

open Float.Model Float.Model.UnpackedFloat

theorem unpacked_epsilon : unpacked Settings.coefficientEpsilon =
    .finite .positive 7378697629483821 (-66) (by decide) := by
  rfl

theorem lt_iff {x y : Float} : x < y ↔ (unpacked x).compare (unpacked y) = some .lt := by
  show decide (x.toModel < y.toModel) = true ↔ _
  rw [decide_eq_true_iff]
  show ((unpacked x).compare (unpacked y) == some .lt) = true ↔ _
  rw [beq_iff_eq]

theorem le_iff {x y : Float} :
    x ≤ y ↔ ((unpacked x).compare (unpacked y)).any (·.isLE) = true := by
  show decide (x.toModel ≤ y.toModel) = true ↔ _
  rw [decide_eq_true_iff]
  rfl

/-- Of two numbers that are compared by exponent and then by mantissa, the first is less or the
second is not greater. -/
theorem compare_then_iff {e f : Int} {m n : Nat} :
    (compare e f).then (compare m n) ≠ .lt ↔ ((compare f e).then (compare n m)).isLE = true := by
  rw [← Int.compare_swap e f, ← Nat.compare_swap m n, ← Ordering.swap_then]
  generalize (compare e f).then (compare m n) = o
  cases o <;> decide

/-- A finite magnitude that is not below the threshold reaches it. -/
theorem not_lt_epsilon_iff {x : Float} (h : x.isFinite) :
    ¬ x.abs < Settings.coefficientEpsilon ↔ Settings.coefficientEpsilon ≤ x.abs := by
  have h : (unpacked x).isFinite := h
  rw [lt_iff, le_iff, unpacked_abs, unpacked_epsilon]
  generalize unpacked x = u at h ⊢
  cases u with
  | notANumber => cases h
  | infinity s => cases h
  | zero s => simp [UnpackedFloat.abs, UnpackedFloat.compare]
  | finite s m e hpos =>
    simp only [UnpackedFloat.abs, UnpackedFloat.compare, Option.some.injEq, Option.any_some]
    exact compare_then_iff

/-- The parts of a magnitude that reaches the threshold. -/
theorem parts_of_epsilon_le {x : Float} (hx : x.isFinite)
    (h : Settings.coefficientEpsilon ≤ x.abs) :
    ∃ m e, Double.ofFloat x.abs = .finite false m e ∧
      (-66 < e ∧ 2 ^ 52 ≤ m ∨ e = -66 ∧ 7378697629483821 ≤ m) := by
  have hx : (unpacked x).isFinite := hx
  have hfits := fits_unpacked x
  rw [le_iff, unpacked_abs, unpacked_epsilon] at h
  rw [ofFloat_eq, unpacked_abs]
  generalize unpacked x = u at hx hfits h ⊢
  cases hfits with
  | notANumber => cases hx
  | infinity s => cases hx
  | zero s => cases h
  | finite s m e hpos hm he he' hor =>
    have h : ((compare (-66) e).then (compare 7378697629483821 m)).isLE = true := h
    refine ⟨m, e, rfl, ?_⟩
    -- the exponents are compared first, and the mantissas only if these are equal
    rcases Int.lt_trichotomy (-66) e with hlt | rfl | hgt
    · exact .inl ⟨hlt, hor.resolve_right (by omega)⟩
    · refine .inr ⟨rfl, Nat.le_of_not_lt fun hlt => ?_⟩
      rw [Int.compare_eq_eq.mpr rfl, Nat.compare_eq_gt.mpr hlt] at h
      cases h
    · rw [Int.compare_eq_gt.mpr hgt] at h
      cases h

/-- A quotient is rounded down or up, and if both ways are equally far to an even number. -/
theorem round_cases (f : Fraction) :
    f.round = f.num / f.den ∧ (2 * (f.num % f.den) = f.den → f.round % 2 = 0) ∧
      2 * (f.num % f.den) ≤ f.den ∨
    f.round = f.num / f.den + 1 ∧ (2 * (f.num % f.den) = f.den → f.round % 2 = 0) ∧
      f.den ≤ 2 * (f.num % f.den) := by
  simp only [Fraction.round]
  split
  · exact .inl ⟨rfl, by omega, by omega⟩
  · split
    · exact .inr ⟨rfl, by omega, by omega⟩
    · split
      · exact .inl ⟨rfl, by omega, by omega⟩
      · exact .inr ⟨rfl, by omega, by omega⟩

/-- Rounding goes to a whole number at most one half away. -/
theorem round_nearest (f : Fraction) (hden : 0 < f.den) :
    2 * f.num ≤ (2 * f.round + 1) * f.den ∧ 2 * f.round * f.den ≤ 2 * f.num + f.den := by
  have hdiv : f.den * (f.num / f.den) + f.num % f.den = f.num := Nat.div_add_mod _ _
  have hmod : f.num % f.den < f.den := Nat.mod_lt _ hden
  have hmul : 2 * (f.num / f.den) * f.den = 2 * (f.den * (f.num / f.den)) := by
    rw [Nat.mul_assoc, Nat.mul_comm (f.num / f.den)]
  rcases round_cases f with ⟨hq, -, hr⟩ | ⟨hq, -, hr⟩
  · rw [hq, Nat.add_mul, hmul]
    omega
  · rw [hq, Nat.add_mul, Nat.mul_add, Nat.add_mul, hmul]
    omega

theorem round_pos {f : Fraction} (hden : 0 < f.den) (h : f.den < 2 * f.num) : 0 < f.round := by
  by_contra hzero
  obtain ⟨hle, -⟩ := round_nearest f hden
  have hround : f.round = 0 := by omega
  rw [hround, Nat.mul_zero, Nat.zero_add, Nat.one_mul] at hle
  omega

/-- A magnitude that reaches the threshold is at least one unit of the last of four places. -/
theorem units_pos {x : Float} (hx : x.isFinite) (h : Settings.coefficientEpsilon ≤ x.abs) {n : Nat}
    (hn : unitsOfTen? (-4) x.abs = some (n : Int)) : 0 < n := by
  obtain ⟨m, e, hparts, hor⟩ := parts_of_epsilon_le hx h
  have hunits : unitsOfTen? (-4) x.abs =
      some ((((Fraction.ofBinary m e).shift 4).round : Nat) : Int) := by
    rw [unitsOfTen?, magnitude?, hparts, isNegative, hparts]
    rfl
  rw [hunits] at hn
  injection hn with hn
  have hround : ((Fraction.ofBinary m e).shift 4).round = n := by omega
  rw [← hround]
  -- what is left to show is that ten thousand times the magnitude is above one half
  apply round_pos
  · show 0 < twoTo (-e).toNat * 1
    rw [twoTo_eq, Nat.mul_one]
    exact Nat.two_pow_pos _
  show twoTo (-e).toNat * 1 < 2 * (m * twoTo e.toNat * 10000)
  rw [twoTo_eq, twoTo_eq, Nat.mul_one]
  by_cases he : 0 ≤ e
  · have hm : m * 1 ≤ m * 2 ^ e.toNat := Nat.mul_le_mul_left m (Nat.two_pow_pos _)
    have hden : (-e).toNat = 0 := by omega
    rw [hden]
    omega
  · have hnum : e.toNat = 0 := by omega
    rw [hnum, Nat.pow_zero, Nat.mul_one]
    rcases hor with ⟨hlt, hm⟩ | ⟨rfl, hm⟩
    · have hden : 2 ^ (-e).toNat ≤ 2 ^ 65 := Nat.pow_le_pow_right (by decide) (by omega)
      omega
    · show 2 ^ 66 < 2 * (m * 10000)
      omega

end SurfaceStudio.Decimal
