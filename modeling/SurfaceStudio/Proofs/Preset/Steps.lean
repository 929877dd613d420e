import SurfaceStudio.Preset.Overlay
import SurfaceStudio.Proofs.Formula.Tokens
import SurfaceStudio.Proofs.Text.Trimming
/-!
# The steps of a preset

Steps may be given as a text. What is asked of the text allows every blank around the number, but
what reads the number passes over white space only: an information separator at either end is let
through and cannot be read. Nor can a number of too many digits, though any number of them is let
through.
-/

namespace SurfaceStudio

/-! ## Reading an integer -/

namespace Text

/-- A digit of the basic Latin script is worth as much in any script. -/
theorem digitValue?_of_isDigit {c : Char} (h : Decimal.isDigit c = true) :
    digitValue? c = some (c.toNat - '0'.toNat) := by
  simp only [Decimal.isDigit, Bool.and_eq_true, decide_eq_true_eq] at h
  obtain ⟨hlow, hhigh⟩ := h
  have hlow : 0x30 ≤ c.toNat := hlow
  have hhigh : c.toNat ≤ 0x39 := hhigh
  have hfirst : (0x30 ≤ c.toNat && c.toNat < 0x30 + 10) = true := by
    rw [Bool.and_eq_true, decide_eq_true_eq, decide_eq_true_eq]
    omega
  have hzero : zeroDigits.find? (fun z => z ≤ c.toNat && c.toNat < z + 10) = some 0x30 :=
    List.find?_cons_of_pos hfirst
  rw [digitValue?, hzero]
  rfl

theorem digitsOnto_of_isDigit {ds : List Char} (h : ∀ c ∈ ds, Decimal.isDigit c = true)
    (value : Nat) : digitsOnto value ds =
      some (ds.foldl (fun n c => n * 10 + (c.toNat - '0'.toNat)) value) := by
  induction ds generalizing value with
  | nil => rfl
  | cons c ds ih =>
    obtain ⟨hc, hds⟩ := List.forall_mem_cons.mp h
    rw [digitsOnto, digitValue?_of_isDigit hc]
    · exact ih hds _
    · rintro _ _ rfl
      cases hc

theorem natural?_of_isDigit {ds : List Char} (hne : ds ≠ [])
    (h : ∀ c ∈ ds, Decimal.isDigit c = true) : natural? ds = some (Decimal.digitsValue ds) := by
  cases ds with
  | nil => exact absurd rfl hne
  | cons c ds =>
    obtain ⟨hc, hds⟩ := List.forall_mem_cons.mp h
    rw [natural?, digitValue?_of_isDigit hc]
    exact (digitsOnto_of_isDigit hds _).trans (by simp [Decimal.digitsValue])

theorem signed?_minus (cs : List Char) :
    signed? ('-' :: cs) = (natural? cs).map fun n : Nat => -(n : Int) := by
  rw [signed?]
  cases natural? cs <;> rfl

theorem signed?_of_isDigit {ds : List Char} (hne : ds ≠ [])
    (h : ∀ c ∈ ds, Decimal.isDigit c = true) :
    signed? ds = some (Decimal.digitsValue ds : Int) := by
  have hfirst : ∀ c cs, ds = c :: cs → Decimal.isDigit c = true := by
    rintro c cs rfl
    exact h c List.mem_cons_self
  rw [signed?, natural?_of_isDigit hne h]
  · rfl
  · exact fun cs hcs => absurd (hfirst _ _ hcs) (by decide)
  · exact fun cs hcs => absurd (hfirst _ _ hcs) (by decide)

/-- What may stand in an integer: a sign, a digit of any script or an underscore. -/
def MaySpell (c : Char) : Prop := c = '-' ∨ c = '+' ∨ c = '_' ∨ (digitValue? c).isSome

theorem maySpell_of_digitsOnto {cs : List Char} {value n : Nat}
    (h : digitsOnto value cs = some n) : ∀ c ∈ cs, MaySpell c := by
  fun_induction digitsOnto value cs with
  | case1 => nofun
  | case2 value c cs ih =>
    obtain ⟨d, hd, h⟩ := Option.bind_eq_some_iff.mp h
    have hc : MaySpell c := .inr (.inr (.inr (by rw [hd]; rfl)))
    have hmark : MaySpell '_' := .inr (.inr (.inl rfl))
    exact List.forall_mem_cons.mpr ⟨hmark, List.forall_mem_cons.mpr ⟨hc, ih d h⟩⟩
  | case3 value c cs hne ih =>
    obtain ⟨d, hd, h⟩ := Option.bind_eq_some_iff.mp h
    have hc : MaySpell c := .inr (.inr (.inr (by rw [hd]; rfl)))
    exact List.forall_mem_cons.mpr ⟨hc, ih d h⟩

theorem maySpell_of_natural? {cs : List Char} {n : Nat} (h : natural? cs = some n) :
    ∀ c ∈ cs, MaySpell c := by
  cases cs with
  | nil => nofun
  | cons c cs =>
    obtain ⟨d, hd, h⟩ := Option.bind_eq_some_iff.mp h
    have hc : MaySpell c := .inr (.inr (.inr (by rw [hd]; rfl)))
    exact List.forall_mem_cons.mpr ⟨hc, maySpell_of_digitsOnto h⟩

theorem maySpell_of_signed? {cs : List Char} {n : Int} (h : signed? cs = some n) :
    ∀ c ∈ cs, MaySpell c := by
  fun_cases signed? cs with
  | case1 cs =>
    rw [signed?_minus] at h
    obtain ⟨m, hm, -⟩ := Option.map_eq_some_iff.mp h
    exact List.forall_mem_cons.mpr ⟨.inl rfl, maySpell_of_natural? hm⟩
  | case2 cs =>
    rw [signed?] at h
    obtain ⟨m, hm, -⟩ := Option.map_eq_some_iff.mp h
    exact List.forall_mem_cons.mpr ⟨.inr (.inl rfl), maySpell_of_natural? hm⟩
  | case3 cs hminus hplus =>
    rw [signed?] at h
    · obtain ⟨m, hm, -⟩ := Option.map_eq_some_iff.mp h
      exact maySpell_of_natural? hm
    · exact hminus
    · exact hplus

/-- A blank that is no white space is an information separator, which no integer has. -/
theorem not_maySpell_of_isBlank {c : Char} (h : isBlank c = true) (hspace : isSpace c = false) :
    ¬ MaySpell c := by
  have hseparator : 0x1C ≤ c.toNat ∧ c.toNat ≤ 0x1F := by
    simpa [isBlank, hspace] using h
  have hvalue : digitValue? c = none := by
    rw [digitValue?, Option.map_eq_none_iff, List.find?_eq_none]
    intro z hz
    have hall : ∀ z ∈ zeroDigits, 0x1F < z := by decide
    have := hall z hz
    simp only [Bool.and_eq_true, decide_eq_true_eq]
    omega
  rintro (rfl | rfl | rfl | hdigit)
  · simp at hseparator
  · simp at hseparator
  · simp at hseparator
  · rw [hvalue] at hdigit
    cases hdigit

/-- A text with a separator in it spells no integer. -/
theorem integer_of_separator {s : String} {c : Char} (hmem : c ∈ s.toList)
    (h : isBlank c = true) (hspace : isSpace c = false) :
    integer s = .error .malformedInteger := by
  have hnone : signed? (trimWhile isSpace s.toList) = none := by
    rw [Option.eq_none_iff_forall_ne_some]
    intro n hn
    exact not_maySpell_of_isBlank h hspace (maySpell_of_signed? hn c (mem_trimWhile hmem hspace))
  simp only [integer, hnone]

end Text

/-! ## Doubles without a fraction -/

namespace Decimal

/-- A double that is an integer, exactly. -/
def IsInteger (x : Float) (n : Int) : Prop :=
  ∃ negative m e, Double.ofFloat x = .finite negative m e ∧
    (if negative then -n else n) * (twoTo (-e).toNat : Nat) = (m * twoTo e.toNat : Nat)

/-- A quotient of whole numbers is whole exactly if it is the one that is divided out. -/
theorem quotient_eq_iff {num den : Nat} (hden : 0 < den) (k : Int) :
    k * den = num ↔ num % den = 0 ∧ k = (num / den : Nat) := by
  have hpos : (den : Int) ≠ 0 := Int.natCast_ne_zero.mpr (Nat.ne_of_gt hden)
  constructor
  · intro h
    have hdvd : den ∣ num := Int.natCast_dvd_natCast.mp ⟨k, by rw [← h, Int.mul_comm]⟩
    refine ⟨Nat.mod_eq_zero_of_dvd hdvd, ?_⟩
    rw [Int.natCast_ediv, ← h, Int.mul_ediv_cancel k hpos]
  · rintro ⟨hmod, rfl⟩
    rw [← Int.natCast_mul, Nat.div_mul_cancel (Nat.dvd_of_mod_eq_zero hmod)]

/-- A double without a fraction has the integer that it is for its whole part. -/
theorem whole_iff {x : Float} {n : Int} :
    (if isWhole x then wholePart? x else none) = some n ↔ IsInteger x n := by
  cases hx : Double.ofFloat x with
  | undefined => simp [isWhole, IsInteger, hx]
  | infinite negative => simp [isWhole, IsInteger, hx]
  | finite negative m e =>
    have hden : 0 < twoTo (-e).toNat := Nat.two_pow_pos _
    have hinteger : IsInteger x n ↔
        (if negative then -n else n) * (twoTo (-e).toNat : Nat) = (m * twoTo e.toNat : Nat) := by
      simp [IsInteger, hx]
    rw [hinteger, quotient_eq_iff hden]
    simp only [isWhole, wholePart?, hx, beq_iff_eq, Fraction.ofBinary]
    split
    · next hmod =>
      simp only [hmod, true_and, Option.some.injEq]
      cases negative with
      | false => exact eq_comm
      | true => exact neg_eq_iff_eq_neg.trans eq_comm
    · next hmod => simp [hmod]

end Decimal

namespace Preset

/-! ## The form of a text -/

/-- A sign in front of digits, or none. -/
inductive Sign where
  | none
  | plus
  | minus

namespace Sign

def chars : Sign → List Char
  | none => []
  | plus => ['+']
  | minus => ['-']

/-- The integer of a size with the sign. -/
def apply : Sign → Nat → Int
  | none, n | plus, n => n
  | minus, n => -n

end Sign

/-- A text of the form that is asked of steps: an optional sign and decimal digits, blanks around
them. -/
structure StepText where
  lead : List Char
  sign : Sign
  digits : List Char
  trail : List Char
  isBlank_lead : ∀ c ∈ lead, Text.isBlank c = true
  digits_ne_nil : digits ≠ []
  isDigit_digits : ∀ c ∈ digits, Decimal.isDigit c = true
  isBlank_trail : ∀ c ∈ trail, Text.isBlank c = true

namespace StepText

variable (t : StepText)

/-- The characters between the blanks. -/
def core : List Char := t.sign.chars ++ t.digits

def text : String := String.ofList (t.lead ++ (t.core ++ t.trail))

/-- The integer that is spelt. -/
def number : Int := t.sign.apply (Decimal.digitsValue t.digits)

/-- All blanks are white space. -/
def IsSpaced : Prop := ∀ c ∈ t.lead ++ t.trail, Text.isSpace c = true

theorem toList_text : t.text.toList = t.lead ++ (t.core ++ t.trail) := String.toList_ofList

/-- The core starts with a sign or a digit. -/
theorem core_first : ∃ c tail, t.core = c :: tail ∧ Text.isBlank c = false := by
  obtain ⟨d, ds, hds⟩ := List.exists_cons_of_ne_nil t.digits_ne_nil
  have hd : Text.isBlank d = false :=
    Formula.isBlank_of_isDigit (t.isDigit_digits d (hds ▸ List.mem_cons_self))
  rw [core]
  cases t.sign with
  | none => exact ⟨d, ds, hds, hd⟩
  | plus => exact ⟨'+', t.digits, rfl, by decide⟩
  | minus => exact ⟨'-', t.digits, rfl, by decide⟩

/-- The core ends with a digit. -/
theorem core_last : ∃ init c, t.core = init ++ [c] ∧ Text.isBlank c = false := by
  have hsplit := List.dropLast_append_getLast t.digits_ne_nil
  have hlast := t.isDigit_digits _ (List.getLast_mem t.digits_ne_nil)
  refine ⟨t.sign.chars ++ t.digits.dropLast, t.digits.getLast t.digits_ne_nil, ?_,
    Formula.isBlank_of_isDigit hlast⟩
  rw [core, List.append_assoc, hsplit]

theorem trimWhile_isBlank : Text.trimWhile Text.isBlank t.text.toList = t.core := by
  rw [toList_text]
  exact Text.trimWhile_between t.isBlank_lead t.isBlank_trail t.core_first t.core_last

theorem isStepText : isStepText t.text = true := by
  obtain ⟨d, ds, hds⟩ := List.exists_cons_of_ne_nil t.digits_ne_nil
  have hd := t.isDigit_digits d (hds ▸ List.mem_cons_self)
  have hdigits : (!t.digits.isEmpty && t.digits.all Decimal.isDigit) = true := by
    rw [Bool.and_eq_true, List.all_eq_true]
    exact ⟨by rw [hds]; rfl, t.isDigit_digits⟩
  simp only [Preset.isStepText, t.trimWhile_isBlank, core]
  cases t.sign with
  | plus => exact hdigits
  | minus => exact hdigits
  | none =>
    -- the first digit is no sign
    rw [hds] at hdigits ⊢
    split
    · next hplus =>
      cases hplus
      cases hd
    · next hminus =>
      cases hminus
      cases hd
    · exact hdigits

instance : Decidable t.IsSpaced :=
  inferInstanceAs (Decidable (∀ c ∈ t.lead ++ t.trail, Text.isSpace c = true))

/-- The digits of the core are those of the text, and there is no other. -/
theorem countP_core : (t.core.countP fun c => (Text.digitValue? c).isSome) = t.digits.length := by
  have hdigits : (t.digits.countP fun c => (Text.digitValue? c).isSome) = t.digits.length := by
    rw [List.countP_eq_length]
    intro c hc
    rw [Text.digitValue?_of_isDigit (t.isDigit_digits c hc)]
    rfl
  rw [core, List.countP_append, hdigits]
  cases t.sign with
  | none => exact Nat.zero_add _
  | plus => exact Nat.zero_add _
  | minus => exact Nat.zero_add _

theorem signed?_core : Text.signed? t.core = some t.number := by
  have hnatural := Text.natural?_of_isDigit t.digits_ne_nil t.isDigit_digits
  rw [core, number]
  cases t.sign with
  | none => exact Text.signed?_of_isDigit t.digits_ne_nil t.isDigit_digits
  | plus => exact congrArg (Option.map Int.ofNat) hnatural
  | minus =>
    refine (Text.signed?_minus t.digits).trans ?_
    rw [hnatural]
    rfl

/-- White space is read over, and the number is what is between, unless it is too long. -/
theorem integer_of_isSpaced (h : t.IsSpaced) : Text.integer t.text =
    if Settings.maxIntegerDigits < t.digits.length then .error .integerTooLong
    else .ok t.number := by
  obtain ⟨hlead, htrail⟩ := List.forall_mem_append.mp h
  have hspace : ∀ c, Text.isBlank c = false → Text.isSpace c = false := by
    intro c hc
    exact (Bool.or_eq_false_iff.mp hc).1
  obtain ⟨c, tail, hfirst, hc⟩ := t.core_first
  obtain ⟨init, d, hlast, hd⟩ := t.core_last
  have htrim : Text.trimWhile Text.isSpace t.text.toList = t.core := by
    rw [toList_text]
    exact Text.trimWhile_between hlead htrail ⟨c, tail, hfirst, hspace c hc⟩
      ⟨init, d, hlast, hspace d hd⟩
  simp only [Text.integer, htrim, t.signed?_core, t.countP_core]

theorem integer_of_not_isSpaced (h : ¬ t.IsSpaced) :
    Text.integer t.text = .error .malformedInteger := by
  obtain ⟨c, hmem, hspace⟩ : ∃ c ∈ t.lead ++ t.trail, Text.isSpace c = false := by
    simpa [IsSpaced] using h
  have hblank : Text.isBlank c = true := by
    rcases List.mem_append.mp hmem with hc | hc
    · exact t.isBlank_lead c hc
    · exact t.isBlank_trail c hc
  refine Text.integer_of_separator ?_ hblank hspace
  rw [toList_text]
  simp only [List.mem_append] at hmem ⊢
  tauto

/-- The number of a text is read if all blanks are white space and the digits are few enough, and
only then. -/
theorem integer_text : Text.integer t.text =
    if t.IsSpaced then
      if Settings.maxIntegerDigits < t.digits.length then .error .integerTooLong
      else .ok t.number
    else .error .malformedInteger := by
  split
  · next h => exact t.integer_of_isSpaced h
  · next h => exact t.integer_of_not_isSpaced h

end StepText

/-- What is asked of a text for steps, as its form. -/
theorem isStepText_iff {s : String} : isStepText s = true ↔ ∃ t : StepText, s = t.text := by
  constructor
  · intro h
    obtain ⟨lead, trail, hs, hlead, htrail⟩ := Text.exists_trimWhile Text.isBlank s.toList
    obtain ⟨sign, digits, hcore, hdigits⟩ : ∃ (sign : Sign) (digits : List Char),
        Text.trimWhile Text.isBlank s.toList = sign.chars ++ digits ∧
          (!digits.isEmpty && digits.all Decimal.isDigit) = true := by
      simp only [isStepText] at h
      split at h
      · next rest hcore => exact ⟨.plus, rest, hcore, h⟩
      · next rest hcore => exact ⟨.minus, rest, hcore, h⟩
      · exact ⟨.none, _, rfl, h⟩
    rw [Bool.and_eq_true, List.all_eq_true] at hdigits
    refine ⟨⟨lead, sign, digits, trail, hlead, ?_, hdigits.2, htrail⟩, ?_⟩
    · rintro rfl
      cases hdigits.1
    · rw [StepText.text, StepText.core, ← hcore, ← hs, String.ofList_toList]
  · rintro ⟨t, rfl⟩
    exact t.isStepText

/-! ## Steps -/

/-- A member for steps that stands for an integer. -/
inductive StandsFor : Json → Int → Prop
  | int (n : Int) : StandsFor (.int n) n
  | float {x n} : Decimal.IsInteger x n → StandsFor (.float x) n
  | text (t : StepText) : t.IsSpaced → t.digits.length ≤ Settings.maxIntegerDigits →
      StandsFor (.str t.text) t.number

/-- A text for steps whose number cannot be read: an information separator keeps it from that, or it
is too long. -/
inductive IsUnreadable : Json → Fault → Prop
  | parted (t : StepText) : ¬ t.IsSpaced → IsUnreadable (.str t.text) .malformedInteger
  | long (t : StepText) : t.IsSpaced → Settings.maxIntegerDigits < t.digits.length →
      IsUnreadable (.str t.text) .integerTooLong

/-- The refusal of a member for steps. -/
def noInteger (key : String) : Failure := .invalidPreset (key ++ " must be an integer.")

theorem steps_text (key : String) (t : StepText) :
    steps key (.str t.text) = faulting (Text.integer t.text) := by
  rw [steps, if_pos t.isStepText]

theorem steps_of_standsFor {key : String} {v : Json} {n : Int} (h : StandsFor v n) :
    steps key v = .ok n := by
  cases h with
  | int n => rfl
  | float hx => simp only [steps, Decimal.whole_iff.mpr hx]
  | text t ht hshort =>
    rw [steps_text, t.integer_of_isSpaced ht, if_neg (Nat.not_lt.mpr hshort)]
    rfl

theorem steps_of_isUnreadable {key : String} {v : Json} {f : Fault} (h : IsUnreadable v f) :
    steps key v = .error (.fault f) := by
  cases h with
  | parted t ht =>
    rw [steps_text, t.integer_of_not_isSpaced ht]
    rfl
  | long t ht hlong =>
    rw [steps_text, t.integer_of_isSpaced ht, if_pos hlong]
    rfl

theorem steps_of_neither {key : String} {v : Json} (hnone : ∀ n, ¬ StandsFor v n)
    (hreadable : ∀ f, ¬ IsUnreadable v f) :
    steps key v = .error (.failure (noInteger key)) := by
  cases v with
  | int n => exact absurd (.int n) (hnone n)
  | float x =>
    rw [steps]
    split
    · next n hn => exact absurd (.float (Decimal.whole_iff.mp hn)) (hnone n)
    · rfl
  | str s =>
    rw [steps]
    split
    · next hs =>
      obtain ⟨t, rfl⟩ := isStepText_iff.mp hs
      by_cases ht : t.IsSpaced
      · rcases Nat.lt_or_ge Settings.maxIntegerDigits t.digits.length with hlong | hshort
        · exact absurd (.long t ht hlong) (hreadable _)
        · exact absurd (.text t ht hshort) (hnone t.number)
      · exact absurd (.parted t ht) (hreadable _)
    · rfl
  | null | bool | list | object => rfl

/-- What becomes of the steps under a key. -/
inductive StepsEnd (key : String) (p : Preset) (old : Json) : Except Trouble Json → Prop
  | kept : Json.present? key p = none → StepsEnd key p old (.ok old)
  | taken {v n} : Json.present? key p = some v → StandsFor v n →
      StepsEnd key p old (.ok (.int n))
  | unreadable {v f} : Json.present? key p = some v → IsUnreadable v f →
      StepsEnd key p old (.error (.fault f))
  | refused {v} : Json.present? key p = some v → (∀ n, ¬ StandsFor v n) →
      (∀ f, ¬ IsUnreadable v f) → StepsEnd key p old (.error (.failure (noInteger key)))

theorem stepsAt_of_present {key : String} {p : Preset} {v : Json}
    (h : Json.present? key p = some v) (old : Json) :
    p.stepsAt key old = (steps key v).map .int := by
  simp only [stepsAt, h]

theorem stepsAt_eq_iff {key : String} {p : Preset} {old : Json} {r : Except Trouble Json} :
    p.stepsAt key old = r ↔ StepsEnd key p old r := by
  constructor
  · rintro rfl
    cases hv : Json.present? key p with
    | none =>
      simp only [stepsAt, hv]
      exact .kept hv
    | some v =>
      rw [stepsAt_of_present hv]
      by_cases hinteger : ∃ n, StandsFor v n
      · obtain ⟨n, hn⟩ := hinteger
        rw [steps_of_standsFor hn]
        exact .taken hv hn
      · by_cases hunreadable : ∃ f, IsUnreadable v f
        · obtain ⟨f, hf⟩ := hunreadable
          rw [steps_of_isUnreadable hf]
          exact .unreadable hv hf
        · have hnone := not_exists.mp hinteger
          have hreadable := not_exists.mp hunreadable
          rw [steps_of_neither hnone hreadable]
          exact .refused hv hnone hreadable
  · rintro (hv | ⟨hv, hn⟩ | ⟨hv, hf⟩ | ⟨hv, hnone, hreadable⟩)
    · simp only [stepsAt, hv]
    · rw [stepsAt_of_present hv, steps_of_standsFor hn]
      rfl
    · rw [stepsAt_of_present hv, steps_of_isUnreadable hf]
      rfl
    · rw [stepsAt_of_present hv, steps_of_neither hnone hreadable]
      rfl

end Preset

end SurfaceStudio
