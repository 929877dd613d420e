import SurfaceStudio.Proofs.Formula.Numerals
/-!
# The token at the front of a text

What a token is does not depend on how texts are scanned: `Lexeme` says which characters make a
token in front of which others, and `StartsToken` where there is one. `lexeme?` finds exactly these
tokens (`lexeme?_of_lexeme`, `lexeme_of_lexeme?`) and finds none exactly where none starts
(`lexeme?_eq_none_iff`).
-/

namespace SurfaceStudio.Formula

open Decimal (isDigit numeralValue takeWhile_append_of_all)

/-! ## Classes of characters -/

/-- Digits are no blanks. -/
theorem isBlank_of_isDigit {c : Char} (h : isDigit c = true) : Text.isBlank c = false := by
  have hle : 48 ≤ c.toNat ∧ c.toNat ≤ 57 := by
    rw [isDigit, Bool.and_eq_true, decide_eq_true_iff, decide_eq_true_iff] at h
    exact h
  simp only [Text.isBlank, Text.isSpace, Bool.or_eq_false_iff, Bool.and_eq_false_iff,
    beq_eq_false_iff_ne, decide_eq_false_iff_not]
  omega

theorem isLetter_iff {c : Char} : Text.isLetter c = true ↔
    ∃ r ∈ Text.letters.ranges, r.1 ≤ c.toNat ∧ c.toNat ≤ r.2 := by
  simp only [Text.isLetter, Text.CharSet.contains, List.any_eq_true, Bool.and_eq_true,
    decide_eq_true_iff]

/-- The ASCII characters before the letters are no letters. -/
theorem le_of_isLetter {c : Char} (h : Text.isLetter c = true) : 65 ≤ c.toNat := by
  have hranges : ∀ r ∈ Text.letters.ranges, 65 ≤ r.1 := by decide +kernel
  obtain ⟨r, hr, hlow, -⟩ := isLetter_iff.mp h
  exact (hranges r hr).trans hlow

/-- The code points of the blanks that come after the first letter. -/
def lateBlanks : List Nat :=
  [0x85, 0xA0, 0x1680, 0x2000, 0x2001, 0x2002, 0x2003, 0x2004, 0x2005, 0x2006, 0x2007, 0x2008,
    0x2009, 0x200A, 0x2028, 0x2029, 0x202F, 0x205F, 0x3000]

theorem mem_lateBlanks {c : Char} (h : Text.isBlank c = true) (hc : 65 ≤ c.toNat) :
    c.toNat ∈ lateBlanks := by
  simp only [Text.isBlank, Text.isSpace, Bool.or_eq_true, Bool.and_eq_true, beq_iff_eq,
    decide_eq_true_iff] at h
  simp only [lateBlanks, List.mem_cons, List.not_mem_nil, or_false]
  omega

theorem isBlank_of_isLetter {c : Char} (h : Text.isLetter c = true) : Text.isBlank c = false := by
  have hranges : ∀ r ∈ Text.letters.ranges, ∀ n ∈ lateBlanks, n < r.1 ∨ r.2 < n := by
    decide +kernel
  rw [← Bool.not_eq_true]
  intro hblank
  have hmem : c.toNat ∈ lateBlanks := mem_lateBlanks hblank (le_of_isLetter h)
  obtain ⟨r, hr, hlow, hhigh⟩ := isLetter_iff.mp h
  have hout : c.toNat < r.1 ∨ r.2 < c.toNat := hranges r hr c.toNat hmem
  omega

theorem startsWord_iff {c : Char} : startsWord c = true ↔ Text.isLetter c = true ∨ c = '_' := by
  rw [startsWord, Bool.or_eq_true, decide_eq_true_iff]

/-- What starts a word starts nothing else. -/
theorem of_startsWord {c : Char} (h : startsWord c = true) :
    isDigit c = false ∧ c ≠ '.' ∧ Text.isBlank c = false := by
  rcases startsWord_iff.mp h with h | rfl
  · have hle : 65 ≤ c.toNat := le_of_isLetter h
    refine ⟨?_, ?_, isBlank_of_isLetter h⟩
    · rw [isDigit, Bool.and_eq_false_iff]
      refine .inr (decide_eq_false fun hnine => ?_)
      have hnine : c.toNat ≤ 57 := hnine
      omega
    · rintro rfl
      exact absurd hle (by decide)
  · decide

/-- The marks of one character. -/
def marks : List Char := ['+', '-', '*', '/', '^', '(', ')', ',']

theorem mem_marks_iff {c : Char} : c ∈ marks ↔ c = '*' ∨ (singleKind? c).isSome = true := by
  constructor
  · intro h
    simp only [marks, List.mem_cons, List.not_mem_nil, or_false] at h
    rcases h with rfl | rfl | rfl | rfl | rfl | rfl | rfl | rfl <;> decide
  · rintro (rfl | h)
    · decide
    · unfold singleKind? at h
      split at h
      all_goals first | decide | cases h

/-- A mark is a token of its own in front of any text. -/
theorem lexeme?_of_singleKind {c : Char} {kind : Token.Kind} (h : singleKind? c = some kind)
    (rest : List Char) : Text.isBlank c = false ∧ lexeme? c rest = some (kind, []) := by
  unfold singleKind? at h
  split at h
  all_goals
    first
    | cases h
      refine ⟨by decide, ?_⟩
      unfold lexeme?
      rw [if_neg (by rintro ⟨⟩), if_neg (by decide +kernel), if_neg (by decide)]
      rfl
    | cases h

/-! ## Tokens in front of a text -/

/-- Some characters make a token of a kind in front of the others: numbers are the longest ones,
words go on as long as they can, and two stars together are one token. -/
inductive Lexeme : Token.Kind → List Char → List Char → Prop where
  | number {text rest : List Char} :
    IsLongest NumeralForm text (text ++ rest) → Lexeme (.number (numeralValue text)) text rest
  | identifier {c : Char} {tail rest : List Char} : startsWord c = true →
    (∀ d ∈ tail, isWordChar d = true) → (∀ d ∈ rest.head?, isWordChar d = false) →
    Lexeme .identifier (c :: tail) rest
  | power {rest : List Char} : Lexeme .caret ['*', '*'] rest
  | star {rest : List Char} : (∀ d ∈ rest.head?, d ≠ '*') → Lexeme .star ['*'] rest
  | mark {c : Char} {kind : Token.Kind} {rest : List Char} :
    singleKind? c = some kind → Lexeme kind [c] rest

/-- A token can start with a character in front of the others. -/
def StartsToken (c : Char) (rest : List Char) : Prop :=
  isDigit c = true ∨ (c = '.' ∧ ∃ d ∈ rest.head?, isDigit d = true) ∨
    Text.isLetter c = true ∨ c = '_' ∨ c ∈ marks

theorem startsNumeral_iff {c : Char} {rest : List Char} :
    (isDigit c || (c = '.' && startsWithDigit rest)) = true ↔ StartsNumeral (c :: rest) := by
  rw [Bool.or_eq_true, Bool.and_eq_true, decide_eq_true_iff]
  rfl

theorem Lexeme.exists_cons {kind : Token.Kind} {text rest : List Char}
    (h : Lexeme kind text rest) : ∃ c tail, text = c :: tail ∧ Text.isBlank c = false := by
  cases h with
  | number h =>
    obtain ⟨c, tail, rfl⟩ := List.exists_cons_of_ne_nil h.holds.ne_nil
    refine ⟨c, tail, rfl, ?_⟩
    rcases h.holds.startsNumeral rest with hc | ⟨rfl, -⟩
    · exact isBlank_of_isDigit hc
    · decide
  | identifier hc htail hrest => exact ⟨_, _, rfl, (of_startsWord hc).2.2⟩
  | power => exact ⟨_, _, rfl, by decide⟩
  | star hrest => exact ⟨_, _, rfl, by decide⟩
  | mark hc => exact ⟨_, _, rfl, (lexeme?_of_singleKind hc rest).1⟩

/-- Cutting off the end of the text behind a token leaves the token. -/
theorem Lexeme.take {kind : Token.Kind} {text rest : List Char} (h : Lexeme kind text rest)
    (n : Nat) : Lexeme kind text (rest.take n) := by
  have hhead : ∀ d ∈ (rest.take n).head?, d ∈ rest.head? := by
    intro d hd
    rw [List.head?_take] at hd
    split at hd
    · cases hd
    · exact hd
  cases h with
  | number h =>
    exact .number (h.of_prefix (List.prefix_append _ _)
      ((List.prefix_append_right_inj text).mpr (List.take_prefix n rest)))
  | identifier hc htail hrest => exact .identifier hc htail fun d hd => hrest d (hhead d hd)
  | power => exact .power
  | star hrest => exact .star fun d hd => hrest d (hhead d hd)
  | mark hc => exact .mark hc

/-! ## Taking one token -/

theorem lexeme?_of_lexeme {kind : Token.Kind} {c : Char} {tail rest : List Char}
    (h : Lexeme kind (c :: tail) rest) : lexeme? c (tail ++ rest) = some (kind, tail) := by
  cases h with
  | number h =>
    have hstarts : StartsNumeral (c :: (tail ++ rest)) := h.holds.startsNumeral rest
    have hnumeral : numeral (c :: (tail ++ rest)) = c :: tail :=
      (isLongest_numeral hstarts).unique h
    unfold lexeme?
    rw [if_pos (startsNumeral_iff.mpr hstarts), hnumeral]
    rfl
  | identifier hc htail hrest =>
    obtain ⟨hdigit, hpoint, -⟩ := of_startsWord hc
    have hnumber : ¬ (isDigit c || (c = '.' && startsWithDigit (tail ++ rest))) = true := by
      rw [hdigit, decide_eq_false hpoint, Bool.false_and]
      decide
    unfold lexeme?
    rw [if_neg hnumber, if_pos hc, takeWhile_append_of_all htail hrest]
  | power =>
    unfold lexeme?
    rw [if_neg (by rintro ⟨⟩), if_neg (by decide +kernel), if_pos rfl]
    rfl
  | star hrest =>
    unfold lexeme?
    rw [if_neg (by rintro ⟨⟩), if_neg (by decide +kernel), if_pos rfl]
    split
    next more heq => exact absurd rfl (hrest '*' (by rw [← List.nil_append rest, heq]; rfl))
    next => rfl
  | mark hc => exact (lexeme?_of_singleKind hc rest).2

/-- Where a number starts, `numeral` takes a token. -/
theorem exists_lexeme_numeral {c : Char} {rest : List Char} (h : StartsNumeral (c :: rest)) :
    ∃ tail more, numeral (c :: rest) = c :: tail ∧ rest = tail ++ more ∧
      Lexeme (.number (numeralValue (c :: tail))) (c :: tail) more := by
  have hlongest : IsLongest NumeralForm (numeral (c :: rest)) (c :: rest) := isLongest_numeral h
  obtain ⟨d, tail, htext⟩ := List.exists_cons_of_ne_nil hlongest.holds.ne_nil
  rw [htext] at hlongest ⊢
  obtain ⟨more, hmore⟩ := hlongest.start
  obtain ⟨rfl, rfl⟩ := List.cons.inj hmore
  exact ⟨tail, more, rfl, rfl, .number hlongest⟩

/-- Where a word starts, it goes on up to the first character that does not continue it. -/
theorem lexeme_word {c : Char} (h : startsWord c = true) (rest : List Char) :
    Lexeme .identifier (c :: rest.takeWhile isWordChar) (rest.dropWhile isWordChar) := by
  refine .identifier h (List.all_eq_true.mp List.all_takeWhile) fun d hd => ?_
  have hnot := List.head?_dropWhile_not isWordChar rest
  rwa [Option.mem_def.mp hd] at hnot

theorem lexeme_of_lexeme? {kind : Token.Kind} {c : Char} {tail rest : List Char}
    (h : lexeme? c rest = some (kind, tail)) :
    ∃ more, rest = tail ++ more ∧ Lexeme kind (c :: tail) more := by
  unfold lexeme? at h
  split at h
  next hnumber =>
    obtain ⟨digits, more, htext, rfl, hlexeme⟩ :=
      exists_lexeme_numeral (startsNumeral_iff.mp hnumber)
    simp only [htext] at h
    cases h
    exact ⟨more, rfl, hlexeme⟩
  next =>
    split at h
    next hword =>
      cases h
      exact ⟨_, List.takeWhile_append_dropWhile.symm, lexeme_word hword rest⟩
    next =>
      split at h
      next hstar =>
        subst hstar
        split at h
        next =>
          cases h
          exact ⟨_, rfl, .power⟩
        next hnot =>
          cases h
          refine ⟨rest, rfl, .star ?_⟩
          rintro d hd rfl
          obtain ⟨more, rfl⟩ := List.head?_eq_some_iff.mp hd
          exact hnot more rfl
      next =>
        obtain ⟨kind', hkind, heq⟩ := Option.map_eq_some_iff.mp h
        cases heq
        exact ⟨rest, rfl, .mark hkind⟩

theorem lexeme?_eq_none_iff {c : Char} {rest : List Char} :
    lexeme? c rest = none ↔ ¬ StartsToken c rest := by
  have hstarts : StartsToken c rest ↔ StartsNumeral (c :: rest) ∨ startsWord c = true ∨ c = '*' ∨
      (singleKind? c).isSome = true := by
    rw [StartsToken, StartsNumeral, startsWithDigit_iff, startsWord_iff, mem_marks_iff]
    simp only [or_assoc]
  rw [hstarts]
  unfold lexeme?
  split
  next h => simp [startsNumeral_iff.mp h]
  next h =>
    rw [startsNumeral_iff] at h
    split
    next hword => simp [hword]
    next hword =>
      split
      next hstar => split <;> simp [hstar]
      next hstar => simp [h, hword, hstar]

/-- A point starts a token only in front of a digit. -/
theorem not_startsToken_point {rest : List Char} (h : ∀ d ∈ rest.head?, isDigit d = false) :
    ¬ StartsToken '.' rest := by
  have hletter : Text.isLetter '.' = false := by decide +kernel
  rintro (hdigit | ⟨-, d, hd, hdigit⟩ | hpoint | hpoint | hpoint)
  · cases hdigit
  · rw [h d hd] at hdigit
    cases hdigit
  · rw [hletter] at hpoint
    cases hpoint
  · cases hpoint
  · exact absurd hpoint (by decide)

/-- Neither do the digits of other scripts, fractions and the like start one. -/
theorem not_startsToken_of_isAlphanumeric {c : Char} {rest : List Char}
    (hc : Text.isAlphanumeric c = true) (hletter : Text.isLetter c = false)
    (hdigit : isDigit c = false) : ¬ StartsToken c rest := by
  have hnot : c ∉ '.' :: '_' :: marks := by
    intro hmem
    simp only [marks, List.mem_cons, List.not_mem_nil, or_false] at hmem
    rcases hmem with rfl | rfl | rfl | rfl | rfl | rfl | rfl | rfl | rfl | rfl
    all_goals exact absurd hc (by decide +kernel)
  simp only [List.mem_cons, not_or] at hnot
  simp [StartsToken, hletter, hdigit, hnot]

/-! ## Scanning one token -/

/-- Scanning a token in front of a text is scanning the text behind it. -/
theorem scan_lexeme {kind : Token.Kind} {text rest : List Char} (h : Lexeme kind text rest)
    (p : Nat) : scan p (text ++ rest) =
      (scan (p + text.length) rest).map (⟨kind, String.ofList text, p⟩ :: ·) := by
  obtain ⟨c, tail, rfl, hblank⟩ := h.exists_cons
  have hplace : p + 1 + tail.length = p + (c :: tail).length := by
    rw [List.length_cons]
    omega
  rw [List.cons_append, scan.eq_def]
  simp only [hblank, lexeme?_of_lexeme h, List.drop_left, hplace]
  cases scan (p + (c :: tail).length) rest <;> rfl

end SurfaceStudio.Formula
