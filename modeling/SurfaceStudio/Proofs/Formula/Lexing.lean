import SurfaceStudio.Proofs.Formula.Grammar
import SurfaceStudio.Proofs.Formula.Tokens
/-!
# Scanning a text piece by piece

`Scans cs ts` says that the characters `cs` are cut into the tokens `ts`, whatever the place they
start at. It is built from the end of a text to its front, a blank or a token at a time; what a
token asks of the characters after it is a hypothesis of its lemma. The places of tokens are left
out, since the grammar does not look at them.
-/

namespace SurfaceStudio.Formula

open Decimal (isDigit numeralValue)

/-! ## Tokens without their places -/

/-- A token with its place left out. -/
def withoutPlace (t : Token) : Token := { t with position := 0 }

theorem IsPlainName.of_withoutPlace {t : Token} (h : IsPlainName (withoutPlace t)) :
    IsPlainName t := ⟨h.kind, h.notPi, h.notFunction⟩

theorem IsFunctionName.of_withoutPlace {t : Token} {fn : Fn}
    (h : IsFunctionName (withoutPlace t) fn) : IsFunctionName t fn :=
  ⟨h.kind, h.notPi, h.function⟩

mutual

/-- The grammar does not look at places. -/
theorem Derives.of_withoutPlace {g : Grammar} {p : Phrase} {us : List Token} {f : Formula} :
    Derives g p us f → ∀ ts : List Token, ts.map withoutPlace = us → Derives g p ts f
  | .term h, ts, hts => .term (h.of_withoutPlace ts hts)
  | .factor h, ts, hts => .factor (h.of_withoutPlace ts hts)
  | .power h, ts, hts => .power (h.of_withoutPlace ts hts)
  | .primary h, ts, hts => .primary (h.of_withoutPlace ts hts)
  | .join hl hop hr, ts, hts => by
    obtain ⟨ls, more, rfl, hls, hmore⟩ := List.map_eq_append_iff.mp hts
    obtain ⟨t, rs, rfl, rfl, hrs⟩ := List.map_eq_cons_iff.mp hmore
    exact .join (hl.of_withoutPlace ls hls) hop (hr.of_withoutPlace rs hrs)
  | .scale hl hop hr, ts, hts => by
    obtain ⟨ls, more, rfl, hls, hmore⟩ := List.map_eq_append_iff.mp hts
    obtain ⟨t, rs, rfl, rfl, hrs⟩ := List.map_eq_cons_iff.mp hmore
    exact .scale (hl.of_withoutPlace ls hls) hop (hr.of_withoutPlace rs hrs)
  | .signed hs h, ts, hts => by
    obtain ⟨t, rest, rfl, rfl, hrest⟩ := List.map_eq_cons_iff.mp hts
    exact .signed hs (h.of_withoutPlace rest hrest)
  | .raise hb ht he, ts, hts => by
    obtain ⟨bs, more, rfl, hbs, hmore⟩ := List.map_eq_append_iff.mp hts
    obtain ⟨t, es, rfl, rfl, hes⟩ := List.map_eq_cons_iff.mp hmore
    exact .raise (hb.of_withoutPlace bs hbs) ht (he.of_withoutPlace es hes)
  | .number h, ts, hts => by
    obtain ⟨t, rfl, rfl⟩ := List.map_eq_singleton_iff.mp hts
    exact .number h
  | .pi h hpi, ts, hts => by
    obtain ⟨t, rfl, rfl⟩ := List.map_eq_singleton_iff.mp hts
    exact .pi h hpi
  | .variable h hname, ts, hts => by
    obtain ⟨t, rfl, rfl⟩ := List.map_eq_singleton_iff.mp hts
    exact .variable h.of_withoutPlace hname
  | .group ho h hc, ts, hts => by
    obtain ⟨o, more, rfl, rfl, hmore⟩ := List.map_eq_cons_iff.mp hts
    obtain ⟨fs, last, rfl, hfs, hlast⟩ := List.map_eq_append_iff.mp hmore
    obtain ⟨c, rfl, rfl⟩ := List.map_eq_singleton_iff.mp hlast
    exact .group ho (h.of_withoutPlace fs hfs) hc
  | .call h ho hargs hc hn, ts, hts => by
    obtain ⟨t, more, rfl, rfl, hmore⟩ := List.map_eq_cons_iff.mp hts
    obtain ⟨o, inner, rfl, rfl, hinner⟩ := List.map_eq_cons_iff.mp hmore
    obtain ⟨fs, last, rfl, hfs, hlast⟩ := List.map_eq_append_iff.mp hinner
    obtain ⟨c, rfl, rfl⟩ := List.map_eq_singleton_iff.mp hlast
    exact .call h.of_withoutPlace ho (hargs.of_withoutPlace fs hfs) hc hn

theorem DerivesArguments.of_withoutPlace {g : Grammar} {us : List Token} {first : Formula}
    {more : List Formula} : DerivesArguments g us first more →
      ∀ ts : List Token, ts.map withoutPlace = us → DerivesArguments g ts first more
  | .last h, ts, hts => .last (h.of_withoutPlace ts hts)
  | .next h ht hargs, ts, hts => by
    obtain ⟨fs, rest, rfl, hfs, hrest⟩ := List.map_eq_append_iff.mp hts
    obtain ⟨t, rs, rfl, rfl, hrs⟩ := List.map_eq_cons_iff.mp hrest
    exact .next (h.of_withoutPlace fs hfs) ht (hargs.of_withoutPlace rs hrs)

end

/-! ## Pieces of a text -/

/-- The characters are cut into these tokens, their places left out. -/
def Scans (cs : List Char) (us : List Token) : Prop :=
  ∀ position, ∃ ts, scan position cs = .ok ts ∧ ts.map withoutPlace = us

theorem Scans.nil : Scans [] [] := by
  intro position
  exact ⟨[], by rw [scan.eq_def], rfl⟩

theorem Scans.blank {c : Char} {cs : List Char} {us : List Token} (hc : Text.isBlank c = true)
    (h : Scans cs us) : Scans (c :: cs) us := by
  intro position
  rw [scan.eq_def]
  simp only [hc]
  exact h (position + 1)

/-- A token in front of the others. -/
theorem Scans.lexeme {kind : Token.Kind} {text rest : List Char} {us : List Token}
    (hlexeme : Lexeme kind text rest) (h : Scans rest us) :
    Scans (text ++ rest) (⟨kind, String.ofList text, 0⟩ :: us) := by
  intro position
  obtain ⟨ts, hscan, hts⟩ := h (position + text.length)
  refine ⟨⟨kind, String.ofList text, position⟩ :: ts, ?_, by rw [List.map_cons, hts]; rfl⟩
  rw [scan_lexeme hlexeme, hscan]
  rfl

/-! ## The ends of tokens -/

section Pieces

variable {rest : List Char} {us : List Token}

/-- What may follow a number or a word without becoming a part of it. -/
def EndsToken (rest : List Char) : Prop :=
  ∀ d ∈ rest.head?, isDigit d = false ∧ d ≠ '.' ∧ isWordChar d = false

theorem endsToken_nil : EndsToken [] := nofun

theorem endsToken_cons {c : Char} (hdigit : isDigit c = false) (hpoint : c ≠ '.')
    (hword : isWordChar c = false) (rest : List Char) : EndsToken (c :: rest) := by
  rintro d ⟨⟩
  exact ⟨hdigit, hpoint, hword⟩

/-! ## Marks and words -/

/-- A mark of one character, the star apart. -/
theorem Scans.mark {c : Char} {kind : Token.Kind} (hc : singleKind? c = some kind)
    (h : Scans rest us) : Scans (c :: rest) (⟨kind, String.ofList [c], 0⟩ :: us) :=
  h.lexeme (Lexeme.mark hc)

/-- A star that no other one follows. -/
theorem Scans.star (hrest : ∀ d ∈ rest.head?, d ≠ '*') (h : Scans rest us) :
    Scans ('*' :: rest) (⟨.star, String.ofList ['*'], 0⟩ :: us) :=
  h.lexeme (Lexeme.star hrest)

/-- The characters of an identifier. -/
structure IsWord (c : Char) (tail : List Char) : Prop where
  blank : Text.isBlank c = false
  digit : isDigit c = false
  point : c ≠ '.'
  start : startsWord c = true
  more : tail.all isWordChar = true

theorem Scans.word {c : Char} {tail : List Char} (hword : IsWord c tail) (hrest : EndsToken rest)
    (h : Scans rest us) :
    Scans (c :: tail ++ rest) (⟨.identifier, String.ofList (c :: tail), 0⟩ :: us) :=
  h.lexeme (Lexeme.identifier hword.start (List.all_eq_true.mp hword.more) fun d hd =>
    (hrest d hd).2.2)

/-! ## Numbers -/

theorem powerPart_of_endsToken (h : EndsToken rest) : powerPart rest = [] := by
  rcases rest with _ | ⟨d, rest⟩
  · rfl
  · obtain ⟨-, -, hword⟩ := h d rfl
    -- the marks of a power are letters, which continue a word
    have hmark : ¬ (d = 'e' || d = 'E') = true := by
      rw [Bool.or_eq_true, decide_eq_true_iff, decide_eq_true_iff]
      rintro (rfl | rfl)
      · exact absurd hword (by decide +kernel)
      · exact absurd hword (by decide +kernel)
    unfold powerPart
    exact if_neg hmark

/-- What stands before the power of ten is the whole numeral if nothing goes on after it. -/
theorem numeral_append {mantissa : List Char} (h : Mantissa mantissa) (hrest : EndsToken rest) :
    numeral (mantissa ++ rest) = mantissa := by
  have hpart : mantissaPart (mantissa ++ rest) = mantissa :=
    (mantissaPart_append h rest).2 fun d hd => ⟨(hrest d hd).1, (hrest d hd).2.1⟩
  rw [numeral_eq, hpart, List.drop_left, powerPart_of_endsToken hrest, List.append_nil]

/-- A numeral that starts with a digit and stays the same when a text follows it. -/
structure IsNumeral (text : List Char) : Prop where
  first : ∃ c tail, text = c :: tail ∧ isDigit c = true
  last : ∃ init c, text = init ++ [c] ∧ isDigit c = true
  whole : ∀ rest, EndsToken rest → numeral (text ++ rest) = text

/-- Digits are a numeral. -/
theorem isNumeral_whole {whole : List Char} (hnil : whole ≠ [])
    (hwhole : ∀ c ∈ whole, isDigit c = true) : IsNumeral whole := by
  refine ⟨?_, ?_, fun rest hrest => numeral_append (.whole ⟨hnil, hwhole⟩) hrest⟩
  · obtain ⟨c, tail, rfl⟩ := List.exists_cons_of_ne_nil hnil
    exact ⟨c, tail, rfl, hwhole c List.mem_cons_self⟩
  · exact ⟨whole.dropLast, whole.getLast hnil, (List.dropLast_concat_getLast hnil).symm,
      hwhole _ (List.getLast_mem hnil)⟩

/-- Digits, a point and digits are a numeral. -/
theorem isNumeral_point {whole part : List Char} (hnil : whole ≠ []) (hnil' : part ≠ [])
    (hwhole : ∀ c ∈ whole, isDigit c = true) (hpart : ∀ c ∈ part, isDigit c = true) :
    IsNumeral (whole ++ '.' :: part) := by
  refine ⟨?_, ?_, fun rest hrest => numeral_append (.point ⟨hnil, hwhole⟩ hpart) hrest⟩
  · obtain ⟨c, tail, rfl⟩ := List.exists_cons_of_ne_nil hnil
    exact ⟨c, tail ++ '.' :: part, rfl, hwhole c List.mem_cons_self⟩
  · refine ⟨whole ++ '.' :: part.dropLast, part.getLast hnil', ?_, hpart _ (List.getLast_mem hnil')⟩
    rw [List.append_assoc, List.cons_append, List.dropLast_concat_getLast hnil']

/-- A numeral is scanned as a whole. -/
theorem Scans.number {text : List Char} (htext : IsNumeral text) (hrest : EndsToken rest)
    (h : Scans rest us) :
    Scans (text ++ rest) (⟨.number (numeralValue text), String.ofList text, 0⟩ :: us) := by
  have hstarts : StartsNumeral (text ++ rest) := by
    obtain ⟨c, tail, rfl, hc⟩ := htext.first
    exact .inl hc
  have hlongest : IsLongest NumeralForm (numeral (text ++ rest)) (text ++ rest) :=
    isLongest_numeral hstarts
  rw [htext.whole rest hrest] at hlongest
  exact h.lexeme (Lexeme.number hlongest)

end Pieces

end SurfaceStudio.Formula
