import Mathlib.Data.List.Chain
import SurfaceStudio.Proofs.Formula.Acceptance
import SurfaceStudio.Proofs.Formula.Lexing
import SurfaceStudio.Proofs.Formula.Tokenization
/-!
# Texts of given tokens

A text of some tokens has them one after the other, with any blanks around them. It is cut into
these tokens again if no two neighbours run together: a number or a word must not meet another one,
and a star no other star. In a sentence of the grammar neighbours never do, so that a text of its
tokens is read as the expression that the sentence stands for, whatever the blanks.
-/

namespace SurfaceStudio

open Decimal (isDigit numeralValue)

namespace Formula

/-! ## Numbers and words in front of a text -/

theorem powerPart_append {power rest : List Char} (h : PowerForm power) (hrest : EndsToken rest) :
    powerPart (power ++ rest) = power := by
  have hdigit : ∀ d ∈ rest.head?, isDigit d = false := fun d hd => (hrest d hd).1
  cases h with
  | none => exact powerPart_of_endsToken hrest
  | @unsigned e ds he hds =>
    obtain ⟨d, more, rfl, hd⟩ := hds.exists_cons
    have hsign : ¬ (d = '+' || d = '-') = true := by
      intro hs
      rw [not_digit_of_sign (sign_iff.mp hs)] at hd
      cases hd
    have htake := Decimal.takeWhile_append_of_all hds.all hdigit
    unfold powerPart
    simp only [List.cons_append] at htake ⊢
    rw [if_pos (isPowerMark_iff.mpr he), if_neg hsign, if_pos hd, htake]
  | @signed e s ds he hs hds =>
    have htake := Decimal.takeWhile_append_of_all hds.all hdigit
    unfold powerPart
    simp only [List.cons_append]
    rw [if_pos (isPowerMark_iff.mpr he), if_pos (sign_iff.mpr hs),
      if_pos (hds.startsWithDigit rest), htake]

/-- A number stays as it is in front of what ends a token. -/
theorem numeral_of_numeralForm {text rest : List Char} (h : NumeralForm text)
    (hrest : EndsToken rest) : numeral (text ++ rest) = text := by
  obtain ⟨mantissa, power, rfl, hmantissa, hpower⟩ := h
  have hhead : ∀ c ∈ (power ++ rest).head?, isDigit c = false ∧ c ≠ '.' := by
    by_cases hne : power = []
    · rw [hne, List.nil_append]
      intro c hc
      exact ⟨(hrest c hc).1, (hrest c hc).2.1⟩
    · exact hpower.head hne rest
  have hpart : mantissaPart (mantissa ++ (power ++ rest)) = mantissa :=
    (mantissaPart_append hmantissa (power ++ rest)).2 hhead
  rw [List.append_assoc, numeral_eq, hpart, List.drop_left, powerPart_append hpower hrest]

/-- What a token asks of the text behind it. -/
def Follows (kind : Token.Kind) (rest : List Char) : Prop :=
  match kind with
  | .number _ | .identifier => EndsToken rest
  | .star => ∀ d ∈ rest.head?, d ≠ '*'
  | _ => True

/-- A token that stands alone stands as well in front of a text that does not go on with it. -/
theorem Lexeme.before {kind : Token.Kind} {text rest : List Char} (h : Lexeme kind text [])
    (hrest : Follows kind rest) : Lexeme kind text rest := by
  cases h with
  | number h =>
    have hform : NumeralForm text := h.holds
    have hlongest := isLongest_numeral (hform.startsNumeral rest)
    rw [numeral_of_numeralForm hform hrest] at hlongest
    exact .number hlongest
  | identifier hc htail _ => exact .identifier hc htail fun d hd => (hrest d hd).2.2
  | power => exact .power
  | star _ => exact .star hrest
  | mark hc => exact .mark hc

/-! ## Single tokens -/

/-- A token with the text that is cut into it alone. -/
def IsSpelled (t : Token) : Prop := tokens t.text = .ok [t]

theorem isSpelled_iff {t : Token} :
    IsSpelled t ↔ t.position = 0 ∧ Lexeme t.kind t.text.toList [] := by
  constructor
  · intro h
    have htokens := tokens_eq_ok_iff.mp h
    have hlexeme := (htokens.lexemes t (List.mem_singleton_self t)).take 0
    have hstop : t.stop ≤ t.text.length := htokens.inside t (List.mem_singleton_self t)
    have hposition : t.position = 0 := by
      unfold Token.stop at hstop
      omega
    exact ⟨hposition, hlexeme⟩
  · intro h
    obtain ⟨hposition, hlexeme⟩ := h
    have hscan := scan_lexeme hlexeme 0
    have hend : scan (0 + t.text.toList.length) [] = .ok [] := by rw [scan.eq_def]
    unfold IsSpelled tokens
    rw [List.append_nil] at hscan
    rw [hscan, hend, String.ofList_toList, ← hposition]
    rfl

theorem IsSpelled.lexeme {t : Token} (h : IsSpelled t) : Lexeme t.kind t.text.toList [] :=
  (isSpelled_iff.mp h).2

theorem IsSpelled.withoutPlace {t : Token} (h : IsSpelled t) : withoutPlace t = t := by
  have hposition := (isSpelled_iff.mp h).1
  unfold Formula.withoutPlace
  rw [← hposition]

/-- A token that some text is cut into can be spelled by itself. -/
theorem exists_isSpelled {source : String} {t : Token} (h : tokens source = .ok [t]) :
    IsSpelled ⟨t.kind, t.text, 0⟩ := by
  have hlexeme := ((tokens_eq_ok_iff.mp h).lexemes t (List.mem_singleton_self t)).take 0
  exact isSpelled_iff.mpr ⟨rfl, hlexeme⟩

theorem isSpelled_mark {c : Char} {kind : Token.Kind} (h : singleKind? c = some kind) :
    IsSpelled ⟨kind, String.ofList [c], 0⟩ := by
  apply isSpelled_iff.mpr
  rw [String.toList_ofList]
  exact ⟨rfl, .mark h⟩

theorem isSpelled_star : IsSpelled ⟨.star, String.ofList ['*'], 0⟩ := by
  apply isSpelled_iff.mpr
  rw [String.toList_ofList]
  exact ⟨rfl, .star nofun⟩

/-! ## Neighbours -/

/-- A kind of token that a number or a word could run into. -/
def IsWordKind : Token.Kind → Bool
  | .number _ | .identifier => true
  | _ => false

/-- Two tokens of these kinds may stand side by side without a blank. -/
structure Apart (a b : Token.Kind) : Prop where
  words : IsWordKind a = true → IsWordKind b = false
  stars : a = .star → b ≠ .star ∧ b ≠ .caret

/-- Marks end a number or a word. -/
theorem endsToken_of_mem_marks {c : Char} (h : c ∈ marks) (rest : List Char) :
    EndsToken (c :: rest) := by
  simp only [marks, List.mem_cons, List.not_mem_nil, or_false] at h
  rcases h with rfl | rfl | rfl | rfl | rfl | rfl | rfl | rfl
  all_goals exact endsToken_cons (by decide) (by decide) (by decide +kernel) rest

/-- A token that is no number and no word starts with a mark. -/
theorem Lexeme.head_mark {kind : Token.Kind} {text rest : List Char} (h : Lexeme kind text rest)
    (hkind : IsWordKind kind = false) : ∃ c tail, text = c :: tail ∧ c ∈ marks := by
  cases h with
  | number => cases hkind
  | identifier => cases hkind
  | power => exact ⟨'*', ['*'], rfl, by decide⟩
  | star => exact ⟨'*', [], rfl, by decide⟩
  | @mark c _ _ hc => exact ⟨c, [], rfl, mem_marks_iff.mpr (.inr (by rw [hc]; rfl))⟩

/-- Only stars start with a star. -/
theorem Lexeme.head_ne_star {kind : Token.Kind} {text rest : List Char} (h : Lexeme kind text rest)
    (hstar : kind ≠ .star) (hcaret : kind ≠ .caret) : ∃ c tail, text = c :: tail ∧ c ≠ '*' := by
  cases h with
  | number h =>
    obtain ⟨c, tail, rfl⟩ := List.exists_cons_of_ne_nil h.holds.ne_nil
    refine ⟨c, tail, rfl, ?_⟩
    rintro rfl
    rcases h.holds.startsNumeral [] with hdigit | ⟨hpoint, -⟩
    · cases hdigit
    · cases hpoint
  | @identifier c tail _ hc =>
    refine ⟨c, tail, rfl, ?_⟩
    rintro rfl
    exact absurd hc (by decide +kernel)
  | power => exact absurd rfl hcaret
  | star => exact absurd rfl hstar
  | @mark c _ _ hc =>
    refine ⟨c, [], rfl, ?_⟩
    rintro rfl
    cases hc

/-- What a token asks of the text behind it is granted by a token that may stand beside it. -/
theorem follows_of_apart {a b : Token.Kind} (h : Apart a b) {text : List Char}
    (hb : Lexeme b text []) (more : List Char) : Follows a (text ++ more) := by
  have hends : IsWordKind b = false → EndsToken (text ++ more) := by
    intro hkind
    obtain ⟨c, tail, rfl, hc⟩ := hb.head_mark hkind
    exact endsToken_of_mem_marks hc (tail ++ more)
  cases a with
  | number x => exact hends (h.words rfl)
  | identifier => exact hends (h.words rfl)
  | star =>
    obtain ⟨hstar, hcaret⟩ := h.stars rfl
    obtain ⟨c, tail, rfl, hc⟩ := hb.head_ne_star hstar hcaret
    intro d hd
    cases hd
    exact hc
  | _ => trivial

/-! ## Blanks -/

/-- Characters with a numeric value are no blanks. -/
theorem isBlank_of_isNumeral {c : Char} (h : Text.numerals.contains c = true) :
    Text.isBlank c = false := by
  have hranges : ∀ r ∈ Text.numerals.ranges, 48 ≤ r.1 ∧ ∀ n ∈ lateBlanks, n < r.1 ∨ r.2 < n := by
    decide +kernel
  simp only [Text.CharSet.contains, List.any_eq_true, Bool.and_eq_true, decide_eq_true_iff] at h
  obtain ⟨r, hr, hlow, hhigh⟩ := h
  obtain ⟨hfirst, hout⟩ := hranges r hr
  rw [← Bool.not_eq_true]
  intro hblank
  have hlate : 65 ≤ c.toNat := by
    simp only [Text.isBlank, Text.isSpace, Bool.or_eq_true, Bool.and_eq_true, beq_iff_eq,
      decide_eq_true_iff] at hblank
    omega
  have hapart := hout c.toNat (mem_lateBlanks hblank hlate)
  omega

/-- Blanks end a number or a word. -/
theorem endsToken_of_isBlank {c : Char} (h : Text.isBlank c = true) (rest : List Char) :
    EndsToken (c :: rest) := by
  have hclass : ∀ b : Bool, (b = true → Text.isBlank c = false) → b = false := by
    intro b hb
    cases b with
    | false => rfl
    | true => rw [hb rfl] at h; cases h
  have hdigit : isDigit c = false := hclass _ isBlank_of_isDigit
  have hletter : Text.isLetter c = false := hclass _ isBlank_of_isLetter
  have hnumeral : Text.numerals.contains c = false := hclass _ isBlank_of_isNumeral
  have hpoint : c ≠ '.' := by
    rintro rfl
    cases h
  have hline : c ≠ '_' := by
    rintro rfl
    cases h
  have hword : isWordChar c = false := by
    unfold isWordChar Text.isAlphanumeric
    rw [hletter, hnumeral, decide_eq_false hline]
    rfl
  exact endsToken_cons hdigit hpoint hword rest

theorem follows_blank {kind : Token.Kind} {c : Char} (h : Text.isBlank c = true)
    (rest : List Char) : Follows kind (c :: rest) := by
  cases kind with
  | number x => exact endsToken_of_isBlank h rest
  | identifier => exact endsToken_of_isBlank h rest
  | star =>
    intro d hd
    cases hd
    rintro rfl
    cases h
  | _ => trivial

theorem follows_nil {kind : Token.Kind} : Follows kind [] := by
  cases kind with
  | number x => exact endsToken_nil
  | identifier => exact endsToken_nil
  | star => exact nofun
  | _ => trivial

/-! ## Texts -/

/-- Tokens of which no two neighbours run together. -/
def AllApart (ts : List Token) : Prop := ts.IsChain fun a b => Apart a.kind b.kind

/-- The characters are a text of the tokens, with any blanks around each of them. -/
inductive IsTextOf : List Token → List Char → Prop
  | nil {blanks} : (∀ c ∈ blanks, Text.isBlank c = true) → IsTextOf [] blanks
  | cons {t ts blanks cs} : (∀ c ∈ blanks, Text.isBlank c = true) → IsSpelled t →
    IsTextOf ts cs → IsTextOf (t :: ts) (blanks ++ (t.text.toList ++ cs))

theorem Scans.blanks {blanks cs : List Char} {us : List Token}
    (hblanks : ∀ c ∈ blanks, Text.isBlank c = true) (h : Scans cs us) :
    Scans (blanks ++ cs) us := by
  induction blanks with
  | nil => exact h
  | cons c blanks ih =>
    obtain ⟨hc, hblanks⟩ := List.forall_mem_cons.mp hblanks
    exact .blank hc (ih hblanks)

/-- What follows a token in a text of tokens that are apart leaves the token as it is. -/
theorem IsTextOf.follows {t : Token} {ts : List Token} {cs : List Char} (h : IsTextOf ts cs)
    (hapart : ∀ u ∈ ts.head?, Apart t.kind u.kind) : Follows t.kind cs := by
  cases h with
  | nil hblanks =>
    cases cs with
    | nil => exact follows_nil
    | cons c blanks => exact follows_blank (hblanks c List.mem_cons_self) blanks
  | @cons u us blanks more hblanks hu hmore =>
    cases blanks with
    | nil =>
      rw [List.nil_append]
      exact follows_of_apart (hapart u rfl) hu.lexeme more
    | cons c blanks => exact follows_blank (hblanks c List.mem_cons_self) _

/-- A text of tokens that are apart is cut into these tokens. -/
theorem IsTextOf.scans {ts : List Token} {cs : List Char} (h : IsTextOf ts cs)
    (hapart : AllApart ts) : Scans cs ts := by
  induction h with
  | nil hblanks =>
    have hscan := Scans.blanks hblanks Scans.nil
    rwa [List.append_nil] at hscan
  | @cons t ts blanks cs hblanks ht hts ih =>
    obtain ⟨hnext, hrest⟩ := List.isChain_cons.mp hapart
    have hlexeme := ht.lexeme.before (hts.follows hnext)
    have hscan := (ih hrest).lexeme hlexeme
    rw [String.ofList_toList] at hscan
    have hplace := ht.withoutPlace
    unfold withoutPlace at hplace
    rw [← hplace]
    exact hscan.blanks hblanks

/-! ## Sentences -/

/-- The kinds of tokens that a phrase can start with. -/
def StartsPhrase : Token.Kind → Bool
  | .number _ | .identifier | .plus | .minus | .opening => true
  | _ => false

/-- The kinds of tokens that a phrase can end with. -/
def EndsPhrase : Token.Kind → Bool
  | .number _ | .identifier | .closing => true
  | _ => false

/-- The kinds of tokens that stand between two phrases. -/
def PartsPhrases : Token.Kind → Bool
  | .plus | .minus | .star | .slash | .caret | .comma => true
  | _ => false

theorem apart_of_endsPhrase {a b : Token.Kind} (ha : EndsPhrase a = true)
    (hb : IsWordKind b = false) : Apart a b := by
  refine ⟨fun _ => hb, ?_⟩
  rintro rfl
  cases ha

theorem apart_of_startsPhrase {a b : Token.Kind} (ha : IsWordKind a = false)
    (hb : StartsPhrase b = true) : Apart a b := by
  refine ⟨fun h => ?_, fun _ => ⟨?_, ?_⟩⟩
  · rw [ha] at h
    cases h
  · rintro rfl
    cases hb
  · rintro rfl
    cases hb

/-- What the neighbours of a phrase need to know of it: what it starts and ends with, and that its
own tokens are apart. -/
structure IsBlock (ts : List Token) : Prop where
  nonempty : ts ≠ []
  first : ∀ t ∈ ts.head?, StartsPhrase t.kind = true
  last : ∀ t ∈ ts.getLast?, EndsPhrase t.kind = true
  apart : AllApart ts

theorem isBlock_single {t : Token} (h : IsWordKind t.kind = true) : IsBlock [t] := by
  have hkind : StartsPhrase t.kind = true ∧ EndsPhrase t.kind = true := by
    cases hk : t.kind <;> rw [hk] at h <;> first | exact ⟨rfl, rfl⟩ | cases h
  refine ⟨List.cons_ne_nil t [], ?_, ?_, List.isChain_singleton t⟩
  · rintro u ⟨⟩
    exact hkind.1
  · rintro u ⟨⟩
    exact hkind.2

/-- A mark in front of a block, which may stand beside the start of any phrase. -/
theorem IsBlock.cons {t : Token} {ts : List Token} (h : IsBlock ts)
    (ht : IsWordKind t.kind = false) : AllApart (t :: ts) :=
  List.isChain_cons.mpr ⟨fun u hu => apart_of_startsPhrase ht (h.first u hu), h.apart⟩

theorem IsBlock.append {ts us : List Token} {t : Token} (hts : IsBlock ts) (hus : IsBlock us)
    (ht : PartsPhrases t.kind = true) : IsBlock (ts ++ t :: us) := by
  have hword : IsWordKind t.kind = false := by
    cases hk : t.kind <;> rw [hk] at ht <;> first | rfl | cases ht
  refine ⟨by simp, ?_, ?_, ?_⟩
  · intro u hu
    rw [List.head?_append_of_ne_nil _ hts.nonempty] at hu
    exact hts.first u hu
  · intro u hu
    rw [List.getLast?_append_cons, List.getLast?_cons_of_ne_nil hus.nonempty] at hu
    exact hus.last u hu
  · refine List.isChain_append.mpr ⟨hts.apart, hus.cons hword, ?_⟩
    rintro a ha b ⟨⟩
    exact apart_of_endsPhrase (hts.last a ha) hword

theorem IsBlock.sign {ts : List Token} {t : Token} {s : Sign} (h : IsBlock ts)
    (ht : sign? t.kind = some s) : IsBlock (t :: ts) := by
  have hkind : t.kind = .plus ∨ t.kind = .minus := by
    cases hk : t.kind <;> rw [hk] at ht <;> first | exact .inl rfl | exact .inr rfl | cases ht
  refine ⟨List.cons_ne_nil t ts, ?_, ?_, h.cons ?_⟩
  · rintro u ⟨⟩
    rcases hkind with hk | hk <;> rw [hk] <;> rfl
  · intro u hu
    rw [List.getLast?_cons_of_ne_nil h.nonempty] at hu
    exact h.last u hu
  · rcases hkind with hk | hk <;> rw [hk] <;> rfl

theorem IsBlock.group {ts : List Token} {o c : Token} (h : IsBlock ts) (ho : o.kind = .opening)
    (hc : c.kind = .closing) : IsBlock (o :: (ts ++ [c])) := by
  have hcons : AllApart (ts ++ [c]) := by
    refine List.isChain_append.mpr ⟨h.apart, List.isChain_singleton c, ?_⟩
    rintro a ha b ⟨⟩
    exact apart_of_endsPhrase (h.last a ha) (by rw [hc]; rfl)
  refine ⟨List.cons_ne_nil o _, ?_, ?_, ?_⟩
  · rintro u ⟨⟩
    rw [ho]
    rfl
  · intro u hu
    rw [List.getLast?_cons_of_ne_nil (by simp), List.getLast?_concat] at hu
    cases hu
    rw [hc]
    rfl
  · refine List.isChain_cons.mpr ⟨fun u hu => ?_, hcons⟩
    rw [List.head?_append_of_ne_nil _ h.nonempty] at hu
    exact apart_of_startsPhrase (by rw [ho]; rfl) (h.first u hu)

theorem IsBlock.call {ts : List Token} {t : Token} (h : IsBlock ts) (ht : t.kind = .identifier)
    (hfirst : ∀ o ∈ ts.head?, o.kind = .opening) : IsBlock (t :: ts) := by
  refine ⟨List.cons_ne_nil t ts, ?_, ?_, ?_⟩
  · rintro u ⟨⟩
    rw [ht]
    rfl
  · intro u hu
    rw [List.getLast?_cons_of_ne_nil h.nonempty] at hu
    exact h.last u hu
  · refine List.isChain_cons.mpr ⟨fun o ho => ?_, h.apart⟩
    exact apart_of_endsPhrase (by rw [ht]; rfl) (by rw [hfirst o ho]; rfl)

theorem partsPhrases_of_additive {kind : Token.Kind} {op : Operation}
    (h : additive? kind = some op) : PartsPhrases kind = true := by
  cases kind <;> first | rfl | cases h

theorem partsPhrases_of_multiplicative {kind : Token.Kind} {op : Operation}
    (h : multiplicative? kind = some op) : PartsPhrases kind = true := by
  cases kind <;> first | rfl | cases h

mutual

/-- The tokens of a phrase are apart. -/
theorem Derives.isBlock {g : Grammar} {p : Phrase} {ts : List Token} {f : Formula} :
    Derives g p ts f → IsBlock ts
  | .term h | .factor h | .power h | .primary h => h.isBlock
  | .join hl hop hr => hl.isBlock.append hr.isBlock (partsPhrases_of_additive hop)
  | .scale hl hop hr => hl.isBlock.append hr.isBlock (partsPhrases_of_multiplicative hop)
  | .raise hb ht he => hb.isBlock.append he.isBlock (by rw [ht]; rfl)
  | .signed hs h => h.isBlock.sign hs
  | .number h => isBlock_single (by rw [h]; rfl)
  | .pi h _ => isBlock_single (by rw [h]; rfl)
  | .variable h _ => isBlock_single (by rw [h.kind]; rfl)
  | .group ho h hc => h.isBlock.group ho hc
  | .call h ho hargs hc _ => (hargs.isBlock.group ho hc).call h.kind (by rintro u ⟨⟩; exact ho)

theorem DerivesArguments.isBlock {g : Grammar} {ts : List Token} {first : Formula}
    {more : List Formula} : DerivesArguments g ts first more → IsBlock ts
  | .last h => h.isBlock
  | .next h ht hargs => h.isBlock.append hargs.isBlock (by rw [ht]; rfl)

end

/-- A text of the tokens of a sentence is read as the expression that the sentence stands for. -/
theorem parse_of_isTextOf {names : List String} {ts : List Token} {cs : List Char} {f : Formula}
    (h : Derives (.over names) .sum ts f) (hcs : IsTextOf ts cs) :
    parse names (String.ofList cs) = .ok f := by
  obtain ⟨us, hus, hmap⟩ := hcs.scans h.isBlock.apart 0
  have hf : Derives (.over names) .sum us f := h.of_withoutPlace us hmap
  unfold parse tokens
  rw [String.toList_ofList, hus]
  exact ofTokens_of_derives hf _

end Formula

end SurfaceStudio
