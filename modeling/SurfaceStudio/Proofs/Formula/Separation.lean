import SurfaceStudio.Proofs.Formula.Spacing
import SurfaceStudio.Proofs.Text.Trimming
/-!
# Texts parted by blanks

A blank ends every token before it, and no token starts with one or goes on behind it. So the two
sides of some blanks are cut into tokens independently: `tokens_append_blanks` puts the tokens of
the left side in front of those of the right side, which are found further on by the length of what
stands before them. Trimming a text, and writing its tokens anew with a space between each two, are
cases of this.
-/

namespace SurfaceStudio

open Decimal (isDigit)

/-- A token that stands `d` places further on. -/
def Token.moved (d : Nat) (t : Token) : Token := { t with position := t.position + d }

namespace Formula

/-- A fault that is found `d` places further on. -/
def Fault.moved (d : Nat) (fault : Fault) : Fault := { fault with position := fault.position + d }

/-- A symbol that stands `d` places further on. -/
def Symbol.moved (d : Nat) : Symbol → Symbol
  | .token t => .token (t.moved d)
  | .finish position => .finish (position + d)

/-- What is found in a text that stands `d` places further on. -/
def moved {α : Type} (move : Nat → α → α) (d : Nat) (found : Except Fault (List α)) :
    Except Fault (List α) :=
  (found.mapError (Fault.moved d)).map (List.map (move d))

/-- The characters a symbol is written with; the end of a text has none. -/
def Symbol.text : Symbol → String
  | .token t => t.text
  | .finish _ => ""

/-- A symbol with its place left out. -/
def Symbol.withoutPlace : Symbol → Symbol
  | .token t => .token (Formula.withoutPlace t)
  | .finish _ => .finish 0

/-- What is found in a text with the places left out: the symbols, or what is wrong. -/
def withoutPlaces (found : Except Fault (List Symbol)) : Except Cause (List Symbol) :=
  (found.mapError Fault.cause).map (List.map Symbol.withoutPlace)

/-! ## Going through a text -/

/-- A text is empty or it starts with a blank, with a token, or with a character that starts
neither. -/
theorem text_induction {motive : List Char → Prop} (nil : motive [])
    (blank : ∀ c cs, Text.isBlank c = true → motive cs → motive (c :: cs))
    (stop : ∀ c cs, Text.isBlank c = false → ¬ StartsToken c cs → motive (c :: cs))
    (lexeme : ∀ kind text rest, Lexeme kind text rest → motive rest → motive (text ++ rest))
    (cs : List Char) : motive cs := by
  induction hn : cs.length using Nat.strong_induction_on generalizing cs with
  | _ n ih =>
    subst hn
    rcases cs with _ | ⟨c, cs⟩
    · exact nil
    rcases hblank : Text.isBlank c
    · cases hlex : lexeme? c cs with
      | none => exact stop c cs hblank (lexeme?_eq_none_iff.mp hlex)
      | some found =>
        obtain ⟨kind, tail⟩ := found
        obtain ⟨rest, rfl, hlexeme⟩ := lexeme_of_lexeme? hlex
        have hshort : rest.length < (c :: (tail ++ rest)).length := by
          rw [List.length_cons, List.length_append]
          omega
        exact lexeme kind (c :: tail) rest hlexeme (ih rest.length hshort rest rfl)
    · exact blank c cs hblank (ih cs.length (Nat.lt_succ_self _) cs rfl)

theorem scan_nil (p : Nat) : scan p [] = .ok [] := by rw [scan.eq_def]

theorem scan_cons_blank {c : Char} (h : Text.isBlank c = true) (p : Nat) (cs : List Char) :
    scan p (c :: cs) = scan (p + 1) cs := by
  rw [scan.eq_def]
  simp only [h]
  rfl

theorem scan_cons_stop {c : Char} {cs : List Char} (hblank : Text.isBlank c = false)
    (hstop : ¬ StartsToken c cs) (p : Nat) :
    scan p (c :: cs) = .error ⟨.unexpectedCharacter c, p⟩ := by
  rw [scan.eq_def]
  simp only [hblank, lexeme?_eq_none_iff.mpr hstop]
  rfl

/-- What is found in a text does not depend on the place where it stands. -/
theorem scan_add (d p : Nat) (cs : List Char) :
    scan (p + d) cs = moved Token.moved d (scan p cs) := by
  induction cs using text_induction generalizing p with
  | nil =>
    rw [scan_nil, scan_nil]
    rfl
  | blank c cs hc ih =>
    rw [scan_cons_blank hc, scan_cons_blank hc, Nat.add_right_comm, ih]
  | stop c cs hc hstop =>
    rw [scan_cons_stop hc hstop, scan_cons_stop hc hstop]
    rfl
  | lexeme kind text rest h ih =>
    rw [scan_lexeme h, scan_lexeme h, Nat.add_right_comm, ih]
    cases scan (p + text.length) rest <;> rfl

theorem scan_blanks {blanks : List Char} (h : ∀ c ∈ blanks, Text.isBlank c = true) (p : Nat)
    (cs : List Char) : scan p (blanks ++ cs) = scan (p + blanks.length) cs := by
  induction blanks generalizing p with
  | nil => rfl
  | cons c blanks ih =>
    obtain ⟨hc, hblanks⟩ := List.forall_mem_cons.mp h
    rw [List.cons_append, scan_cons_blank hc, ih hblanks, List.length_cons, Nat.add_right_comm,
      Nat.add_assoc]

/-! ## Tokens before a blank -/

theorem isBlank_of_mem_digits {ds : List Char} (h : ∀ c ∈ ds, isDigit c = true) :
    ∀ c ∈ ds, Text.isBlank c = false := fun c hc => isBlank_of_isDigit (h c hc)

/-- Numbers have no blanks in them. -/
theorem NumeralForm.isBlank_of_mem {text : List Char} (h : NumeralForm text) :
    ∀ c ∈ text, Text.isBlank c = false := by
  obtain ⟨mantissa, power, rfl, hmantissa, hpower⟩ := h
  have hmark : ∀ e, IsPowerMark e → Text.isBlank e = false := by
    rintro e (rfl | rfl) <;> decide
  have hsign : ∀ s, s = '+' ∨ s = '-' → Text.isBlank s = false := by
    rintro s (rfl | rfl) <;> decide
  rw [List.forall_mem_append]
  constructor
  · cases hmantissa with
    | whole hds => exact isBlank_of_mem_digits hds.all
    | point hds hes =>
      rw [List.forall_mem_append, List.forall_mem_cons]
      exact ⟨isBlank_of_mem_digits hds.all, by decide, isBlank_of_mem_digits hes⟩
    | leadingPoint hds =>
      rw [List.forall_mem_cons]
      exact ⟨by decide, isBlank_of_mem_digits hds.all⟩
  · cases hpower with
    | none => exact nofun
    | unsigned he hds =>
      rw [List.forall_mem_cons]
      exact ⟨hmark _ he, isBlank_of_mem_digits hds.all⟩
    | signed he hs hds =>
      rw [List.forall_mem_cons, List.forall_mem_cons]
      exact ⟨hmark _ he, hsign _ hs, isBlank_of_mem_digits hds.all⟩

/-- A start of a text that has no blank in it ends before the first blank. -/
theorem prefix_of_no_blank {other cs more : List Char} {b : Char} (hb : Text.isBlank b = true)
    (hother : ∀ c ∈ other, Text.isBlank c = false) (h : other <+: cs ++ b :: more) :
    other <+: cs := by
  rcases List.prefix_or_prefix_of_prefix h (List.prefix_append cs (b :: more)) with hle | hge
  · exact hle
  · obtain ⟨rest, rfl⟩ := hge
    rw [List.prefix_append_right_inj] at h
    rcases rest with _ | ⟨c, rest⟩
    · rw [List.append_nil]
    · obtain ⟨rfl, -⟩ := List.cons_prefix_cons.mp h
      have hfalse := hother c (List.mem_append_right cs List.mem_cons_self)
      rw [hb] at hfalse
      cases hfalse

/-- What asks of the character behind a token that it is none of some, asks nothing more when the
text goes on with a blank. -/
theorem forall_head?_append {P : Char → Prop} {cs more : List Char} {b : Char} (hb : P b)
    (h : ∀ c ∈ cs.head?, P c) : ∀ c ∈ (cs ++ b :: more).head?, P c := by
  rcases cs with _ | ⟨c, cs⟩
  · rintro d ⟨⟩
    exact hb
  · exact h

/-- A token stays as it is when the text behind it goes on with a blank. -/
theorem Lexeme.append_blank {kind : Token.Kind} {text rest : List Char} {b : Char}
    (h : Lexeme kind text rest) (hb : Text.isBlank b = true) (more : List Char) :
    Lexeme kind text (rest ++ b :: more) := by
  cases h with
  | number h =>
    refine .number ⟨List.prefix_append _ _, h.holds, fun other hother hform => ?_⟩
    rw [← List.append_assoc] at hother
    exact h.longest other (prefix_of_no_blank hb hform.isBlank_of_mem hother) hform
  | identifier hc htail hrest =>
    exact .identifier hc htail (forall_head?_append (endsToken_of_isBlank hb more b rfl).2.2 hrest)
  | power => exact .power
  | star hrest =>
    refine .star (forall_head?_append ?_ hrest)
    rintro rfl
    cases hb
  | mark hc => exact .mark hc

/-- No token starts before a blank that does not start without it. -/
theorem StartsToken.of_append_blank {c b : Char} {rest more : List Char}
    (h : StartsToken c (rest ++ b :: more)) (hb : Text.isBlank b = true) : StartsToken c rest := by
  rcases h with h | ⟨rfl, d, hd, hdigit⟩ | h
  · exact .inl h
  · rcases rest with _ | ⟨c, rest⟩
    · cases hd
      rw [isBlank_of_isDigit hdigit] at hb
      cases hb
    · exact .inr (.inl ⟨rfl, d, hd, hdigit⟩)
  · exact .inr (.inr h)

/-- The two sides of a blank are scanned independently. -/
theorem scan_append_blank {b : Char} (hb : Text.isBlank b = true) (cs ds : List Char) (p : Nat) :
    scan p (cs ++ b :: ds) =
      (scan p cs).bind fun ts => (scan (p + cs.length + 1) ds).map (ts ++ ·) := by
  induction cs using text_induction generalizing p with
  | nil =>
    rw [List.nil_append, scan_cons_blank hb, scan_nil]
    show _ = (scan (p + 1) ds).map id
    cases scan (p + 1) ds <;> rfl
  | blank c cs hc ih =>
    rw [List.cons_append, scan_cons_blank hc, scan_cons_blank hc, ih, List.length_cons,
      Nat.add_right_comm p 1, Nat.add_assoc p]
  | stop c cs hc hstop =>
    have hstop' : ¬ StartsToken c (cs ++ b :: ds) := fun h => hstop (h.of_append_blank hb)
    rw [List.cons_append, scan_cons_stop hc hstop, scan_cons_stop hc hstop']
    rfl
  | lexeme kind text rest h ih =>
    rw [List.append_assoc, scan_lexeme (h.append_blank hb ds), scan_lexeme h, ih,
      List.length_append, ← Nat.add_assoc]
    cases scan (p + text.length) rest with
    | error fault => rfl
    | ok ts =>
      show Except.map _ (Except.map _ (scan _ ds)) = Except.map _ (scan _ ds)
      cases scan (p + text.length + rest.length + 1) ds <;> rfl

/-! ## Whole texts -/

theorem tokenize_eq_map (source : String) :
    tokenize source = (tokens source).map fun ts => ts.map .token ++ [.finish source.length] := rfl

/-- The tokens of a text are those before some blanks, and those behind them further on. -/
theorem tokens_append_blanks {w : String} (hne : w ≠ "")
    (hw : ∀ c ∈ w.toList, Text.isBlank c = true) (s t : String) :
    tokens (s ++ w ++ t) = (tokens s).bind fun left =>
      (moved Token.moved (s.length + w.length) (tokens t)).map (left ++ ·) := by
  have hcons : w.toList ≠ [] := fun hnil => hne (String.toList_eq_nil_iff.mp hnil)
  obtain ⟨b, blanks, hb⟩ := List.exists_cons_of_ne_nil hcons
  have hlength : s.length + w.length = 0 + s.toList.length + 1 + blanks.length := by
    rw [← String.length_toList, ← String.length_toList, hb, List.length_cons]
    omega
  rw [hb, List.forall_mem_cons] at hw
  have hmoved : scan (0 + s.toList.length + 1) (blanks ++ t.toList) =
      moved Token.moved (s.length + w.length) (tokens t) := by
    rw [scan_blanks hw.2, ← hlength, tokens, ← scan_add, Nat.zero_add]
  rw [tokens, String.toList_append, String.toList_append, hb, List.append_assoc, List.cons_append,
    scan_append_blank hw.1, hmoved]
  rfl

/-- Blanks at the ends of a text only move its tokens. -/
theorem scan_between_blanks {lead trail : List Char} (hlead : ∀ c ∈ lead, Text.isBlank c = true)
    (htrail : ∀ c ∈ trail, Text.isBlank c = true) (cs : List Char) :
    scan 0 (lead ++ (cs ++ trail)) = moved Token.moved lead.length (scan 0 cs) := by
  rw [scan_blanks hlead, Nat.add_comm 0, Nat.add_comm lead.length, scan_add]
  congr 1
  rcases trail with _ | ⟨b, trail⟩
  · rw [List.append_nil]
  · obtain ⟨hb, htrail⟩ := List.forall_mem_cons.mp htrail
    have hend := scan_blanks htrail (0 + cs.length + 1) []
    rw [List.append_nil, scan_nil] at hend
    rw [scan_append_blank hb, hend]
    cases scan 0 cs with
    | error fault => rfl
    | ok ts => exact congrArg Except.ok (List.append_nil ts)

/-- Trimming a text moves its tokens to the front, or what is wrong with it. -/
theorem exists_tokens_trim (text : String) :
    ∃ d, tokens text = moved Token.moved d (tokens (Text.trim text)) := by
  obtain ⟨lead, trail, htext, hlead, htrail⟩ := Text.exists_trimWhile Text.isBlank text.toList
  refine ⟨lead.length, ?_⟩
  rw [tokens, tokens, Text.trim, String.toList_ofList, ← scan_between_blanks hlead htrail]
  exact congrArg (scan 0) htext

/-- What is found in a text is told by the tokens that it is cut into. -/
theorem withoutPlaces_tokenize (source : String) :
    withoutPlaces (tokenize source) =
      ((tokens source).mapError Fault.cause).map fun ts =>
        (ts.map withoutPlace).map .token ++ [.finish 0] := by
  rw [tokenize_eq_map, withoutPlaces]
  cases tokens source with
  | error fault => rfl
  | ok ts =>
    simp only [Except.map, Except.mapError, List.map_append, List.map_map]
    rfl

/-- Trimming a text changes the places alone. -/
theorem withoutPlaces_trim (text : String) :
    withoutPlaces (tokenize (Text.trim text)) = withoutPlaces (tokenize text) := by
  obtain ⟨d, hd⟩ := exists_tokens_trim text
  rw [withoutPlaces_tokenize, withoutPlaces_tokenize, hd]
  cases tokens (Text.trim text) with
  | error fault => rfl
  | ok ts =>
    simp only [moved, Except.map, Except.mapError, List.map_map]
    rfl

/-! ## Derivations further on -/

/-- A change of tokens that leaves what the grammar looks at. -/
structure KeepsKind (move : Token → Token) : Prop where
  kind : ∀ t, (move t).kind = t.kind
  text : ∀ t, (move t).text = t.text

section Derivations

variable {move : Token → Token} {g : Grammar}

theorem IsPlainName.map (hmove : KeepsKind move) {t : Token} (h : IsPlainName t) :
    IsPlainName (move t) :=
  ⟨by rw [hmove.kind, h.kind], by rw [hmove.text]; exact h.notPi,
    by rw [hmove.text, h.notFunction]⟩

theorem IsFunctionName.map (hmove : KeepsKind move) {t : Token} {fn : Fn}
    (h : IsFunctionName t fn) : IsFunctionName (move t) fn :=
  ⟨by rw [hmove.kind, h.kind], by rw [hmove.text]; exact h.notPi, by rw [hmove.text, h.function]⟩

mutual

/-- Such a change leaves what the tokens derive. -/
theorem Derives.map (hmove : KeepsKind move) {p : Phrase} {ts : List Token} {f : Formula} :
    Derives g p ts f → Derives g p (ts.map move) f
  | .term h => .term (h.map hmove)
  | .factor h => .factor (h.map hmove)
  | .power h => .power (h.map hmove)
  | .primary h => .primary (h.map hmove)
  | .join hl hop hr => by
    rw [List.map_append, List.map_cons]
    exact .join (hl.map hmove) (by rw [hmove.kind, hop]) (hr.map hmove)
  | .scale hl hop hr => by
    rw [List.map_append, List.map_cons]
    exact .scale (hl.map hmove) (by rw [hmove.kind, hop]) (hr.map hmove)
  | .signed hs h => .signed (by rw [hmove.kind, hs]) (h.map hmove)
  | .raise hb ht he => by
    rw [List.map_append, List.map_cons]
    exact .raise (hb.map hmove) (by rw [hmove.kind, ht]) (he.map hmove)
  | .number h => .number (by rw [hmove.kind, h])
  | .pi h hpi => .pi (by rw [hmove.kind, h]) (by rwa [hmove.text])
  | @Derives.variable _ t h hname => by
    rw [← hmove.text t] at hname ⊢
    exact .variable (h.map hmove) hname
  | .group ho h hc => by
    rw [List.map_cons, List.map_append]
    exact .group (by rw [hmove.kind, ho]) (h.map hmove) (by rw [hmove.kind, hc])
  | .call h ho hargs hc hn => by
    rw [List.map_cons, List.map_cons, List.map_append]
    exact .call (h.map hmove) (by rw [hmove.kind, ho]) (hargs.map hmove) (by rw [hmove.kind, hc]) hn

theorem DerivesArguments.map (hmove : KeepsKind move) {ts : List Token} {first : Formula}
    {more : List Formula} : DerivesArguments g ts first more →
      DerivesArguments g (ts.map move) first more
  | .last h => .last (h.map hmove)
  | .next h ht hargs => by
    rw [List.map_append, List.map_cons]
    exact .next (h.map hmove) (by rw [hmove.kind, ht]) (hargs.map hmove)

end

/-- The grammar does not look at the place where a text stands. -/
theorem derives_moved_iff {p : Phrase} {d : Nat} {ts : List Token} {f : Formula} :
    Derives g p (ts.map (Token.moved d)) f ↔ Derives g p ts f := by
  have hforth : KeepsKind (Token.moved d) := ⟨fun _ => rfl, fun _ => rfl⟩
  have hback : KeepsKind fun t => { t with position := t.position - d } :=
    ⟨fun _ => rfl, fun _ => rfl⟩
  have hid : (fun t : Token => { t with position := t.position - d }) ∘ Token.moved d = id := by
    funext t
    simp [Token.moved]
  refine ⟨fun h => ?_, fun h => h.map hforth⟩
  have h := h.map hback
  rwa [List.map_map, hid, List.map_id] at h

end Derivations

/-! ## Tokens written anew -/

/-- The characters of tokens that can be spelled, with a space between each two of them. -/
theorem scans_intercalate {ts : List Token} (h : ∀ t ∈ ts, Lexeme t.kind t.text.toList []) :
    Scans (" ".intercalate (ts.map Token.text)).toList (ts.map withoutPlace) := by
  rw [String.toList_intercalate, List.map_map]
  induction ts with
  | nil => exact .nil
  | cons t ts ih =>
    obtain ⟨ht, hts⟩ := List.forall_mem_cons.mp h
    have hword : ∀ {rest us}, Follows t.kind rest → Scans rest us →
        Scans (t.text.toList ++ rest) (withoutPlace t :: us) := by
      intro rest us hrest hscan
      have hlexeme := hscan.lexeme (ht.before hrest)
      rwa [String.ofList_toList] at hlexeme
    cases ts with
    | nil =>
      have hlast := hword follows_nil Scans.nil
      rw [List.append_nil] at hlast
      rw [List.map_singleton, List.intercalate_singleton]
      exact hlast
    | cons u us =>
      have hspace : Text.isBlank ' ' = true := by decide
      have hnext := hword (follows_blank hspace _) (.blank hspace (ih hts))
      rw [List.map_cons, List.map_cons, List.intercalate_cons_cons, List.append_assoc]
      exact hnext

/-- The tokens of a text, written with a space between each two, are the same tokens at other
places. -/
theorem exists_tokens_intercalate {source : String} {ts : List Token} (h : tokens source = .ok ts) :
    ∃ us, tokens (" ".intercalate (ts.map Token.text)) = .ok us ∧
      us.map withoutPlace = ts.map withoutPlace := by
  have hlexemes := (tokens_eq_ok_iff.mp h).lexemes
  exact scans_intercalate (fun t ht => (hlexemes t ht).take 0) 0

/-- The end of a text, written as a last token without characters, adds a blank at most. -/
theorem tokens_intercalate_finish (ts : List Token) (p : Nat) :
    tokens (" ".intercalate ((ts.map Symbol.token ++ [Symbol.finish p]).map Symbol.text)) =
      tokens (" ".intercalate (ts.map Token.text)) := by
  have hmap : (ts.map Symbol.token ++ [Symbol.finish p]).map Symbol.text =
      ts.map Token.text ++ [""] := by
    rw [List.map_append, List.map_map]
    rfl
  rw [hmap]
  by_cases hnil : ts = []
  · rw [hnil]
    rfl
  · have hspace : ∀ c ∈ " ".toList, Text.isBlank c = true := by
      rw [show " ".toList = [' '] from rfl, List.forall_mem_singleton]
      decide
    rw [String.intercalate_append_of_ne_nil (by rwa [ne_eq, List.map_eq_nil_iff])
      (List.cons_ne_nil _ _), String.intercalate_singleton,
      tokens_append_blanks (by decide) hspace]
    have hempty : tokens "" = .ok [] := scan_nil 0
    rw [hempty]
    cases tokens (" ".intercalate (ts.map Token.text)) with
    | error fault => rfl
    | ok us => exact congrArg Except.ok (List.append_nil us)

/-- Blanks separate texts. What is found in two texts with blanks between them is what is found in
the first one, without its end, and behind it what is found in the second one, further on; of two
faults it is the one in the first text. So trimming a text changes the places alone, and the tokens
of a text are found again when they are written with a space between each two. -/
theorem blanks_separate :
    (∀ s w t : String, w ≠ "" → (∀ c ∈ w.toList, Text.isBlank c = true) →
      tokenize (s ++ w ++ t) = (tokenize s).bind fun left =>
        (moved Symbol.moved (s.length + w.length) (tokenize t)).map (left.dropLast ++ ·)) ∧
    (∀ text, withoutPlaces (tokenize (Text.trim text)) = withoutPlaces (tokenize text)) ∧
    ∀ source symbols, tokenize source = .ok symbols →
      ∀ written ∈ [symbols, symbols.dropLast],
        withoutPlaces (tokenize (" ".intercalate (written.map Symbol.text))) =
          .ok (symbols.map Symbol.withoutPlace) := by
  refine ⟨fun s w t hne hw => ?_, withoutPlaces_trim, fun source symbols h written hwritten => ?_⟩
  · rw [tokenize_eq_map, tokens_append_blanks hne hw, tokenize_eq_map, tokenize_eq_map]
    cases tokens s with
    | error fault => rfl
    | ok left =>
      cases tokens t with
      | error fault => rfl
      | ok right =>
        simp only [moved, Except.map, Except.bind, Except.mapError, List.dropLast_concat,
          List.map_append, List.map_map, List.append_assoc, String.length_append,
          List.map_singleton, Symbol.moved, Nat.add_comm t.length]
        rfl
  · obtain ⟨ts, hts, rfl⟩ := tokenize_eq_ok_iff.mp h
    obtain ⟨us, hus, hmap⟩ := exists_tokens_intercalate hts
    have hwritten : tokens (" ".intercalate (written.map Symbol.text)) = .ok us := by
      rw [List.dropLast_concat] at hwritten
      rcases List.mem_pair.mp hwritten with rfl | rfl
      · rw [tokens_intercalate_finish, hus]
      · rw [List.map_map]
        exact hus
    rw [withoutPlaces_tokenize, hwritten]
    simp only [Except.map, Except.mapError, hmap, List.map_append, List.map_map]
    rfl

/-- A number parted from what could have been its power of ten, and one that has no power. -/
theorem blanks_separate_power_mark :
    "\t" ≠ "" ∧ (∀ c ∈ "\t".toList, Text.isBlank c = true) ∧
      tokenize ("2" ++ "\t" ++ "e5") =
        .ok [.token ⟨.number 2, "2", 0⟩, .token ⟨.identifier, "e5", 2⟩, .finish 4] ∧
      tokenize "2e" = .ok [.token ⟨.number 2, "2", 0⟩, .token ⟨.identifier, "e", 1⟩, .finish 2] ∧
      withoutPlaces (tokenize (" ".intercalate ["2", "e"])) =
        .ok [.token ⟨.number 2, "2", 0⟩, .token ⟨.identifier, "e", 0⟩, .finish 0] := by
  have hne : "\t" ≠ "" := by decide
  have hblank : ∀ c ∈ "\t".toList, Text.isBlank c = true := by
    rw [show "\t".toList = ['\t'] from rfl, List.forall_mem_singleton]
    decide
  have hleft : tokenize "2" = .ok [.token ⟨.number 2, "2", 0⟩, .finish 1] := by decide +kernel
  have hright : tokenize "e5" = .ok [.token ⟨.identifier, "e5", 0⟩, .finish 2] := by
    decide +kernel
  have hwhole : tokenize "2e" =
      .ok [.token ⟨.number 2, "2", 0⟩, .token ⟨.identifier, "e", 1⟩, .finish 2] := by
    decide +kernel
  have hjoined := blanks_separate.2.2 "2e" _ hwhole _ (List.mem_cons_of_mem _ List.mem_cons_self)
  have hparted := blanks_separate.1 "2" "\t" "e5" hne hblank
  rw [hleft, hright] at hparted
  exact ⟨hne, hblank, hparted, hwhole, hjoined⟩

end Formula

end SurfaceStudio
