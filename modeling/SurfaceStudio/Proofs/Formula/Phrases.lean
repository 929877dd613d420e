import SurfaceStudio.Formula.Compiled
import SurfaceStudio.Proofs.Formula.Acceptance
import SurfaceStudio.Proofs.Formula.Lexing
import SurfaceStudio.Proofs.Text.Trimming
/-!
# Texts of phrases

`Writes g p cs f` says that the characters `cs` are a text of the phrase `p` that stands for `f`,
before whatever ends its last token. Texts of larger phrases are put together from texts of smaller
ones, and a text of a sum over the surface parameters is compiled.
-/

namespace SurfaceStudio.Formula

open Decimal (numeralValue)

/-- The characters are a text of a phrase that stands for an expression. -/
structure Writes (g : Grammar) (p : Phrase) (cs : List Char) (f : Formula) : Prop where
  first : ∃ c tail, cs = c :: tail ∧ Text.isBlank c = false ∧ c ≠ '*'
  last : ∃ init c, cs = init ++ [c] ∧ Text.isBlank c = false
  derives : ∃ ts, Derives g p ts f ∧
    ∀ {rest us}, EndsToken rest → Scans rest us → Scans (cs ++ rest) (ts ++ us)

section Phrases

variable {g : Grammar} {p q : Phrase} {cs ds : List Char} {l r f : Formula}

/-- A phrase is one of looser binding if the grammar says so. -/
theorem Writes.mono (h : Writes g p cs f) (hpq : ∀ {ts}, Derives g p ts f → Derives g q ts f) :
    Writes g q cs f := by
  obtain ⟨ts, hf, hts⟩ := h.derives
  exact ⟨h.first, h.last, ts, hpq hf, hts⟩

theorem Writes.factor (h : Writes g .primary cs f) : Writes g .factor cs f :=
  h.mono fun hf => .power (.primary hf)

theorem Writes.term (h : Writes g .factor cs f) : Writes g .term cs f :=
  h.mono fun hf => .factor hf

theorem Writes.sum (h : Writes g .term cs f) : Writes g .sum cs f :=
  h.mono fun hf => .term hf

/-! ## Primaries -/

theorem Writes.number (h : IsNumeral cs) : Writes g .primary cs (.number (numeralValue cs)) := by
  obtain ⟨c, tail, hcs, hc⟩ := h.first
  obtain ⟨init, d, hcs', hd⟩ := h.last
  have hstar : c ≠ '*' := by
    rintro rfl
    cases hc
  refine ⟨⟨c, tail, hcs, isBlank_of_isDigit hc, hstar⟩,
    ⟨init, d, hcs', isBlank_of_isDigit hd⟩,
    ⟨[⟨.number (numeralValue cs), String.ofList cs, 0⟩], .number rfl, ?_⟩⟩
  intro rest us hrest hscan
  exact Scans.number h hrest hscan

/-- A variable, written as a word. -/
theorem Writes.variable {c : Char} {tail : List Char} (hword : IsWord c tail)
    (hlast : ∃ init d, c :: tail = init ++ [d] ∧ Text.isBlank d = false)
    (hname : IsPlainName ⟨.identifier, String.ofList (c :: tail), 0⟩)
    (hg : String.ofList (c :: tail) ∈ g.names) :
    Writes g .primary (c :: tail) (.variable (String.ofList (c :: tail))) := by
  have hstar : c ≠ '*' := by
    rintro rfl
    exact absurd hword.start (by decide +kernel)
  refine ⟨⟨c, tail, rfl, hword.blank, hstar⟩, hlast,
    ⟨[⟨.identifier, String.ofList (c :: tail), 0⟩], .variable hname hg, ?_⟩⟩
  intro rest us hrest hscan
  exact Scans.word hword hrest hscan

/-- A function with one argument. -/
theorem Writes.call {c : Char} {tail : List Char} {fn : Fn} (hword : IsWord c tail)
    (hname : IsFunctionName ⟨.identifier, String.ofList (c :: tail), 0⟩ fn) (hg : g.admits fn 1)
    (h : Writes g .sum cs f) :
    Writes g .primary (c :: tail ++ '(' :: (cs ++ [')'])) (.call fn f []) := by
  obtain ⟨ts, hf, hts⟩ := h.derives
  have hstar : c ≠ '*' := by
    rintro rfl
    exact absurd hword.start (by decide +kernel)
  refine ⟨⟨c, tail ++ '(' :: (cs ++ [')']), rfl, hword.blank, hstar⟩,
    ⟨c :: tail ++ '(' :: cs, ')', by rw [List.append_assoc]; rfl, by decide⟩,
    ⟨⟨.identifier, String.ofList (c :: tail), 0⟩ :: ⟨.opening, String.ofList ['('], 0⟩ ::
      (ts ++ [⟨.closing, String.ofList [')'], 0⟩]), .call hname rfl (.last hf) rfl hg, ?_⟩⟩
  intro rest us hrest hscan
  have hclosing : Scans (')' :: rest) (⟨.closing, String.ofList [')'], 0⟩ :: us) :=
    Scans.mark rfl hscan
  have hinner := hts (endsToken_cons (by decide) (by decide) (by decide +kernel) rest) hclosing
  have hopening : Scans ('(' :: (cs ++ ')' :: rest))
      (⟨.opening, String.ofList ['('], 0⟩ :: (ts ++ ⟨.closing, String.ofList [')'], 0⟩ :: us)) :=
    Scans.mark rfl hinner
  have hcall := Scans.word hword
    (endsToken_cons (by decide) (by decide) (by decide +kernel) _) hopening
  simpa only [List.append_assoc, List.cons_append, List.nil_append] using hcall

/-! ## Signs and operations -/

theorem Writes.minus (h : Writes g .factor cs f) :
    Writes g .factor ('-' :: cs) (.signed .minus f) := by
  obtain ⟨init, c, rfl, hc⟩ := h.last
  obtain ⟨ts, hf, hts⟩ := h.derives
  refine ⟨⟨'-', _, rfl, by decide, by decide⟩, ⟨'-' :: init, c, rfl, hc⟩,
    ⟨⟨.minus, String.ofList ['-'], 0⟩ :: ts, .signed rfl hf, ?_⟩⟩
  intro rest us hrest hscan
  exact Scans.mark rfl (hts hrest hscan)

theorem Writes.times (hl : Writes g .term cs l) (hr : Writes g .factor ds r) :
    Writes g .term (cs ++ '*' :: ds) (.binary .mul l r) := by
  obtain ⟨c, tail, hcs, hc⟩ := hl.first
  obtain ⟨d, more, hds, -, hd⟩ := hr.first
  obtain ⟨init, e, hds', he⟩ := hr.last
  obtain ⟨ls, hl, hls⟩ := hl.derives
  obtain ⟨rs, hr, hrs⟩ := hr.derives
  refine ⟨⟨c, tail ++ '*' :: ds, by rw [hcs]; rfl, hc⟩,
    ⟨cs ++ '*' :: init, e, by rw [hds', List.append_assoc]; rfl, he⟩,
    ⟨ls ++ ⟨.star, String.ofList ['*'], 0⟩ :: rs, .scale hl rfl hr, ?_⟩⟩
  intro rest us hrest hscan
  -- the right side does not start with a star, so that the two do not make a power
  have hstar : ∀ x ∈ (ds ++ rest).head?, x ≠ '*' := by
    rw [hds]
    rintro x ⟨⟩
    exact hd
  have htail := Scans.star hstar (hrs hrest hscan)
  have hall := hls (endsToken_cons (by decide) (by decide) (by decide +kernel) _) htail
  simpa only [List.append_assoc, List.cons_append] using hall

/-- A sum that goes on with a sign between blanks. -/
theorem Writes.join {c : Char} {kind : Token.Kind} {op : Operation} (hl : Writes g .sum cs l)
    (hc : singleKind? c = some kind) (hop : additive? kind = some op) (hr : Writes g .term ds r) :
    Writes g .sum (cs ++ ' ' :: c :: ' ' :: ds) (.binary op l r) := by
  obtain ⟨b, tail, hcs, hb⟩ := hl.first
  obtain ⟨init, e, hds, he⟩ := hr.last
  obtain ⟨ls, hl, hls⟩ := hl.derives
  obtain ⟨rs, hr, hrs⟩ := hr.derives
  refine ⟨⟨b, tail ++ ' ' :: c :: ' ' :: ds, by rw [hcs]; rfl, hb⟩,
    ⟨cs ++ ' ' :: c :: ' ' :: init, e, by rw [hds, List.append_assoc]; rfl, he⟩,
    ⟨ls ++ ⟨kind, String.ofList [c], 0⟩ :: rs, .join hl hop hr, ?_⟩⟩
  intro rest us hrest hscan
  have hright : Scans (' ' :: (ds ++ rest)) (rs ++ us) := Scans.blank (by decide) (hrs hrest hscan)
  have htail := Scans.blank (c := ' ') (by decide) (Scans.mark hc hright)
  have hall := hls (endsToken_cons (by decide) (by decide) (by decide +kernel) _) htail
  simpa only [List.append_assoc, List.cons_append] using hall

end Phrases

/-! ## Variables -/

/-- A surface parameter is written as its name. -/
theorem writes_parameter {param : String} (hparam : param = "u" ∨ param = "v") :
    Writes (.over Compiled.parameterNames) .primary param.toList (.variable param) := by
  rcases hparam with rfl | rfl
  · exact Writes.variable (c := 'u') ⟨by decide, by decide, by decide, by decide +kernel, rfl⟩
      ⟨[], 'u', rfl, by decide⟩ ⟨rfl, by decide +kernel, by decide⟩ (by decide)
  · exact Writes.variable (c := 'v') ⟨by decide, by decide, by decide, by decide +kernel, rfl⟩
      ⟨[], 'v', rfl, by decide⟩ ⟨rfl, by decide +kernel, by decide⟩ (by decide)

theorem mem_insertName {name other : String} {names : List String} :
    name ∈ insertName other names ↔ name = other ∨ name ∈ names := by
  induction names with
  | nil => rw [insertName, List.mem_singleton, List.mem_nil_iff, or_false]
  | cons first rest ih =>
    rw [insertName]
    split
    · next heq =>
      rw [heq, List.mem_cons, or_self_left]
    · split
      · rw [List.mem_cons]
      · rw [List.mem_cons, ih, List.mem_cons, or_left_comm]

/-- The free variables of an expression are the names that stand in it. -/
theorem mem_freeVariables {name : String} {f : Formula} :
    name ∈ f.freeVariables ↔ name ∈ f.occurrences := by
  rw [freeVariables]
  induction f.occurrences with
  | nil => rfl
  | cons other names ih => rw [List.foldr_cons, mem_insertName, ih, List.mem_cons]

/-! ## Compiling -/

/-- There are no blanks around the text of a phrase. -/
theorem Writes.trim_eq {g : Grammar} {p : Phrase} {text : String} {f : Formula}
    (h : Writes g p text.toList f) : Text.trim text = text := by
  obtain ⟨c, tail, hcs, hc, -⟩ := h.first
  rw [Text.trim, Text.trimWhile_of_ends ⟨c, tail, hcs, hc⟩ h.last, String.ofList_toList]

/-- A text of a sum is read as what the sum stands for. -/
theorem Writes.parse_eq {names : List String} {text : String} {f : Formula}
    (h : Writes (.over names) .sum text.toList f) : parse names text = .ok f := by
  -- the tokens of the whole text, at their places
  obtain ⟨us, hf, hus⟩ := h.derives
  obtain ⟨ts, hscan, hts⟩ := hus endsToken_nil Scans.nil 0
  rw [List.append_nil] at hscan hts
  rw [parse, tokens, hscan]
  exact ofTokens_of_derives (hf.of_withoutPlace ts hts) _

/-- A text of a sum over the surface parameters compiles to what the sum stands for. -/
theorem Writes.ofText {text : String} {f : Formula}
    (h : Writes (.over Compiled.parameterNames) .sum text.toList f) :
    Compiled.ofText text = .ok ⟨text, f⟩ := by
  have hempty : text.isEmpty = false := by
    obtain ⟨c, tail, hcs, -⟩ := h.first
    rw [Bool.eq_false_iff, ne_eq, String.isEmpty_iff]
    rintro rfl
    cases hcs
  simp only [Compiled.ofText, h.trim_eq, hempty, h.parse_eq]
  rfl

end SurfaceStudio.Formula
