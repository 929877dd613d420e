import SurfaceStudio.Proofs.Formula.Tokens
/-!
# Cutting a whole text into tokens

`Reaches` goes through a text from its start, a blank or a token at a time. Scanning follows it:
where it gets to the end there are tokens, and where it has to stop there is a fault. The tokens
that it passes are a tokenization of the text, and there is no other one.
-/

namespace SurfaceStudio

/-- The place behind a token. -/
def Token.stop (t : Token) : Nat := t.position + t.text.length

namespace Formula

/-! ## Going through a text -/

/-- Going through `cs` from its start, a blank or a token at a time, gets to a place past these
tokens. -/
inductive Reaches (cs : List Char) : Nat → List Token → Prop where
  | start : Reaches cs 0 []
  | blank {p : Nat} {ts : List Token} {c : Char} :
    Reaches cs p ts → cs[p]? = some c → Text.isBlank c = true → Reaches cs (p + 1) ts
  | token {p : Nat} {ts : List Token} {kind : Token.Kind} {text rest : List Char} :
    Reaches cs p ts → cs.drop p = text ++ rest → Lexeme kind text rest →
    Reaches cs (p + text.length) (ts ++ [⟨kind, String.ofList text, p⟩])

/-- Going through a text stops at a character that is no blank and starts no token. -/
structure StopsAt (source : String) (p : Nat) (c : Char) : Prop where
  reached : ∃ ts, Reaches source.toList p ts
  found : source.toList[p]? = some c
  notBlank : Text.isBlank c = false
  noToken : ¬ StartsToken c (source.toList.drop (p + 1))

theorem drop_eq_cons {cs : List Char} {p : Nat} {c : Char} (h : cs[p]? = some c) :
    cs.drop p = c :: cs.drop (p + 1) := by
  rw [List.drop_eq_getElem?_toList_append, h]
  rfl

theorem drop_add_of_append {cs text rest : List Char} {p : Nat} (h : cs.drop p = text ++ rest) :
    cs.drop (p + text.length) = rest := by
  rw [← List.drop_drop, h, List.drop_left]

theorem Reaches.le_length {cs : List Char} {p : Nat} {ts : List Token} (h : Reaches cs p ts) :
    p ≤ cs.length := by
  induction h with
  | start => exact Nat.zero_le _
  | blank _ hc _ _ => exact (List.getElem?_eq_some_iff.mp hc).1
  | @token p _ _ text rest _ hdrop _ ih =>
    have hlength : (cs.drop p).length = (text ++ rest).length := by rw [hdrop]
    rw [List.length_drop, List.length_append] at hlength
    omega

/-- What is reached does not depend on the text behind it. -/
theorem Reaches.take {cs : List Char} {p : Nat} {ts : List Token} (h : Reaches cs p ts) :
    ∀ n, p ≤ n → Reaches (cs.take n) p ts := by
  induction h with
  | start => exact fun n _ => .start
  | blank _ hc hblank ih =>
    intro n hn
    exact .blank (ih n (by omega)) (by rw [List.getElem?_take_of_lt hn, hc]) hblank
  | @token p _ _ text rest _ hdrop hlexeme ih =>
    intro n hn
    refine .token (ih n (by omega)) ?_ (hlexeme.take (n - p - text.length))
    rw [List.drop_take, hdrop, List.take_append, List.take_of_length_le (by omega)]

/-! ## Scanning -/

theorem scan_blank {cs : List Char} {p : Nat} {c : Char} (hc : cs[p]? = some c)
    (hblank : Text.isBlank c = true) : scan p (cs.drop p) = scan (p + 1) (cs.drop (p + 1)) := by
  rw [drop_eq_cons hc, scan.eq_def]
  simp only [hblank]
  rfl

theorem scan_stop {cs : List Char} {p : Nat} {c : Char} (hc : cs[p]? = some c)
    (hblank : Text.isBlank c = false) (hnone : ¬ StartsToken c (cs.drop (p + 1))) :
    scan p (cs.drop p) = .error ⟨.unexpectedCharacter c, p⟩ := by
  rw [drop_eq_cons hc, scan.eq_def]
  simp only [hblank, lexeme?_eq_none_iff.mpr hnone]
  rfl

/-- Scanning a text is scanning what is left of it once a place is reached. -/
theorem Reaches.scan_eq {cs : List Char} {p : Nat} {ts : List Token} (h : Reaches cs p ts) :
    scan 0 cs = (scan p (cs.drop p)).map (ts ++ ·) := by
  induction h with
  | start =>
    rw [List.drop_zero]
    cases scan 0 cs <;> rfl
  | blank _ hc hblank ih => rw [ih, scan_blank hc hblank]
  | @token p _ _ text _ _ hdrop hlexeme ih =>
    rw [ih, hdrop, scan_lexeme hlexeme, drop_add_of_append hdrop]
    cases scan (p + text.length) _ with
    | error fault => rfl
    | ok us => simp [Except.map]

/-- From a place that is reached one gets further, down to the end of the text or to a character
that stops the way. -/
theorem Reaches.exists_end (source : String) {p : Nat} {ts : List Token}
    (h : Reaches source.toList p ts) :
    (∃ us, Reaches source.toList source.length us) ∨ ∃ q c, StopsAt source q c := by
  have hle : p ≤ source.length := h.le_length.trans_eq String.length_toList
  by_cases hend : p = source.length
  · subst hend
    exact .inl ⟨ts, h⟩
  · obtain ⟨c, hc⟩ : ∃ c, source.toList[p]? = some c := by
      rw [List.getElem?_eq_getElem (by rw [String.length_toList]; omega)]
      exact ⟨_, rfl⟩
    by_cases hblank : Text.isBlank c = true
    · exact Reaches.exists_end source (h.blank hc hblank)
    · rw [Bool.not_eq_true] at hblank
      cases hlex : lexeme? c (source.toList.drop (p + 1)) with
      | none => exact .inr ⟨p, c, ⟨ts, h⟩, hc, hblank, lexeme?_eq_none_iff.mp hlex⟩
      | some found =>
        obtain ⟨kind, tail⟩ := found
        obtain ⟨more, hmore, hlexeme⟩ := lexeme_of_lexeme? hlex
        have hdrop : source.toList.drop p = (c :: tail) ++ more := by
          rw [drop_eq_cons hc, hmore, List.cons_append]
        exact Reaches.exists_end source (h.token hdrop hlexeme)
termination_by source.length - p
decreasing_by
  · omega
  · rw [List.length_cons]
    omega

/-- Getting to the end of a text is having its tokens. -/
theorem Reaches.tokens_eq {source : String} {ts : List Token}
    (h : Reaches source.toList source.length ts) : tokens source = .ok ts := by
  have hnil : source.toList.drop source.length = [] := by
    rw [← String.length_toList, List.drop_length]
  rw [tokens, h.scan_eq, hnil, scan.eq_def]
  exact congrArg Except.ok (List.append_nil ts)

theorem StopsAt.tokens_eq {source : String} {p : Nat} {c : Char} (h : StopsAt source p c) :
    tokens source = .error ⟨.unexpectedCharacter c, p⟩ := by
  obtain ⟨ts, hreached⟩ := h.reached
  rw [tokens, hreached.scan_eq, scan_stop h.found h.notBlank h.noToken]
  rfl

theorem tokens_eq_ok_iff_reaches {source : String} {ts : List Token} :
    tokens source = .ok ts ↔ Reaches source.toList source.length ts := by
  refine ⟨fun h => ?_, Reaches.tokens_eq⟩
  rcases Reaches.exists_end source .start with ⟨us, hus⟩ | ⟨p, c, hstop⟩
  · rw [hus.tokens_eq] at h
    cases h
    exact hus
  · rw [hstop.tokens_eq] at h
    cases h

theorem tokens_eq_error_iff {source : String} {fault : Fault} :
    tokens source = .error fault ↔
      ∃ p c, StopsAt source p c ∧ fault = ⟨.unexpectedCharacter c, p⟩ := by
  constructor
  · intro h
    rcases Reaches.exists_end source .start with ⟨us, hus⟩ | ⟨p, c, hstop⟩
    · rw [hus.tokens_eq] at h
      cases h
    · rw [hstop.tokens_eq] at h
      cases h
      exact ⟨p, c, hstop, rfl⟩
  · rintro ⟨p, c, hstop, rfl⟩
    exact hstop.tokens_eq

/-! ## The tokens of a text -/

/-- The tokens that the first `p` characters of `cs` are made of: each is written at its place, no
two of them meet, and only blanks are outside of them. -/
structure IsTokenization (cs : List Char) (p : Nat) (ts : List Token) : Prop where
  slices : ∀ t ∈ ts, (cs.drop t.position).take t.text.length = t.text.toList
  lexemes : ∀ t ∈ ts, Lexeme t.kind t.text.toList (cs.drop t.stop)
  ordered : ts.Pairwise fun s t => s.position < t.position ∧ s.stop ≤ t.position
  inside : ∀ t ∈ ts, t.stop ≤ p
  blanks : ∀ q < p, (∀ t ∈ ts, q < t.position ∨ t.stop ≤ q) →
    ∀ c, cs[q]? = some c → Text.isBlank c = true

theorem Lexeme.length_pos {kind : Token.Kind} {text rest : List Char} (h : Lexeme kind text rest) :
    0 < text.length := by
  obtain ⟨c, tail, rfl, -⟩ := h.exists_cons
  exact Nat.succ_pos _

theorem IsTokenization.position_lt_stop {cs : List Char} {p : Nat} {ts : List Token}
    (h : IsTokenization cs p ts) {t : Token} (ht : t ∈ ts) : t.position < t.stop := by
  have hpos := (h.lexemes t ht).length_pos
  rw [String.length_toList] at hpos
  exact Nat.lt_add_of_pos_right hpos

/-- A blank behind the tokens adds nothing to them. -/
theorem IsTokenization.blank {cs : List Char} {p : Nat} {ts : List Token} {c : Char}
    (h : IsTokenization cs p ts) (hc : cs[p]? = some c) (hblank : Text.isBlank c = true) :
    IsTokenization cs (p + 1) ts := by
  refine ⟨h.slices, h.lexemes, h.ordered, fun t ht => (h.inside t ht).trans (Nat.le_succ p),
    fun q hq hout d hd => ?_⟩
  by_cases hqp : q = p
  · rw [hqp, hc] at hd
    cases hd
    exact hblank
  · exact h.blanks q (by omega) hout d hd

/-- A token behind the tokens joins them. -/
theorem IsTokenization.token {cs : List Char} {p : Nat} {ts : List Token} {kind : Token.Kind}
    {text rest : List Char} (h : IsTokenization cs p ts) (hdrop : cs.drop p = text ++ rest)
    (hlexeme : Lexeme kind text rest) :
    IsTokenization cs (p + text.length) (ts ++ [⟨kind, String.ofList text, p⟩]) := by
  have hstop : (Token.mk kind (String.ofList text) p).stop = p + text.length :=
    congrArg (p + ·) String.length_ofList
  have hpos : 0 < text.length := hlexeme.length_pos
  constructor
  case slices =>
    rw [List.forall_mem_append, List.forall_mem_singleton]
    refine ⟨h.slices, ?_⟩
    rw [hdrop, String.length_ofList, List.take_left, String.toList_ofList]
  case lexemes =>
    rw [List.forall_mem_append, List.forall_mem_singleton]
    refine ⟨h.lexemes, ?_⟩
    rwa [hstop, drop_add_of_append hdrop, String.toList_ofList]
  case ordered =>
    rw [List.pairwise_append]
    refine ⟨h.ordered, List.pairwise_singleton _ _, fun s hs t ht => ?_⟩
    rw [List.mem_singleton.mp ht]
    exact ⟨(h.position_lt_stop hs).trans_le (h.inside s hs), h.inside s hs⟩
  case inside =>
    rw [List.forall_mem_append, List.forall_mem_singleton, hstop]
    exact ⟨fun t ht => (h.inside t ht).trans (by omega), le_refl _⟩
  case blanks =>
    intro q hq hout d hd
    rw [List.forall_mem_append, List.forall_mem_singleton, hstop] at hout
    have hqp : q < p := by
      rcases hout.2 with hbefore | hbehind
      · exact hbefore
      · omega
    exact h.blanks q hqp hout.1 d hd

theorem Reaches.isTokenization {cs : List Char} {p : Nat} {ts : List Token}
    (h : Reaches cs p ts) : IsTokenization cs p ts := by
  induction h with
  | start => exact ⟨nofun, nofun, .nil, nofun, nofun⟩
  | blank _ hc hblank ih => exact ih.blank hc hblank
  | token _ hdrop hlexeme ih => exact ih.token hdrop hlexeme

/-- The tokens that are left when the last one is taken away make up the text before it. -/
theorem IsTokenization.init {cs : List Char} {p : Nat} {ts : List Token} {t : Token}
    (h : IsTokenization cs p (ts ++ [t])) : IsTokenization cs t.position ts := by
  have hordered := List.pairwise_append.mp h.ordered
  refine ⟨fun s hs => h.slices s (List.mem_append_left _ hs),
    fun s hs => h.lexemes s (List.mem_append_left _ hs), hordered.1,
    fun s hs => (hordered.2.2 s hs t (List.mem_singleton_self t)).2, fun q hq hout => ?_⟩
  have hlast : t ∈ ts ++ [t] := List.mem_append_right _ (List.mem_singleton_self t)
  have hqp : q < p := (hq.trans (h.position_lt_stop hlast)).trans_le (h.inside t hlast)
  refine h.blanks q hqp ?_
  rw [List.forall_mem_append, List.forall_mem_singleton]
  exact ⟨hout, .inl hq⟩

/-- A token that ends where the text does is the last one. -/
theorem IsTokenization.eq_append_of_stop {cs : List Char} {p : Nat} {ts : List Token}
    (h : IsTokenization cs p ts) {t : Token} (ht : t ∈ ts) (hstop : t.stop = p) :
    ∃ init, ts = init ++ [t] := by
  obtain ⟨init, more, rfl⟩ := List.append_of_mem ht
  have hmore : more = [] := by
    refine List.eq_nil_iff_forall_not_mem.mpr fun s hs => ?_
    have hmem : s ∈ init ++ t :: more := List.mem_append_right _ (List.mem_cons_of_mem _ hs)
    have hafter : t.stop ≤ s.position :=
      (List.rel_of_pairwise_cons (List.pairwise_append.mp h.ordered).2.1 hs).2
    have hlt : s.position < s.stop := h.position_lt_stop hmem
    have hle : s.stop ≤ p := h.inside s hmem
    omega
  exact ⟨init, by rw [hmore]⟩

/-- A text has no tokenization but the one that is found by going through it. The induction is on
the place: it either belongs to the last token or is a blank behind it. -/
theorem IsTokenization.reaches {cs : List Char} (p : Nat) {ts : List Token} (hp : p ≤ cs.length)
    (h : IsTokenization cs p ts) : Reaches cs p ts := by
  induction p using Nat.strong_induction_on generalizing ts with
  | _ p ih =>
    rcases p with _ | p
    · have hts : ts = [] := by
        refine List.eq_nil_iff_forall_not_mem.mpr fun t ht => ?_
        have hlt : t.position < t.stop := h.position_lt_stop ht
        have hle : t.stop ≤ 0 := h.inside t ht
        omega
      rw [hts]
      exact .start
    by_cases hout : ∀ t ∈ ts, p < t.position ∨ t.stop ≤ p
    · have hc : cs[p]? = some cs[p] := List.getElem?_eq_getElem hp
      have hinside : ∀ t ∈ ts, t.stop ≤ p := by
        intro t ht
        have hlt : t.position < t.stop := h.position_lt_stop ht
        have hle : t.stop ≤ p + 1 := h.inside t ht
        rcases hout t ht with hbefore | hbehind <;> omega
      have hrest : IsTokenization cs p ts :=
        ⟨h.slices, h.lexemes, h.ordered, hinside, fun q hq => h.blanks q (by omega)⟩
      exact (ih p (by omega) (by omega) hrest).blank hc (h.blanks p (by omega) hout _ hc)
    · push Not at hout
      obtain ⟨t, ht, hbegin, hend⟩ := hout
      have hstop : t.stop = p + 1 := le_antisymm (h.inside t ht) hend
      obtain ⟨init, rfl⟩ := h.eq_append_of_stop ht hstop
      have hdrop : cs.drop t.position = t.text.toList ++ cs.drop t.stop := by
        rw [← h.slices t ht, Token.stop, ← List.drop_drop, List.take_append_drop]
      have hreached := (ih t.position (by omega) (by omega) h.init).token hdrop (h.lexemes t ht)
      rw [String.ofList_toList, String.length_toList] at hreached
      rwa [← hstop]

theorem tokens_eq_ok_iff {source : String} {ts : List Token} :
    tokens source = .ok ts ↔ IsTokenization source.toList source.length ts := by
  rw [tokens_eq_ok_iff_reaches]
  have hlength : source.length ≤ source.toList.length := String.length_toList.ge
  exact ⟨Reaches.isTokenization, IsTokenization.reaches source.length hlength⟩

/-- The characters before a fault have tokens of their own. -/
theorem StopsAt.tokens_before {source : String} {p : Nat} {c : Char} (h : StopsAt source p c) :
    ∃ ts, tokens (String.ofList (source.toList.take p)) = .ok ts := by
  obtain ⟨ts, hreached⟩ := h.reached
  refine ⟨ts, tokens_eq_ok_iff_reaches.mpr ?_⟩
  rw [String.toList_ofList, String.length_ofList, List.length_take,
    Nat.min_eq_left hreached.le_length]
  exact hreached.take p (le_refl p)

theorem tokenize_eq_ok_iff {source : String} {symbols : List Symbol} :
    tokenize source = .ok symbols ↔
      ∃ ts, tokens source = .ok ts ∧ symbols = ts.map .token ++ [.finish source.length] := by
  rw [tokenize]
  cases tokens source with
  | error fault => simp [Except.map]
  | ok ts => simp [Except.map, eq_comm]

theorem tokenize_eq_error_iff {source : String} {fault : Fault} :
    tokenize source = .error fault ↔ tokens source = .error fault := by
  rw [tokenize]
  cases tokens source <;> simp [Except.map]

/-- Scanning is lossless, takes the longest tokens and has one kind of fault. What it yields is the
tokenization of the text with the end of the text behind it. It fails if and only if going through
the text stops, with a fault at that place, and then the text before the place has tokens. A point
without a digit after it stops the way, and so does a numeric character that is no letter and no
digit. -/
theorem tokenize_spec (source : String) :
    (∀ symbols, tokenize source = .ok symbols ↔
      ∃ ts, IsTokenization source.toList source.length ts ∧
        symbols = ts.map .token ++ [.finish source.length]) ∧
    (∀ fault, tokenize source = .error fault ↔
      ∃ p c, StopsAt source p c ∧ fault = ⟨.unexpectedCharacter c, p⟩) ∧
    (∀ p c, StopsAt source p c →
      ∃ symbols, tokenize (String.ofList (source.toList.take p)) = .ok symbols) ∧
    (∀ rest : List Char, (∀ d ∈ rest.head?, Decimal.isDigit d = false) → ¬ StartsToken '.' rest) ∧
    (∀ (c : Char) (rest : List Char), Text.isAlphanumeric c = true → Text.isLetter c = false →
      Decimal.isDigit c = false → ¬ StartsToken c rest) := by
  refine ⟨fun symbols => ?_, fun fault => ?_, fun p c h => ?_, fun rest => not_startsToken_point,
    fun c rest => not_startsToken_of_isAlphanumeric⟩
  · rw [tokenize_eq_ok_iff]
    simp only [tokens_eq_ok_iff]
  · rw [tokenize_eq_error_iff, tokens_eq_error_iff]
  · obtain ⟨ts, hts⟩ := h.tokens_before
    exact ⟨_, tokenize_eq_ok_iff.mpr ⟨ts, hts, rfl⟩⟩

end Formula

end SurfaceStudio
