import SurfaceStudio.Json.Reader
import SurfaceStudio.Json.Writer
import SurfaceStudio.Proofs.Decimal.FixedPlaces
/-!
# What the reader of JSON gives

One lemma for each way in which the reader goes on: over a character of a text, a digit, a word, an
item or a member. None of them mentions the proof of progress that the reader carries along.
-/

namespace SurfaceStudio

/-! ## Digits -/

namespace Decimal

/-- No number but zero starts with a zero. -/
theorem digits_eq_cons {n : Nat} (h : n ≠ 0) : ∃ c ds, digits n = c :: ds ∧ c ≠ '0' := by
  unfold digits
  induction n using Nat.strongRecOn with
  | _ n ih =>
    by_cases hsmall : n < 10
    · rw [Nat.toDigits_of_lt_base hsmall]
      refine ⟨_, _, rfl, ?_⟩
      interval_cases n <;> first | exact absurd rfl h | decide
    · rw [Nat.toDigits_of_base_le (by decide) (by omega)]
      obtain ⟨c, ds, hds, hc⟩ := ih (n / 10) (by omega) (by omega)
      exact ⟨c, ds ++ [(n % 10).digitChar], by rw [hds, List.cons_append], hc⟩

theorem toList_toString (n : Int) :
    (toString n).toList = if n < 0 then '-' :: digits n.natAbs else digits n.natAbs := by
  cases n with
  | ofNat m =>
    rw [if_neg (by simp)]
    exact String.toList_ofList
  | negSucc m =>
    rw [if_pos (Int.negSucc_lt_zero m)]
    show ("-" ++ String.ofList (Nat.toDigits 10 (m + 1))).toList = _
    rw [String.toList_append, String.toList_ofList, String.toList_ofList]
    rfl

theorem ne_of_isDigit {c e : Char} (h : isDigit c = true) (he : isDigit e = false) : c ≠ e := by
  rintro rfl
  exact absurd (h.symm.trans he) (by decide)

end Decimal

namespace Json

/-- A reader gives a value and leaves the rest of the text. -/
def Gives {α : Type} {cs : List Char} (x : Except Refusal (Read α cs)) (a : α)
    (rest : List Char) : Prop :=
  ∃ h, x = .ok ⟨a, rest, h⟩

variable {cs gap body more further rest left s : List Char} {v : Json} {vs : List Json}
  {before ms : List (String × Json)}

/-! ## White space -/

theorem skip_append (h : ∀ c ∈ gap, isSpace c = true) (rest : List Char) :
    skip (gap ++ rest) = skip rest :=
  List.dropWhile_append_of_pos h

theorem skip_cons {c : Char} (h : isSpace c = false) (rest : List Char) :
    skip (c :: rest) = c :: rest :=
  List.dropWhile_cons_of_neg (by simp [h])

/-! ## Strings -/

theorem hexValue?_digitChar : ∀ n < 16, hexValue? (Nat.digitChar n) = some n := by decide

/-- A number below 2^16 is read back from its four digits. -/
theorem hexUnit?_hexDigits {n : Nat} (h : n < 0x10000) :
    ∃ a b c d, Text.hexDigits 4 n = [a, b, c, d] ∧ hexUnit? a b c d = some n := by
  refine ⟨_, _, _, _, rfl, ?_⟩
  have hdigit : ∀ m, hexValue? (Nat.digitChar (m % 16)) = some (m % 16) :=
    fun m => hexValue?_digitChar _ (Nat.mod_lt _ (by decide))
  simp only [hexUnit?, hdigit, Option.pure_def, Option.bind_eq_bind, Option.bind_some,
    Option.some.injEq]
  omega

variable {start : Nat}

theorem stringBody_mark (start : Nat) (rest : List Char) :
    Gives (stringBody start ('"' :: rest)) [] rest := by
  rw [stringBody]
  exact ⟨_, rfl⟩

theorem stringBody_simple {c d : Char} (hc : c ≠ 'u') (hd : simpleEscape? c = some d)
    (h : Gives (stringBody start body) s rest) :
    Gives (stringBody start ('\\' :: c :: body)) (d :: s) rest := by
  obtain ⟨hshorter, h⟩ := h
  rw [stringBody]
  · simp only [hd, h]
    exact ⟨_, rfl⟩
  · rintro _ _ _ _ _ _ rfl
    exact absurd rfl hc
  · rintro rfl
    exact absurd rfl hc

/-- Four digits after a `u` are a character of their own unless they may begin a pair. -/
theorem stringBody_unit {a b c d : Char} {n : Nat} (hn : hexUnit? a b c d = some n)
    (hhigh : isHighSurrogate n = false) (h : Gives (stringBody start body) s rest) :
    Gives (stringBody start ('\\' :: 'u' :: a :: b :: c :: d :: body)) (unitChar n :: s) rest := by
  obtain ⟨hshorter, h⟩ := h
  cases body with
  | nil => exact absurd hshorter (by simp)
  | cons e body =>
    rw [stringBody]
    simp only [hn, hhigh, h]
    exact ⟨_, rfl⟩

theorem stringBody_plain {c : Char} (hmark : c ≠ '"') (hescape : c ≠ '\\')
    (hcontrol : 0x20 ≤ c.toNat) (h : Gives (stringBody start body) s rest) :
    Gives (stringBody start (c :: body)) (c :: s) rest := by
  obtain ⟨hshorter, h⟩ := h
  rw [stringBody]
  · simp only [h]
    rw [if_neg (by omega)]
    exact ⟨_, rfl⟩
  all_goals simp [hmark, hescape]

/-- Every character is read back from what it is written as. -/
theorem stringBody_escapedChar (c : Char) (h : Gives (stringBody start body) s rest) :
    Gives (stringBody start (escapedChar c ++ body)) (c :: s) rest := by
  by_cases hsimple : ∃ e, escapedChar c = ['\\', e] ∧ e ≠ 'u' ∧ simpleEscape? e = some c
  · obtain ⟨e, hc, he, hsimple⟩ := hsimple
    rw [hc]
    exact stringBody_simple he hsimple h
  -- What has no escape of one letter is escaped by its number or stands for itself.
  have hspecial : c ≠ '"' ∧ c ≠ '\\' ∧ c ≠ '\n' ∧ c ≠ '\r' ∧ c ≠ '\t' ∧ c ≠ '\x0c' ∧
      c ≠ '\x08' := by
    refine ⟨?_, ?_, ?_, ?_, ?_, ?_, ?_⟩ <;> rintro rfl <;>
      exact hsimple ⟨_, rfl, by decide, rfl⟩
  obtain ⟨hmark, hescape, h1, h2, h3, h4, h5⟩ := hspecial
  by_cases hcontrol : c.toNat < 0x20
  · obtain ⟨x, y, z, w, hdigits, hunit⟩ := hexUnit?_hexDigits (show c.toNat < 0x10000 by omega)
    have hhigh : isHighSurrogate c.toNat = false := by simp [isHighSurrogate]; omega
    have hlow : isLowSurrogate c.toNat = false := by simp [isLowSurrogate]; omega
    have hunitChar : unitChar c.toNat = c := by simp [unitChar, hhigh, hlow]
    have hread := stringBody_unit hunit hhigh h
    have hc : escapedChar c = ['\\', 'u', x, y, z, w] := by
      simp only [escapedChar, hmark, hescape, h1, h2, h3, h4, h5, hcontrol, hdigits, if_true,
        if_false]
    rw [hunitChar] at hread
    rw [hc]
    exact hread
  · have hc : escapedChar c = [c] := by
      simp only [escapedChar, hmark, hescape, h1, h2, h3, h4, h5, hcontrol, if_false]
    rw [hc]
    exact stringBody_plain hmark hescape (by omega) h

theorem stringBody_escaped (start : Nat) (s rest : List Char) :
    Gives (stringBody start (s.flatMap escapedChar ++ '"' :: rest)) s rest := by
  induction s with
  | nil => exact stringBody_mark start rest
  | cons c s ih =>
    rw [List.flatMap_cons, List.append_assoc]
    exact stringBody_escapedChar c ih

theorem value_string (h : Gives (stringBody (body.length + 1) body) s rest) :
    Gives (value ('"' :: body)) (.str (String.ofList s)) rest := by
  obtain ⟨hshorter, h⟩ := h
  rw [value]
  simp only [h]
  exact ⟨_, rfl⟩

/-! ## Words and integers -/

theorem value_atom {c : Char} (hmark : c ≠ '"') (hbrace : c ≠ '\x7b') (hbracket : c ≠ '[')
    (h : atom? (c :: cs ++ rest) = some (.ok v, (c :: cs).length)) :
    Gives (value (c :: cs ++ rest)) v rest := by
  have hdrop : (c :: cs ++ rest).drop (c :: cs).length = rest := List.drop_left
  rw [value]
  · rw [h]
    rw [List.length_cons] at hdrop
    simp only [List.length_cons, hdrop]
    split
    · exact ⟨_, rfl⟩
    · next hlen => simp at hlen
  all_goals simp [hmark, hbrace, hbracket]

/-- No word starts with a digit, nor with a sign and a digit. -/
theorem atom?_eq_number? {c : Char} (h : Decimal.isDigit c = true ∨
    c = '-' ∧ ∃ d ds, cs = d :: ds ∧ Decimal.isDigit d = true) :
    atom? (c :: cs) = number? (c :: cs) := by
  have hne : ∀ d, Decimal.isDigit d = true → ∀ e, Decimal.isDigit e = false → (e == d) = false :=
    fun d hd e he => beq_eq_false_iff_ne.mpr (Decimal.ne_of_isDigit hd he).symm
  have hword : (words.find? fun w => w.1.isPrefixOf (c :: cs)) = none := by
    rcases h with hc | ⟨rfl, d, ds, rfl, hd⟩
    · have hc := hne c hc
      simp [words, List.isPrefixOf, hc 'n' (by decide), hc 't' (by decide), hc 'f' (by decide),
        hc 'N' (by decide), hc 'I' (by decide), hc '-' (by decide)]
    · simp [words, List.isPrefixOf, hne d hd 'I' (by decide)]
  unfold atom?
  rw [hword]

/-- A rest that does not go on with a number. -/
def EndsNumber (rest : List Char) : Prop :=
  ∀ c ∈ rest.head?, Decimal.isDigit c = false ∧ c ≠ '.' ∧ c ≠ 'e' ∧ c ≠ 'E'

theorem wholeDigits_digits (n : Nat) (hrest : ∀ c ∈ rest.head?, Decimal.isDigit c = false) :
    wholeDigits (Decimal.digits n ++ rest) = Decimal.digits n := by
  rcases eq_or_ne n 0 with rfl | hn
  · rfl
  · obtain ⟨c, ds, hds, hc⟩ := Decimal.digits_eq_cons hn
    have htake := Decimal.takeWhile_append_of_all
      (fun c => Decimal.isDigit_of_mem_digits (n := n)) hrest
    rw [hds] at htake ⊢
    unfold wholeDigits
    split
    · next h => exact absurd (List.cons.inj h).1 hc
    · exact htake

theorem fractionDigits_of_endsNumber (h : EndsNumber rest) : fractionDigits rest = [] := by
  unfold fractionDigits
  split
  · exact absurd rfl (h _ rfl).2.1
  · rfl

theorem powerDigits_of_endsNumber (h : EndsNumber rest) : powerDigits rest = [] := by
  cases rest with
  | nil => rfl
  | cons c rest =>
    obtain ⟨-, -, hsmall, hbig⟩ := h c rfl
    simp [powerDigits, hsmall, hbig]

/-- The digits of an integer spell it, unless they are too many. -/
theorem integerOfDigits_digits (n : Int) :
    integerOfDigits (n < 0) (Decimal.digits n.natAbs) =
      if isWritableInteger n then .ok (.int n) else .error .integerTooLong := by
  have hsigned : (if n < 0 then -(n.natAbs : Int) else n.natAbs) = n := by
    split <;> omega
  simp only [integerOfDigits, isWritableInteger, Decimal.digitsValue_digits, decide_eq_true_eq,
    hsigned, ← Nat.not_le]
  split <;> simp_all

/-- Digits are taken as far as they go, with a sign in front and without. -/
theorem number?_digits (n : Nat) (hrest : EndsNumber rest) :
    number? (Decimal.digits n ++ rest) =
        some (integerOfDigits false (Decimal.digits n), (Decimal.digits n).length) ∧
      number? ('-' :: (Decimal.digits n ++ rest)) =
        some (integerOfDigits true (Decimal.digits n), (Decimal.digits n).length + 1) := by
  have hwhole : wholeDigits (Decimal.digits n ++ rest) = Decimal.digits n :=
    wholeDigits_digits n fun c hc => (hrest c hc).1
  have hdrop : (Decimal.digits n ++ rest).drop (Decimal.digits n).length = rest := List.drop_left
  have hnil : Decimal.digits n ≠ [] := Nat.toDigits_ne_nil
  have hempty : (Decimal.digits n).isEmpty = false := by simpa using hnil
  have hsign : ∀ more, Decimal.digits n ++ rest ≠ '-' :: more := by
    intro more h
    obtain ⟨c, ds, hds⟩ := List.exists_cons_of_ne_nil hnil
    have hc : Decimal.isDigit c = true := Decimal.isDigit_of_mem_digits (n := n) (by simp [hds])
    rw [hds] at h
    exact Decimal.ne_of_isDigit hc (by decide) (List.cons.inj h).1
  constructor
  · unfold number?
    split
    next negative body hbody =>
    split at hbody
    · next more h => exact absurd h (hsign more)
    · obtain ⟨rfl, rfl⟩ := Prod.mk.inj hbody
      simp only [hwhole, hempty, hdrop, fractionDigits_of_endsNumber hrest, List.length_nil,
        Nat.add_zero, powerDigits_of_endsNumber hrest, List.isEmpty_nil, Bool.and_self, if_true,
        Bool.false_eq_true, if_false, Nat.zero_add]
  · simp only [number?, hwhole, hempty, hdrop, fractionDigits_of_endsNumber hrest, List.length_nil,
      Nat.add_zero, powerDigits_of_endsNumber hrest, List.isEmpty_nil, Bool.and_self, if_true,
      Bool.false_eq_true, if_false, Nat.add_comm 1]

/-- The text of an integer is read to its end. -/
theorem atom?_toString (n : Int) (hrest : EndsNumber rest) :
    ∃ c cs, (toString n).toList = c :: cs ∧ c ≠ '"' ∧ c ≠ '\x7b' ∧ c ≠ '[' ∧
      atom? (c :: cs ++ rest) =
        some (integerOfDigits (n < 0) (Decimal.digits n.natAbs), (c :: cs).length) := by
  obtain ⟨hplus, hminus⟩ := number?_digits n.natAbs hrest
  obtain ⟨d, ds, hds⟩ := List.exists_cons_of_ne_nil
    (show Decimal.digits n.natAbs ≠ [] from Nat.toDigits_ne_nil)
  have hd : Decimal.isDigit d = true :=
    Decimal.isDigit_of_mem_digits (n := n.natAbs) (by simp [hds])
  rw [Decimal.toList_toString]
  rw [hds] at hplus hminus ⊢
  by_cases hn : n < 0
  · rw [if_pos hn, decide_eq_true hn]
    refine ⟨'-', d :: ds, rfl, by decide, by decide, by decide, ?_⟩
    exact (atom?_eq_number? (.inr ⟨rfl, d, ds ++ rest, rfl, hd⟩)).trans hminus
  · rw [if_neg hn, decide_eq_false hn]
    refine ⟨d, ds, rfl, Decimal.ne_of_isDigit hd (by decide), Decimal.ne_of_isDigit hd (by decide),
      Decimal.ne_of_isDigit hd (by decide), ?_⟩
    exact (atom?_eq_number? (.inl hd)).trans hplus

/-- An integer that can be written is read back from its text. -/
theorem value_toString {n : Int} (hn : isWritableInteger n = true) (hrest : EndsNumber rest) :
    Gives (value ((toString n).toList ++ rest)) (.int n) rest := by
  obtain ⟨c, cs, htext, hmark, hbrace, hbracket, hatom⟩ := atom?_toString n hrest
  rw [integerOfDigits_digits, if_pos hn] at hatom
  rw [htext]
  exact value_atom hmark hbrace hbracket hatom

/-! ## Lists -/

theorem value_list_nil (h : skip body = ']' :: rest) :
    Gives (value ('[' :: body)) (.list []) rest := by
  rw [value]
  split
  · next heq =>
    cases h.symm.trans heq
    exact ⟨_, rfl⟩
  · next hno => exact absurd h (hno rest)

theorem value_list (hopen : ∀ left, skip body ≠ ']' :: left)
    (h : Gives (items (skip body)) vs rest) : Gives (value ('[' :: body)) (.list vs) rest := by
  obtain ⟨hshorter, h⟩ := h
  rw [value]
  split
  · next left heq => exact absurd heq (hopen left)
  · simp only [h]
    exact ⟨_, rfl⟩

theorem items_last (hv : Gives (value cs) v body) (hclose : skip body = ']' :: rest) :
    Gives (items cs) [v] rest := by
  obtain ⟨hshorter, hv⟩ := hv
  rw [items]
  simp only [hv]
  split
  · next heq =>
    cases hclose.symm.trans heq
    exact ⟨_, rfl⟩
  · next heq => cases hclose.symm.trans heq
  · next hno _ => exact absurd hclose (hno rest)

theorem items_cons (hv : Gives (value cs) v body) (hcomma : skip body = ',' :: more)
    (h : Gives (items (skip more)) vs rest) : Gives (items cs) (v :: vs) rest := by
  obtain ⟨hshorter, hv⟩ := hv
  obtain ⟨hshorter', h⟩ := h
  rw [items]
  simp only [hv]
  split
  · next heq => cases hcomma.symm.trans heq
  · next heq =>
    cases hcomma.symm.trans heq
    simp only [h]
    exact ⟨_, rfl⟩
  · next hno => exact absurd hcomma (hno more)

/-! ## Objects -/

theorem value_object_nil (h : skip body = '\x7d' :: rest) :
    Gives (value ('\x7b' :: body)) (.object []) rest := by
  rw [value]
  split
  · next heq =>
    cases h.symm.trans heq
    exact ⟨_, rfl⟩
  · next hno => exact absurd h (hno rest)

theorem value_object (hopen : ∀ left, skip body ≠ '\x7d' :: left)
    (h : Gives (members [] (skip body)) ms rest) :
    Gives (value ('\x7b' :: body)) (.object ms) rest := by
  obtain ⟨hshorter, h⟩ := h
  rw [value]
  split
  · next left heq => exact absurd heq (hopen left)
  · simp only [h]
    exact ⟨_, rfl⟩

theorem members_last (before : List (String × Json))
    (hkey : Gives (stringBody (cs.length + 1) cs) s body)
    (hcolon : skip body = ':' :: more) (hv : Gives (value (skip more)) v left)
    (hclose : skip left = '\x7d' :: rest) :
    Gives (members before ('"' :: cs)) (insert (String.ofList s) v before) rest := by
  obtain ⟨hshorter, hkey⟩ := hkey
  obtain ⟨hshorter', hv⟩ := hv
  rw [members]
  simp only [hkey]
  split
  · next heq =>
    cases hcolon.symm.trans heq
    simp only [hv]
    split
    · next heq =>
      cases hclose.symm.trans heq
      exact ⟨_, rfl⟩
    · next heq => cases hclose.symm.trans heq
    · next hno _ => exact absurd hclose (hno rest)
  · next hno => exact absurd hcolon (hno more)

theorem members_cons (hkey : Gives (stringBody (cs.length + 1) cs) s body)
    (hcolon : skip body = ':' :: more) (hv : Gives (value (skip more)) v left)
    (hcomma : skip left = ',' :: further)
    (h : Gives (members (insert (String.ofList s) v before) (skip further)) ms rest) :
    Gives (members before ('"' :: cs)) ms rest := by
  obtain ⟨hshorter, hkey⟩ := hkey
  obtain ⟨hshorter', hv⟩ := hv
  obtain ⟨hshorter'', h⟩ := h
  rw [members]
  simp only [hkey]
  split
  · next heq =>
    cases hcolon.symm.trans heq
    simp only [hv]
    split
    · next heq => cases hcomma.symm.trans heq
    · next heq =>
      cases hcomma.symm.trans heq
      simp only [h]
      exact ⟨_, rfl⟩
    · next hno => exact absurd hcomma (hno further)
  · next hno => exact absurd hcolon (hno more)

/-- A new key goes to the end. -/
theorem insert_of_notMem {k : String} (v : Json) (h : k ∉ before.map Prod.fst) :
    insert k v before = before ++ [(k, v)] := by
  induction before with
  | nil => rfl
  | cons m before ih =>
    rw [List.map_cons, List.mem_cons, not_or] at h
    rw [insert, if_neg (Ne.symm h.1), ih h.2, List.cons_append]

end Json

end SurfaceStudio
