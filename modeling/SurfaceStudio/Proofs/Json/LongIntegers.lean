import SurfaceStudio.Proofs.Json.RoundTrip
/-!
# Integers that are too long to be read

The reader goes on behind a part of the text, or it ends there. Whatever it reads, it ends with a
fault only where more digits stand in a row than an integer may have. Each of the three readers that
call each other takes one step with this property, and so all readings have it.
-/

namespace SurfaceStudio.Json

/-- More digits in a row than an integer may have. -/
def HasLongRun (cs : List Char) : Prop :=
  ∃ digits, digits <:+: cs ∧ (∀ c ∈ digits, Decimal.isDigit c = true) ∧
    Settings.maxIntegerDigits < digits.length

/-- A reading goes on behind a part of the text, or it ends. It ends with a fault only at too many
digits in a row. -/
def Proceeds {α : Type} {cs : List Char} : Except Refusal (Read α cs) → Prop
  | .ok r => r.rest <:+ cs
  | .error (.malformed _ _) => True
  | .error (.fault f) => f = .integerTooLong ∧ HasLongRun cs

section

variable {α β : Type} {cs inner rest left : List Char} {x : Except Refusal (Read α inner)} {a : α}

/-- What ends the reading of a part ends the reading of the whole. -/
theorem Proceeds.error (h : Proceeds x) {r : Refusal} (hx : x = .error r) (hs : inner <:+ cs) :
    Proceeds (.error r : Except Refusal (Read β cs)) := by
  subst hx
  cases r with
  | malformed cause left => trivial
  | fault f =>
    obtain ⟨rfl, digits, hinfix, hdigits⟩ := h
    exact ⟨rfl, digits, hinfix.trans hs.isInfix, hdigits⟩

theorem Proceeds.rest_suffix (h : Proceeds x) {hshorter : rest.length < inner.length}
    (hx : x = .ok ⟨a, rest, hshorter⟩) : rest <:+ inner := by
  subst hx
  exact h

theorem suffix_of_skip {c : Char} (h : skip rest = c :: left) : left <:+ rest :=
  (List.suffix_cons c left).trans (h ▸ List.dropWhile_suffix isSpace)

theorem skip_suffix (cs : List Char) : skip cs <:+ cs := List.dropWhile_suffix isSpace

end

theorem stringBody_proceeds (start : Nat) (cs : List Char) : Proceeds (stringBody start cs) := by
  fun_induction stringBody start cs
  -- what is left of a part is left of the whole, which has some more characters in front
  case case2 => exact List.suffix_cons _ _
  case case5 hx ih | case7 hx ih | case13 hx ih =>
    exact ih.error hx (by simp [List.suffix_cons_iff])
  case case9 hx _ ih => exact ih.error hx (by simp [List.suffix_cons_iff])
  case case17 hx ih => exact ih.error hx (List.suffix_cons _ _)
  case case6 hx ih | case8 hx ih | case14 hx ih =>
    exact (ih.rest_suffix hx).trans (by simp [List.suffix_cons_iff])
  case case10 hx _ ih => exact (ih.rest_suffix hx).trans (by simp [List.suffix_cons_iff])
  case case18 hx ih => exact (ih.rest_suffix hx).trans (List.suffix_cons _ _)
  all_goals trivial

theorem wholeDigits_prefix (cs : List Char) :
    wholeDigits cs <+: cs ∧ ∀ c ∈ wholeDigits cs, Decimal.isDigit c = true := by
  unfold wholeDigits
  split
  · exact ⟨⟨_, rfl⟩, fun c hc => List.mem_singleton.mp hc ▸ rfl⟩
  · exact ⟨List.takeWhile_prefix _, fun c hc => by simpa using List.mem_takeWhile_imp hc⟩

/-- An integer ends the reading only if it has too many digits. -/
theorem hasLongRun_of_number? {cs : List Char} {f : Fault} {n : Nat}
    (h : number? cs = some (.error f, n)) : f = .integerTooLong ∧ HasLongRun cs := by
  unfold number? at h
  split at h
  next negative body hbody =>
  have hsuffix : body <:+ cs := by
    split at hbody <;> cases hbody
    · exact List.suffix_cons _ _
    · exact List.suffix_rfl
  obtain ⟨hfront, hdigits⟩ := wholeDigits_prefix body
  simp only at h
  split at h
  · cases h
  · split at h
    · obtain ⟨hdigits', -⟩ := Prod.mk.inj (Option.some.inj h)
      rw [integerOfDigits] at hdigits'
      split at hdigits'
      · next hlong =>
        cases hdigits'
        exact ⟨rfl, _, hfront.isInfix.trans hsuffix.isInfix, hdigits, hlong⟩
      · cases hdigits'
    · cases h

theorem hasLongRun_of_atom? {cs : List Char} {f : Fault} {n : Nat}
    (h : atom? cs = some (.error f, n)) : f = .integerTooLong ∧ HasLongRun cs := by
  unfold atom? at h
  split at h
  · cases h
  · exact hasLongRun_of_number? h

/-! ## One step of a reading -/

section Steps

variable {cs : List Char}

theorem value_step (hitems : ∀ inner : List Char, inner.length < cs.length → Proceeds (items inner))
    (hmembers : ∀ inner : List Char, inner.length < cs.length → Proceeds (members [] inner)) :
    Proceeds (value cs) := by
  unfold value
  split
  · next rest =>
    have hbody := stringBody_proceeds (rest.length + 1) rest
    have hs : rest <:+ '"' :: rest := List.suffix_cons _ _
    split
    · next hr => exact hbody.error hr hs
    · next hok => exact (hbody.rest_suffix hok).trans hs
  · next rest =>
    have hs : rest <:+ '\x7b' :: rest := List.suffix_cons _ _
    have hinner := hmembers (skip rest) (Nat.lt_succ_of_le (length_skip_le rest))
    split
    · next hclose => exact (suffix_of_skip hclose).trans hs
    · split
      · next hr => exact hinner.error hr ((skip_suffix rest).trans hs)
      · next hok => exact (hinner.rest_suffix hok).trans ((skip_suffix rest).trans hs)
  · next rest =>
    have hs : rest <:+ '[' :: rest := List.suffix_cons _ _
    have hinner := hitems (skip rest) (Nat.lt_succ_of_le (length_skip_le rest))
    split
    · next hclose => exact (suffix_of_skip hclose).trans hs
    · split
      · next hr => exact hinner.error hr ((skip_suffix rest).trans hs)
      · next hok => exact (hinner.rest_suffix hok).trans ((skip_suffix rest).trans hs)
  · split
    · next hatom => exact hasLongRun_of_atom? hatom
    · split
      · exact List.drop_suffix _ _
      · trivial
    · trivial

theorem items_step (hvalue : Proceeds (value cs))
    (hitems : ∀ inner : List Char, inner.length < cs.length → Proceeds (items inner)) :
    Proceeds (items cs) := by
  rw [items]
  split
  · next hr => exact hvalue.error hr List.suffix_rfl
  · next v rest hshorter hok =>
    have hrest := hvalue.rest_suffix hok
    split
    · next hclose => exact (suffix_of_skip hclose).trans hrest
    · next more hcomma =>
      have hmore := (skip_suffix more).trans (suffix_of_skip hcomma)
      have hinner := hitems (skip more) (hmore.length_le.trans_lt hshorter)
      split
      · next hr => exact hinner.error hr (hmore.trans hrest)
      · next hok => exact (hinner.rest_suffix hok).trans (hmore.trans hrest)
    · trivial

theorem members_step
    (hvalue : ∀ inner : List Char, inner.length < cs.length → Proceeds (value inner))
    (hmembers : ∀ before, ∀ inner : List Char, inner.length < cs.length →
      Proceeds (members before inner)) (before : List (String × Json)) :
    Proceeds (members before cs) := by
  unfold members
  split
  · next rest =>
    have hbody := stringBody_proceeds (rest.length + 1) rest
    have hs : rest <:+ '"' :: rest := List.suffix_cons _ _
    split
    · next hr => exact hbody.error hr hs
    · next key afterKey hkey hok =>
      have hafterKey := (hbody.rest_suffix hok).trans hs
      split
      · next afterColon hcolon =>
        have hcolon := (skip_suffix afterColon).trans (suffix_of_skip hcolon)
        have hcolonShort := hcolon.length_le.trans_lt (hkey.trans (Nat.lt_succ_self _))
        have hvalue := hvalue (skip afterColon) hcolonShort
        split
        · next hr => exact hvalue.error hr (hcolon.trans hafterKey)
        · next v afterValue hv hok =>
          have hafterValue := (hvalue.rest_suffix hok).trans (hcolon.trans hafterKey)
          split
          · next hclose => exact (suffix_of_skip hclose).trans hafterValue
          · next more hcomma =>
            have hmore := (skip_suffix more).trans (suffix_of_skip hcomma)
            have hinner := hmembers (insert (String.ofList key) v before) (skip more)
              (hmore.length_le.trans_lt (hv.trans hcolonShort))
            split
            · next hr => exact hinner.error hr (hmore.trans hafterValue)
            · next hok => exact (hinner.rest_suffix hok).trans (hmore.trans hafterValue)
          · trivial
      · trivial
  · trivial

end Steps

/-- By induction on the length of the text. -/
theorem all_proceed (n : Nat) : ∀ cs : List Char, cs.length < n →
    Proceeds (value cs) ∧ Proceeds (items cs) ∧ ∀ before, Proceeds (members before cs) := by
  induction n with
  | zero => nofun
  | succ n ih =>
    intro cs hcs
    have hshort : ∀ inner : List Char, inner.length < cs.length → inner.length < n :=
      fun inner h => by omega
    have hitems : ∀ inner : List Char, inner.length < cs.length → Proceeds (items inner) :=
      fun inner h => (ih inner (hshort inner h)).2.1
    have hvalue : Proceeds (value cs) :=
      value_step hitems fun inner h => (ih inner (hshort inner h)).2.2 []
    exact ⟨hvalue, items_step hvalue hitems,
      members_step (fun inner h => (ih inner (hshort inner h)).1)
        fun before inner h => (ih inner (hshort inner h)).2.2 before⟩

/-! ## Whole texts -/

/-- A document is read with a fault only at an integer of too many digits. -/
theorem document_eq_fault {cs : List Char} {f : Fault} (h : document cs = .error (.fault f)) :
    f = .integerTooLong ∧ HasLongRun cs := by
  rw [document] at h
  have hvalue := (all_proceed _ (skip cs) (Nat.lt_succ_self _)).1
  split at h
  · next hr =>
    cases h
    have hwhole : Proceeds (.error _ : Except Refusal (Read Json cs)) :=
      hvalue.error hr (skip_suffix cs)
    exact hwhole
  · split at h <;> cases h

/-- What ends the reading of the characters ends that of the text. -/
theorem document_of_locating {read : List Char → Except Refusal Json} {s : String} {f : Fault}
    (h : locating read s = .error (.fault f)) : read s.toList = .error (.fault f) := by
  unfold locating at h
  cases hread : read s.toList with
  | ok v =>
    rw [hread] at h
    cases h
  | error r =>
    rw [hread] at h
    cases r with
    | malformed cause left => cases h
    | fault f' =>
      cases h
      rfl

theorem ofDecoded_eq_fault {s : String} {f : Fault} (h : ofDecoded s = .error (.fault f)) :
    f = .integerTooLong ∧ HasLongRun s.toList :=
  document_eq_fault (document_of_locating h)

theorem ofText_eq_fault {s : String} {f : Fault} (h : ofText s = .error (.fault f)) :
    f = .integerTooLong ∧ HasLongRun s.toList := by
  have hunmarked := document_of_locating h
  unfold unmarkedDocument at hunmarked
  split at hunmarked
  · cases hunmarked
  · exact document_eq_fault hunmarked

/-- The text of an integer that cannot be written is not read either. -/
theorem document_toString {n : Int} (h : isWritableInteger n = false) :
    document (toString n).toList = .error (.fault .integerTooLong) := by
  obtain ⟨c, cs, htext, hmark, hbrace, hbracket, hatom⟩ :=
    atom?_toString n (show EndsNumber [] from nofun)
  obtain ⟨c', cs', htext', hstart⟩ := toString_start n
  obtain ⟨rfl, rfl⟩ := List.cons.inj (htext.symm.trans htext')
  rw [integerOfDigits_digits, h, List.append_nil] at hatom
  have hvalue : ∀ inner, inner = c :: cs → value inner = .error (.fault .integerTooLong) := by
    rintro _ rfl
    rw [value]
    · rw [hatom]
      rfl
    all_goals simp [hmark, hbrace, hbracket]
  rw [htext, document, hvalue _ (skip_cons hstart.1 cs)]

theorem ofDecoded_toString {n : Int} (h : isWritableInteger n = false) :
    ofDecoded (toString n) = .error (.fault .integerTooLong) := by
  rw [ofDecoded, locating, document_toString h]
  rfl

theorem ofText_toString {n : Int} (h : isWritableInteger n = false) :
    ofText (toString n) = .error (.fault .integerTooLong) := by
  obtain ⟨c, cs, htext, hstart⟩ := toString_start n
  have hunmarked : unmarkedDocument (toString n).toList = .error (.fault .integerTooLong) := by
    rw [← document_toString h, htext]
    exact unmarkedDocument_cons hstart cs
  rw [ofText, locating, hunmarked]
  rfl

end SurfaceStudio.Json
