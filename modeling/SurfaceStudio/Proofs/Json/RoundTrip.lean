import SurfaceStudio.Proofs.Json.Reading
/-!
# Reading what was written

A value without doubles, in whose objects no key comes twice, is read back from the text that it is
written as, in every layout.
-/

namespace SurfaceStudio.Json

variable {gap body rest : List Char} {v : Json} {before ms : List (String × Json)}

/-! ## Layouts -/

/-- The white space behind an opening bracket. -/
def Layout.behindOpening : Layout → List Char
  | .compact => []
  | .indented depth => '\n' :: List.replicate (2 * (depth + 1)) ' '

/-- The white space behind a comma. -/
def Layout.behindComma : Layout → List Char
  | .compact => [' ']
  | .indented depth => '\n' :: List.replicate (2 * (depth + 1)) ' '

/-- The white space in front of a closing bracket. -/
def Layout.beforeClosing : Layout → List Char
  | .compact => []
  | .indented depth => '\n' :: List.replicate (2 * depth) ' '

theorem isSpace_of_mem_lineBreak {n : Nat} {c : Char} (h : c ∈ '\n' :: List.replicate n ' ') :
    isSpace c = true := by
  rcases List.mem_cons.mp h with rfl | h
  · rfl
  · rw [List.eq_of_mem_replicate h]
    rfl

theorem toList_lineBreak (depth : Nat) :
    (lineBreak depth).toList = '\n' :: List.replicate (2 * depth) ' ' := by
  have hpush : ∀ n, ("".pushn ' ' n).toList = List.replicate n ' ' := by
    intro n
    induction n with
    | zero => rfl
    | succ n ih =>
      rw [String.pushn_eq_repeat_push, Nat.repeat, String.toList_push,
        ← String.pushn_eq_repeat_push, ih, List.replicate_succ']
  rw [lineBreak, String.toList_append, hpush]
  rfl

namespace Layout

variable (l : Layout)

/-- Texts with a comma between two of them. -/
def joined (texts : List String) : List Char :=
  (',' :: l.behindComma).intercalate (texts.map String.toList)

theorem isSpace_behindOpening : ∀ c ∈ l.behindOpening, Json.isSpace c = true := by
  cases l with
  | compact => nofun
  | indented depth => exact fun c => isSpace_of_mem_lineBreak

theorem isSpace_behindComma : ∀ c ∈ l.behindComma, Json.isSpace c = true := by
  cases l with
  | compact => exact fun c h => List.mem_singleton.mp h ▸ rfl
  | indented depth => exact fun c => isSpace_of_mem_lineBreak

theorem isSpace_beforeClosing : ∀ c ∈ l.beforeClosing, Json.isSpace c = true := by
  cases l with
  | compact => nofun
  | indented depth => exact fun c => isSpace_of_mem_lineBreak

theorem joined_singleton (t : String) : l.joined [t] = t.toList := by
  simp only [joined, List.map_cons, List.map_nil, List.intercalate_singleton]

theorem joined_cons_cons (t u : String) (texts : List String) :
    l.joined (t :: u :: texts) = t.toList ++ ',' :: (l.behindComma ++ l.joined (u :: texts)) := by
  simp only [joined, List.map_cons, List.intercalate_cons_cons, List.append_assoc,
    List.cons_append]

theorem bracket_nil (opening closing : String) :
    l.bracket opening closing [] = opening ++ closing := by
  cases l <;> rfl

theorem toList_bracket (opening closing t : String) (texts : List String) :
    (l.bracket opening closing (t :: texts)).toList = opening.toList ++ (l.behindOpening ++
      (l.joined (t :: texts) ++ (l.beforeClosing ++ closing.toList))) := by
  cases l with
  | compact =>
    simp only [bracket, String.toList_append, String.toList_intercalate, List.append_assoc]
    rfl
  | indented depth =>
    simp only [bracket, String.toList_append, String.toList_intercalate, toList_lineBreak,
      List.append_assoc]
    rfl

/-- What is in brackets starts with the opening one. -/
theorem bracket_start (opening closing : String) (texts : List String) :
    ∃ cs, (l.bracket opening closing texts).toList = opening.toList ++ cs := by
  cases texts with
  | nil =>
    refine ⟨closing.toList, ?_⟩
    rw [l.bracket_nil, String.toList_append]
  | cons t texts => exact ⟨_, l.toList_bracket opening closing t texts⟩

/-- Texts with commas between them start where the first of them does. -/
theorem skip_joined (hgap : ∀ c ∈ gap, Json.isSpace c = true) {t : String} {c : Char}
    {cs : List Char} (ht : t.toList = c :: cs) (hc : Json.isSpace c = false)
    (texts : List String) (rest : List Char) :
    skip (gap ++ (l.joined (t :: texts) ++ rest)) = l.joined (t :: texts) ++ rest ∧
      ∃ more, l.joined (t :: texts) ++ rest = c :: more := by
  have hstart : ∃ more, l.joined (t :: texts) ++ rest = c :: more := by
    cases texts with
    | nil => exact ⟨cs ++ rest, by rw [l.joined_singleton, ht, List.cons_append]⟩
    | cons u texts => exact ⟨_, by rw [l.joined_cons_cons, ht, List.cons_append, List.cons_append]⟩
  refine ⟨?_, hstart⟩
  obtain ⟨more, hmore⟩ := hstart
  rw [skip_append hgap, hmore]
  exact skip_cons hc more

theorem skip_beforeClosing {c : Char} (hc : Json.isSpace c = false) (rest : List Char) :
    skip (l.beforeClosing ++ c :: rest) = c :: rest := by
  rw [skip_append l.isSpace_beforeClosing]
  exact skip_cons hc rest

end Layout

/-! ## The start and the end of a value -/

/-- A character of the basic Latin script that is no white space and closes no list. -/
def StartsValue (c : Char) : Prop := isSpace c = false ∧ c ≠ ']' ∧ c.toNat < 0x80

instance (c : Char) : Decidable (StartsValue c) := inferInstanceAs (Decidable (_ ∧ _))

theorem startsValue_of_isDigit {c : Char} (h : Decimal.isDigit c = true) : StartsValue c := by
  have hne : ∀ e, Decimal.isDigit e = false → c ≠ e := fun e => Decimal.ne_of_isDigit h
  have hbound : c.toNat ≤ 57 := (by simpa [Decimal.isDigit] using h : '0' ≤ c ∧ c ≤ '9').2
  refine ⟨?_, hne _ (by decide), by omega⟩
  simp [isSpace, hne ' ' (by decide), hne '\t' (by decide), hne '\n' (by decide),
    hne '\r' (by decide)]

theorem endsNumber_cons {c : Char} (h : Decimal.isDigit c = false ∧ c ≠ '.' ∧ c ≠ 'e' ∧ c ≠ 'E')
    (rest : List Char) : EndsNumber (c :: rest) := by
  intro d hd
  obtain rfl : c = d := by simpa using hd
  exact h

/-- White space ends a number. -/
theorem endsNumber_append (h : ∀ c ∈ gap, isSpace c = true) (hrest : EndsNumber rest) :
    EndsNumber (gap ++ rest) := by
  cases gap with
  | nil => exact hrest
  | cons c gap =>
    have hspace := h c List.mem_cons_self
    have hne : ∀ e, isSpace e = false → c ≠ e := by
      rintro e he rfl
      exact absurd (hspace.symm.trans he) (by decide)
    have hdigit : Decimal.isDigit c = false := by
      by_contra hdigit
      have hstart := startsValue_of_isDigit (c := c) (by simpa using hdigit)
      exact absurd (hspace.symm.trans hstart.1) (by decide)
    exact endsNumber_cons ⟨hdigit, hne _ (by decide), hne _ (by decide), hne _ (by decide)⟩ _

mutual

/-- A value without doubles, with integers that can be written, and with every key once in each
object. -/
def IsPlain : Json → Prop
  | .int n => isWritableInteger n = true
  | .float _ => False
  | .list items => AllPlain items
  | .object members => (members.map Prod.fst).Nodup ∧ MembersPlain members
  | _ => True

/-- The items of a list of plain values. -/
def AllPlain : List Json → Prop
  | [] => True
  | v :: rest => v.IsPlain ∧ AllPlain rest

/-- The members of an object of plain values. -/
def MembersPlain : List (String × Json) → Prop
  | [] => True
  | (_, v) :: rest => v.IsPlain ∧ MembersPlain rest

end

theorem toString_start (n : Int) : ∃ c cs, (toString n).toList = c :: cs ∧ StartsValue c := by
  rw [Decimal.toList_toString]
  split
  · exact ⟨'-', _, rfl, by decide⟩
  · obtain ⟨c, ds, hds⟩ := List.exists_cons_of_ne_nil
      (show Decimal.digits n.natAbs ≠ [] from Nat.toDigits_ne_nil)
    have hc : Decimal.isDigit c = true :=
      Decimal.isDigit_of_mem_digits (n := n.natAbs) (by simp [hds])
    exact ⟨c, ds, hds, startsValue_of_isDigit hc⟩

theorem write_start (h : v.IsPlain) (l : Layout) :
    ∃ c cs, (v.write l).toList = c :: cs ∧ StartsValue c := by
  cases v with
  | null => exact ⟨'n', ['u', 'l', 'l'], by simp [write], by decide⟩
  | bool b => cases b with
    | true => exact ⟨'t', ['r', 'u', 'e'], by simp [write], by decide⟩
    | false => exact ⟨'f', ['a', 'l', 's', 'e'], by simp [write], by decide⟩
  | int n => exact toString_start n
  | float x => exact h.elim
  | str s =>
    rw [write, escaped, String.toList_ofList]
    exact ⟨'"', _, rfl, by decide⟩
  | list items =>
    obtain ⟨cs, hcs⟩ := l.bracket_start "[" "]" (writeAll l.deeper items)
    rw [write, hcs]
    exact ⟨'[', cs, rfl, by decide⟩
  | object members =>
    obtain ⟨cs, hcs⟩ := l.bracket_start "\x7b" "\x7d" (writeMembers l.deeper members)
    rw [write, hcs]
    exact ⟨'\x7b', cs, rfl, by decide⟩

/-- No white space stands in front of a value. -/
theorem skip_write (h : v.IsPlain) (l : Layout) (rest : List Char) :
    skip ((v.write l).toList ++ rest) = (v.write l).toList ++ rest := by
  obtain ⟨c, cs, htext, hc⟩ := write_start h l
  rw [htext, List.cons_append, skip_cons hc.1]

/-! ## Members -/

theorem toList_escaped_append (t : String) (rest : List Char) :
    (escaped t).toList ++ rest = '"' :: (t.toList.flatMap escapedChar ++ '"' :: rest) := by
  rw [escaped, String.toList_ofList, List.cons_append, List.cons_append, List.append_assoc,
    List.singleton_append]

theorem toList_member_append (k text : String) (rest : List Char) :
    (escaped k ++ ": " ++ text).toList ++ rest =
      '"' :: (k.toList.flatMap escapedChar ++ '"' :: ':' :: ' ' :: (text.toList ++ rest)) := by
  rw [String.toList_append, String.toList_append, List.append_assoc, List.append_assoc,
    toList_escaped_append]
  rfl

theorem member_start (k text : String) : ∃ cs, (escaped k ++ ": " ++ text).toList = '"' :: cs :=
  ⟨_, (List.append_nil _).symm.trans (toList_member_append k text [])⟩

theorem value_behind_colon {l : Layout} (hv : v.IsPlain)
    (h : Gives (value ((v.write l).toList ++ body)) v rest) :
    Gives (value (skip (' ' :: ((v.write l).toList ++ body)))) v rest := by
  have hskip : skip (' ' :: ((v.write l).toList ++ body)) = (v.write l).toList ++ body :=
    skip_write hv l body
  rwa [hskip]

theorem notMem_of_nodup_append {k : String} (h : ((before ++ (k, v) :: ms).map Prod.fst).Nodup) :
    k ∉ before.map Prod.fst := by
  rw [List.map_append, List.map_cons] at h
  exact fun hk => (List.nodup_append.mp h).2.2 k hk k List.mem_cons_self rfl

/-! ## Values -/

-- By recursion on the value. What comes behind it is arbitrary, as long as it does not go on with a
-- number: it is the rest of the list or of the object that the value stands in.
mutual

/-- A plain value is read back from its text in any layout. -/
theorem value_write (v : Json) (h : v.IsPlain) (l : Layout) {rest : List Char}
    (hrest : EndsNumber rest) : Gives (value ((v.write l).toList ++ rest)) v rest := by
  match v with
  | .null =>
    have htext : (write l .null).toList = ['n', 'u', 'l', 'l'] := by simp [write]
    rw [htext]
    exact value_atom (by decide) (by decide) (by decide) (by simp [atom?, words])
  | .bool true =>
    have htext : (write l (.bool true)).toList = ['t', 'r', 'u', 'e'] := by simp [write]
    rw [htext]
    exact value_atom (by decide) (by decide) (by decide) (by simp [atom?, words])
  | .bool false =>
    have htext : (write l (.bool false)).toList = ['f', 'a', 'l', 's', 'e'] := by simp [write]
    rw [htext]
    exact value_atom (by decide) (by decide) (by decide) (by simp [atom?, words])
  | .int n => exact value_toString h hrest
  | .float x => exact h.elim
  | .str t =>
    rw [write, toList_escaped_append]
    have hread := value_string (stringBody_escaped _ t.toList rest)
    rwa [String.ofList_toList] at hread
  | .list [] =>
    have htext : (write l (.list [])).toList = ['[', ']'] := by
      simp [write, writeAll, l.bracket_nil]
    rw [htext]
    exact value_list_nil (skip_cons (by decide) rest)
  | .list (v :: vs) =>
    have hitems := items_write (v :: vs) (List.cons_ne_nil v vs) h l rest
    obtain ⟨c, cs, hc, hspace, hclose, -⟩ := write_start h.1 l.deeper
    obtain ⟨hskip, more, hmore⟩ := l.skip_joined l.isSpace_behindOpening hc hspace
      (writeAll l.deeper vs) (l.beforeClosing ++ ']' :: rest)
    have htext : (write l (.list (v :: vs))).toList ++ rest = '[' :: (l.behindOpening ++
        (l.joined (writeAll l.deeper (v :: vs)) ++ (l.beforeClosing ++ ']' :: rest))) := by
      rw [write, writeAll, l.toList_bracket "[" "]"]
      simp
    rw [htext, writeAll]
    refine value_list ?_ ?_
    · intro left hleft
      rw [hskip, hmore] at hleft
      exact hclose (List.cons.inj hleft).1
    · rw [hskip]
      exact hitems
  | .object [] =>
    have htext : (write l (.object [])).toList = ['\x7b', '\x7d'] := by
      simp [write, writeMembers, l.bracket_nil]
    rw [htext]
    exact value_object_nil (skip_cons (by decide) rest)
  | .object ((k, v) :: ms) =>
    have hmembers := members_write ((k, v) :: ms) (List.cons_ne_nil _ ms) h.2 [] h.1 l rest
    obtain ⟨cs, hk⟩ := member_start k (v.write l.deeper)
    obtain ⟨hskip, more, hmore⟩ := l.skip_joined l.isSpace_behindOpening hk (by decide)
      (writeMembers l.deeper ms) (l.beforeClosing ++ '\x7d' :: rest)
    have htext : (write l (.object ((k, v) :: ms))).toList ++ rest = '\x7b' :: (l.behindOpening ++
        (l.joined (writeMembers l.deeper ((k, v) :: ms)) ++
          (l.beforeClosing ++ '\x7d' :: rest))) := by
      rw [write, writeMembers, l.toList_bracket "\x7b" "\x7d"]
      simp
    rw [htext, writeMembers]
    refine value_object ?_ ?_
    · intro left hleft
      rw [hskip, hmore] at hleft
      exact absurd (List.cons.inj hleft).1 (by decide)
    · rw [hskip]
      exact hmembers
termination_by sizeOf v

/-- The items of a list are read back from their texts with commas between them. -/
theorem items_write (vs : List Json) (hne : vs ≠ []) (h : AllPlain vs) (l : Layout)
    (rest : List Char) :
    Gives (items (l.joined (writeAll l.deeper vs) ++ (l.beforeClosing ++ ']' :: rest))) vs
      rest := by
  match vs with
  | [] => exact absurd rfl hne
  | [v] =>
    have hends := endsNumber_append l.isSpace_beforeClosing
      (endsNumber_cons (c := ']') (by decide) rest)
    rw [writeAll, writeAll, l.joined_singleton]
    exact items_last (value_write v h.1 l.deeper hends) (l.skip_beforeClosing (by decide) rest)
  | v :: w :: ws =>
    obtain ⟨hv, hw, hws⟩ := h
    obtain ⟨c, cs, hc, hspace, -⟩ := write_start hw l.deeper
    have hskip := (l.skip_joined l.isSpace_behindComma hc hspace (writeAll l.deeper ws)
      (l.beforeClosing ++ ']' :: rest)).1
    have hothers := items_write (w :: ws) (List.cons_ne_nil w ws) ⟨hw, hws⟩ l rest
    rw [writeAll] at hothers
    rw [writeAll, writeAll, l.joined_cons_cons, List.append_assoc, List.cons_append,
      List.append_assoc]
    refine items_cons (value_write v hv l.deeper (endsNumber_cons (by decide) _))
      (skip_cons (by decide) _) ?_
    rw [hskip]
    exact hothers
termination_by sizeOf vs

/-- The members of an object are read back from their texts with commas between them, onto members
with other keys. -/
theorem members_write (ms : List (String × Json)) (hne : ms ≠ []) (h : MembersPlain ms)
    (before : List (String × Json)) (hkeys : ((before ++ ms).map Prod.fst).Nodup) (l : Layout)
    (rest : List Char) :
    Gives (members before
      (l.joined (writeMembers l.deeper ms) ++ (l.beforeClosing ++ '\x7d' :: rest)))
      (before ++ ms) rest := by
  match ms with
  | [] => exact absurd rfl hne
  | [(k, v)] =>
    have hnew : k ∉ before.map Prod.fst := notMem_of_nodup_append hkeys
    have hends := endsNumber_append l.isSpace_beforeClosing
      (endsNumber_cons (c := '\x7d') (by decide) rest)
    have hread := members_last before (stringBody_escaped _ k.toList _)
      (skip_cons (by decide) _) (value_behind_colon h.1 (value_write v h.1 l.deeper hends))
      (l.skip_beforeClosing (by decide) rest)
    rw [String.ofList_toList, insert_of_notMem v hnew] at hread
    rw [writeMembers, writeMembers, l.joined_singleton, toList_member_append]
    exact hread
  | (k, v) :: (k', v') :: ms =>
    obtain ⟨hv, hothers⟩ := h
    have hnew : k ∉ before.map Prod.fst := notMem_of_nodup_append hkeys
    obtain ⟨cs, hk⟩ := member_start k' (v'.write l.deeper)
    have hskip := (l.skip_joined l.isSpace_behindComma hk (by decide) (writeMembers l.deeper ms)
      (l.beforeClosing ++ '\x7d' :: rest)).1
    have hfurther := members_write ((k', v') :: ms) (List.cons_ne_nil _ ms) hothers
      (before ++ [(k, v)]) (by rwa [List.append_assoc]) l rest
    rw [writeMembers, List.append_assoc] at hfurther
    rw [writeMembers, writeMembers, l.joined_cons_cons, List.append_assoc, toList_member_append,
      List.cons_append, List.append_assoc]
    refine members_cons (stringBody_escaped _ k.toList _) (skip_cons (by decide) _)
      (value_behind_colon hv (value_write v hv l.deeper (endsNumber_cons (by decide) _)))
      (skip_cons (by decide) _) ?_
    rw [String.ofList_toList, insert_of_notMem v hnew, hskip]
    exact hfurther
termination_by sizeOf ms

end

/-! ## Documents -/

/-- What starts a value is no byte order mark. -/
theorem unmarkedDocument_cons {c : Char} (h : StartsValue c) (cs : List Char) :
    unmarkedDocument (c :: cs) = document (c :: cs) := by
  obtain ⟨-, -, hlatin⟩ := h
  unfold unmarkedDocument
  split
  · next heq =>
    rw [(List.cons.inj heq).1] at hlatin
    exact absurd hlatin (by decide)
  · rfl

end SurfaceStudio.Json
