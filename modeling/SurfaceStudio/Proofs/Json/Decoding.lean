import SurfaceStudio.Proofs.Json.Encoding
/-!
# Which bytes have a text

Bytes have a text exactly if they spell code points in the encoding that they are taken for, behind
its byte order mark if there is one. Halves of surrogate pairs count as code points here, so every
even number of bytes spells something in pairs of bytes; in UTF-8 and in fours most bytes do not.
-/

namespace SurfaceStudio.Json

/-! ## Code points in bytes -/

/-- The bytes of a code point in UTF-8. -/
def spelled8 (n : Nat) : List UInt8 :=
  if n < 0x80 then [.ofNat n]
  else if n < 0x800 then [.ofNat (n / 64 + 0xC0), .ofNat (n % 64 + 0x80)]
  else if n < 0x10000 then
    [.ofNat (n / 4096 + 0xE0), .ofNat (n / 64 % 64 + 0x80), .ofNat (n % 64 + 0x80)]
  else
    [.ofNat (n / 262144 + 0xF0), .ofNat (n / 4096 % 64 + 0x80), .ofNat (n / 64 % 64 + 0x80),
      .ofNat (n % 64 + 0x80)]

/-- The two bytes of a number below 0x10000. -/
def pair (bigEndian : Bool) (n : Nat) : List UInt8 :=
  if bigEndian then [.ofNat (n / 256), .ofNat (n % 256)] else [.ofNat (n % 256), .ofNat (n / 256)]

/-- The bytes of a code point in UTF-16: those of one unit, or of the two units of a pair. -/
def spelled16 (bigEndian : Bool) (n : Nat) : List UInt8 :=
  if n < 0x10000 then pair bigEndian n
  else pair bigEndian (0xD800 + (n - 0x10000) / 0x400) ++
    pair bigEndian (0xDC00 + (n - 0x10000) % 0x400)

/-- The bytes of a code point in UTF-32. -/
def spelled32 (bigEndian : Bool) (n : Nat) : List UInt8 :=
  if bigEndian then pair bigEndian (n / 0x10000) ++ pair bigEndian (n % 0x10000)
  else pair bigEndian (n % 0x10000) ++ pair bigEndian (n / 0x10000)

/-- The bytes of a code point in an encoding. -/
def Encoding.spelled : Encoding → Nat → List UInt8
  | .utf8 | .utf8Marked => spelled8
  | .utf16 big | .utf16Marked big => spelled16 big
  | .utf32 big | .utf32Marked big => spelled32 big

/-- The byte order mark of an encoding, if it has one. -/
def Encoding.mark : Encoding → List UInt8
  | .utf8Marked => [0xEF, 0xBB, 0xBF]
  | .utf16Marked true => [0xFE, 0xFF]
  | .utf16Marked false => [0xFF, 0xFE]
  | .utf32Marked true => [0x00, 0x00, 0xFE, 0xFF]
  | .utf32Marked false => [0xFF, 0xFE, 0x00, 0x00]
  | .utf8 | .utf16 _ | .utf32 _ => []

/-- Bytes that spell code points. -/
def Spells (spelled : Nat → List UInt8) (bs : List UInt8) : Prop :=
  ∃ codes : List Nat, (∀ n ∈ codes, n < 0x110000) ∧ bs = codes.flatMap spelled

/-- Bytes that spell code points in the encoding they are taken for, behind its mark. -/
def Decodable (bs : List UInt8) : Prop :=
  ∃ rest, bs = (Encoding.detect bs).mark ++ rest ∧ Spells (Encoding.detect bs).spelled rest

theorem spells_nil (spelled : Nat → List UInt8) : Spells spelled [] := ⟨[], nofun, rfl⟩

theorem Spells.cons {spelled : Nat → List UInt8} {bs : List UInt8} {n : Nat} (hn : n < 0x110000)
    (h : Spells spelled bs) : Spells spelled (spelled n ++ bs) := by
  obtain ⟨codes, hcodes, rfl⟩ := h
  exact ⟨n :: codes, List.forall_mem_cons.mpr ⟨hn, hcodes⟩, rfl⟩

/-! ## UTF-8 -/

theorem unitChar_of_half {n : Nat} (h : 0xD800 ≤ n ∧ n < 0xE000) : unitChar n = '\uFFFD' := by
  have hhalf : isHighSurrogate n = true ∨ isLowSurrogate n = true := by
    simp only [isHighSurrogate, isLowSurrogate, Bool.and_eq_true, decide_eq_true_eq]
    omega
  rw [unitChar, if_pos (by simpa using hhalf)]

theorem unitChar_of_isValidChar {n : Nat} (h : n.isValidChar) : unitChar n = Char.ofNat n := by
  have hwhole : ¬ (isHighSurrogate n = true ∨ isLowSurrogate n = true) := by
    simp only [isHighSurrogate, isLowSurrogate, Bool.and_eq_true, decide_eq_true_eq]
    rcases h with h | h <;> omega
  rw [unitChar, if_neg (by simpa using hwhole)]

/-- A character is spelt as its code point. -/
theorem spelled8_toNat (c : Char) : spelled8 c.toNat = String.utf8EncodeChar c := by
  have hvalid : c.toNat.isValidChar := c.valid
  have hval : c.val.toNat = c.toNat := rfl
  simp only [spelled8, String.utf8EncodeChar, hval]
  split_ifs
  any_goals omega
  · rfl
  · rw [show c.toNat / 64 % 32 = c.toNat / 64 by omega]
  · rw [show c.toNat / 4096 % 16 = c.toNat / 4096 by omega]
  · rw [show c.toNat / 262144 % 8 = c.toNat / 262144 by omega]

/-- Half of a pair is replaced, and every other code point keeps its bytes. -/
theorem withoutHalves_spelled8 {n : Nat} (hn : n < 0x110000) (bs : List UInt8) :
    withoutHalves (spelled8 n ++ bs) =
      String.utf8EncodeChar (unitChar n) ++ withoutHalves bs := by
  by_cases hhalf : 0xD800 ≤ n ∧ n < 0xE000
  · have hform : spelled8 n = [0xED, .ofNat (n / 64 % 64 + 128), .ofNat (n % 64 + 128)] := by
      have hfirst : n / 4096 + 224 = 0xED := by omega
      rw [spelled8, if_neg (by omega), if_neg (by omega), if_pos (by omega), hfirst]
      rfl
    have hsecond : decide (0xA0 ≤ UInt8.ofNat (n / 64 % 64 + 128)) = true ∧
        decide (UInt8.ofNat (n / 64 % 64 + 128) ≤ 0xBF) = true := by
      simp only [decide_eq_true_eq, UInt8.le_iff_toNat_le, UInt8.toNat_ofNat', UInt8.reduceToNat]
      omega
    have hthird : decide (0x80 ≤ UInt8.ofNat (n % 64 + 128)) = true ∧
        decide (UInt8.ofNat (n % 64 + 128) ≤ 0xBF) = true := by
      simp only [decide_eq_true_eq, UInt8.le_iff_toNat_le, UInt8.toNat_ofNat', UInt8.reduceToNat]
      omega
    rw [hform, unitChar_of_half hhalf]
    simp only [List.cons_append, List.nil_append]
    rw [withoutHalves]
    simp only [hsecond.1, hsecond.2, hthird.1, hthird.2, Bool.and_self, if_true]
    rfl
  · have hvalid : n.isValidChar := by
      rcases Nat.lt_or_ge n 0xD800 with h | h
      · exact .inl h
      · exact .inr ⟨by omega, hn⟩
    have htoNat : (Char.ofNat n).toNat = n := by
      rw [Char.ofNat, dif_pos hvalid]
      rfl
    have hform : spelled8 n = String.utf8EncodeChar (Char.ofNat n) := by
      rw [← spelled8_toNat, htoNat]
    rw [hform, unitChar_of_isValidChar hvalid, withoutHalves_utf8EncodeChar]

/-- Three bytes that are replaced spell half of a pair. -/
theorem exists_half {b c : UInt8}
    (h : (0xA0 ≤ b && b ≤ 0xBF && 0x80 ≤ c && c ≤ 0xBF) = true) :
    ∃ n < 0x110000, spelled8 n = [0xED, b, c] := by
  simp only [Bool.and_eq_true, decide_eq_true_eq, UInt8.le_iff_toNat_le, UInt8.reduceToNat] at h
  obtain ⟨n, hn⟩ : ∃ n, n = 0xD000 + (b.toNat - 0x80) * 64 + (c.toNat - 0x80) := ⟨_, rfl⟩
  refine ⟨n, by omega, ?_⟩
  have hfirst : n / 4096 + 0xE0 = 0xED := by omega
  have hsecond : n / 64 % 64 + 0x80 = b.toNat := by omega
  have hthird : n % 64 + 0x80 = c.toNat := by omega
  rw [spelled8, if_neg (by omega), if_neg (by omega), if_pos (by omega), hfirst, hsecond, hthird,
    UInt8.ofNat_toNat, UInt8.ofNat_toNat]
  rfl

/-- How bytes begin: with a half that is replaced, or with a byte that stays. -/
inductive Begins : List UInt8 → Prop
  | none : Begins []
  | half {n : Nat} {bs : List UInt8} : n < 0x110000 →
      withoutHalves (spelled8 n ++ bs) = 0xEF :: ([0xBF, 0xBD] ++ withoutHalves bs) →
      Begins (spelled8 n ++ bs)
  | byte {b : UInt8} {bs : List UInt8} : withoutHalves (b :: bs) = b :: withoutHalves bs →
      Begins (b :: bs)

theorem begins (bs : List UInt8) : Begins bs := by
  fun_cases withoutHalves bs with
  | case1 b c bs hhalf =>
    obtain ⟨n, hn, hspelled⟩ := exists_half hhalf
    have hreplaced : withoutHalves (spelled8 n ++ bs) =
        0xEF :: ([0xBF, 0xBD] ++ withoutHalves bs) := by
      rw [hspelled]
      exact withoutHalves.eq_1 b c bs ▸ if_pos hhalf
    have hbegins := Begins.half hn hreplaced
    rwa [hspelled] at hbegins
  | case2 b c bs hhalf => exact .byte (by rw [withoutHalves, if_neg hhalf])
  | case3 b bs hne => exact .byte (by rw [withoutHalves]; exact hne)
  | case4 => exact .none

/-- Bytes without 0xEF are there already before halves are replaced. -/
theorem exists_of_withoutHalves_append {front : List UInt8} (h : ∀ b ∈ front, b ≠ 0xEF)
    {bs rest : List UInt8} (hbs : withoutHalves bs = front ++ rest) :
    ∃ after, bs = front ++ after ∧ withoutHalves after = rest := by
  induction front generalizing bs with
  | nil => exact ⟨bs, rfl, hbs⟩
  | cons b front ih =>
    obtain ⟨hb, hfront⟩ := List.forall_mem_cons.mp h
    cases begins bs with
    | none => simp [withoutHalves] at hbs
    | half _ hreplaced =>
      exact absurd (List.cons.inj (hreplaced.symm.trans hbs)).1.symm hb
    | byte hkept =>
      rw [hkept, List.cons_append, List.cons.injEq] at hbs
      obtain ⟨rfl, hbs⟩ := hbs
      obtain ⟨after, rfl, hafter⟩ := ih hfront hbs
      exact ⟨after, rfl, hafter⟩

/-- Only the first byte of a character can be 0xEF, and then two more follow. -/
theorem utf8EncodeChar_eq_cons (c : Char) : ∃ b tail, String.utf8EncodeChar c = b :: tail ∧
    (∀ d ∈ tail, d ≠ 0xEF) ∧ (b = 0xEF → tail.length = 2) := by
  have hvalid : c.toNat.isValidChar := c.valid
  have hlow : ∀ n, UInt8.ofNat (n % 64 + 0x80) ≠ 0xEF := by
    intro n
    simp only [ne_eq, ← UInt8.toNat_inj, UInt8.toNat_ofNat', UInt8.reduceToNat]
    omega
  rw [← spelled8_toNat, spelled8]
  split_ifs
  all_goals refine ⟨_, _, rfl, ?_, ?_⟩
  · nofun
  · simp only [← UInt8.toNat_inj, UInt8.toNat_ofNat', UInt8.reduceToNat]
    omega
  · exact List.forall_mem_singleton.mpr (hlow _)
  · simp only [← UInt8.toNat_inj, UInt8.toNat_ofNat', UInt8.reduceToNat]
    omega
  · exact List.forall_mem_cons.mpr ⟨hlow _, List.forall_mem_singleton.mpr (hlow _)⟩
  · exact fun _ => rfl
  · exact List.forall_mem_cons.mpr
      ⟨hlow _, List.forall_mem_cons.mpr ⟨hlow _, List.forall_mem_singleton.mpr (hlow _)⟩⟩
  · simp only [← UInt8.toNat_inj, UInt8.toNat_ofNat', UInt8.reduceToNat]
    omega

theorem toNat_lt (c : Char) : c.toNat < 0x110000 := by
  have hvalid : c.toNat.isValidChar := c.valid
  rcases hvalid with h | h <;> omega

/-- Bytes that are UTF-8 once halves of pairs are replaced spell code points. -/
theorem spells_of_withoutHalves {cs : List Char} {bs : List UInt8}
    (h : withoutHalves bs = cs.flatMap String.utf8EncodeChar) : Spells spelled8 bs := by
  induction cs generalizing bs with
  | nil =>
    cases begins bs with
    | none => exact spells_nil spelled8
    | half _ hreplaced => simp [hreplaced] at h
    | byte hkept => simp [hkept] at h
  | cons c cs ih =>
    obtain ⟨b, tail, hc, htail, hlength⟩ := utf8EncodeChar_eq_cons c
    rw [List.flatMap_cons, hc, List.cons_append] at h
    cases begins bs with
    | none => simp [withoutHalves] at h
    | half hn hreplaced =>
      -- the character is the replacement of the half in front
      rw [hreplaced, List.cons.injEq] at h
      obtain ⟨hfirst, hrest⟩ := h
      have htwo : tail.length = 2 := hlength hfirst.symm
      exact (ih (List.append_inj hrest htwo.symm).2).cons hn
    | byte hkept =>
      rw [hkept, List.cons.injEq] at h
      obtain ⟨rfl, hrest⟩ := h
      obtain ⟨after, rfl, hafter⟩ := exists_of_withoutHalves_append htail hrest
      have hspells := (ih hafter).cons (toNat_lt c)
      rwa [spelled8_toNat, hc, List.cons_append] at hspells

/-- The text of code points in UTF-8. -/
theorem utf8Text?_flatMap {codes : List Nat} (h : ∀ n ∈ codes, n < 0x110000) :
    utf8Text? (codes.flatMap spelled8) = some (String.ofList (codes.map unitChar)) := by
  have hbytes : withoutHalves (codes.flatMap spelled8) =
      utf8Bytes (String.ofList (codes.map unitChar)) := by
    rw [utf8Bytes_eq, String.toList_ofList]
    induction codes with
    | nil => rfl
    | cons n codes ih =>
      obtain ⟨hn, hcodes⟩ := List.forall_mem_cons.mp h
      rw [List.flatMap_cons, withoutHalves_spelled8 hn, ih hcodes, List.map_cons,
        List.flatMap_cons]
  have htext := utf8Text?_utf8Bytes (String.ofList (codes.map unitChar))
  rwa [utf8Text?, withoutHalves_utf8Bytes, ← hbytes] at htext

theorem isSome_utf8Text?_iff (bs : List UInt8) :
    (utf8Text? bs).isSome ↔ Spells spelled8 bs := by
  constructor
  · intro h
    rw [utf8Text?, String.fromUTF8?] at h
    split at h
    · next hvalid =>
      obtain ⟨cs, hcs⟩ := hvalid
      have hlist := congrArg (fun b => b.data.toList) hcs
      have hspelled : withoutHalves bs = cs.flatMap String.utf8EncodeChar := by
        simpa [List.utf8Encode] using hlist
      exact spells_of_withoutHalves hspelled
    · cases h
  · rintro ⟨codes, hcodes, rfl⟩
    rw [utf8Text?_flatMap hcodes]
    rfl

/-! ## Bytes in pairs -/

/-- Two bytes are the pair of the number they stand for. -/
theorem pair_toNat (big : Bool) (a b : UInt8) :
    pair big (if big then a.toNat * 256 + b.toNat else b.toNat * 256 + a.toNat) = [a, b] := by
  have ha := a.toNat_lt
  have hb := b.toNat_lt
  cases big
  · have hhigh : (b.toNat * 256 + a.toNat) / 256 = b.toNat := by omega
    have hlow : (b.toNat * 256 + a.toNat) % 256 = a.toNat := by omega
    simp [pair, hhigh, hlow]
  · have hhigh : (a.toNat * 256 + b.toNat) / 256 = a.toNat := by omega
    have hlow : (a.toNat * 256 + b.toNat) % 256 = b.toNat := by omega
    simp [pair, hhigh, hlow]

theorem isSome_units16_cons_cons (big : Bool) (a b : UInt8) (bs : List UInt8) :
    (units16 big (a :: b :: bs)).isSome = (units16 big bs).isSome := by
  rw [units16]
  cases units16 big bs <;> rfl

theorem isSome_units16_pair (big : Bool) (n : Nat) (bs : List UInt8) :
    (units16 big (pair big n ++ bs)).isSome = (units16 big bs).isSome := by
  cases big <;> exact isSome_units16_cons_cons _ _ _ bs

theorem isSome_units16_iff (big : Bool) (bs : List UInt8) :
    (units16 big bs).isSome ↔ Spells (spelled16 big) bs := by
  constructor
  · intro h
    fun_induction units16 big bs with
    | case1 => exact spells_nil _
    | case2 a b bs n ih =>
      have ha := a.toNat_lt
      have hb := b.toNat_lt
      have hn : n < 0x10000 := by
        simp only [n]
        split <;> omega
      have hform : spelled16 big n = [a, b] := by
        rw [spelled16, if_pos hn]
        exact pair_toNat big a b
      have hrest : (units16 big bs).isSome := by rwa [← isSome_units16_cons_cons big a b]
      have hspells := (ih hrest).cons (n := n) (by omega)
      rwa [hform] at hspells
    | case3 => cases h
  · rintro ⟨codes, -, rfl⟩
    induction codes with
    | nil => rfl
    | cons n codes ih =>
      rw [List.flatMap_cons, spelled16]
      split
      · rwa [isSome_units16_pair]
      · rwa [List.append_assoc, isSome_units16_pair, isSome_units16_pair]

/-! ## Bytes in fours -/

/-- The number that four bytes stand for. -/
def quad (bigEndian : Bool) (a b c d : UInt8) : Nat :=
  if bigEndian then ((a.toNat * 256 + b.toNat) * 256 + c.toNat) * 256 + d.toNat
  else ((d.toNat * 256 + c.toNat) * 256 + b.toNat) * 256 + a.toNat

/-- Four bytes spell the number that they stand for. -/
theorem spelled32_quad (big : Bool) (a b c d : UInt8) :
    spelled32 big (quad big a b c d) = [a, b, c, d] := by
  have ha := a.toNat_lt
  have hb := b.toNat_lt
  have hc := c.toNat_lt
  have hd := d.toNat_lt
  have hfront := pair_toNat big a b
  have hback := pair_toNat big c d
  cases big
  · have hhigh : quad false a b c d / 0x10000 = d.toNat * 256 + c.toNat := by
      simp only [quad, Bool.false_eq_true, if_false]
      omega
    have hlow : quad false a b c d % 0x10000 = b.toNat * 256 + a.toNat := by
      simp only [quad, Bool.false_eq_true, if_false]
      omega
    simp only [Bool.false_eq_true, if_false] at hfront hback
    simp only [spelled32, Bool.false_eq_true, if_false, hhigh, hlow, hfront, hback]
    rfl
  · have hhigh : quad true a b c d / 0x10000 = a.toNat * 256 + b.toNat := by
      simp only [quad, if_true]
      omega
    have hlow : quad true a b c d % 0x10000 = c.toNat * 256 + d.toNat := by
      simp only [quad, if_true]
      omega
    simp only [if_true] at hfront hback
    simp only [spelled32, if_true, hhigh, hlow, hfront, hback]
    rfl

/-- The bytes of a code point stand for it. -/
theorem exists_quad (big : Bool) {n : Nat} (hn : n < 0x110000) :
    ∃ a b c d, spelled32 big n = [a, b, c, d] ∧ quad big a b c d = n := by
  cases big
  · refine ⟨_, _, _, _, rfl, ?_⟩
    simp only [quad, Bool.false_eq_true, if_false, UInt8.toNat_ofNat']
    omega
  · refine ⟨_, _, _, _, rfl, ?_⟩
    simp only [quad, if_true, UInt8.toNat_ofNat']
    omega

theorem isSome_chars32_cons (big : Bool) (a b c d : UInt8) (bs : List UInt8) :
    (chars32 big (a :: b :: c :: d :: bs)).isSome ↔
      quad big a b c d < 0x110000 ∧ (chars32 big bs).isSome := by
  have hequation : chars32 big (a :: b :: c :: d :: bs) =
      if quad big a b c d < 0x110000 then do
        return unitChar (quad big a b c d) :: (← chars32 big bs)
      else none := by
    rw [chars32]
    rfl
  rw [hequation]
  split
  · next h =>
    rw [and_iff_right h]
    cases chars32 big bs <;> rfl
  · next h => simp [h]

theorem isSome_chars32_iff (big : Bool) (bs : List UInt8) :
    (chars32 big bs).isSome ↔ Spells (spelled32 big) bs := by
  constructor
  · intro h
    induction bs using chars32.induct big with
    | case1 => exact spells_nil _
    | case2 a b c d bs n hn ih =>
      obtain ⟨hquad, hrest⟩ := (isSome_chars32_cons big a b c d bs).mp h
      have hspells := (ih hrest).cons hquad
      rwa [spelled32_quad] at hspells
    | case3 a b c d bs n hn => exact absurd ((isSome_chars32_cons big a b c d bs).mp h).1 hn
    | case4 bs hnil hcons =>
      rw [chars32] at h
      · cases h
      · exact hnil
      · exact hcons
  · rintro ⟨codes, hcodes, rfl⟩
    induction codes with
    | nil => rfl
    | cons n codes ih =>
      obtain ⟨hn, hcodes⟩ := List.forall_mem_cons.mp hcodes
      obtain ⟨a, b, c, d, hform, hquad⟩ := exists_quad big hn
      rw [List.flatMap_cons, hform]
      exact (isSome_chars32_cons big a b c d _).mpr ⟨hquad ▸ hn, ih hcodes⟩

/-! ## Any encoding -/

namespace Encoding

theorem mark_unmarked (bs : List UInt8) : (unmarked bs).mark = [] := by
  fun_cases unmarked bs <;> rfl

/-- The mark that an encoding is told by stands in front. -/
theorem mark_prefix (bs : List UInt8) : (detect bs).mark <+: bs := by
  unfold detect marked?
  split_ifs with h h h h h
  all_goals try exact List.isPrefixOf_iff_prefix.mp h
  · rw [Option.getD_none, mark_unmarked]
    exact List.nil_prefix

/-- Behind the mark of an encoding, bytes have a text exactly if they spell code points. -/
theorem isSome_decode_iff (e : Encoding) (rest : List UInt8) :
    (e.decode (e.mark ++ rest)).isSome ↔ Spells e.spelled rest := by
  cases e with
  | utf8 => exact isSome_utf8Text?_iff rest
  | utf8Marked => exact isSome_utf8Text?_iff rest
  | utf16 big => exact Option.isSome_map.symm ▸ isSome_units16_iff big rest
  | utf16Marked big => cases big <;> exact Option.isSome_map.symm ▸ isSome_units16_iff _ rest
  | utf32 big => exact Option.isSome_map.symm ▸ isSome_chars32_iff big rest
  | utf32Marked big => cases big <;> exact Option.isSome_map.symm ▸ isSome_chars32_iff _ rest

end Encoding

/-- Bytes have a text exactly if they spell code points in their encoding. -/
theorem isSome_textOfBytes?_iff (bs : List UInt8) : (textOfBytes? bs).isSome ↔ Decodable bs := by
  obtain ⟨rest, hrest⟩ := Encoding.mark_prefix bs
  have hdecode := (Encoding.detect bs).isSome_decode_iff rest
  rw [hrest] at hdecode
  rw [textOfBytes?, hdecode]
  constructor
  · exact fun h => ⟨rest, hrest.symm, h⟩
  · rintro ⟨rest', hrest', h⟩
    rwa [List.append_cancel_left (hrest.trans hrest')]

end SurfaceStudio.Json
