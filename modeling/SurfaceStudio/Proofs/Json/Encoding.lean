import SurfaceStudio.Json.Encoding
import SurfaceStudio.Proofs.Json.RoundTrip
/-!
# JSON as bytes

The bytes of a text in UTF-8 are taken for UTF-8 and decoded to the text, if the text starts with a
character of the basic Latin script and has no zero character. That is so for everything that is
written.
-/

namespace SurfaceStudio.Json

/-- The bytes of a text in UTF-8. -/
def utf8Bytes (s : String) : List UInt8 := s.toUTF8.data.toList

theorem utf8Bytes_eq (s : String) : utf8Bytes s = s.toList.flatMap String.utf8EncodeChar := by
  conv_lhs => rw [utf8Bytes, ← String.ofList_toList (s := s)]
  rw [String.toUTF8_eq_toByteArray, String.toByteArray_ofList, List.utf8Encode]
  simp

/-- A byte of a character is the character itself or not below 0x80. -/
theorem toNat_of_mem_utf8EncodeChar {c : Char} {b : UInt8} (h : b ∈ String.utf8EncodeChar c) :
    (b.toNat = c.toNat ∨ 0x80 ≤ b.toNat) ∧
      (b.toNat = 0xED → 0xD000 ≤ c.toNat ∧ c.toNat < 0xE000) := by
  have hvalid : c.toNat.isValidChar := c.valid
  have hval : c.val.toNat = c.toNat := rfl
  simp only [String.utf8EncodeChar, hval] at h
  split_ifs at h
  all_goals simp only [List.mem_cons, List.not_mem_nil, or_false] at h
  · rw [h, UInt8.toNat_ofNat']
    omega
  · rcases h with rfl | rfl <;> rw [UInt8.toNat_ofNat'] <;> omega
  · rcases h with rfl | rfl | rfl <;> rw [UInt8.toNat_ofNat'] <;> omega
  · rcases h with rfl | rfl | rfl | rfl <;> rw [UInt8.toNat_ofNat'] <;> omega

/-! ## Halves of pairs -/

theorem withoutHalves_append {front : List UInt8} (h : ∀ b ∈ front, b.toNat ≠ 0xED)
    (bs : List UInt8) : withoutHalves (front ++ bs) = front ++ withoutHalves bs := by
  induction front with
  | nil => rfl
  | cons b front ih =>
    rw [List.cons_append, withoutHalves, ih fun c hc => h c (List.mem_cons_of_mem b hc),
      List.cons_append]
    rintro _ _ _ rfl
    exact absurd rfl (h 0xED List.mem_cons_self)

/-- What starts like a half of a pair is none if a small byte follows. -/
theorem withoutHalves_cons_cons {b c : UInt8} (hb : b.toNat < 0xA0) (hc : c.toNat ≠ 0xED)
    (bs : List UInt8) :
    withoutHalves (0xED :: b :: c :: bs) = 0xED :: b :: c :: withoutHalves bs := by
  have hsmall : decide (0xA0 ≤ b) = false := by
    rw [decide_eq_false_iff_not, UInt8.le_iff_toNat_le]
    exact Nat.not_le.mpr hb
  have hrest : withoutHalves ([b, c] ++ bs) = [b, c] ++ withoutHalves bs := by
    refine withoutHalves_append (List.forall_mem_cons.mpr ⟨by omega, ?_⟩) bs
    exact List.forall_mem_singleton.mpr hc
  simp only [List.cons_append, List.nil_append] at hrest
  rw [withoutHalves]
  simp only [hsmall, Bool.false_and, Bool.false_eq_true, if_false, hrest]

/-- No character is spelt like half of a pair. -/
theorem withoutHalves_utf8EncodeChar (c : Char) (bs : List UInt8) :
    withoutHalves (String.utf8EncodeChar c ++ bs) =
      String.utf8EncodeChar c ++ withoutHalves bs := by
  have hvalid : c.toNat.isValidChar := c.valid
  by_cases hstart : 0xD000 ≤ c.toNat ∧ c.toNat < 0xE000
  · have hform : String.utf8EncodeChar c = [0xED, UInt8.ofNat (c.toNat / 64 % 64 + 128),
        UInt8.ofNat (c.toNat % 64 + 128)] := by
      have hval : c.val.toNat = c.toNat := rfl
      have hfirst : c.toNat / 4096 % 16 + 224 = 0xED := by omega
      simp only [String.utf8EncodeChar, hval]
      rw [if_neg (by omega), if_neg (by omega), if_pos (by omega), hfirst]
      rfl
    rw [hform]
    refine withoutHalves_cons_cons ?_ ?_ bs
    all_goals rw [UInt8.toNat_ofNat']; omega
  · refine withoutHalves_append ?_ bs
    exact fun b hb hsurrogate => hstart ((toNat_of_mem_utf8EncodeChar hb).2 hsurrogate)

theorem withoutHalves_utf8Bytes (s : String) : withoutHalves (utf8Bytes s) = utf8Bytes s := by
  rw [utf8Bytes_eq]
  induction s.toList with
  | nil => rfl
  | cons c cs ih => rw [List.flatMap_cons, withoutHalves_utf8EncodeChar, ih]

theorem utf8Text?_utf8Bytes (s : String) : utf8Text? (utf8Bytes s) = some s := by
  rw [utf8Text?, withoutHalves_utf8Bytes]
  show String.fromUTF8? s.toUTF8 = some s
  rw [String.fromUTF8?, String.toUTF8_eq_toByteArray, dif_pos s.isValidUTF8]
  rfl

/-! ## The encoding -/

/-- Bytes are taken for UTF-8 if the first one is a character and neither of the first two is
zero. -/
theorem Encoding.detect_cons {b : UInt8} {bs : List UInt8} (hb : b.toNat ≠ 0)
    (hlatin : b.toNat < 0x80) (hsecond : ∀ c ∈ bs.head?, c.toNat ≠ 0) :
    Encoding.detect (b :: bs) = .utf8 := by
  have hne : ∀ c : UInt8, c.toNat = 0 ∨ 0x80 ≤ c.toNat → c ≠ b := by
    rintro c h rfl
    omega
  have hzero : b ≠ 0 := (hne 0 (by decide)).symm
  have hmarked : marked? (b :: bs) = none := by
    simp [marked?, List.isPrefixOf, hne 0 (by decide), hne 0xEF (by decide), hne 0xFE (by decide),
      hne 0xFF (by decide)]
  have hnext : ∀ c ∈ bs.head?, c ≠ 0 := by
    rintro c hc rfl
    exact hsecond 0 hc rfl
  have hunmarked : unmarked (b :: bs) = .utf8 := by
    match bs with
    | [] => rfl
    | [c] => simp [unmarked, hzero, hnext c rfl]
    | [c, d] => rfl
    | c :: d :: e :: bs => simp [unmarked, hzero, hnext c rfl]
  rw [detect, hmarked, hunmarked]
  rfl

/-- A text that starts in the basic Latin script and has no zero character is decoded from its
bytes. -/
theorem textOfBytes?_utf8Bytes {s : String} {c : Char} {cs : List Char} (hs : s.toList = c :: cs)
    (hlatin : c.toNat < 0x80) (hzero : '\x00' ∉ s.toList) :
    textOfBytes? (utf8Bytes s) = some s := by
  have hnonzero : ∀ d ∈ c :: cs, d.toNat ≠ 0 := by
    intro d hd h
    have hd' : d = '\x00' := Char.toNat_inj.mp h
    exact hzero (hs ▸ hd' ▸ hd)
  have hfirst : String.utf8EncodeChar c = [UInt8.ofNat c.toNat] :=
    if_pos (Nat.le_of_lt_succ hlatin)
  have hbytes : utf8Bytes s = UInt8.ofNat c.toNat :: cs.flatMap String.utf8EncodeChar := by
    rw [utf8Bytes_eq, hs, List.flatMap_cons, hfirst, List.singleton_append]
  have hc : (UInt8.ofNat c.toNat).toNat = c.toNat := by
    rw [UInt8.toNat_ofNat']
    omega
  have hdetect : Encoding.detect (utf8Bytes s) = .utf8 := by
    rw [hbytes]
    refine Encoding.detect_cons (by rw [hc]; exact hnonzero c List.mem_cons_self)
      (by rw [hc]; exact hlatin) ?_
    intro b hb
    obtain ⟨d, hd, hbd⟩ := List.mem_flatMap.mp (List.mem_of_mem_head? hb)
    have hd := hnonzero d (List.mem_cons_of_mem c hd)
    have hbyte := (toNat_of_mem_utf8EncodeChar hbd).1
    omega
  rw [textOfBytes?, hdetect]
  exact utf8Text?_utf8Bytes s

/-! ## What is written -/

theorem zero_notMem_escapedChar (c : Char) : '\x00' ∉ escapedChar c := by
  have hdigit : ∀ n < 16, '\x00' ≠ Nat.digitChar n := by decide
  have hhex : ∀ n, '\x00' ≠ Nat.digitChar (n % 16) := fun n => hdigit _ (Nat.mod_lt n (by decide))
  unfold escapedChar
  split_ifs
  any_goals decide
  · simp [Text.hexDigits, hhex]
  · next hcontrol =>
    rw [List.mem_singleton]
    rintro rfl
    exact hcontrol (by decide)

theorem zero_notMem_escaped (s : String) : '\x00' ∉ (escaped s).toList := by
  rw [escaped, String.toList_ofList]
  simp [zero_notMem_escapedChar]

theorem zero_notMem_of_isSpace {gap : List Char} (h : ∀ c ∈ gap, isSpace c = true) :
    '\x00' ∉ gap :=
  fun hmem => absurd (h _ hmem) (by decide)

namespace Layout

variable (l : Layout) {texts : List String}

theorem zero_notMem_joined (h : ∀ t ∈ texts, '\x00' ∉ t.toList) : '\x00' ∉ l.joined texts := by
  have hcomma := zero_notMem_of_isSpace l.isSpace_behindComma
  induction texts with
  | nil => nofun
  | cons t texts ih =>
    obtain ⟨ht, htexts⟩ := List.forall_mem_cons.mp h
    cases texts with
    | nil => rwa [l.joined_singleton]
    | cons u texts =>
      rw [l.joined_cons_cons]
      simp [ht, hcomma, ih htexts]

theorem zero_notMem_bracket {opening closing : String} (hopening : '\x00' ∉ opening.toList)
    (hclosing : '\x00' ∉ closing.toList) (h : ∀ t ∈ texts, '\x00' ∉ t.toList) :
    '\x00' ∉ (l.bracket opening closing texts).toList := by
  have hbehind := zero_notMem_of_isSpace l.isSpace_behindOpening
  have hbefore := zero_notMem_of_isSpace l.isSpace_beforeClosing
  cases texts with
  | nil => simp [l.bracket_nil, hopening, hclosing]
  | cons t texts =>
    rw [l.toList_bracket]
    simp [hopening, hclosing, hbehind, hbefore, l.zero_notMem_joined h]

end Layout

theorem zero_notMem_toString (n : Int) : '\x00' ∉ (toString n).toList := by
  have hdigits : '\x00' ∉ Decimal.digits n.natAbs :=
    fun hmem => absurd (Decimal.isDigit_of_mem_digits hmem) (by decide)
  rw [Decimal.toList_toString]
  split <;> simp [hdigits]

mutual

/-- No zero character is written. -/
theorem zero_notMem_write (v : Json) (h : v.IsPlain) (l : Layout) :
    '\x00' ∉ (v.write l).toList := by
  match v with
  | .null => simp [write]
  | .bool true => simp [write]
  | .bool false => simp [write]
  | .int n => exact zero_notMem_toString n
  | .float x => exact h.elim
  | .str s => exact zero_notMem_escaped s
  | .list items =>
    rw [write]
    exact l.zero_notMem_bracket (by simp) (by simp) (zero_notMem_writeAll items h l.deeper)
  | .object members =>
    rw [write]
    exact l.zero_notMem_bracket (by simp) (by simp) (zero_notMem_writeMembers members h.2 l.deeper)
termination_by sizeOf v

theorem zero_notMem_writeAll (vs : List Json) (h : AllPlain vs) (l : Layout) :
    ∀ t ∈ writeAll l vs, '\x00' ∉ t.toList := by
  match vs with
  | [] => nofun
  | v :: vs =>
    rw [writeAll]
    exact List.forall_mem_cons.mpr ⟨zero_notMem_write v h.1 l, zero_notMem_writeAll vs h.2 l⟩
termination_by sizeOf vs

theorem zero_notMem_writeMembers (ms : List (String × Json)) (h : MembersPlain ms) (l : Layout) :
    ∀ t ∈ writeMembers l ms, '\x00' ∉ t.toList := by
  match ms with
  | [] => nofun
  | (k, v) :: ms =>
    have hv := zero_notMem_write v h.1 l
    rw [writeMembers]
    refine List.forall_mem_cons.mpr ⟨?_, zero_notMem_writeMembers ms h.2 l⟩
    simp [zero_notMem_escaped, hv]
termination_by sizeOf ms

end

theorem textOfBytes?_toString (n : Int) :
    textOfBytes? (utf8Bytes (toString n)) = some (toString n) := by
  obtain ⟨c, cs, htext, -, -, hlatin⟩ := toString_start n
  exact textOfBytes?_utf8Bytes htext hlatin (zero_notMem_toString n)

end SurfaceStudio.Json
