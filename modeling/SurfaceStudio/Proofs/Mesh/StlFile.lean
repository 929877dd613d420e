import Mathlib.Tactic
import SurfaceStudio.Mesh.Facets
/-!
# The bytes of an STL file

All facets take up the same number of bytes, so that a file is read without being searched: the
number of facets is behind the header, and each number of each facet at a place of its own.
`HasFacets` is what such a reader finds.
-/

namespace SurfaceStudio.Mesh

/-! ## Numbers in bytes -/

/-- The number in some bytes, of which the first one is the lowest. -/
def ofLittleEndian : List UInt8 → ℕ
  | [] => 0
  | b :: bs => b.toNat + 256 * ofLittleEndian bs

theorem length_littleEndian (width n : ℕ) : (littleEndian width n).length = width := by
  induction width generalizing n with
  | zero => rfl
  | succ width ih => rw [littleEndian, List.length_cons, ih]

/-- A number that fits is read as it was written. -/
theorem ofLittleEndian_littleEndian {width n : ℕ} (h : n < 256 ^ width) :
    ofLittleEndian (littleEndian width n) = n := by
  induction width generalizing n with
  | zero =>
    rw [pow_zero, Nat.lt_one_iff] at h
    rw [h]
    rfl
  | succ width ih =>
    have hrest : n / 256 < 256 ^ width := by
      rw [Nat.div_lt_iff_lt_mul (by norm_num), ← pow_succ]
      exact h
    have hlowest : n.toUInt8.toNat = n % 256 := UInt8.toNat_ofNat'
    rw [littleEndian, ofLittleEndian, ih hrest, hlowest]
    exact Nat.mod_add_div n 256

/-! ## Records of one size -/

section Records

variable {α β : Type} {f : α → List β} {size : ℕ}

/-- The place of a record follows from its number. -/
theorem take_drop_flatMap (hsize : ∀ a, (f a).length = size) {as : List α} {k : ℕ} {a : α}
    (h : as[k]? = some a) : ((as.flatMap f).drop (size * k)).take size = f a := by
  induction as generalizing k with
  | nil => cases h
  | cons a' as ih =>
    rw [List.flatMap_cons]
    cases k with
    | zero =>
      cases h
      rw [Nat.mul_zero, List.drop_zero, List.take_left' (hsize a)]
    | succ k =>
      rw [Nat.mul_succ, Nat.add_comm, ← List.drop_drop, List.drop_left' (hsize a')]
      exact ih h

theorem length_flatMap (hsize : ∀ a, (f a).length = size) (as : List α) :
    (as.flatMap f).length = size * as.length := by
  simp only [List.length_flatMap, hsize, List.map_const', List.sum_replicate, smul_eq_mul,
    Nat.mul_comm]

end Records

/-! ## Facets -/

section Facets

variable (f : Facet)

theorem Facet.length_words : f.words.length = 12 := rfl

theorem Facet.length_record : f.record.length = 50 := by
  rw [Facet.record, List.length_append, length_littleEndian,
    length_flatMap fun x => length_littleEndian 4 _, f.length_words]

end Facets

/-- The number in some bytes of a file, from a place on. -/
def numberAt (bytes : List UInt8) (place width : ℕ) : ℕ :=
  ofLittleEndian ((bytes.drop place).take width)

/-- What is read from an STL file. -/
structure HasFacets (bytes : List UInt8) (fs : List Facet) : Prop where
  size : bytes.length = fileSize fs.length
  count : numberAt bytes 80 4 = fs.length
  word : ∀ k f, fs[k]? = some f → ∀ i x, f.words[i]? = some x →
    numberAt bytes (84 + 50 * k + 4 * i) 4 = x.toBits.toNat
  attributeWord : ∀ k f, fs[k]? = some f →
    numberAt bytes (84 + 50 * k + 48) 2 = f.attributeWord.toNat

section File

variable {header : List UInt8} {fs : List Facet}

/-- A part of a facet is found in the file at the place of the facet. -/
theorem take_drop_stlFile (hheader : header.length = 80) {k place width : ℕ} {f : Facet}
    (hf : fs[k]? = some f) (hwidth : place + width ≤ 50) :
    ((stlFile header fs).drop (84 + 50 * k + place)).take width =
      (f.record.drop place).take width := by
  have hcount : (header ++ littleEndian 4 fs.length).length = 84 := by
    rw [List.length_append, length_littleEndian, hheader]
  have hrecord := take_drop_flatMap Facet.length_record hf
  rw [stlFile, ← List.append_assoc, ← List.drop_drop, ← List.drop_drop, List.drop_left' hcount,
    ← hrecord, List.drop_take, List.take_take, min_eq_left (by omega)]

theorem hasFacets_stlFile (hheader : header.length = 80) (hcount : fs.length < 256 ^ 4) :
    HasFacets (stlFile header fs) fs where
  size := by
    rw [stlFile, List.length_append, List.length_append, length_littleEndian, hheader,
      length_flatMap Facet.length_record, ← Nat.add_assoc]
    rfl
  count := by
    rw [numberAt, stlFile, List.drop_left' hheader, List.take_left' (length_littleEndian 4 _),
      ofLittleEndian_littleEndian hcount]
  word := by
    intro k f hf i x hx
    have hi : i < 12 := (List.getElem?_eq_some_iff.mp hx).1
    have hwords : (f.words.flatMap fun x => littleEndian 4 x.toBits.toNat).length = 48 :=
      length_flatMap (fun x => length_littleEndian 4 _) f.words
    rw [numberAt, take_drop_stlFile hheader hf (by omega), Facet.record,
      List.drop_append_of_le_length (by omega), List.take_append_of_le_length,
      take_drop_flatMap (fun x => length_littleEndian 4 _) hx,
      ofLittleEndian_littleEndian x.toBits.toNat_lt]
    rw [List.length_drop]
    omega
  attributeWord := by
    intro k f hf
    have hwords : (f.words.flatMap fun x => littleEndian 4 x.toBits.toNat).length = 48 :=
      length_flatMap (fun x => length_littleEndian 4 _) f.words
    rw [numberAt, take_drop_stlFile hheader hf le_rfl, Facet.record, List.drop_left' hwords,
      List.take_of_length_le (length_littleEndian 2 _).le,
      ofLittleEndian_littleEndian f.attributeWord.toNat_lt]

end File

end SurfaceStudio.Mesh
