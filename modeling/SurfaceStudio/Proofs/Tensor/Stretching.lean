import Mathlib.Data.List.GetD
import SurfaceStudio.Tensor
/-!
# Stretching arrays to one shape

Two shapes match if, counted from the last dimension, their dimensions are equal or one of the two
is one; `commonShape` is then the shape that takes the longer dimension each time. `Represents` is
what is kept while arrays of several shapes are computed with: an array stands for a function on the
indices of a target shape that it can be stretched to. Whatever is computed from arrays that stand
for functions stands for the function that is computed from these.
-/

namespace SurfaceStudio.Tensor

/-! ## Shapes that match -/

/-- The length of a dimension, counted from the last one. A dimension that is missing counts as
one. -/
def dimension (shape : List Nat) (k : Nat) : Nat := shape.reverse.getD k 1

/-- Two shapes can be stretched to one. -/
def Match (a b : List Nat) : Prop :=
  ∀ k, dimension a k = dimension b k ∨ dimension a k = 1 ∨ dimension b k = 1

/-- A shape takes from two shapes whichever dimension is not one. -/
structure IsCommonShape (a b shape : List Nat) : Prop where
  length_eq : shape.length = max a.length b.length
  dimension_eq : ∀ k, dimension shape k = if dimension a k = 1 then dimension b k else dimension a k

theorem stretch_eq_some_iff {m n k : Nat} : stretch m n = some k ↔
    (m = n ∨ m = 1 ∨ n = 1) ∧ k = if m = 1 then n else m := by
  unfold stretch
  grind

theorem stretch_one_left (n : Nat) : stretch 1 n = some n := by
  unfold stretch
  grind

theorem stretch_one_right (m : Nat) : stretch m 1 = some m := by
  unfold stretch
  grind

/-- Shapes are the same if they have as many dimensions and each of these is the same. -/
theorem eq_of_getD {ms ns : List Nat} (hlength : ms.length = ns.length)
    (h : ∀ k, ms.getD k 1 = ns.getD k 1) : ms = ns := by
  refine List.ext_getElem hlength fun k hk hk' => ?_
  have hget := h k
  rwa [List.getD_eq_getElem _ _ hk, List.getD_eq_getElem _ _ hk'] at hget

theorem commonReversed_nil_right (ms : List Nat) : commonReversed ms [] = some ms := by
  cases ms <;> rfl

theorem commonReversed_cons_eq_some_iff {m n : Nat} {ms ns ks : List Nat} :
    commonReversed (m :: ms) (n :: ns) = some ks ↔
      ∃ k ks', stretch m n = some k ∧ commonReversed ms ns = some ks' ∧ ks = k :: ks' := by
  simp only [commonReversed, Option.bind_eq_bind, Option.bind_eq_some_iff, Option.pure_def,
    Option.some.injEq]
  grind

theorem commonReversed_eq_some_iff {ms ns ks : List Nat} : commonReversed ms ns = some ks ↔
    ks.length = max ms.length ns.length ∧
      ∀ k, stretch (ms.getD k 1) (ns.getD k 1) = some (ks.getD k 1) := by
  induction ms generalizing ns ks with
  | nil =>
    simp only [commonReversed, List.getD_nil, stretch_one_left, List.length_nil, Nat.zero_max,
      Option.some.injEq]
    constructor
    · rintro rfl
      exact ⟨rfl, fun _ => rfl⟩
    · rintro ⟨hlength, h⟩
      exact eq_of_getD hlength.symm h
  | cons m ms ih =>
    rcases ns with _ | ⟨n, ns⟩
    · simp only [commonReversed_nil_right, List.getD_nil, stretch_one_right, List.length_nil,
        Nat.max_zero, Option.some.injEq]
      constructor
      · rintro rfl
        exact ⟨rfl, fun _ => rfl⟩
      · rintro ⟨hlength, h⟩
        exact eq_of_getD hlength.symm h
    · rw [commonReversed_cons_eq_some_iff]
      constructor
      · rintro ⟨k, ks', hk, hks, rfl⟩
        obtain ⟨hlength, h⟩ := ih.mp hks
        refine ⟨by simp only [List.length_cons]; omega, fun i => ?_⟩
        cases i with
        | zero => exact hk
        | succ i => exact h i
      · rintro ⟨hlength, h⟩
        rcases ks with _ | ⟨k, ks⟩
        · simp only [List.length_cons, List.length_nil] at hlength
          omega
        · refine ⟨k, ks, h 0, ih.mpr ⟨?_, fun i => h (i + 1)⟩, rfl⟩
          simp only [List.length_cons] at hlength
          omega

theorem commonShape_eq_some_iff {a b shape : List Nat} :
    commonShape a b = some shape ↔ Match a b ∧ IsCommonShape a b shape := by
  have hreverse : commonShape a b = some shape ↔
      commonReversed a.reverse b.reverse = some shape.reverse := by
    rw [commonShape, Option.map_eq_some_iff]
    constructor
    · rintro ⟨ks, hks, rfl⟩
      rwa [List.reverse_reverse]
    · intro h
      exact ⟨_, h, List.reverse_reverse shape⟩
  simp only [hreverse, commonReversed_eq_some_iff, List.length_reverse, stretch_eq_some_iff]
  constructor
  · rintro ⟨hlength, h⟩
    exact ⟨fun k => (h k).1, hlength, fun k => (h k).2⟩
  · rintro ⟨hmatch, hlength, h⟩
    exact ⟨hlength, fun k => ⟨hmatch k, h k⟩⟩

theorem exists_commonReversed {ms ns : List Nat} (h : ∀ k, ms.getD k 1 = ns.getD k 1 ∨
    ms.getD k 1 = 1 ∨ ns.getD k 1 = 1) : ∃ ks, commonReversed ms ns = some ks := by
  induction ms generalizing ns with
  | nil => exact ⟨ns, rfl⟩
  | cons m ms ih =>
    rcases ns with _ | ⟨n, ns⟩
    · exact ⟨m :: ms, rfl⟩
    · obtain ⟨ks, hks⟩ := ih fun k => h (k + 1)
      have hk := stretch_eq_some_iff.mpr ⟨h 0, rfl⟩
      exact ⟨_ :: ks, commonReversed_cons_eq_some_iff.mpr ⟨_, ks, hk, hks, rfl⟩⟩

/-- Shapes have a common shape as soon as they match. -/
theorem exists_commonShape {a b : List Nat} (h : Match a b) :
    ∃ shape, commonShape a b = some shape := by
  obtain ⟨ks, hks⟩ := exists_commonReversed h
  exact ⟨ks.reverse, by rw [commonShape, hks]; rfl⟩

theorem commonShape_eq_none_iff {a b : List Nat} : commonShape a b = none ↔ ¬ Match a b := by
  constructor
  · intro hnone hmatch
    obtain ⟨shape, hshape⟩ := exists_commonShape hmatch
    rw [hnone] at hshape
    cases hshape
  · intro hmatch
    rcases hshape : commonShape a b with _ | shape
    · rfl
    · exact absurd (commonShape_eq_some_iff.mp hshape).1 hmatch

/-! ## Shapes that fit into another one -/

/-- An array of one shape can be stretched to the other. -/
structure FitsInto (shape target : List Nat) : Prop where
  length_le : shape.length ≤ target.length
  dimension_eq : ∀ k, dimension shape k = 1 ∨ dimension shape k = dimension target k

theorem dimension_nil (k : Nat) : dimension [] k = 1 := List.getD_nil

theorem fitsInto_nil (target : List Nat) : FitsInto [] target :=
  ⟨Nat.zero_le _, fun k => .inl (dimension_nil k)⟩

theorem fitsInto_iff {shape target : List Nat} :
    commonShape shape target = some target ↔ FitsInto shape target := by
  rw [commonShape_eq_some_iff]
  constructor
  · rintro ⟨hmatch, hlength, h⟩
    refine ⟨by omega, fun k => ?_⟩
    grind [hmatch k, h k]
  · rintro ⟨hlength, h⟩
    refine ⟨fun k => ?_, by omega, fun k => ?_⟩
    · grind [h k]
    · grind [h k]

/-- Two shapes fit into their common shape. -/
theorem fitsInto_of_commonShape {a b shape : List Nat} (h : commonShape a b = some shape) :
    FitsInto a shape ∧ FitsInto b shape := by
  obtain ⟨hmatch, hlength, h⟩ := commonShape_eq_some_iff.mp h
  refine ⟨⟨by omega, fun k => ?_⟩, ⟨by omega, fun k => ?_⟩⟩
  · grind [hmatch k, h k]
  · grind [hmatch k, h k]

/-- Two shapes that fit into a third one match, and their common shape fits into it as well. -/
theorem FitsInto.exists_commonShape {a b target : List Nat} (ha : FitsInto a target)
    (hb : FitsInto b target) : ∃ shape, commonShape a b = some shape ∧ FitsInto shape target := by
  have hmatch : Match a b := fun k => by grind [ha.dimension_eq k, hb.dimension_eq k]
  obtain ⟨shape, hshape⟩ := Tensor.exists_commonShape hmatch
  obtain ⟨-, hlength, h⟩ := commonShape_eq_some_iff.mp hshape
  refine ⟨shape, hshape, ?_, fun k => ?_⟩
  · have := ha.length_le
    have := hb.length_le
    omega
  · grind [ha.dimension_eq k, hb.dimension_eq k, h k]

/-! ## Indices -/

theorem dimension_eq_getElem {shape : List Nat} {i : Nat} (h : i < shape.length) :
    dimension shape (shape.length - 1 - i) = shape[i] := by
  rw [dimension, List.getD_eq_getElem _ _ (by rw [List.length_reverse]; omega),
    List.getElem_reverse]
  congr 1
  omega

theorem length_aligned {shape is : List Nat} (h : shape.length ≤ is.length) :
    (aligned shape is).length = shape.length := by
  rw [aligned, List.length_zipWith, List.length_drop]
  omega

theorem getElem_aligned {shape is : List Nat} {i : Nat} (hi : i < (aligned shape is).length)
    (hi' : i < shape.length) (hplace : is.length - shape.length + i < is.length) :
    (aligned shape is)[i] =
      if shape[i] = 1 then 0 else is[is.length - shape.length + i] := by
  simp only [aligned, List.getElem_zipWith, List.getElem_drop]

/-- Indices can be aligned with a shape by way of a shape that it fits into. -/
theorem FitsInto.aligned_aligned {shape target is : List Nat} (h : FitsInto shape target)
    (his : target.length ≤ is.length) :
    aligned shape (aligned target is) = aligned shape is := by
  have hlength := h.length_le
  have htarget := length_aligned his
  have hshape : (aligned shape (aligned target is)).length = shape.length :=
    length_aligned (by omega)
  refine List.ext_getElem (by rw [hshape, length_aligned (by omega)]) fun i hi hi' => ?_
  have hi : i < shape.length := by omega
  have hplace : target.length - shape.length + i < target.length := by omega
  rw [getElem_aligned _ hi (by omega), getElem_aligned _ hi (by omega)]
  by_cases hone : shape[i] = 1
  · rw [if_pos hone, if_pos hone]
  · -- a dimension that is not one is the same in the target
    have hdimension := h.dimension_eq (shape.length - 1 - i)
    have hk : shape.length - 1 - i = target.length - 1 - (target.length - shape.length + i) := by
      omega
    rw [dimension_eq_getElem hi, hk, dimension_eq_getElem hplace] at hdimension
    have hne : target[target.length - shape.length + i] ≠ 1 := by grind
    rw [if_neg hone, if_neg hone, getElem_aligned _ (by omega) (by omega)]
    simp only [htarget, if_neg hne]
    congr 1
    omega

/-! ## Arrays that stand for functions -/

section Represents

variable {α β γ : Type} {target : List Nat}

/-- An array that can be stretched to a shape, with the values that a function has on its
indices. -/
structure Represents (target : List Nat) (t : Tensor α) (g : List Nat → α) : Prop where
  fits : FitsInto t.shape target
  entry_eq : ∀ is, is.length = target.length → t.entry (aligned t.shape is) = g is

theorem represents_scalar (x : α) : Represents target (scalar x) fun _ => x :=
  ⟨fitsInto_nil target, fun _ _ => rfl⟩

/-- Each of two arrays of shapes that match, by its own entries. -/
theorem represents_of_fitsInto {t : Tensor α} (h : FitsInto t.shape target) :
    Represents target t fun is => t.entry (aligned t.shape is) := ⟨h, fun _ _ => rfl⟩

theorem Represents.map {t : Tensor α} {g : List Nat → α} (h : Represents target t g) (f : α → β) :
    Represents target (t.map f) fun is => f (g is) :=
  ⟨h.fits, fun is his => congrArg f (h.entry_eq is his)⟩

theorem Represents.zipWith {a : Tensor α} {b : Tensor β} {g : List Nat → α} {k : List Nat → β}
    (ha : Represents target a g) (hb : Represents target b k) (f : α → β → γ) :
    ∃ t, a.zipWith f b = some t ∧ Represents target t fun is => f (g is) (k is) := by
  obtain ⟨shape, hshape, hfits⟩ := ha.fits.exists_commonShape hb.fits
  obtain ⟨ha', hb'⟩ := fitsInto_of_commonShape hshape
  refine ⟨_, by rw [Tensor.zipWith, hshape]; rfl, hfits, fun is his => ?_⟩
  have hlength : shape.length ≤ is.length := by
    have := hfits.length_le
    omega
  -- an index of the target is aligned with the common shape first and with an operand then
  simp only [ha'.aligned_aligned hlength, hb'.aligned_aligned hlength, ha.entry_eq is his,
    hb.entry_eq is his]

/-- Arrays combined one after the other. -/
theorem Represents.foldlM {ι : Type} {first : Tensor α} {g : List Nat → α}
    (h : Represents target first g) (f : α → α → α) {xs : List ι} {ts : List (Tensor α)}
    {k : ι → List Nat → α} (hts : List.Forall₂ (fun x t => Represents target t (k x)) xs ts) :
    ∃ t, ts.foldlM (Tensor.zipWith f) first = some t ∧
      Represents target t fun is => (xs.map fun x => k x is).foldl f (g is) := by
  induction hts generalizing first g with
  | nil => exact ⟨first, rfl, h⟩
  | cons hx _ ih =>
    obtain ⟨t, ht, hrep⟩ := h.zipWith hx f
    obtain ⟨t', ht', hrep'⟩ := ih hrep
    refine ⟨t', ?_, hrep'⟩
    rw [List.foldlM_cons, ht]
    exact ht'

theorem Represents.stretchTo {t : Tensor α} {g : List Nat → α} (h : Represents target t g) :
    ∃ t', t.stretchTo target = some t' ∧ t'.shape = target ∧
      ∀ is, is.length = target.length → t'.entry is = g is := by
  refine ⟨⟨target, fun is => t.entry (aligned t.shape is)⟩, ?_, rfl, h.entry_eq⟩
  rw [Tensor.stretchTo, if_pos (fitsInto_iff.mpr h.fits)]

theorem length_of_mem_indices {shape is : List Nat} (h : is ∈ indices shape) :
    is.length = shape.length := by
  induction shape generalizing is with
  | nil =>
    rw [List.mem_singleton.mp h]
  | cons n dims ih =>
    obtain ⟨i, -, h⟩ := List.mem_flatMap.mp h
    obtain ⟨js, hjs, rfl⟩ := List.mem_map.mp h
    rw [List.length_cons, List.length_cons, ih hjs]

end Represents

end SurfaceStudio.Tensor
