import SurfaceStudio.Proofs.Formula.OverArrays
/-!
# Expressions over lists of points

The points of a grid are given to an expression as two arrays of one dimension and of one length.
Over these a part of the expression is either a single number or an array of that length, and which
of the two it is can be told from the expression: it is a single number if it is constant. So an
exponent is shared exactly if it is constant, and the values at some points at once are those of
`valueAmong`, point by point.
-/

namespace SurfaceStudio

open Tensor (commonShape aligned)

namespace Formula

/-- The shape of a constant part, and of any other one, over arrays of `n` entries. -/
def flatShape (n : Nat) (constant : Bool) : List Nat := if constant then [] else [n]

theorem commonShape_flatShape (n : Nat) (a b : Bool) :
    commonShape (flatShape n a) (flatShape n b) = some (flatShape n (a && b)) := by
  cases a <;> cases b
  · simp [flatShape, commonShape, Tensor.commonReversed, Tensor.stretch]
  all_goals rfl

/-- Over arrays of one length an array is repeated only if it is a single number. -/
theorem repeats_flatShape (n : Nat) (a b : Bool) :
    Tensor.repeats (flatShape n a) (flatShape n b) = b := by
  cases a <;> cases b <;> simp [flatShape, Tensor.repeats]

variable {α : Type} {n : Nat}

theorem shape_zipWith_flat {β γ : Type} {a : Tensor α} {b : Tensor β} {t : Tensor γ} {f : α → β → γ}
    {isFixed isFixed' : Bool} (ha : a.shape = flatShape n isFixed)
    (hb : b.shape = flatShape n isFixed') (h : a.zipWith f b = some t) :
    t.shape = flatShape n (isFixed && isFixed') := by
  rw [Tensor.zipWith, ha, hb, commonShape_flatShape] at h
  cases h
  rfl

/-- Arrays combined one after the other give a single number if all of them are. -/
theorem shape_foldlM_flat {f : α → α → α} {fs : List Formula} {first t : Tensor α}
    {ts : List (Tensor α)} {isFixed : Bool} (hfirst : first.shape = flatShape n isFixed)
    (hts : List.Forall₂ (fun f t => t.shape = flatShape n f.isConstant) fs ts)
    (h : ts.foldlM (Tensor.zipWith f) first = some t) :
    t.shape = flatShape n (isFixed && areConstant fs) := by
  induction hts generalizing first isFixed with
  | nil =>
    cases h
    rw [areConstant, Bool.and_true, hfirst]
  | cons hx _ ih =>
    rw [List.foldlM_cons] at h
    obtain ⟨next, hnext, h⟩ := Option.bind_eq_some_iff.mp h
    rw [ih (shape_zipWith_flat hfirst hx hnext) h, areConstant, Bool.and_assoc]

theorem shape_applyOver_flat [Scalar α] (fn : Fn) {fs : List Formula} {first t : Tensor α}
    {rest : List (Tensor α)} {isFixed : Bool} (hfirst : first.shape = flatShape n isFixed)
    (hrest : List.Forall₂ (fun f t => t.shape = flatShape n f.isConstant) fs rest)
    (h : fn.applyOver first rest = some t) :
    t.shape = flatShape n (isFixed && (fn.arity == .exactly 1 || areConstant fs)) := by
  cases fn
  case pow => exact shape_foldlM_flat hfirst hrest h
  case min => exact shape_foldlM_flat hfirst hrest h
  case max => exact shape_foldlM_flat hfirst hrest h
  -- the other functions keep the shape of their first argument
  all_goals
    cases h
    exact hfirst.trans (congrArg (flatShape n) (Bool.and_true isFixed).symm)

variable [Scalar α] {u v : Tensor α}

mutual

/-- Over two arrays of one length, the array of a part is a single number exactly if the part is
constant. -/
theorem shape_evalOver_flat (hu : u.shape = [n]) (hv : v.shape = [n]) :
    ∀ (f : Formula) {t : Tensor α}, f.evalOver u v = some t → t.shape = flatShape n f.isConstant
  | .number value, _, h => by
    cases h
    rfl
  | .variable name, _, h => by
    cases h
    rw [parameters]
    split
    · exact hu
    · exact hv
  | .signed .plus operand, _, h => shape_evalOver_flat hu hv operand h
  | .signed .minus operand, _, h => by
    obtain ⟨t, ht, h⟩ := Option.bind_eq_some_iff.mp h
    cases h
    show t.shape = flatShape n operand.isConstant
    exact shape_evalOver_flat hu hv operand ht
  | .binary op left right, _, h => by
    obtain ⟨l, hl, h⟩ := Option.bind_eq_some_iff.mp h
    obtain ⟨r, hr, h⟩ := Option.bind_eq_some_iff.mp h
    exact shape_zipWith_flat (shape_evalOver_flat hu hv left hl)
      (shape_evalOver_flat hu hv right hr) h
  | .call fn first rest, _, h => by
    obtain ⟨t, ht, h⟩ := Option.bind_eq_some_iff.mp h
    obtain ⟨ts, hts, h⟩ := Option.bind_eq_some_iff.mp h
    exact shape_applyOver_flat fn (shape_evalOver_flat hu hv first ht)
      (shape_evalAllOver_flat hu hv rest hts) h

theorem shape_evalAllOver_flat (hu : u.shape = [n]) (hv : v.shape = [n]) :
    ∀ (fs : List Formula) {ts : List (Tensor α)}, evalAllOver u v fs = some ts →
    List.Forall₂ (fun f t => t.shape = flatShape n f.isConstant) fs ts
  | [], _, h => by
    cases h
    exact .nil
  | f :: fs, _, h => by
    obtain ⟨t, ht, h⟩ := Option.bind_eq_some_iff.mp h
    obtain ⟨ts, hts, h⟩ := Option.bind_eq_some_iff.mp h
    cases h
    exact .cons (shape_evalOver_flat hu hv f ht) (shape_evalAllOver_flat hu hv fs hts)

end

/-- Over two arrays of one length, an exponent is shared exactly if it is constant. -/
theorem sharedOver_flat (hu : u.shape = [n]) (hv : v.shape = [n]) :
    sharedOver u v = fun _ exponent => exponent.isConstant := by
  funext base exponent
  have hfits (t : Tensor α) : Tensor.Represents t.shape t fun is => t.entry (aligned t.shape is) :=
    Tensor.represents_of_fitsInto ⟨le_rfl, fun _ => .inr rfl⟩
  obtain ⟨b, hb, -⟩ := evalOver_represents (hfits u) (hu.trans hv.symm ▸ hfits v) base
  obtain ⟨e, he, -⟩ := evalOver_represents (hfits u) (hu.trans hv.symm ▸ hfits v) exponent
  rw [sharedOver_eq hb he, shape_evalOver_flat hu hv base hb, shape_evalOver_flat hu hv exponent he,
    repeats_flatShape]

end Formula

namespace Tensor

variable {α : Type}

theorem indices_singleton (n : Nat) : indices [n] = (List.range n).map fun i => [i] :=
  List.flatMap_pure_eq_map _ _

theorem entries_of_shape {t : Tensor α} {n : Nat} (h : t.shape = [n]) :
    t.entries = (List.range n).map fun i => t.entry [i] := by
  rw [entries, h, indices_singleton, List.map_map]
  rfl

theorem aligned_singleton {n i : Nat} (h : i < n) : aligned [n] [i] = [i] := by
  by_cases hn : n = 1
  · have hi : i = 0 := by omega
    simp [aligned, hn, hi]
  · simp [aligned, hn]

theorem entry_ofList {default : α} {xs : List α} {i : Nat} (h : i < xs.length) :
    (ofList default xs).entry [i] = xs[i] := by
  simp [ofList, ofEntries, offset, size, h]

end Tensor

/-- Evaluated at some points at once, an expression has the value at each of them that it has among
many points. -/
theorem Compiled.valuesAt_eq (c : Compiled) (points : List (Float × Float)) :
    c.valuesAt points = some (points.map fun p => c.valueAmong p.1 p.2) := by
  have hshape (f : Float × Float → Float) :
      (Tensor.ofList 0 (points.map f)).shape = [points.length] := by
    rw [Tensor.ofList, Tensor.ofEntries, List.length_map]
  have hdims (f : Float × Float → Float) :
      (Tensor.ofList 0 (points.map f)).shape.length ≤ Settings.maxStretchedDimensions := by
    rw [hshape]
    exact Nat.le_of_ble_eq_true rfl
  obtain ⟨t, ht, hvalues, hentries⟩ := evaluate_of_commonShape (c := c) (hdims (·.1)) (hdims (·.2))
    (by rw [hshape, hshape]; exact Formula.commonShape_flatShape points.length false false)
  rw [valuesAt, ht]
  refine congrArg some ?_
  rw [Tensor.entries_of_shape hvalues]
  refine List.ext_getElem (by simp) fun i hi hi' => ?_
  have hi : i < points.length := by simpa using hi'
  have hvalue := hentries [i] (by
    show [i] ∈ Tensor.indices [points.length]
    rw [Tensor.indices_singleton]
    exact List.mem_map.mpr ⟨i, List.mem_range.mpr hi, rfl⟩)
  rw [hshape, hshape, Tensor.aligned_singleton hi, Tensor.entry_ofList (by simpa using hi),
    Tensor.entry_ofList (by simpa using hi), Formula.valueOver,
    Formula.sharedOver_flat (hshape (·.1)) (hshape (·.2))] at hvalue
  simpa [valueAmong] using hvalue

end SurfaceStudio
