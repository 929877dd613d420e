import SurfaceStudio.Proofs.Formula.Phrases
import SurfaceStudio.Proofs.Formula.Sharing
import SurfaceStudio.Proofs.Tensor.Stretching
/-!
# Expressions over arrays

While the parameters run through arrays, each part of an expression has an array of its own shape.
All of them stand for functions on the indices of the shape that the two arrays are stretched to,
and what they stand for is the value of the part at the entries of the arrays.
-/

namespace SurfaceStudio

namespace Formula

open Tensor (Represents)

variable {α : Type} [Scalar α]

/-- A base and its exponent, by the arrays of their values, share the exponent. -/
def sharedOver (u v : Tensor α) (base exponent : Formula) : Bool :=
  match base.evalOver u v, exponent.evalOver u v with
  | some b, some e => Tensor.repeats b.shape e.shape
  | _, _ => true

/-- The value of an expression at two entries, with exponents shared as the arrays have it. -/
def valueOver (u v : Tensor α) (x y : α) (f : Formula) : α :=
  f.evalSharing (sharedOver u v) (parameters x y)

section

variable {u v : Tensor α} {target : List Nat} {x y : List Nat → α}

theorem sharedOver_eq {base exponent : Formula} {b e : Tensor α} (hb : base.evalOver u v = some b)
    (he : exponent.evalOver u v = some e) :
    sharedOver u v base exponent = Tensor.repeats b.shape e.shape := by
  rw [sharedOver, hb, he]

/-- The power for a base and its exponents is the one that is chosen by what they share. -/
theorem powerOver_eq {base : Formula} {b : Tensor α} (hb : base.evalOver u v = some b)
    {exponents : List Formula} {es : List (Tensor α)}
    (hes : List.Forall₂ (fun f e => f.evalOver u v = some e) exponents es) :
    powerOver b es = powerFor (exponents.all (sharedOver u v base)) := by
  rw [powerOver]
  congr 1
  induction hes with
  | nil => rfl
  | cons he _ ih => rw [List.all_cons, List.all_cons, ih, sharedOver_eq hb he]

/-- A function over arrays stands for the function of what the arrays stand for. -/
theorem applyOver_represents (fn : Fn) {first : Tensor α} {g : List Nat → α}
    (hfirst : Represents target first g) {fs : List Formula} {rest : List (Tensor α)}
    {k : Formula → List Nat → α}
    (hrest : List.Forall₂ (fun f t => Represents target t (k f)) fs rest) :
    ∃ t, fn.applyOver first rest = some t ∧
      Represents target t fun is =>
        fn.apply (powerOver first rest) (g is) (fs.map fun f => k f is) := by
  cases fn
  case pow => exact hfirst.foldlM _ hrest
  case min => exact hfirst.foldlM _ hrest
  case max => exact hfirst.foldlM _ hrest
  -- the other functions look at their first argument only
  all_goals exact ⟨_, rfl, hfirst.map _⟩

mutual

/-- Every part of an expression has an array, which stands for the values of the part. -/
theorem evalOver_represents (hu : Represents target u x) (hv : Represents target v y) :
    ∀ f : Formula, ∃ t, f.evalOver u v = some t ∧
      Represents target t fun is => f.valueOver u v (x is) (y is)
  | .number value => ⟨_, rfl, Tensor.represents_scalar _⟩
  | .variable name => by
    refine ⟨_, rfl, ?_⟩
    simp only [valueOver, evalSharing, parameters]
    split
    · exact hu
    · exact hv
  | .signed .plus operand => evalOver_represents hu hv operand
  | .signed .minus operand => by
    obtain ⟨t, ht, hrep⟩ := evalOver_represents hu hv operand
    exact ⟨_, by rw [evalOver, ht]; rfl, hrep.map _⟩
  | .binary op left right => by
    obtain ⟨l, hl, hleft⟩ := evalOver_represents hu hv left
    obtain ⟨r, hr, hright⟩ := evalOver_represents hu hv right
    obtain ⟨t, ht, hrep⟩ := hleft.zipWith hright (op.apply (powerOver l [r]))
    refine ⟨t, by rw [evalOver, hl, hr]; exact ht, ?_⟩
    rw [powerOver_eq hl (.cons hr .nil), List.all_cons, List.all_nil, Bool.and_true] at hrep
    exact hrep
  | .call fn first rest => by
    obtain ⟨t, ht, hfirst⟩ := evalOver_represents hu hv first
    obtain ⟨ts, hts, hrest⟩ := evalAllOver_represents hu hv rest
    obtain ⟨t', ht', hrep⟩ := applyOver_represents fn hfirst (hrest.imp fun _ _ h => h.2)
    refine ⟨t', by rw [evalOver, ht, hts]; exact ht', ?_⟩
    rw [powerOver_eq ht (hrest.imp fun _ _ h => h.1)] at hrep
    simp only [valueOver, evalSharing, evalAllSharing_eq_map]
    exact hrep

/-- The same for each of several expressions. -/
theorem evalAllOver_represents (hu : Represents target u x) (hv : Represents target v y) :
    ∀ fs : List Formula, ∃ ts, evalAllOver u v fs = some ts ∧
      List.Forall₂ (fun f t => f.evalOver u v = some t ∧
        Represents target t fun is => f.valueOver u v (x is) (y is)) fs ts
  | [] => ⟨[], rfl, .nil⟩
  | f :: fs => by
    obtain ⟨t, ht, hrep⟩ := evalOver_represents hu hv f
    obtain ⟨ts, hts, hreps⟩ := evalAllOver_represents hu hv fs
    exact ⟨t :: ts, by rw [evalAllOver, ht, hts]; rfl, .cons ⟨ht, hrep⟩ hreps⟩

end

end

end Formula

namespace Compiled

open Tensor (aligned commonShape Match IsCommonShape)

variable {α : Type} [Scalar α]

/-- The powers in the values of an expression over two arrays agree, for the entries that stretching
assigns to some indices. -/
def PowersAgreeOver (c : Compiled) (u v : Tensor α) (is : List Nat) : Prop :=
  c.formula.PowersAgree (Formula.sharedOver u v)
    (Formula.parameters (u.entry (aligned u.shape is)) (v.entry (aligned v.shape is)))

/-- An array holds the values of an expression at the entries of two arrays. -/
def HoldsValues (c : Compiled) (u v t : Tensor α) : Prop :=
  ∀ is ∈ Tensor.indices t.shape, c.PowersAgreeOver u v is →
    t.entry is = c.value (u.entry (aligned u.shape is)) (v.entry (aligned v.shape is))

variable {c : Compiled} {u v : Tensor α}

theorem evaluate_of_tooMany (h : Settings.maxStretchedDimensions < u.shape.length ∨
    Settings.maxStretchedDimensions < v.shape.length) :
    c.evaluate u v = .error .tooManyDimensions := by
  rw [evaluate, if_pos]
  simpa using h

section

variable (hu : u.shape.length ≤ Settings.maxStretchedDimensions)
  (hv : v.shape.length ≤ Settings.maxStretchedDimensions)

include hu hv

theorem evaluate_of_not_match (h : ¬ Match u.shape v.shape) :
    c.evaluate u v = .error .shapesDiffer := by
  rw [evaluate, if_neg (by simp; omega), Tensor.commonShape_eq_none_iff.mpr h]
  rfl

/-- Over two arrays with a common shape, an entry of the values is the value at two entries of the
arrays, with exponents shared as the arrays have it. -/
theorem evaluate_of_commonShape {shape : List Nat} (h : commonShape u.shape v.shape = some shape) :
    ∃ t, c.evaluate u v = .ok t ∧ t.shape = shape ∧ ∀ is ∈ Tensor.indices shape,
      t.entry is = c.formula.valueOver u v (u.entry (aligned u.shape is))
        (v.entry (aligned v.shape is)) := by
  obtain ⟨hfitsU, hfitsV⟩ := Tensor.fitsInto_of_commonShape h
  obtain ⟨values, hvalues, hrep⟩ := Formula.evalOver_represents
    (Tensor.represents_of_fitsInto hfitsU) (Tensor.represents_of_fitsInto hfitsV) c.formula
  obtain ⟨t, ht, hshape, hentries⟩ := hrep.stretchTo
  refine ⟨t, ?_, hshape, fun is his => hentries is (Tensor.length_of_mem_indices his)⟩
  rw [evaluate, if_neg (by simp; omega), h, hvalues]
  simp only [Option.bind_eq_bind, Option.bind_some, ht]

/-- An expression has its values over two arrays that match. -/
theorem evaluate_of_match (h : Match u.shape v.shape) : ∃ t, c.evaluate u v = .ok t ∧
    IsCommonShape u.shape v.shape t.shape ∧ c.HoldsValues u v t := by
  obtain ⟨shape, hshape⟩ := Tensor.exists_commonShape h
  obtain ⟨t, ht, rfl, hentries⟩ := evaluate_of_commonShape (c := c) hu hv hshape
  refine ⟨t, ht, (Tensor.commonShape_eq_some_iff.mp hshape).2, fun is his hpow => ?_⟩
  rw [hentries is his]
  exact Formula.evalSharing_eq_eval c.formula hpow

end

/-- An expression over two arrays of at most 32 dimensions has no values exactly if their shapes do
not match. If they do, its values are an array of the common shape, which holds the value of the
expression at the entries that stretching assigns to each index, as far as powers come out the same
with a shared exponent as with one of their own. Over arrays of more dimensions it has no values. -/
theorem evaluate_entrywise (c : Compiled) (u v : Tensor Float) :
    (32 < u.shape.length ∨ 32 < v.shape.length → c.evaluate u v = .error .tooManyDimensions) ∧
    (u.shape.length ≤ 32 → v.shape.length ≤ 32 →
      (c.evaluate u v = .error .shapesDiffer ↔ ¬ Match u.shape v.shape) ∧
      (Match u.shape v.shape → ∃ t, c.evaluate u v = .ok t ∧
        IsCommonShape u.shape v.shape t.shape ∧ c.HoldsValues u v t)) := by
  refine ⟨evaluate_of_tooMany, fun hu hv => ⟨⟨fun herror hmatch => ?_, ?_⟩, ?_⟩⟩
  · obtain ⟨t, ht, -⟩ := evaluate_of_match (c := c) hu hv hmatch
    cases herror.symm.trans ht
  · exact evaluate_of_not_match hu hv
  · exact evaluate_of_match hu hv

/-- A power over a column of bases and a row of exponents. -/
theorem evaluate_entrywise_power :
    let c : Compiled := ⟨"u ^ v + 1", .binary .add (.binary .pow (.variable "u") (.variable "v"))
      (.number 1)⟩
    let u : Tensor Float := .ofEntries [2, 1] #[-0.0, 2] 0
    let v : Tensor Float := .ofEntries [3] #[3, 4, 5] 0
    Match u.shape v.shape ∧ (∀ is ∈ Tensor.indices [2, 3], c.PowersAgreeOver u v is) ∧
      ∃ t, c.evaluate u v = .ok t ∧ IsCommonShape u.shape v.shape t.shape ∧ t.shape = [2, 3] ∧
        ∀ is ∈ Tensor.indices [2, 3],
          t.entry is = c.value (u.entry (aligned [2, 1] is)) (v.entry (aligned [3] is)) := by
  intro c u v
  have hmatch : Match u.shape v.shape :=
    (Tensor.commonShape_eq_some_iff.mp (rfl : commonShape [2, 1] [3] = some [2, 3])).1
  have hclear : ∀ is ∈ Tensor.indices [2, 3], [-1, 0, 0.5, 1, 2].all
      (fun special => !(v.entry (aligned [3] is) == special)) = true := by
    decide +kernel
  have hpow : ∀ is ∈ Tensor.indices [2, 3], c.PowersAgreeOver u v is := fun is his =>
    ⟨⟨trivial, trivial, fun _ _ => ⟨Formula.ownPower_eq_commonPower (hclear is his) _, trivial⟩⟩,
      trivial, nofun⟩
  obtain ⟨t, ht, hcommon, hvalues⟩ :=
    ((evaluate_entrywise c u v).2 (by decide) (by decide)).2 hmatch
  have hshape : t.shape = [2, 3] := by
    have h := Tensor.commonShape_eq_some_iff.mpr ⟨hmatch, hcommon⟩
    exact Option.some.inj (h.symm.trans (rfl : commonShape [2, 1] [3] = some [2, 3]))
  rw [HoldsValues, hshape] at hvalues
  exact ⟨hmatch, hpow, t, ht, hcommon, hshape, fun is his => hvalues is his (hpow is his)⟩

/-- An array of 33 dimensions matches a single number, and yet there are no values over the two. -/
theorem evaluate_refuses_many_dimensions :
    let u : Tensor Float := .ofEntries (List.replicate 33 1) #[1.5] 0
    let v : Tensor Float := .scalar 2
    Compiled.ofText "u" = .ok ⟨"u", .variable "u"⟩ ∧ Match u.shape v.shape ∧
      Compiled.evaluate ⟨"u", .variable "u"⟩ u v = .error .tooManyDimensions := by
  intro u v
  have htext := (Formula.writes_parameter (.inl rfl)).factor.term.sum
  exact ⟨htext.ofText, fun k => .inr (.inr (Tensor.dimension_nil k)), rfl⟩

end Compiled

end SurfaceStudio
