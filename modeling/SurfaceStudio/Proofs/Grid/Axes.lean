import Mathlib
import SurfaceStudio.Proofs.Grid.Points
/-!
# The axes of accepted grids

A grid is accepted, or a condition is violated, or one of its bounds is an integer beyond all
doubles. An accepted grid has both of its axes unless one of them runs between two integers that are
too far apart for a word of 64 bits.
-/

namespace SurfaceStudio.Grid

/-! ## Accepted bounds -/

theorem doubleOfInteger_of_isFinite {n : Int} (h : (Float.ofInt n).isFinite = true) :
    ∃ x, Json.doubleOfInteger n = .ok x :=
  ⟨Float.ofInt n, by simp [Json.doubleOfInteger, Decimal.ofInteger?, h]⟩

theorem finiteBound_int {n : Int} {x : Float} (h : Json.doubleOfInteger n = .ok x) :
    finiteBound (.int n) = .ok ⟨.integer n, integerUnits n⟩ := by
  simp only [finiteBound, bound?, measure?, h, Except.map]

theorem integerUnits_le_iff {m n : Int} : integerUnits m ≤ integerUnits n ↔ m ≤ n := by
  have hpos : ∀ k, 0 < Decimal.twoTo k := fun k => Nat.pow_pos Nat.two_pos
  exact Int.mul_le_mul_iff_of_pos_right (Int.natCast_pos.mpr (hpos 1074))

/-- What can keep a grid from being accepted: a violated condition, or an integer that no double
comes near to. -/
inductive Obstacle : Trouble → Prop where
  | violation (v : Violation) : Obstacle (.failure (.invalidGrid v.message))
  | beyondDoubles : Obstacle (.fault .integerBeyondDoubles)

/-- A submitted bound has a nearest double, or it is an obstacle. -/
theorem finiteBound_cases (v : Json) :
    (∃ m x, finiteBound v = .ok m ∧ m.bound.toDouble = .ok x) ∨
      ∃ e, finiteBound v = .error e ∧ Obstacle e := by
  unfold finiteBound
  rcases bound? v with _ | n | x
  · exact .inr ⟨_, rfl, .violation _⟩
  · rcases hn : Decimal.ofInteger? n with _ | x
    · have hdouble : Json.doubleOfInteger n = .error .integerBeyondDoubles := by
        rw [Json.doubleOfInteger, hn]
      refine .inr ⟨_, ?_, .beyondDoubles⟩
      simp only [measure?, hdouble, Except.map]
    · have hdouble : Json.doubleOfInteger n = .ok x := by rw [Json.doubleOfInteger, hn]
      refine .inl ⟨⟨.integer n, integerUnits n⟩, x, ?_, hdouble⟩
      simp only [measure?, hdouble, Except.map]
  · rcases hx : Decimal.units? x with _ | units
    · refine .inr ⟨_, ?_, .violation .boundsNotFinite⟩
      simp only [measure?, hx, Option.map_none, refuse]
    · refine .inl ⟨⟨.double x, units⟩, x, ?_, rfl⟩
      simp only [measure?, hx, Option.map_some]

/-- A grid is accepted with bounds that have nearest doubles, or there is an obstacle. -/
theorem validate_cases (r : Request) :
    (∃ g, validate r = .ok g ∧
      ∀ b ∈ [g.uMin, g.uMax, g.vMin, g.vMax], ∃ x, b.toDouble = .ok x) ∨
      ∃ e, validate r = .error e ∧ Obstacle e := by
  unfold validate
  -- the bounds are looked at in turn, up to the first one that is not accepted
  rcases finiteBound_cases r.uMin with ⟨uMin, a, huMin, ha⟩ | ⟨e, he, hobstacle⟩
  swap; · exact .inr ⟨e, by rw [he]; rfl, hobstacle⟩
  rcases finiteBound_cases r.uMax with ⟨uMax, b, huMax, hb⟩ | ⟨e, he, hobstacle⟩
  swap; · exact .inr ⟨e, by rw [huMin, he]; rfl, hobstacle⟩
  rcases finiteBound_cases r.vMin with ⟨vMin, c, hvMin, hc⟩ | ⟨e, he, hobstacle⟩
  swap; · exact .inr ⟨e, by rw [huMin, huMax, he]; rfl, hobstacle⟩
  rcases finiteBound_cases r.vMax with ⟨vMax, d, hvMax, hd⟩ | ⟨e, he, hobstacle⟩
  swap; · exact .inr ⟨e, by rw [huMin, huMax, hvMin, he]; rfl, hobstacle⟩
  simp only [huMin, huMax, hvMin, hvMax, bind, Except.bind]
  -- past the bounds a condition is violated or the grid is taken as it stands
  split
  · exact .inr ⟨_, rfl, .violation _⟩
  split
  · exact .inr ⟨_, rfl, .violation _⟩
  split
  · exact .inr ⟨_, rfl, .violation _⟩
  split
  · exact .inr ⟨_, rfl, .violation _⟩
  · refine .inl ⟨_, rfl, ?_⟩
    simp only [List.forall_mem_cons]
    exact ⟨⟨a, ha⟩, ⟨b, hb⟩, ⟨c, hc⟩, ⟨d, hd⟩, List.forall_mem_nil _⟩

theorem validate_obstacle {r : Request} {e : Trouble} (h : validate r = .error e) :
    Obstacle e := by
  rcases validate_cases r with ⟨g, hg, -⟩ | ⟨e', he', hobstacle⟩
  · cases h.symm.trans hg
  · cases h.symm.trans he'
    exact hobstacle

theorem validate_toDouble {r : Request} {g : Grid} (h : validate r = .ok g) :
    ∀ b ∈ [g.uMin, g.uMax, g.vMin, g.vMax], ∃ x, b.toDouble = .ok x := by
  rcases validate_cases r with ⟨g', hg', hbounds⟩ | ⟨e, he, -⟩
  · cases h.symm.trans hg'
    exact hbounds
  · cases h.symm.trans he

/-! ## Axes that fit -/

/-- The length of the axis between two integers is a signed word of 64 bits. Other axes are measured
in doubles. -/
def LengthFits : Bound → Bound → Prop
  | .integer a, .integer b => -2 ^ 63 ≤ b - a ∧ b - a < 2 ^ 63
  | _, _ => True

theorem wrapped_eq_self_iff {n : Int} : wrapped n = n ↔ -2 ^ 63 ≤ n ∧ n < 2 ^ 63 := by
  have hword : Decimal.twoTo 64 = 18446744073709551616 := rfl
  rw [wrapped, hword, Int.bmod]
  constructor
  · intro h
    split at h <;> omega
  · intro h
    split <;> omega

section Axes

variable {lo hi : Bound}

theorem boundedAxis_of_fits {a b : Float} (hlo : lo.toDouble = .ok a) (hhi : hi.toDouble = .ok b)
    (h : LengthFits lo hi) (steps : Nat) : ∃ us, boundedAxis lo hi steps = .ok us := by
  unfold boundedAxis
  split
  · next m n =>
    have hstart : Json.doubleOfInteger m = .ok a := hlo
    simp only [integerAxis, wrapped_eq_self_iff.mpr h, ne_eq, not_true_eq_false, if_false, hstart]
    exact ⟨_, rfl⟩
  · rw [hlo, hhi]
    exact ⟨_, rfl⟩

theorem boundedAxis_of_not_fits (h : ¬ LengthFits lo hi) (steps : Nat) :
    boundedAxis lo hi steps = .error .integerBeyondWords := by
  rcases lo with a | x <;> rcases hi with b | y
  · rw [boundedAxis, integerAxis]
    exact if_pos fun hwrapped => h (wrapped_eq_self_iff.mp hwrapped)
  all_goals exact absurd trivial h

end Axes

/-- Both axes of a grid fit. -/
def AxesFit (g : Grid) : Prop := LengthFits g.uMin g.uMax ∧ LengthFits g.vMin g.vMax

/-- An accepted grid has its axes as soon as they fit. -/
theorem exists_axes {r : Request} {g : Grid} (hg : validate r = .ok g) (h : g.AxesFit) :
    ∃ us vs, boundedAxis g.uMin g.uMax g.uSteps = .ok us ∧
      boundedAxis g.vMin g.vMax g.vSteps = .ok vs := by
  have hbounds := validate_toDouble hg
  simp only [List.forall_mem_cons] at hbounds
  obtain ⟨⟨_, huMin⟩, ⟨_, huMax⟩, ⟨_, hvMin⟩, ⟨_, hvMax⟩, -⟩ := hbounds
  obtain ⟨us, hus⟩ := boundedAxis_of_fits huMin huMax h.1 g.uSteps
  obtain ⟨vs, hvs⟩ := boundedAxis_of_fits hvMin hvMax h.2 g.vSteps
  exact ⟨us, vs, hus, hvs⟩

theorem points_of_not_axesFit {r : Request} {g : Grid} (hg : validate r = .ok g)
    (h : ¬ g.AxesFit) : g.points = .error .integerBeyondWords := by
  rw [points]
  by_cases hu : LengthFits g.uMin g.uMax
  · -- the first axis is there, and the second one is at fault
    have hbounds := validate_toDouble hg
    simp only [List.forall_mem_cons] at hbounds
    obtain ⟨⟨_, huMin⟩, ⟨_, huMax⟩, -⟩ := hbounds
    obtain ⟨us, hus⟩ := boundedAxis_of_fits huMin huMax hu g.uSteps
    rw [hus, boundedAxis_of_not_fits (fun hv => h ⟨hu, hv⟩)]
    rfl
  · rw [boundedAxis_of_not_fits hu]
    rfl

end SurfaceStudio.Grid
