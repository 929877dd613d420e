import SurfaceStudio.Grid.Samples
import SurfaceStudio.Proofs.Outcomes
/-!
# The points of a grid

An axis has one position more than it has steps, and the points of a grid are numbered row by row:
the point at the `i`-th position along `u` and the `j`-th along `v` has the number
`i * (vSteps + 1) + j`.
-/

namespace SurfaceStudio.Grid

/-! ## Positions along an axis -/

theorem length_axis {α : Type} [Scalar α] (lo hi : α) (steps : Nat) :
    (axis lo hi steps).length = steps + 1 := by
  rw [axis, List.length_map, List.length_range]

theorem length_integerAxis {lo hi : Int} {steps : Nat} {us : List Float}
    (h : integerAxis lo hi steps = .ok us) : us.length = steps + 1 := by
  simp only [integerAxis] at h
  split at h
  · cases h
  · obtain ⟨start, -, hus⟩ := bind_eq_ok.mp h
    cases hus
    rw [List.length_map, List.length_range]

theorem length_boundedAxis {lo hi : Bound} {steps : Nat} {us : List Float}
    (h : boundedAxis lo hi steps = .ok us) : us.length = steps + 1 := by
  unfold boundedAxis at h
  split at h
  · exact length_integerAxis h
  · obtain ⟨a, -, h⟩ := bind_eq_ok.mp h
    obtain ⟨b, -, h⟩ := bind_eq_ok.mp h
    cases h
    exact length_axis a b steps

/-! ## Points row by row -/

/-- The points that two axes span, the second one running fastest. -/
def rows (us vs : List Float) : List (Float × Float) :=
  us.flatMap fun u => vs.map fun v => (u, v)

/-- The points of a grid are those that its axes span, as soon as there are both axes. -/
theorem points_eq_ok_iff {g : Grid} {pts : List (Float × Float)} :
    g.points = .ok pts ↔
      ∃ us vs, boundedAxis g.uMin g.uMax g.uSteps = .ok us ∧
        boundedAxis g.vMin g.vMax g.vSteps = .ok vs ∧ pts = rows us vs := by
  simp only [points, bind_eq_ok, pure, Except.pure, Except.ok.injEq]
  constructor
  · rintro ⟨us, hus, vs, hvs, rfl⟩
    exact ⟨us, vs, hus, hvs, rfl⟩
  · rintro ⟨us, vs, hus, hvs, rfl⟩
    exact ⟨us, hus, vs, hvs, rfl⟩

theorem length_rows (us vs : List Float) : (rows us vs).length = us.length * vs.length := by
  induction us with
  | nil => rw [rows, List.flatMap_nil, List.length_nil, List.length_nil, Nat.zero_mul]
  | cons u us ih =>
    rw [rows, List.flatMap_cons, List.length_append, List.length_map, List.length_cons,
      Nat.succ_mul, Nat.add_comm]
    exact congrArg (· + vs.length) ih

theorem fst_mem_of_mem_rows {us vs : List Float} {p : Float × Float} (h : p ∈ rows us vs) :
    p.1 ∈ us := by
  obtain ⟨u, hu, hp⟩ := List.mem_flatMap.mp h
  obtain ⟨v, -, rfl⟩ := List.mem_map.mp hp
  exact hu

/-- The place of a point among the rows. -/
theorem getElem?_rows (us vs : List Float) (i j : Nat) (hj : j < vs.length) :
    (rows us vs)[i * vs.length + j]? = us[i]?.map fun u => (u, vs[j]) := by
  induction us generalizing i with
  | nil => rfl
  | cons u us ih =>
    rw [rows, List.flatMap_cons]
    rcases i with _ | i
    · -- the place is in the first row
      have hrow : j < (vs.map fun v => (u, v)).length := by rwa [List.length_map]
      rw [Nat.zero_mul, Nat.zero_add, List.getElem?_append_left hrow, List.getElem?_map,
        List.getElem?_eq_getElem hj]
      rfl
    · -- the place is past the first row, which is as long as the second axis
      have hplace : (i + 1) * vs.length + j - vs.length = i * vs.length + j := by
        rw [Nat.succ_mul]
        omega
      rw [List.getElem?_append_right (by rw [List.length_map, Nat.succ_mul]; omega),
        List.length_map, hplace, List.getElem?_cons_succ]
      exact ih i

section Points

variable {g : Grid} {pts : List (Float × Float)} {us vs : List Float}

theorem length_points (h : g.points = .ok pts) :
    pts.length = (g.uSteps + 1) * (g.vSteps + 1) := by
  obtain ⟨us, vs, hus, hvs, rfl⟩ := points_eq_ok_iff.mp h
  rw [length_rows, length_boundedAxis hus, length_boundedAxis hvs]

/-- The point at two positions of the axes stands at its number. -/
theorem getElem?_points (hus : boundedAxis g.uMin g.uMax g.uSteps = .ok us)
    (hvs : boundedAxis g.vMin g.vMax g.vSteps = .ok vs) (h : g.points = .ok pts) {i j : Nat}
    {u v : Float} (hu : us[i]? = some u) (hv : vs[j]? = some v) :
    pts[i * (g.vSteps + 1) + j]? = some (u, v) := by
  obtain ⟨us', vs', hus', hvs', rfl⟩ := points_eq_ok_iff.mp h
  cases hus.symm.trans hus'
  cases hvs.symm.trans hvs'
  obtain ⟨hj, rfl⟩ := List.getElem?_eq_some_iff.mp hv
  rw [← length_boundedAxis hvs, getElem?_rows us vs i j hj, hu, Option.map_some]

end Points

end SurfaceStudio.Grid
