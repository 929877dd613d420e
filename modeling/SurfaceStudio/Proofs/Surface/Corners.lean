import SurfaceStudio.Proofs.Grid.Covering
import SurfaceStudio.Proofs.Surface.Building
/-!
# The corners of a mesh

The first vertex of a mesh is at the lower ends of both axes, the last one at the last positions.
These are the upper ends of the axes as far as the axes cover their intervals.
-/

namespace SurfaceStudio

namespace Grid

variable {us vs : List Float} {u v : Float}

theorem head?_rows (hu : us.head? = some u) (hv : vs.head? = some v) :
    (rows us vs).head? = some (u, v) := by
  obtain ⟨us', rfl⟩ := List.head?_eq_some_iff.mp hu
  obtain ⟨vs', rfl⟩ := List.head?_eq_some_iff.mp hv
  rw [rows, List.flatMap_cons, List.map_cons, List.cons_append, List.head?_cons]

theorem getLast?_rows (hu : us.getLast? = some u) (hv : vs.getLast? = some v) :
    (rows us vs).getLast? = some (u, v) := by
  obtain ⟨us', rfl⟩ := List.getLast?_eq_some_iff.mp hu
  obtain ⟨vs', rfl⟩ := List.getLast?_eq_some_iff.mp hv
  rw [rows, List.flatMap_append, List.flatMap_singleton, List.map_append, List.map_singleton,
    ← List.append_assoc, List.getLast?_concat]

end Grid

namespace Surface

/-- The first and the last vertex of a mesh are the positions at the ends of its axes. -/
structure HasCorners (s : Coordinates) (us vs : List Float) (mesh : Mesh Float) : Prop where
  first : ∃ u v, us.head? = some u ∧ vs.head? = some v ∧
    mesh.positions[0]? = some (s.position (u, v))
  last : ∃ u v, us.getLast? = some u ∧ vs.getLast? = some v ∧
    mesh.positions.back? = some (s.position (u, v))

/-- The vertices of a mesh are the positions at the points of the grid. -/
theorem positions_of_tessellate {s : Coordinates} {r : Grid.Request} {g : Grid}
    {pts : List (Float × Float)} {mesh : Mesh Float} (hg : Grid.validate r = .ok g)
    (hpts : g.points = .ok pts)
    (h : tessellate s.x.coordinate s.y.coordinate s.z.coordinate r = .ok mesh) :
    mesh.positions = (pts.map s.position).toArray := by
  obtain ⟨g', pts', hg', hpts', -, rfl⟩ := Draft.tessellate_eq_ok h
  cases hg.symm.trans hg'
  cases hpts.symm.trans hpts'
  rfl

theorem hasCorners_of_positions {s : Coordinates} {us vs : List Float} {mesh : Mesh Float}
    (hus : us ≠ []) (hvs : vs ≠ [])
    (h : mesh.positions = ((Grid.rows us vs).map s.position).toArray) :
    HasCorners s us vs mesh := by
  have hfirst := Grid.head?_rows (List.head?_eq_some_head hus) (List.head?_eq_some_head hvs)
  have hlast := Grid.getLast?_rows (List.getLast?_eq_some_getLast hus)
    (List.getLast?_eq_some_getLast hvs)
  refine ⟨⟨_, _, List.head?_eq_some_head hus, List.head?_eq_some_head hvs, ?_⟩,
    ⟨_, _, List.getLast?_eq_some_getLast hus, List.getLast?_eq_some_getLast hvs, ?_⟩⟩
  · rw [h, List.getElem?_toArray, ← List.head?_eq_getElem?, List.head?_map, hfirst, Option.map_some]
  · rw [h, List.back?_toArray, List.getLast?_map, hlast, Option.map_some]

/-- A grid over doubles that is accepted has both of its axes. Each of them starts at its lower end
and follows in order, near its upper end if not at it, unless a position is beyond all doubles; it
covers its interval if its last position is the upper end. The first and the last vertex of a mesh
over the grid are the surface at the first and at the last positions. -/
theorem axes_and_corners {a b c d : Float} {m n : Json} {g : Grid}
    (h : Grid.validate ⟨.float a, .float b, .float c, .float d, m, n⟩ = .ok g) :
    m = .int g.uSteps ∧ n = .int g.vSteps ∧
      ∃ us vs, Grid.boundedAxis g.uMin g.uMax g.uSteps = .ok us ∧
        Grid.boundedAxis g.vMin g.vMax g.vSteps = .ok vs ∧
        Grid.Spans a b g.uSteps us ∧ Grid.Spans c d g.vSteps vs ∧
        ∀ (s : Coordinates) (mesh : Mesh Float),
          tessellate s.x.coordinate s.y.coordinate s.z.coordinate
            ⟨.float a, .float b, .float c, .float d, m, n⟩ = .ok mesh →
          HasCorners s us vs mesh := by
  obtain ⟨hm, hn, hg, hu, hv⟩ := Grid.admissible_of_validate h
  have hus : Grid.boundedAxis g.uMin g.uMax g.uSteps = .ok (Grid.axis a b g.uSteps) := by
    rw [hg]
    rfl
  have hvs : Grid.boundedAxis g.vMin g.vMax g.vSteps = .ok (Grid.axis c d g.vSteps) := by
    rw [hg]
    rfl
  refine ⟨hm, hn, _, _, hus, hvs, hu.spans, hv.spans, fun s mesh hmesh => ?_⟩
  have hpoints := Grid.points_eq_ok_iff.mpr ⟨_, _, hus, hvs, rfl⟩
  refine hasCorners_of_positions ?_ ?_ (positions_of_tessellate h hpoints hmesh)
  · exact List.ne_nil_of_length_eq_add_one (Grid.length_axis a b g.uSteps)
  · exact List.ne_nil_of_length_eq_add_one (Grid.length_axis c d g.vSteps)

/-- The unit square is covered in four steps. -/
theorem axes_and_corners_unit_square :
    let g : Grid := ⟨.double 0, .double 1, .double 0, .double 1, 4, 4⟩
    Grid.validate ⟨.float 0, .float 1, .float 0, .float 1, .int 4, .int 4⟩ = .ok g ∧
      ∃ us vs, Grid.boundedAxis g.uMin g.uMax g.uSteps = .ok us ∧
        Grid.boundedAxis g.vMin g.vMax g.vSteps = .ok vs ∧ Grid.Covers 0 1 us ∧
        Grid.Covers 0 1 vs := by
  intro g
  have hzero : Decimal.units? 0 = some 0 := by decide +kernel
  have hone : Decimal.units? 1 = some (Decimal.twoTo 1074 : Nat) := by decide +kernel
  have hpos : (0 : ℤ) < (Decimal.twoTo 1074 : Nat) := by decide +kernel
  have hg : Grid.validate ⟨.float 0, .float 1, .float 0, .float 1, .int 4, .int 4⟩ = .ok g :=
    Grid.validate_doubles hzero hone hzero hone hpos hpos le_rfl le_rfl (by decide)
  have hend : (Grid.place 0 1 4 4 == 1) = true := by decide +kernel
  obtain ⟨-, -, us, vs, hus, hvs, hu, hv, -⟩ := axes_and_corners hg
  refine ⟨hg, us, vs, hus, hvs, hu.covers_iff.mpr ?_, hv.covers_iff.mpr ?_⟩
  · cases hus
    exact ⟨_, Grid.getLast?_axis 0 1 4, hend⟩
  · cases hvs
    exact ⟨_, Grid.getLast?_axis 0 1 4, hend⟩

/-- Not every accepted grid covers its rectangle: the axis from `0.3` to `0.9` in four steps ends
above `0.9`. -/
theorem rectangle_not_covered :
    ¬ ∀ (a b c d : Float) (m n : Json) (g : Grid),
      Grid.validate ⟨.float a, .float b, .float c, .float d, m, n⟩ = .ok g →
      ∃ us vs, Grid.boundedAxis g.uMin g.uMax g.uSteps = .ok us ∧
        Grid.boundedAxis g.vMin g.vMax g.vSteps = .ok vs ∧ Grid.Covers a b us ∧
        Grid.Covers c d vs := by
  intro hall
  have hlow : Decimal.units? 0.3 = some (5404319552844595 * Decimal.twoTo 1020 : Nat) := by
    decide +kernel
  have hhigh : Decimal.units? 0.9 = some (8106479329266893 * Decimal.twoTo 1021 : Nat) := by
    decide +kernel
  have hzero : Decimal.units? 0 = some 0 := by decide +kernel
  have hone : Decimal.units? 1 = some (Decimal.twoTo 1074 : Nat) := by decide +kernel
  have hg := Grid.validate_doubles (m := 4) (n := 4) hlow hhigh hzero hone (by decide +kernel)
    (by decide +kernel) le_rfl le_rfl (by decide)
  obtain ⟨us, vs, hus, -, hcovers, -⟩ := hall _ _ _ _ _ _ _ hg
  cases hus
  obtain ⟨u, hu, hbeq⟩ := hcovers.last
  rw [Grid.getLast?_axis, Option.some.injEq] at hu
  rw [← hu] at hbeq
  exact absurd hbeq (by decide +kernel)

end Surface

end SurfaceStudio
