import SurfaceStudio.Proofs.Grid.Axes
import SurfaceStudio.Proofs.Surface.Sampling
/-!
# The failure of the first bad sample

Where one of the three coordinates of a surface cannot be evaluated over the whole grid, every
sample is evaluated on its own. A sample is bad if a coordinate raises there or has a value that is
not finite. Raising goes before a value that is not finite, and of the coordinates that raise the
first one gives the message (`Surface.Blame`). The first bad sample in flat order decides how the
surface fails, and nothing after it matters.
-/

namespace SurfaceStudio

/-! ## Bad samples and their failures -/

/-- A coordinate that cannot be evaluated over some points at once: it has no such evaluation, or
one that raises there. -/
def Coordinate.FailsOver (f : Coordinate) (pts : List (Float × Float)) : Prop :=
  ∀ e, f.overGrid = some e → e pts = none

namespace Surface

section

variable (x y z : Coordinate)

/-- A coordinate raises at a point, or has a value there that is not finite. -/
def BadAt (p : Float × Float) : Prop :=
  ∃ f ∈ [x, y, z], ∀ w, f.sample p.1 p.2 = .ok w → w.isFinite = false

/-- The failure at a bad point. As soon as a coordinate raises, the first one that does gives the
message, whatever the values of those before it. -/
inductive Blame (p : Float × Float) : Failure → Prop where
  | raised (before f after message) : [x, y, z] = before ++ f :: after →
    (∀ g ∈ before, ∃ w, g.sample p.1 p.2 = .ok w) → f.sample p.1 p.2 = .error message →
    Blame p (.evaluation p.1 p.2 message)
  | nonFinite : (∀ f ∈ [x, y, z], ∃ w, f.sample p.1 p.2 = .ok w) →
    (∃ f ∈ [x, y, z], ∃ w, f.sample p.1 p.2 = .ok w ∧ w.isFinite = false) →
    Blame p (.nonFiniteVertex p.1 p.2)

/-- The point with the number `k` is the first bad one. -/
structure IsFirstBadSample (pts : List (Float × Float)) (k : Nat) (p : Float × Float) : Prop where
  nth : pts[k]? = some p
  bad : BadAt x y z p
  before : ∀ m < k, ∀ q, pts[m]? = some q → ¬ BadAt x y z q

/-- The values of the coordinates at a point, all of them finite. -/
structure HasPosition (p : Float × Float) (q : Vec3 Float) : Prop where
  x : x.sample p.1 p.2 = .ok q.x
  y : y.sample p.1 p.2 = .ok q.y
  z : z.sample p.1 p.2 = .ok q.z
  finite : q.isFinite = true

/-- The mesh of a surface over a grid: the triangles of the grid, and for each pair of positions on
the axes a vertex at the values of the coordinates there. -/
structure IsMeshOver (g : Grid) (us vs : List Float) (mesh : Mesh Float) : Prop where
  uSteps : mesh.uSteps = g.uSteps
  vSteps : mesh.vSteps = g.vSteps
  triangles : mesh.triangles = Grid.triangles g.uSteps g.vSteps
  size : mesh.positions.size = (g.uSteps + 1) * (g.vSteps + 1)
  vertex : ∀ i ≤ g.uSteps, ∀ j ≤ g.vSteps, ∃ u v q, us[i]? = some u ∧ vs[j]? = some v ∧
    mesh.positions[i * (g.vSteps + 1) + j]? = some q ∧ HasPosition x y z (u, v) q

end

section

variable {x y z : Coordinate} {p : Float × Float} {pts : List (Float × Float)}

/-! ## One sample -/

theorem HasPosition.not_badAt {q : Vec3 Float} (h : HasPosition x y z p q) : ¬ BadAt x y z p := by
  have hfinite := h.finite
  simp only [Vec3.isFinite, Bool.and_eq_true] at hfinite
  obtain ⟨⟨hx, hy⟩, hz⟩ := hfinite
  rintro ⟨f, hf, hbad⟩
  simp only [List.mem_cons, List.not_mem_nil, or_false] at hf
  rcases hf with rfl | rfl | rfl
  · exact absurd hx (by simp [Scalar.isFinite, hbad _ h.x])
  · exact absurd hy (by simp [Scalar.isFinite, hbad _ h.y])
  · exact absurd hz (by simp [Scalar.isFinite, hbad _ h.z])

theorem Blame.badAt {e : Failure} (h : Blame x y z p e) : BadAt x y z p := by
  cases h with
  | @raised before f after message hsplit _ hraised =>
    refine ⟨f, hsplit ▸ List.mem_append_right before List.mem_cons_self, fun w hw => ?_⟩
    cases hraised.symm.trans hw
  | nonFinite _ hbad =>
    obtain ⟨f, hf, w, hw, hinfinite⟩ := hbad
    refine ⟨f, hf, fun w' hw' => ?_⟩
    cases hw.symm.trans hw'
    exact hinfinite

/-- A sample has a position, or the failure that a bad sample is blamed with. -/
theorem samplePosition_spec (x y z : Coordinate) (p : Float × Float) :
    (∃ q, samplePosition x y z p = .ok q ∧ HasPosition x y z p q) ∨
      ∃ e, samplePosition x y z p = .error e ∧ Blame x y z p e := by
  unfold samplePosition position
  -- the coordinates are evaluated in turn, up to the first one that raises
  rcases hx : x.sample p.1 p.2 with message | a
  · exact .inr ⟨_, rfl, .raised [] x [y, z] message rfl (List.forall_mem_nil _) hx⟩
  rcases hy : y.sample p.1 p.2 with message | b
  · refine .inr ⟨_, rfl, .raised [x] y [z] message rfl ?_ hy⟩
    exact List.forall_mem_singleton.mpr ⟨a, hx⟩
  rcases hz : z.sample p.1 p.2 with message | c
  · refine .inr ⟨_, rfl, .raised [x, y] z [] message rfl ?_ hz⟩
    exact List.forall_mem_cons.mpr ⟨⟨a, hx⟩, List.forall_mem_singleton.mpr ⟨b, hy⟩⟩
  -- none raises, so that only the values matter
  simp only [bind, Except.bind, pure, Except.pure]
  rcases hfinite : (⟨a, b, c⟩ : Vec3 Float).isFinite
  · refine .inr ⟨_, rfl, .nonFinite ?_ ?_⟩
    · simp only [List.forall_mem_cons]
      exact ⟨⟨a, hx⟩, ⟨b, hy⟩, ⟨c, hz⟩, List.forall_mem_nil _⟩
    · rw [Vec3.isFinite, Bool.and_eq_false_iff, Bool.and_eq_false_iff] at hfinite
      rcases hfinite with (ha | hb) | hc
      · exact ⟨x, by simp, a, hx, ha⟩
      · exact ⟨y, by simp, b, hy, hb⟩
      · exact ⟨z, by simp, c, hz, hc⟩
  · exact .inl ⟨⟨a, b, c⟩, rfl, hx, hy, hz, hfinite⟩

/-! ## All samples in a row -/

/-- Sample by sample there is a position everywhere, or the failure of the first bad sample. -/
theorem samplePositions_spec (x y z : Coordinate) (pts : List (Float × Float)) :
    (∃ ps, samplePositions x y z pts = .ok ps ∧ ps.length = pts.length ∧
      ∀ (k : Nat) p, pts[k]? = some p → ∃ q, ps[k]? = some q ∧ HasPosition x y z p q) ∨
      ∃ k p e, samplePositions x y z pts = .error e ∧ IsFirstBadSample x y z pts k p ∧
        Blame x y z p e := by
  unfold samplePositions
  induction pts with
  | nil => exact .inl ⟨[], rfl, rfl, by simp⟩
  | cons p pts ih =>
    rw [List.mapM_cons]
    rcases samplePosition_spec x y z p with ⟨q, hq, hposition⟩ | ⟨e, he, hblame⟩
    · rw [hq]
      rcases ih with ⟨ps, hps, hlength, hall⟩ | ⟨k, p', e, he, hfirst, hblame⟩
      · refine .inl ⟨q :: ps, by rw [hps]; rfl, by simp [hlength], fun k p' hp' => ?_⟩
        cases k with
        | zero =>
          cases hp'
          exact ⟨q, rfl, hposition⟩
        | succ k => exact hall k p' hp'
      · refine .inr ⟨k + 1, p', e, by rw [he]; rfl, ⟨hfirst.nth, hfirst.bad, ?_⟩, hblame⟩
        intro m hm p'' hp''
        cases m with
        | zero =>
          cases hp''
          exact hposition.not_badAt
        | succ m => exact hfirst.before m (by omega) p'' hp''
    · -- the loop stops at once
      refine .inr ⟨0, p, e, by rw [he]; rfl, ⟨rfl, hblame.badAt, ?_⟩, hblame⟩
      exact fun m hm => absurd hm (Nat.not_lt_zero m)

/-- Two surfaces do the same at a point. -/
def AgreeAt (x y z x' y' z' : Coordinate) (p : Float × Float) : Prop :=
  x'.sample p.1 p.2 = x.sample p.1 p.2 ∧ y'.sample p.1 p.2 = y.sample p.1 p.2 ∧
    z'.sample p.1 p.2 = z.sample p.1 p.2

theorem samplePosition_congr {x' y' z' : Coordinate} (h : AgreeAt x y z x' y' z' p) :
    samplePosition x' y' z' p = samplePosition x y z p := by
  obtain ⟨hx, hy, hz⟩ := h
  simp only [samplePosition, position, hx, hy, hz]

/-- The samples after a bad one do not matter. -/
theorem samplePositions_congr {x' y' z' : Coordinate} {k : Nat} (hk : pts[k]? = some p)
    (hbad : BadAt x y z p)
    (hagree : ∀ m ≤ k, ∀ q, pts[m]? = some q → AgreeAt x y z x' y' z' q) :
    samplePositions x' y' z' pts = samplePositions x y z pts := by
  unfold samplePositions
  induction pts generalizing k with
  | nil => cases hk
  | cons q pts ih =>
    rw [List.mapM_cons, List.mapM_cons,
      samplePosition_congr (hagree 0 (Nat.zero_le k) q rfl)]
    rcases samplePosition_spec x y z q with ⟨_, hq, hposition⟩ | ⟨e, he, -⟩
    · cases k with
      | zero =>
        cases hk
        exact absurd hbad hposition.not_badAt
      | succ k => rw [ih hk fun m hm q hq => hagree (m + 1) (by omega) q hq]
    · rw [he]
      rfl

/-! ## The whole surface -/

/-- One coordinate that fails over the points keeps the surface from being evaluated at once. -/
theorem gridPositions?_eq_none (h : ∃ f ∈ [x, y, z], f.FailsOver pts) :
    gridPositions? x y z pts = none := by
  obtain ⟨f, hf, hfails⟩ := h
  unfold gridPositions?
  rcases hx : x.overGrid with _ | ex
  · rfl
  rcases hy : y.overGrid with _ | ey
  · rfl
  rcases hz : z.overGrid with _ | ez
  · rfl
  simp only [List.mem_cons, List.not_mem_nil, or_false] at hf
  rcases hf with rfl | rfl | rfl
  · simp [hfails ex hx]
  · simp [hfails ey hy]
  · simp [hfails ez hz]

/-- Positions that are all finite pass the check for one that is not. -/
theorem firstNonFinite?_eq_none {ps : List (Vec3 Float)} (h : ∀ q ∈ ps, q.isFinite = true) :
    firstNonFinite? pts ps = none := by
  rw [firstNonFinite?, Option.map_eq_none_iff, List.find?_eq_none]
  rintro ⟨p, q⟩ hmem
  simp [h q (List.of_mem_zip hmem).2]

/-- What is not evaluated at once is evaluated sample by sample, and the check for a position that
is not finite is passed. -/
theorem positions_of_failsOver (h : ∃ f ∈ [x, y, z], f.FailsOver pts) :
    positions x y z pts = samplePositions x y z pts := by
  have hpositions : positions x y z pts =
      (samplePositions x y z pts).bind (finitePositions pts) := by
    rw [positions, gridPositions?_eq_none h]
    rfl
  rw [hpositions]
  rcases samplePositions_spec x y z pts with ⟨ps, hps, hlength, hall⟩ | ⟨_, _, e, he, -, -⟩
  · have hfinite : ∀ q ∈ ps, q.isFinite = true := by
      intro q hq
      obtain ⟨k, hk, rfl⟩ := List.getElem_of_mem hq
      obtain ⟨q, hkq, hposition⟩ :=
        hall k pts[k] (List.getElem?_eq_getElem (hlength ▸ hk))
      cases (List.getElem?_eq_getElem hk).symm.trans hkq
      exact hposition.finite
    rw [hps, Except.bind, finitePositions, firstNonFinite?_eq_none hfinite]
  · rw [he]
    rfl

theorem tessellate_of_not_axesFit {r : Grid.Request} {g : Grid} (hg : Grid.validate r = .ok g)
    (h : ¬ g.AxesFit) : tessellate x y z r = .error (.fault .integerBeyondWords) := by
  unfold tessellate
  rw [hg]
  show (faulting g.points >>= _) = _
  rw [Grid.points_of_not_axesFit hg h]
  rfl

/-- On an accepted grid with its axes the outcome is that of the positions. -/
theorem tessellate_of_axes {r : Grid.Request} {g : Grid} {us vs : List Float}
    (hg : Grid.validate r = .ok g) (hus : Grid.boundedAxis g.uMin g.uMax g.uSteps = .ok us)
    (hvs : Grid.boundedAxis g.vMin g.vMax g.vSteps = .ok vs)
    (h : ∃ f ∈ [x, y, z], f.FailsOver (Grid.rows us vs)) :
    tessellate x y z r = (refusing (samplePositions x y z (Grid.rows us vs))).map fun ps =>
      ⟨ps.toArray, Grid.triangles g.uSteps g.vSteps, g.uSteps, g.vSteps⟩ := by
  have hpoints : g.points = .ok (Grid.rows us vs) :=
    Grid.points_eq_ok_iff.mpr ⟨us, vs, hus, hvs, rfl⟩
  unfold tessellate
  rw [hg]
  show (faulting g.points >>= _) = _
  rw [hpoints]
  show (refusing (positions x y z (Grid.rows us vs)) >>= _) = _
  rw [positions_of_failsOver h]
  rcases samplePositions x y z (Grid.rows us vs) <;> rfl

/-- Positions at all points in flat order make a mesh over the grid. -/
theorem isMeshOver_of_positions {g : Grid} {us vs : List Float} {ps : List (Vec3 Float)}
    (hus : Grid.boundedAxis g.uMin g.uMax g.uSteps = .ok us)
    (hvs : Grid.boundedAxis g.vMin g.vMax g.vSteps = .ok vs)
    (hlength : ps.length = (Grid.rows us vs).length)
    (hall : ∀ (k : Nat) p, (Grid.rows us vs)[k]? = some p →
      ∃ q, ps[k]? = some q ∧ HasPosition x y z p q) :
    IsMeshOver x y z g us vs
      ⟨ps.toArray, Grid.triangles g.uSteps g.vSteps, g.uSteps, g.vSteps⟩ where
  uSteps := rfl
  vSteps := rfl
  triangles := rfl
  size := by
    rw [List.size_toArray, hlength, Grid.length_rows, Grid.length_boundedAxis hus,
      Grid.length_boundedAxis hvs]
  vertex := by
    intro i hi j hj
    have hi : i < us.length := by rw [Grid.length_boundedAxis hus]; omega
    have hj : j < vs.length := by rw [Grid.length_boundedAxis hvs]; omega
    have hpoint := Grid.getElem?_points hus hvs (Grid.points_eq_ok_iff.mpr ⟨us, vs, hus, hvs, rfl⟩)
      (List.getElem?_eq_getElem hi) (List.getElem?_eq_getElem hj)
    obtain ⟨q, hq, hposition⟩ := hall _ _ hpoint
    refine ⟨us[i], vs[j], q, List.getElem?_eq_getElem hi, List.getElem?_eq_getElem hj, ?_,
      hposition⟩
    rw [List.getElem?_toArray, hq]

end

/-- A surface of which one coordinate cannot be evaluated over the whole grid. A grid that is not
accepted fails as it fails by itself, and so does one with an axis between integers too far apart
for a word of 64 bits, whatever the coordinates do. Otherwise there is a mesh with the values of the
coordinates at each vertex if no sample is bad, and else the failure of the first bad sample in flat
order. What the coordinates do after a bad sample has no influence. -/
theorem tessellate_by_samples (x y z : Coordinate) (r : Grid.Request) :
    (∀ e, Grid.validate r = .error e → Grid.Obstacle e ∧ tessellate x y z r = .error e) ∧
    ∀ g, Grid.validate r = .ok g →
      (¬ g.AxesFit → tessellate x y z r = .error (.fault .integerBeyondWords)) ∧
      (g.AxesFit → ∃ us vs, Grid.boundedAxis g.uMin g.uMax g.uSteps = .ok us ∧
        Grid.boundedAxis g.vMin g.vMax g.vSteps = .ok vs ∧
        ((∃ f ∈ [x, y, z], f.FailsOver (Grid.rows us vs)) →
          ((∃ mesh, tessellate x y z r = .ok mesh ∧ IsMeshOver x y z g us vs mesh ∧
              ∀ p ∈ Grid.rows us vs, ¬ BadAt x y z p) ∨
            ∃ k p e, tessellate x y z r = .error (.failure e) ∧
              IsFirstBadSample x y z (Grid.rows us vs) k p ∧ Blame x y z p e) ∧
          ∀ (x' y' z' : Coordinate) (k : Nat) p,
            (∃ f ∈ [x', y', z'], f.FailsOver (Grid.rows us vs)) →
            (Grid.rows us vs)[k]? = some p → BadAt x y z p →
            (∀ m ≤ k, ∀ q, (Grid.rows us vs)[m]? = some q → AgreeAt x y z x' y' z' q) →
            tessellate x' y' z' r = tessellate x y z r)) := by
  refine ⟨fun e he => ⟨Grid.validate_obstacle he, ?_⟩,
    fun g hg => ⟨fun hfit => ?_, fun hfit => ?_⟩⟩
  · unfold tessellate
    rw [he]
    rfl
  · exact tessellate_of_not_axesFit hg hfit
  · obtain ⟨us, vs, hus, hvs⟩ := Grid.exists_axes hg hfit
    refine ⟨us, vs, hus, hvs, fun hfails => ⟨?_, fun x' y' z' k p hfails' hk hbad hagree => ?_⟩⟩
    · rw [tessellate_of_axes hg hus hvs hfails]
      rcases samplePositions_spec x y z (Grid.rows us vs) with
        ⟨ps, hps, hlength, hall⟩ | ⟨k, p, e, he, hfirst, hblame⟩
      · refine .inl ⟨_, by rw [hps]; rfl, isMeshOver_of_positions hus hvs hlength hall, ?_⟩
        intro p hp
        obtain ⟨k, hk⟩ := List.getElem?_of_mem hp
        obtain ⟨q, -, hposition⟩ := hall k p hk
        exact hposition.not_badAt
      · exact .inr ⟨k, p, e, by rw [he]; rfl, hfirst, hblame⟩
    · rw [tessellate_of_axes hg hus hvs hfails', tessellate_of_axes hg hus hvs hfails,
        samplePositions_congr hk hbad hagree]

/-- A value that is not finite, next to a coordinate that raises: the message of the latter is what
is reported. -/
theorem tessellate_by_samples_raising :
    let x : Coordinate := ⟨fun _ _ => .ok (0 / 0), none⟩
    let y : Coordinate := ⟨fun _ _ => .error "no value", none⟩
    let z : Coordinate := ⟨fun u _ => .ok u, none⟩
    let r : Grid.Request := ⟨.float 0, .float 1, .float 0, .float 1, .int 4, .int 4⟩
    let g : Grid := ⟨.double 0, .double 1, .double 0, .double 1, 4, 4⟩
    Grid.validate r = .ok g ∧ g.AxesFit ∧ (∀ pts, x.FailsOver pts) ∧
      ∃ u v, tessellate x y z r = .error (.failure (.evaluation u v "no value")) := by
  intro x y z r g
  have hg : Grid.validate r = .ok g := by
    -- the bounds in units of the least double are too long to be compared by evaluation
    obtain ⟨a, b, ha, hb, hab⟩ :
        ∃ a b, Decimal.units? 0 = some a ∧ Decimal.units? 1 = some b ∧ a < b := by
      refine ⟨0, (Decimal.twoTo 1074 : Nat), ?_, ?_, ?_⟩ <;> decide +kernel
    have hba : ¬ b ≤ a := by omega
    simp [r, g, Grid.validate, Grid.finiteBound, Grid.bound?, Grid.measure?, Grid.steps?, bind,
      Except.bind, Settings.minSteps, Settings.maxGridCells, ha, hb, hba]
  have hfails : ∀ pts, x.FailsOver pts := by
    intro pts e he
    cases he
  obtain ⟨us, vs, -, -, h⟩ := ((tessellate_by_samples x y z r).2 g hg).2 ⟨trivial, trivial⟩
  refine ⟨hg, ⟨trivial, trivial⟩, hfails, ?_⟩
  rcases (h ⟨x, List.mem_cons_self, hfails _⟩).1 with ⟨mesh, -, hmesh, -⟩ | ⟨k, p, e, he, -, hblame⟩
  · -- a vertex would have a value of the coordinate that always raises
    obtain ⟨u, v, q, -, -, -, hposition⟩ := hmesh.vertex 0 (by decide) 0 (by decide)
    cases hposition.y
  · refine ⟨p.1, p.2, ?_⟩
    rw [he]
    cases hblame with
    | raised before f after message hsplit _ hraised =>
      -- it is the second coordinate that raises, the only one that ever does
      have hf : f ∈ [x, y, z] := hsplit ▸ List.mem_append_right before List.mem_cons_self
      simp only [List.mem_cons, List.not_mem_nil, or_false] at hf
      rcases hf with rfl | rfl | rfl
      · cases hraised
      · cases hraised
        rfl
      · cases hraised
    | nonFinite hquiet =>
      obtain ⟨w, hw⟩ := hquiet y (by simp)
      cases hw

/-- Between two integers too far apart there is no mesh, although the grid is accepted and no sample
is bad. -/
theorem tessellate_integers_far_apart :
    let f : Coordinate := ⟨fun _ _ => .ok 0, none⟩
    let r : Grid.Request := ⟨.int 0, .int (10 ^ 30), .int 0, .int 1, .int 4, .int 4⟩
    (∃ g, Grid.validate r = .ok g) ∧ (∀ pts, f.FailsOver pts) ∧ (∀ p, ¬ BadAt f f f p) ∧
      tessellate f f f r = .error (.fault .integerBeyondWords) := by
  intro f r
  have hquiet : ∀ p, HasPosition f f f p ⟨0, 0, 0⟩ := fun _ => ⟨rfl, rfl, rfl, by decide +kernel⟩
  have hg : Grid.validate r =
      .ok ⟨.integer 0, .integer (10 ^ 30), .integer 0, .integer 1, 4, 4⟩ := by
    obtain ⟨_, hzero⟩ := Grid.doubleOfInteger_of_isFinite (n := 0) (by decide +kernel)
    obtain ⟨_, hone⟩ := Grid.doubleOfInteger_of_isFinite (n := 1) (by decide +kernel)
    obtain ⟨_, hfar⟩ := Grid.doubleOfInteger_of_isFinite (n := 10 ^ 30) (by decide +kernel)
    unfold Grid.validate
    simp only [r, Grid.finiteBound_int hzero, Grid.finiteBound_int hone,
      Grid.finiteBound_int hfar, bind, Except.bind, Grid.integerUnits_le_iff]
    rfl
  have hfit : ¬ Grid.AxesFit ⟨.integer 0, .integer (10 ^ 30), .integer 0, .integer 1, 4, 4⟩ :=
    fun h => absurd h.1.2 (by decide)
  have hfails : ∀ pts, f.FailsOver pts := by
    intro pts e he
    cases he
  exact ⟨⟨_, hg⟩, hfails, fun p => (hquiet p).not_badAt, tessellate_of_not_axesFit hg hfit⟩

end Surface

end SurfaceStudio
