import SurfaceStudio.Surface.Tessellation
import SurfaceStudio.Proofs.Formula.FlatArrays
import SurfaceStudio.Proofs.Grid.Points
/-!
# Sampling over the whole grid and sample by sample

A surface of three compiled expressions has one outcome on a list of points, `Surface.sampled`:
either all of its positions, or a failure at the first point whose position is not finite. Both ways
to sample it come to this outcome, so that it does not matter which of them is taken.
-/

namespace SurfaceStudio

/-- The values of an expression at one point, alone and among many points, use powers that agree. -/
def Compiled.PowersAgreeAt (c : Compiled) (p : Float × Float) : Prop :=
  c.formula.PowersAgree (fun _ exponent => exponent.isConstant) (Formula.parameters p.1 p.2)

theorem Compiled.valueAmong_eq_value {c : Compiled} {p : Float × Float} (h : c.PowersAgreeAt p) :
    c.valueAmong p.1 p.2 = c.value p.1 p.2 :=
  Formula.evalSharing_eq_eval c.formula h

/-- A coordinate with the samples of a compiled expression. Its evaluation over a list of points may
be missing or fail; where it does not, it gives the values of the expression over these points. -/
structure Coordinate.StandsFor (f : Coordinate) (c : Compiled) : Prop where
  sample : ∀ u v, f.sample u v = .ok (c.value u v)
  overGrid : ∀ e, f.overGrid = some e → ∀ pts,
    e pts = none ∨ e pts = c.valuesAt pts

theorem Compiled.coordinate_standsFor (c : Compiled) : c.coordinate.StandsFor c where
  sample := fun _ _ => rfl
  overGrid := by
    rintro e he pts
    cases he
    exact .inr rfl

namespace Surface

section

variable (x y z : Compiled) (pts : List (Float × Float))

/-- The position of a surface at a point. -/
def positionAt (p : Float × Float) : Vec3 Float :=
  ⟨x.value p.1 p.2, y.value p.1 p.2, z.value p.1 p.2⟩

/-- The outcome of a surface on some points. -/
def sampled : Except Failure (List (Vec3 Float)) :=
  match pts.find? fun p => !(positionAt x y z p).isFinite with
  | some (u, v) => .error (.nonFiniteVertex u v)
  | none => .ok (pts.map (positionAt x y z))

/-- The point with the number `n` is the first one whose position is not finite. -/
structure IsFirstBad (n : Nat) (p : Float × Float) : Prop where
  nth : pts[n]? = some p
  bad : (positionAt x y z p).isFinite = false
  before : ∀ m < n, ∀ q, pts[m]? = some q → (positionAt x y z q).isFinite = true

/-- Some positions, unless one of them is not finite. -/
def finitePositions (ps : List (Vec3 Float)) : Except Failure (List (Vec3 Float)) :=
  match firstNonFinite? pts ps with
  | some (u, v) => .error (.nonFiniteVertex u v)
  | none => .ok ps

/-! ## The two ways -/

theorem firstNonFinite?_map (f : Float × Float → Vec3 Float) :
    firstNonFinite? pts (pts.map f) = pts.find? fun p => !(f p).isFinite := by
  induction pts with
  | nil => rfl
  | cons p pts ih =>
    rw [firstNonFinite?] at ih ⊢
    rw [List.map_cons, List.zip_cons_cons, List.find?_cons, List.find?_cons]
    rcases (f p).isFinite
    · rfl
    · exact ih

theorem finitePositions_map :
    finitePositions pts (pts.map (positionAt x y z)) = sampled x y z pts := by
  rw [finitePositions, firstNonFinite?_map, sampled]

/-- An outcome has been checked already. -/
theorem sampled_bind_finitePositions :
    (sampled x y z pts).bind (finitePositions pts) = sampled x y z pts := by
  have hmap := finitePositions_map x y z pts
  rw [sampled] at hmap ⊢
  -- only a success is checked a second time, and it passes
  rcases hbad : pts.find? fun p => !(positionAt x y z p).isFinite with _ | p
  · rw [hbad] at hmap
    exact hmap
  · rfl

/-- Sample by sample, the outcome is reached by the samples alone. -/
theorem samplePositions_eq {fx fy fz : Coordinate} (hx : fx.StandsFor x) (hy : fy.StandsFor y)
    (hz : fz.StandsFor z) : samplePositions fx fy fz pts = sampled x y z pts := by
  have hsample : samplePosition fx fy fz = fun p =>
      if (positionAt x y z p).isFinite then .ok (positionAt x y z p)
      else .error (.nonFiniteVertex p.1 p.2) := by
    funext p
    rw [samplePosition, position, hx.sample, hy.sample, hz.sample]
    rfl
  rw [samplePositions, hsample]
  -- the loop stops at the first bad position, where the search over all of them stops as well
  induction pts with
  | nil => rfl
  | cons p pts ih =>
    rw [List.mapM_cons, ih, sampled, sampled, List.find?_cons, List.map_cons]
    rcases (positionAt x y z p).isFinite
    · rfl
    · simp only [Bool.not_true]
      rcases pts.find? fun p => !(positionAt x y z p).isFinite <;> rfl

theorem zipCoordinates_map (f g h : Float × Float → Float) :
    zipCoordinates (pts.map f) (pts.map g) (pts.map h) = pts.map fun p => ⟨f p, g p, h p⟩ := by
  induction pts with
  | nil => rfl
  | cons p pts ih => exact congrArg (_ :: ·) ih

end

/-- Three compiled expressions can be evaluated over the whole grid. -/
theorem gridPositions?_coordinate (x y z : Compiled) (pts : List (Float × Float)) :
    gridPositions? x.coordinate y.coordinate z.coordinate pts = some (pts.map fun p =>
      ⟨x.valueAmong p.1 p.2, y.valueAmong p.1 p.2, z.valueAmong p.1 p.2⟩) := by
  simp only [gridPositions?, Compiled.coordinate, Option.bind_eq_bind, Option.bind_some,
    Compiled.valuesAt_eq, Option.pure_def, zipCoordinates_map]

section

variable {x y z : Compiled} {fx fy fz : Coordinate} {pts : List (Float × Float)}

/-- Over the whole grid, the outcome is reached as far as the powers agree. -/
theorem gridPositions?_eq (hx : fx.StandsFor x) (hy : fy.StandsFor y) (hz : fz.StandsFor z)
    (hpow : ∀ p ∈ pts, x.PowersAgreeAt p ∧ y.PowersAgreeAt p ∧ z.PowersAgreeAt p) :
    gridPositions? fx fy fz pts = none ∨
      gridPositions? fx fy fz pts = some (pts.map (positionAt x y z)) := by
  have hvalues : ∀ c : Compiled, (∀ p ∈ pts, c.PowersAgreeAt p) →
      c.valuesAt pts = some (pts.map fun p => c.value p.1 p.2) := fun c hc => by
    rw [c.valuesAt_eq]
    exact congrArg some (List.map_congr_left fun p hp => Compiled.valueAmong_eq_value (hc p hp))
  rw [gridPositions?]
  -- a coordinate without values over the grid, or whose values fail, leaves nothing to show
  rcases hex : fx.overGrid with _ | ex
  · exact .inl rfl
  rcases hey : fy.overGrid with _ | ey
  · exact .inl rfl
  rcases hez : fz.overGrid with _ | ez
  · exact .inl rfl
  rcases hx.overGrid ex hex pts with hxs | hxs
  · exact .inl (by simp [hxs])
  rcases hy.overGrid ey hey pts with hys | hys
  · exact .inl (by simp [hys])
  rcases hz.overGrid ez hez pts with hzs | hzs
  · exact .inl (by simp [hzs])
  rw [hvalues x fun p hp => (hpow p hp).1] at hxs
  rw [hvalues y fun p hp => (hpow p hp).2.1] at hys
  rw [hvalues z fun p hp => (hpow p hp).2.2] at hzs
  refine .inr ?_
  simp only [Option.bind_eq_bind, Option.bind_some, hxs, hys, hzs, zipCoordinates_map]
  rfl

/-- Whichever way is taken, the outcome is the same. -/
theorem positions_eq (hx : fx.StandsFor x) (hy : fy.StandsFor y) (hz : fz.StandsFor z)
    (hpow : ∀ p ∈ pts, x.PowersAgreeAt p ∧ y.PowersAgreeAt p ∧ z.PowersAgreeAt p) :
    positions fx fy fz pts = sampled x y z pts := by
  have hpositions : positions fx fy fz pts =
      ((gridPositions? fx fy fz pts).elim (samplePositions fx fy fz pts) Except.ok).bind
        (finitePositions pts) := by
    rw [positions]
    rcases gridPositions? fx fy fz pts <;> rfl
  rw [hpositions]
  rcases gridPositions?_eq hx hy hz hpow with hgrid | hgrid
  · -- the grid fails, and the samples are checked a second time
    rw [hgrid]
    show (samplePositions fx fy fz pts).bind (finitePositions pts) = sampled x y z pts
    rw [samplePositions_eq x y z pts hx hy hz]
    exact sampled_bind_finitePositions x y z pts
  · rw [hgrid]
    exact finitePositions_map x y z pts

/-! ## The outcome -/

/-- A success holds the positions at all points, all of them finite. -/
theorem sampled_eq_ok {ps : List (Vec3 Float)} (h : sampled x y z pts = .ok ps) :
    ps = pts.map (positionAt x y z) ∧ ∀ q ∈ ps, q.isFinite = true := by
  rw [sampled] at h
  split at h
  · cases h
  · next hnone =>
    cases h
    refine ⟨rfl, fun q hq => ?_⟩
    obtain ⟨p, hp, rfl⟩ := List.mem_map.mp hq
    simpa using List.find?_eq_none.mp hnone p hp

/-- A failure is that of the first point whose position is not finite. -/
theorem sampled_eq_error {e : Failure} (h : sampled x y z pts = .error e) :
    ∃ n u v, IsFirstBad x y z pts n (u, v) ∧ e = .nonFiniteVertex u v := by
  rw [sampled] at h
  split at h
  · next u v hfind =>
    cases h
    obtain ⟨hbad, n, hn, hnth, hbefore⟩ := List.find?_eq_some_iff_getElem.mp hfind
    refine ⟨n, u, v, ⟨List.getElem?_eq_some_iff.mpr ⟨hn, hnth⟩, by simpa using hbad, ?_⟩, rfl⟩
    intro m hm p hp
    obtain ⟨_, rfl⟩ := List.getElem?_eq_some_iff.mp hp
    simpa using hbefore m hm
  · cases h

end

/-- The mesh of a surface does not depend on how its coordinates can be evaluated. -/
theorem tessellate_eq {x y z : Compiled} {fx fy fz : Coordinate} (hx : fx.StandsFor x)
    (hy : fy.StandsFor y) (hz : fz.StandsFor z) {r : Grid.Request} {g : Grid}
    (hg : Grid.validate r = .ok g)
    (hpow : ∀ pts, g.points = .ok pts →
      ∀ p ∈ pts, x.PowersAgreeAt p ∧ y.PowersAgreeAt p ∧ z.PowersAgreeAt p) :
    tessellate fx fy fz r = tessellate x.coordinate y.coordinate z.coordinate r := by
  rw [tessellate, tessellate, hg]
  rcases hpts : g.points with fault | pts
  · simp [hpts, faulting, bind, Except.bind]
  · have hpow := hpow pts hpts
    simp only [hpts, faulting, bind, Except.bind, positions_eq hx hy hz hpow,
      positions_eq x.coordinate_standsFor y.coordinate_standsFor z.coordinate_standsFor hpow]

/-- The two ways to sample three compiled expressions on a grid come to the same, as far as powers
come out the same with a shared exponent as with one of their own. A success has the position at the
`i`-th `u` and the `j`-th `v` at its place; a failure is that of the first point in order whose
position is not finite. So a coordinate may be replaced by one of the same values that cannot be
evaluated over the grid, or fails to be. -/
theorem grid_and_samples_agree (x y z : Compiled) (r : Grid.Request) (g : Grid)
    (hg : Grid.validate r = .ok g)
    (hpow : ∀ pts, g.points = .ok pts →
      ∀ p ∈ pts, x.PowersAgreeAt p ∧ y.PowersAgreeAt p ∧ z.PowersAgreeAt p) :
    (∀ us vs pts, Grid.boundedAxis g.uMin g.uMax g.uSteps = .ok us →
      Grid.boundedAxis g.vMin g.vMax g.vSteps = .ok vs → g.points = .ok pts →
      (gridPositions? x.coordinate y.coordinate z.coordinate pts).map (finitePositions pts) =
        some (samplePositions x.coordinate y.coordinate z.coordinate pts) ∧
      match samplePositions x.coordinate y.coordinate z.coordinate pts with
      | .ok ps =>
        ps.length = (g.uSteps + 1) * (g.vSteps + 1) ∧ (∀ q ∈ ps, q.isFinite = true) ∧
        ∀ i ≤ g.uSteps, ∀ j ≤ g.vSteps, ∃ u v, us[i]? = some u ∧ vs[j]? = some v ∧
          ps[i * (g.vSteps + 1) + j]? = some ⟨x.value u v, y.value u v, z.value u v⟩
      | .error e => ∃ n u v, IsFirstBad x y z pts n (u, v) ∧ e = .nonFiniteVertex u v) ∧
    ∀ fx fy fz : Coordinate, fx.StandsFor x → fy.StandsFor y → fz.StandsFor z →
      tessellate fx fy fz r = tessellate x.coordinate y.coordinate z.coordinate r := by
  refine ⟨fun us vs pts hus hvs hpts => ⟨?_, ?_⟩,
    fun fx fy fz hx hy hz => tessellate_eq hx hy hz hg hpow⟩
  · have hpow := hpow pts hpts
    have hx := x.coordinate_standsFor
    have hy := y.coordinate_standsFor
    have hz := z.coordinate_standsFor
    rcases gridPositions?_eq hx hy hz hpow with hnone | hgrid
    · cases (gridPositions?_coordinate x y z pts).symm.trans hnone
    · rw [hgrid, samplePositions_eq x y z pts hx hy hz, ← finitePositions_map]
      rfl
  · rw [samplePositions_eq x y z pts x.coordinate_standsFor y.coordinate_standsFor
      z.coordinate_standsFor]
    rcases hs : sampled x y z pts with e | ps
    · exact sampled_eq_error hs
    · -- the place of a position is the place of its point among the rows of the grid
      obtain ⟨rfl, hfinite⟩ := sampled_eq_ok hs
      refine ⟨by rw [List.length_map, Grid.length_points hpts], hfinite, fun i hi j hj => ?_⟩
      have hi : i < us.length := by rw [Grid.length_boundedAxis hus]; omega
      have hj : j < vs.length := by rw [Grid.length_boundedAxis hvs]; omega
      have hu := List.getElem?_eq_getElem hi
      have hv := List.getElem?_eq_getElem hj
      refine ⟨us[i], vs[j], hu, hv, ?_⟩
      rw [List.getElem?_map, Grid.getElem?_points hus hvs hpts hu hv]
      rfl

/-- The powers of two, over a square that keeps clear of the exponents that are treated apart. -/
theorem grid_and_samples_agree_powers_of_two :
    let c : Compiled := ⟨"2 ^ u", .binary .pow (.number 2) (.variable "u")⟩
    let r : Grid.Request := ⟨.float 3, .float 4, .float 3, .float 4, .int 4, .int 4⟩
    let g : Grid := ⟨.double 3, .double 4, .double 3, .double 4, 4, 4⟩
    Grid.validate r = .ok g ∧
      (∀ pts, g.points = .ok pts → ∀ p ∈ pts, c.PowersAgreeAt p) ∧
      ∀ fx fy fz : Coordinate, fx.StandsFor c → fy.StandsFor c → fz.StandsFor c →
        tessellate fx fy fz r = tessellate c.coordinate c.coordinate c.coordinate r := by
  intro c r g
  have hg : Grid.validate r = .ok g := by
    -- the bounds are compared in units of the least double; these are too long to be compared by
    -- evaluation, so that their order is shown apart
    obtain ⟨a, b, ha, hb, hab⟩ :
        ∃ a b, Decimal.units? 3 = some a ∧ Decimal.units? 4 = some b ∧ a < b := by
      refine ⟨3 * (Decimal.twoTo 1074 : Nat), 4 * (Decimal.twoTo 1074 : Nat), ?_, ?_, ?_⟩ <;>
        decide +kernel
    have hba : ¬ b ≤ a := by omega
    simp [r, g, Grid.validate, Grid.finiteBound, Grid.bound?, Grid.measure?, Grid.steps?, bind,
      Except.bind, Settings.minSteps, Settings.maxGridCells, ha, hb, hba]
  have hpow : ∀ pts, g.points = .ok pts → ∀ p ∈ pts, c.PowersAgreeAt p := by
    -- each exponent is a place on the first axis, and there are five of these
    have hclear : ∀ u ∈ Grid.axis (3 : Float) 4 4,
        [-1, 0, 0.5, 1, 2].all (fun special => !(u == special)) = true := by
      decide +kernel
    intro pts hpts p hp
    obtain ⟨us, vs, hus, -, rfl⟩ := Grid.points_eq_ok_iff.mp hpts
    cases hus
    exact ⟨trivial, trivial, fun _ _ =>
      ⟨Formula.ownPower_eq_commonPower (hclear _ (Grid.fst_mem_of_mem_rows hp)) _, trivial⟩⟩
  exact ⟨hg, hpow, (grid_and_samples_agree c c c r g hg fun pts hpts p hp =>
    ⟨hpow pts hpts p hp, hpow pts hpts p hp, hpow pts hpts p hp⟩).2⟩

end Surface

end SurfaceStudio
