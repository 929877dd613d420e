import SurfaceStudio.Mesh.Payload
import SurfaceStudio.Surface.Build
import SurfaceStudio.Proofs.Grid.Disk
import SurfaceStudio.Proofs.Surface.Sampling
/-!
# From texts to a mesh, or to the first failure

A surface of which the expressions and bounds are texts and the step counts integers is a `Draft`.
It has a mesh if it is well-formed (`Draft.WellFormed`), and otherwise it is refused for the first
stage that fails (`Draft.FirstFailure`). There is nothing in between, so that building a draft never
ends in a fault.
-/

namespace SurfaceStudio

/-- The texts and step counts of a surface. -/
structure Draft where
  x : String
  y : String
  z : String
  uMin : String
  uMax : String
  vMin : String
  vMax : String
  uSteps : Int
  vSteps : Int

/-- The values of the bounds of the parameters. -/
structure Extent where
  uMin : Float
  uMax : Float
  vMin : Float
  vMax : Float

/-- The compiled expressions of a surface. -/
structure Coordinates where
  x : Compiled
  y : Compiled
  z : Compiled

namespace Coordinates

variable (c : Coordinates)

/-- The position at one of many points at once. -/
def position (p : Float × Float) : Vec3 Float :=
  ⟨c.x.valueAmong p.1 p.2, c.y.valueAmong p.1 p.2, c.z.valueAmong p.1 p.2⟩

end Coordinates

/-! ## What is refused, and what is built -/

namespace Draft

/-- The definition with these texts and step counts. -/
def definition (t : Draft) (name wireframe : Json) : Definition where
  x := .str t.x
  y := .str t.y
  z := .str t.z
  uMin := .str t.uMin
  uMax := .str t.uMax
  vMin := .str t.vMin
  vMax := .str t.vMax
  uSteps := .int t.uSteps
  vSteps := .int t.vSteps
  name := name
  wireframe := wireframe

variable (t : Draft)

/-- All bounds are accepted and have these values. -/
structure HasBounds (e : Extent) : Prop where
  uMin : boundValue t.uMin = .ok e.uMin
  uMax : boundValue t.uMax = .ok e.uMax
  vMin : boundValue t.vMin = .ok e.vMin
  vMax : boundValue t.vMax = .ok e.vMax

/-- The grid to be checked. -/
def gridRequest (e : Extent) : Grid.Request :=
  ⟨.float e.uMin, .float e.uMax, .float e.vMin, .float e.vMax, .int t.uSteps, .int t.vSteps⟩

/-- The grid, if it is accepted. -/
def grid (e : Extent) : Grid :=
  ⟨.double e.uMin, .double e.uMax, .double e.vMin, .double e.vMax, t.uSteps.toNat, t.vSteps.toNat⟩

/-- The grid is accepted. -/
def HasGrid (e : Extent) : Prop := Grid.validate (t.gridRequest e) = .ok (t.grid e)

/-- All expressions are accepted and compile to these. -/
structure HasCoordinates (c : Coordinates) : Prop where
  x : Compiled.ofText t.x = .ok c.x
  y : Compiled.ofText t.y = .ok c.y
  z : Compiled.ofText t.z = .ok c.z

/-- The sample points in flat order: `v` runs fastest. -/
def samples (e : Extent) : List (Float × Float) :=
  Grid.rows (Grid.axis e.uMin e.uMax t.uSteps.toNat) (Grid.axis e.vMin e.vMax t.vSteps.toNat)

/-- Every stage accepts the draft. -/
structure WellFormed (e : Extent) (c : Coordinates) : Prop where
  bounds : t.HasBounds e
  grid : t.HasGrid e
  coordinates : t.HasCoordinates c
  finite : ∀ p ∈ t.samples e, (c.position p).isFinite = true

/-- The mesh of a well-formed draft. -/
def mesh (e : Extent) (c : Coordinates) : Mesh Float :=
  ⟨((t.samples e).map c.position).toArray, Grid.triangles t.uSteps.toNat t.vSteps.toNat,
    t.uSteps.toNat, t.vSteps.toNat⟩

/-- A failure of a stage where all stages before it pass. Of several samples that cannot be used,
the first one in flat order counts. -/
inductive FirstFailure : Failure → Prop
  | uMin {f} : boundValue t.uMin = .error f → FirstFailure f
  | uMax {a f} : boundValue t.uMin = .ok a → boundValue t.uMax = .error f → FirstFailure f
  | vMin {a b f} : boundValue t.uMin = .ok a → boundValue t.uMax = .ok b →
    boundValue t.vMin = .error f → FirstFailure f
  | vMax {a b c f} : boundValue t.uMin = .ok a → boundValue t.uMax = .ok b →
    boundValue t.vMin = .ok c → boundValue t.vMax = .error f → FirstFailure f
  | grid {e f} : t.HasBounds e → Grid.validate (t.gridRequest e) = .error (.failure f) →
    FirstFailure f
  | x {e f} : t.HasBounds e → t.HasGrid e → Compiled.ofText t.x = .error f → FirstFailure f
  | y {e x f} : t.HasBounds e → t.HasGrid e → Compiled.ofText t.x = .ok x →
    Compiled.ofText t.y = .error f → FirstFailure f
  | z {e x y f} : t.HasBounds e → t.HasGrid e → Compiled.ofText t.x = .ok x →
    Compiled.ofText t.y = .ok y → Compiled.ofText t.z = .error f → FirstFailure f
  | sample {e c before u v after} : t.HasBounds e → t.HasGrid e → t.HasCoordinates c →
    t.samples e = before ++ (u, v) :: after →
    (∀ p ∈ before, (c.position p).isFinite = true) → (c.position (u, v)).isFinite = false →
    FirstFailure (.nonFiniteVertex u v)

end Draft

/-! ## Bounds and expressions -/

theorem boundOfSubmitted_str (s : String) : boundOfSubmitted (.str s) = refusing (boundValue s) :=
  rfl

theorem Compiled.ofSubmitted_str (s : String) :
    Compiled.ofSubmitted (.str s) = refusing (Compiled.ofText s) :=
  rfl

/-- The codes of what can be wrong with a bound. -/
def boundCodes : List String := ["EMPTY_BOUND", "COMPILE_ERROR", "NON_FINITE_BOUND"]

/-- The codes of what can be wrong with an expression. -/
def expressionCodes : List String := ["EMPTY_EXPRESSION", "COMPILE_ERROR"]

theorem boundValue_code {s : String} {f : Failure} (h : boundValue s = .error f) :
    f.code ∈ boundCodes := by
  simp only [boundValue] at h
  split at h
  · cases h
    simp [Failure.code, boundCodes]
  · split at h
    · cases h
      simp [Failure.code, boundCodes]
    · split at h
      · cases h
      · cases h
        simp [Failure.code, boundCodes]

theorem Compiled.ofText_code {s : String} {f : Failure} (h : Compiled.ofText s = .error f) :
    f.code ∈ expressionCodes := by
  simp only [Compiled.ofText] at h
  split at h
  · cases h
    simp [Failure.code, expressionCodes]
  · split at h
    · cases h
    · cases h
      simp [Failure.code, expressionCodes]

/-! ## The grid -/

namespace Grid

/-- A double is either a finite bound or refused as a bound that is not finite. -/
theorem finiteBound_float (x : Float) :
    (∃ n, finiteBound (.float x) = .ok ⟨.double x, n⟩) ∨
      finiteBound (.float x) = refuse .boundsNotFinite := by
  rcases h : Decimal.units? x with _ | n
  · exact .inr (by simp [finiteBound, bound?, measure?, h])
  · exact .inl ⟨n, by simp [finiteBound, bound?, measure?, h]⟩

/-- The number of steps that are accepted for an integer is the integer. -/
theorem steps?_int (n : Int) : steps? (.int n) = none ∨
    steps? (.int n) = some n.toNat ∧ (Settings.minSteps : Int) ≤ n := by
  by_cases h : (Settings.minSteps : Int) ≤ n
  · exact .inr ⟨if_pos h, h⟩
  · exact .inl (if_neg h)

end Grid

namespace Draft

variable {t : Draft} {e : Extent} {c : Coordinates} {f : Failure}

/-- A grid over doubles with integers for its steps is accepted as it stands or refused. -/
theorem validate_gridRequest (t : Draft) (e : Extent) :
    t.HasGrid e ∧ (Settings.minSteps : Int) ≤ t.uSteps ∧ (Settings.minSteps : Int) ≤ t.vSteps ∨
      ∃ v, Grid.validate (t.gridRequest e) = Grid.refuse v := by
  unfold HasGrid Grid.validate gridRequest grid
  rcases Grid.finiteBound_float e.uMin with ⟨a, ha⟩ | h
  swap; · exact .inr ⟨_, by rw [h]; rfl⟩
  rcases Grid.finiteBound_float e.uMax with ⟨b, hb⟩ | h
  swap; · exact .inr ⟨_, by rw [ha, h]; rfl⟩
  rcases Grid.finiteBound_float e.vMin with ⟨c, hc⟩ | h
  swap; · exact .inr ⟨_, by rw [ha, hb, h]; rfl⟩
  rcases Grid.finiteBound_float e.vMax with ⟨d, hd⟩ | h
  swap; · exact .inr ⟨_, by rw [ha, hb, hc, h]; rfl⟩
  simp only [ha, hb, hc, hd, bind, Except.bind]
  split
  · exact .inr ⟨_, rfl⟩
  rcases Grid.steps?_int t.uSteps with h | ⟨hu, hule⟩
  · exact .inr ⟨_, by rw [h]⟩
  rcases Grid.steps?_int t.vSteps with h | ⟨hv, hvle⟩
  · exact .inr ⟨_, by rw [hu, h]⟩
  simp only [hu, hv]
  split
  · exact .inr ⟨_, rfl⟩
  · exact .inl ⟨rfl, hule, hvle⟩

/-- Nothing but a violated condition keeps a grid from being accepted. -/
theorem hasGrid_or_refused (t : Draft) (e : Extent) :
    t.HasGrid e ∨ ∃ v : Grid.Violation,
      Grid.validate (t.gridRequest e) = .error (.failure (.invalidGrid v.message)) :=
  (validate_gridRequest t e).imp And.left id

theorem steps_of_hasGrid (h : t.HasGrid e) : 0 ≤ t.uSteps ∧ 0 ≤ t.vSteps := by
  rcases validate_gridRequest t e with ⟨-, hu, hv⟩ | ⟨v, hv⟩
  · unfold Settings.minSteps at hu hv
    omega
  · cases h.symm.trans hv

theorem points_grid (t : Draft) (e : Extent) : (t.grid e).points = .ok (t.samples e) := rfl

/-! ## Sampling -/

theorem positions_eq (c : Coordinates) (pts : List (Float × Float)) :
    Surface.positions c.x.coordinate c.y.coordinate c.z.coordinate pts =
      Surface.finitePositions pts (pts.map c.position) := by
  unfold Surface.positions
  rw [Surface.gridPositions?_coordinate]
  rfl

/-- Over an accepted grid, the first point whose position is not finite decides. -/
theorem tessellate_eq (h : t.HasGrid e) (c : Coordinates) :
    Surface.tessellate c.x.coordinate c.y.coordinate c.z.coordinate (t.gridRequest e) =
      match (t.samples e).find? fun p => !(c.position p).isFinite with
      | some (u, v) => .error (.failure (.nonFiniteVertex u v))
      | none => .ok (t.mesh e c) := by
  unfold HasGrid at h
  unfold Surface.tessellate
  rw [h]
  show (refusing (Surface.positions _ _ _ (t.samples e)) >>= _) = _
  rw [positions_eq, Surface.finitePositions, Surface.firstNonFinite?_map]
  rcases (t.samples e).find? fun p => !(c.position p).isFinite with _ | ⟨u, v⟩
  · rfl
  · rfl

/-- A mesh that is sampled is the triangulation of an accepted grid over the positions at its
points, all of them finite. -/
theorem tessellate_eq_ok {c : Coordinates} {r : Grid.Request} {m : Mesh Float}
    (h : Surface.tessellate c.x.coordinate c.y.coordinate c.z.coordinate r = .ok m) :
    ∃ g pts, Grid.validate r = .ok g ∧ g.points = .ok pts ∧
      (∀ p ∈ pts, (c.position p).isFinite = true) ∧
      m = ⟨(pts.map c.position).toArray, Grid.triangles g.uSteps g.vSteps, g.uSteps, g.vSteps⟩ := by
  obtain ⟨g, hg, h⟩ := bind_eq_ok.mp h
  obtain ⟨pts, hpts, h⟩ := bind_eq_ok.mp h
  obtain ⟨ps, hps, h⟩ := bind_eq_ok.mp h
  cases h
  rw [refusing_eq_ok, positions_eq, Surface.finitePositions, Surface.firstNonFinite?_map] at hps
  split at hps
  · cases hps
  · next hnone =>
    cases hps
    refine ⟨g, pts, hg, faulting_eq_ok.mp hpts, fun p hp => ?_, rfl⟩
    simpa using List.find?_eq_none.mp hnone p hp

/-! ## The stages in a row -/

/-- The definition with its bounds evaluated. -/
def spec (t : Draft) (e : Extent) : Spec :=
  ⟨.str t.x, .str t.y, .str t.z, e.uMin, e.uMax, e.vMin, e.vMax, .int t.uSteps, .int t.vSteps⟩

variable (name wireframe : Json)

theorem resolve_of_hasBounds (h : t.HasBounds e) :
    (t.definition name wireframe).resolve =
      Grid.validate (t.gridRequest e) >>= fun _ => .ok (t.spec e) := by
  unfold Definition.resolve definition
  simp only [boundOfSubmitted_str, h.uMin, h.uMax, h.vMin, h.vMax]
  rfl

theorem build_of_hasGrid (hb : t.HasBounds e) (hg : t.HasGrid e) :
    (t.definition name wireframe).build = (t.spec e).mesh := by
  unfold HasGrid at hg
  unfold Definition.build
  rw [resolve_of_hasBounds name wireframe hb, hg]
  rfl

theorem mesh_of_hasCoordinates (h : t.HasCoordinates c) :
    (t.spec e).mesh =
      Surface.tessellate c.x.coordinate c.y.coordinate c.z.coordinate (t.gridRequest e) := by
  unfold Spec.mesh spec
  simp only [Compiled.ofSubmitted_str, h.x, h.y, h.z]
  rfl

theorem build_of_wellFormed (h : t.WellFormed e c) :
    (t.definition name wireframe).build = .ok (t.mesh e c) := by
  have hnone : ((t.samples e).find? fun p => !(c.position p).isFinite) = none := by
    apply List.find?_eq_none.mpr
    intro p hp
    simp [h.finite p hp]
  rw [build_of_hasGrid name wireframe h.bounds h.grid, mesh_of_hasCoordinates h.coordinates,
    tessellate_eq h.grid, hnone]

theorem build_of_firstFailure (h : t.FirstFailure f) :
    (t.definition name wireframe).build = .error (.failure f) := by
  cases h with
  | uMin ha =>
    unfold Definition.build Definition.resolve definition
    rw [boundOfSubmitted_str, ha]
    rfl
  | uMax ha hb =>
    unfold Definition.build Definition.resolve definition
    simp only [boundOfSubmitted_str, ha, hb]
    rfl
  | vMin ha hb hc =>
    unfold Definition.build Definition.resolve definition
    simp only [boundOfSubmitted_str, ha, hb, hc]
    rfl
  | vMax ha hb hc hd =>
    unfold Definition.build Definition.resolve definition
    simp only [boundOfSubmitted_str, ha, hb, hc, hd]
    rfl
  | grid hb hg =>
    unfold Definition.build
    rw [resolve_of_hasBounds name wireframe hb, hg]
    rfl
  | x hb hg hx =>
    rw [build_of_hasGrid name wireframe hb hg]
    unfold Spec.mesh spec
    rw [Compiled.ofSubmitted_str, hx]
    rfl
  | y hb hg hx hy =>
    rw [build_of_hasGrid name wireframe hb hg]
    unfold Spec.mesh spec
    simp only [Compiled.ofSubmitted_str, hx, hy]
    rfl
  | z hb hg hx hy hz =>
    rw [build_of_hasGrid name wireframe hb hg]
    unfold Spec.mesh spec
    simp only [Compiled.ofSubmitted_str, hx, hy, hz]
    rfl
  | @sample e c before u v after hb hg hc hsamples hbefore hbad =>
    have hfind : ((t.samples e).find? fun p => !(c.position p).isFinite) = some (u, v) := by
      apply List.find?_eq_some_iff_append.mpr
      refine ⟨by simp [hbad], before, after, hsamples, ?_⟩
      intro p hp
      simp [hbefore p hp]
    rw [build_of_hasGrid name wireframe hb hg, mesh_of_hasCoordinates hc, tessellate_eq hg, hfind]

/-- The stages either all pass or one of them is the first to fail. -/
theorem wellFormed_or_firstFailure (t : Draft) :
    (∃ e c, t.WellFormed e c) ∨ ∃ f, t.FirstFailure f := by
  rcases ha : boundValue t.uMin with f | a
  · exact .inr ⟨f, .uMin ha⟩
  rcases hb : boundValue t.uMax with f | b
  · exact .inr ⟨f, .uMax ha hb⟩
  rcases hc : boundValue t.vMin with f | c
  · exact .inr ⟨f, .vMin ha hb hc⟩
  rcases hd : boundValue t.vMax with f | d
  · exact .inr ⟨f, .vMax ha hb hc hd⟩
  have hbounds : t.HasBounds ⟨a, b, c, d⟩ := ⟨ha, hb, hc, hd⟩
  rcases hasGrid_or_refused t ⟨a, b, c, d⟩ with hgrid | ⟨v, hv⟩
  swap; · exact .inr ⟨_, .grid hbounds hv⟩
  rcases hx : Compiled.ofText t.x with f | x
  · exact .inr ⟨f, .x hbounds hgrid hx⟩
  rcases hy : Compiled.ofText t.y with f | y
  · exact .inr ⟨f, .y hbounds hgrid hx hy⟩
  rcases hz : Compiled.ofText t.z with f | z
  · exact .inr ⟨f, .z hbounds hgrid hx hy hz⟩
  have hcoordinates : t.HasCoordinates ⟨x, y, z⟩ := ⟨hx, hy, hz⟩
  rcases hfind : (t.samples ⟨a, b, c, d⟩).find?
      fun p => !(Coordinates.position ⟨x, y, z⟩ p).isFinite with _ | ⟨u, v⟩
  · refine .inl ⟨⟨a, b, c, d⟩, ⟨x, y, z⟩, hbounds, hgrid, hcoordinates, ?_⟩
    intro p hp
    simpa using List.find?_eq_none.mp hfind p hp
  · obtain ⟨hbad, before, after, hsamples, hbefore⟩ := List.find?_eq_some_iff_append.mp hfind
    refine .inr ⟨_, .sample hbounds hgrid hcoordinates hsamples ?_ (by simpa using hbad)⟩
    intro p hp
    simpa using hbefore p hp

/-- Building never ends in a fault: what is not built is refused. -/
theorem build_cases (t : Draft) :
    (∃ e c, t.WellFormed e c ∧ (t.definition name wireframe).build = .ok (t.mesh e c)) ∨
      ∃ f, t.FirstFailure f ∧ (t.definition name wireframe).build = .error (.failure f) := by
  rcases wellFormed_or_firstFailure t with ⟨e, c, h⟩ | ⟨f, h⟩
  · exact .inl ⟨e, c, h, build_of_wellFormed name wireframe h⟩
  · exact .inr ⟨f, h, build_of_firstFailure name wireframe h⟩

theorem build_eq_ok_iff {m : Mesh Float} :
    (t.definition name wireframe).build = .ok m ↔ ∃ e c, t.WellFormed e c ∧ m = t.mesh e c := by
  constructor
  · intro h
    rcases build_cases name wireframe t with ⟨e, c, hwf, hbuild⟩ | ⟨f, -, hbuild⟩
    · rw [hbuild] at h
      cases h
      exact ⟨e, c, hwf, rfl⟩
    · cases hbuild.symm.trans h
  · intro h
    obtain ⟨e, c, hwf, rfl⟩ := h
    exact build_of_wellFormed name wireframe hwf

theorem build_eq_error_iff {r : Trouble} :
    (t.definition name wireframe).build = .error r ↔ ∃ f, t.FirstFailure f ∧ r = .failure f := by
  constructor
  · intro h
    rcases build_cases name wireframe t with ⟨e, c, -, hbuild⟩ | ⟨f, hf, hbuild⟩
    · cases hbuild.symm.trans h
    · rw [hbuild] at h
      cases h
      exact ⟨f, hf, rfl⟩
  · intro h
    obtain ⟨f, hf, rfl⟩ := h
    exact build_of_firstFailure name wireframe hf

/-- The codes of what can be wrong with a draft. An evaluation that fails is not among them. -/
def failureCodes : List String :=
  boundCodes ++ "INVALID_GRID_SPEC" :: expressionCodes ++ ["NON_FINITE_VERTEX"]

theorem code_of_firstFailure (h : t.FirstFailure f) : f.code ∈ failureCodes := by
  unfold failureCodes
  cases h with
  | uMin h | uMax _ h | vMin _ _ h | vMax _ _ _ h =>
    apply List.mem_append_left
    apply List.mem_append_left
    exact boundValue_code h
  | @grid e f _ hg =>
    obtain ⟨v, hv⟩ := (hasGrid_or_refused t e).resolve_left fun hok => by cases hok.symm.trans hg
    cases hv.symm.trans hg
    apply List.mem_append_left
    apply List.mem_append_right
    exact List.mem_cons_self
  | x _ _ h | y _ _ _ h | z _ _ _ _ h =>
    apply List.mem_append_left
    apply List.mem_append_right
    exact List.mem_cons_of_mem _ (Compiled.ofText_code h)
  | sample =>
    apply List.mem_append_right
    exact List.mem_singleton_self _

end Draft

/-! ## Buffers -/

namespace Mesh

variable {α : Type}

theorem length_flat (ps : Array (Vec3 α)) : (flat ps).length = 3 * ps.size := by
  unfold flat
  rw [List.length_flatMap, ← Array.length_toList]
  induction ps.toList with
  | nil => rfl
  | cons p ps ih =>
    rw [List.map_cons, List.sum_cons, ih, List.length_cons]
    show 3 + 3 * ps.length = _
    omega

theorem length_indices (m : Mesh α) : m.indices.length = m.indexCount := by
  unfold indices indexCount triangleCount
  rw [List.length_flatMap]
  induction m.triangles with
  | nil => rfl
  | cons t ts ih =>
    rw [List.map_cons, List.sum_cons, ih, List.length_cons]
    show 3 + 3 * ts.length = _
    omega

variable [Scalar α]

theorem size_foldl_addAt (cs : List (UInt32 × Vec3 α)) (sums : Array (Vec3 α)) :
    (cs.foldl (fun sums c => addAt sums c.1 c.2) sums).size = sums.size := by
  induction cs generalizing sums with
  | nil => rfl
  | cons c cs ih =>
    rw [List.foldl_cons, ih, addAt, Array.size_modify]

theorem size_normals (m : Mesh α) : m.normals.size = m.vertexCount := by
  unfold normals normalSums
  rw [Array.size_map, size_foldl_addAt, Array.size_replicate]

/-- The buffers of a mesh fit together: three coordinates and three components of a normal for each
vertex, three indices for each triangle. -/
structure Payload.Fits (p : Payload α) : Prop where
  positions : p.positions.length = 3 * p.vertexCount
  normals : p.normals.length = 3 * p.vertexCount
  indices : p.indices.length = p.indexCount
  indexCount : p.indexCount = 3 * p.triangleCount

theorem payload_fits (m : Mesh α) (wireframe : Json) : (m.payload wireframe).Fits where
  positions := length_flat m.positions
  normals := by
    show (flat m.normals).length = 3 * m.vertexCount
    rw [length_flat, size_normals]
  indices := length_indices m
  indexCount := rfl

end Mesh

namespace Draft

variable {t : Draft} {e : Extent} {c : Coordinates}

theorem vertexCount_mesh (t : Draft) (e : Extent) (c : Coordinates) :
    (t.mesh e c).vertexCount = (t.uSteps.toNat + 1) * (t.vSteps.toNat + 1) := by
  unfold Mesh.vertexCount mesh
  rw [List.size_toArray, List.length_map]
  exact Grid.length_points (points_grid t e)

theorem length_indices_mesh (t : Draft) (e : Extent) (c : Coordinates) :
    (t.mesh e c).indices.length = 6 * t.uSteps.toNat * t.vSteps.toNat := by
  have htriangles : (t.mesh e c).triangleCount = 2 * t.uSteps.toNat * t.vSteps.toNat :=
    Grid.length_triangles t.uSteps.toNat t.vSteps.toNat
  rw [Mesh.length_indices, Mesh.indexCount, htriangles, ← Nat.mul_assoc, ← Nat.mul_assoc]

theorem indices_lt (h : t.HasGrid e) (c : Coordinates) :
    ∀ i ∈ (t.mesh e c).indices, i.toNat < (t.mesh e c).vertexCount := by
  obtain ⟨hu, hv, hcells⟩ := Grid.steps_of_validate h
  have hnodes : (t.uSteps.toNat + 1) * (t.vSteps.toNat + 1) ≤ 62505 := Grid.nodes_le hu hv hcells
  intro i hi
  obtain ⟨s, hs, hi⟩ := List.mem_flatMap.mp hi
  rw [vertexCount_mesh]
  exact (Grid.corners_spec (by omega) hs).2 i hi

theorem isFinite_of_mem_mesh (h : t.WellFormed e c) {q : Vec3 Float}
    (hq : q ∈ (t.mesh e c).positions) : q.isFinite = true := by
  obtain ⟨p, hp, rfl⟩ := List.mem_map.mp (List.mem_toArray.mp hq)
  exact h.finite p hp

theorem not_evaluation_of_firstFailure {u v : Float} {reason : String} :
    ¬ t.FirstFailure (.evaluation u v reason) := by
  intro h
  have hcode : "EVALUATION_ERROR" ∈ failureCodes := code_of_firstFailure h
  exact absurd hcode (by decide)

/-- What building makes of a surface that is given by texts and integers. There is a mesh exactly if
all four bounds are accepted, the grid over them is, the three expressions are, and the position at
every sample point is finite. The mesh then has one finite position for each sample, six indices in
range for each cell, and buffers that fit together. Otherwise there is exactly one failure: that of
the first stage that does not pass, where the samples come last and the first bad one of them in
flat order is reported as such. Nothing ends in a fault or as a failed evaluation, and the grid that
was checked with the bounds passes again when it is sampled. -/
theorem mesh_or_first_failure (t : Draft) (name wireframe : Json) :
    (∀ m, (t.definition name wireframe).build = .ok m ↔
      ∃ e c, t.WellFormed e c ∧ m = t.mesh e c) ∧
    (∀ m, (t.definition name wireframe).build = .ok m →
      (m.vertexCount : Int) = (t.uSteps + 1) * (t.vSteps + 1) ∧
      (∀ q ∈ m.positions, q.isFinite = true) ∧
      (m.indices.length : Int) = 6 * t.uSteps * t.vSteps ∧
      (∀ i ∈ m.indices, i.toNat < m.vertexCount) ∧
      ∀ w, (m.payload w).Fits ∧ (m.payload w).vertexCount = m.vertexCount ∧
        (m.payload w).indices = m.indices) ∧
    (∀ r, (t.definition name wireframe).build = .error r ↔
      ∃ f, t.FirstFailure f ∧ r = .failure f) ∧
    (∀ f, t.FirstFailure f → f.code ∈ failureCodes) ∧
    (∀ u v reason, ¬ t.FirstFailure (.evaluation u v reason)) ∧
    ∀ s, (t.definition name wireframe).resolve = .ok s → ∃ g, Grid.validate s.grid = .ok g := by
  refine ⟨fun m => build_eq_ok_iff name wireframe, fun m hm => ?_,
    fun r => build_eq_error_iff name wireframe, fun f hf => code_of_firstFailure hf,
    fun u v reason => not_evaluation_of_firstFailure, fun s hs => ?_⟩
  · obtain ⟨e, c, h, rfl⟩ := (build_eq_ok_iff name wireframe).mp hm
    obtain ⟨hu, hv⟩ := steps_of_hasGrid h.grid
    refine ⟨?_, fun q hq => isFinite_of_mem_mesh h hq, ?_, indices_lt h.grid c,
      fun w => ⟨Mesh.payload_fits _ w, rfl, rfl⟩⟩
    · rw [vertexCount_mesh]
      push_cast
      rw [Int.toNat_of_nonneg hu, Int.toNat_of_nonneg hv]
    · rw [length_indices_mesh]
      push_cast
      rw [Int.toNat_of_nonneg hu, Int.toNat_of_nonneg hv]
  · -- the request that was checked is the one that belongs to the resolved surface
    obtain ⟨a, -, hs⟩ := bind_eq_ok.mp hs
    obtain ⟨b, -, hs⟩ := bind_eq_ok.mp hs
    obtain ⟨c, -, hs⟩ := bind_eq_ok.mp hs
    obtain ⟨d, -, hs⟩ := bind_eq_ok.mp hs
    obtain ⟨g, hg, hs⟩ := bind_eq_ok.mp hs
    cases hs
    exact ⟨g, hg⟩

end Draft

end SurfaceStudio
