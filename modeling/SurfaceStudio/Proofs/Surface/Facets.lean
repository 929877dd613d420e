import SurfaceStudio.Proofs.Decimal.Narrowing
import SurfaceStudio.Proofs.Mesh.Normals
import SurfaceStudio.Proofs.Mesh.StlFile
import SurfaceStudio.Proofs.Preset.FileNames
import SurfaceStudio.Proofs.Surface.Ribbon
/-!
# The facets of a surface

The vertices of a surface are rounded to 32 bits once for each facet that they belong to, always in
the same way, so that all corners of the facets come from one array of rounded vertices. A position
that is finite as a double may be too large for 32 bits; then an infinity is written for it.
-/

namespace SurfaceStudio

open Binary32 (Narrows)

/-! ## Built surfaces -/

namespace Definition

variable {d : Definition} {m : Mesh Float}

/-- What is built is the triangulation of a grid of the submitted steps, over finite positions. -/
structure IsTriangulation (d : Definition) (m : Mesh Float) : Prop where
  steps : d.HasSteps m.uSteps m.vSteps
  triangles : m.triangles = Grid.triangles m.uSteps m.vSteps
  vertexCount : m.vertexCount = (m.uSteps + 1) * (m.vSteps + 1)
  finite : ∀ p ∈ m.positions, p.isFinite = true

theorem isTriangulation_of_build (h : d.build = .ok m) : d.IsTriangulation m := by
  obtain ⟨c, g, pts, hsteps, hpts, hfinite, rfl⟩ := exists_grid_of_build h
  refine ⟨hsteps, rfl, ?_, fun p hp => ?_⟩
  · rw [Mesh.vertexCount, List.size_toArray, List.length_map]
    exact Grid.length_points hpts
  · obtain ⟨q, hq, rfl⟩ := List.mem_map.mp (List.mem_toArray.mp hp)
    exact hfinite q hq

namespace IsTriangulation

variable (h : d.IsTriangulation m)

include h

theorem nodes_le : (m.uSteps + 1) * (m.vSteps + 1) ≤ 62505 :=
  Grid.nodes_le h.steps.u h.steps.v h.steps.cells

theorem isInRange : m.isInRange = true := by
  refine List.all_eq_true.mpr fun i hi => decide_eq_true ?_
  obtain ⟨t, ht, hi⟩ := List.mem_flatMap.mp hi
  rw [h.triangles] at ht
  rw [h.vertexCount]
  exact (Grid.corners_spec (by have := h.nodes_le; omega) ht).2 i hi

/-- Every vertex is a corner of a triangle. -/
theorem exists_triangle {i : ℕ} (hi : i < m.vertexCount) :
    ∃ t ∈ m.triangles, ∃ n ∈ t.corners, n.toNat = i := by
  have hnodes := h.nodes_le
  have hu : 1 ≤ m.uSteps := le_trans (by decide) h.steps.u
  have hv : 1 ≤ m.vSteps := le_trans (by decide) h.steps.v
  rw [h.vertexCount] at hi
  obtain ⟨n, hn⟩ : ∃ n : UInt32, n.toNat = i := ⟨i.toUInt32, Nat.mod_eq_of_lt (by omega)⟩
  have hvalence := Grid.countP_corners (by omega) hu hv (hn ▸ hi)
  have hpos : 0 < Grid.valence m.uSteps m.vSteps (Grid.nodeAt m.vSteps n) := by
    unfold Grid.valence
    split_ifs <;> decide
  rw [← hvalence, List.countP_pos_iff] at hpos
  obtain ⟨t, ht, hmem⟩ := hpos
  exact ⟨t, h.triangles ▸ ht, n, of_decide_eq_true hmem, hn⟩

end IsTriangulation

end Definition

/-! ## Corners of facets -/

namespace Mesh

variable {m : Mesh Float}

/-- The corners of a facet in the order of its winding. -/
def Facet.corners (f : Facet) : List (Vec3 Float32) := [f.first, f.second, f.third]

/-- The vertices of a mesh in 32 bits. -/
def narrowed (m : Mesh Float) : Array (Vec3 Float32) :=
  m.positions.map (·.map Binary32.nearest)

theorem getElem?_narrowed {i : ℕ} {p : Vec3 Float} (h : m.positions[i]? = some p) :
    m.narrowed[i]? = some (p.map Binary32.nearest) := by
  rw [narrowed, Array.getElem?_map, h]
  rfl

/-- The facet of a triangle. -/
theorem HasCorners.facet {t : Triangle} {p q r : Vec3 Float} (h : m.HasCorners t p q r) {k : ℕ}
    (ht : m.triangles[k]? = some t) : m.facets[k]? = some (Facet.ofCorners p q r) := by
  rw [facets, List.getElem?_map, ht, Option.map_some, vertex_of_getElem? h.first,
    vertex_of_getElem? h.second, vertex_of_getElem? h.third]

/-- The corners of a facet are the rounded vertices of its triangle, in order. -/
theorem exists_facet (hm : m.isInRange = true) {k : ℕ} {t : Triangle}
    (ht : m.triangles[k]? = some t) : ∃ f, m.facets[k]? = some f ∧ f.attributeWord = 0 ∧
      f.corners.map some = t.corners.map fun i => m.narrowed[i.toNat]? := by
  obtain ⟨p, q, r, hcorners⟩ := exists_corners hm (List.mem_of_getElem? ht)
  refine ⟨_, hcorners.facet ht, rfl, ?_⟩
  rw [Triangle.corners, List.map_cons, List.map_cons, List.map_singleton,
    getElem?_narrowed hcorners.first, getElem?_narrowed hcorners.second,
    getElem?_narrowed hcorners.third]
  rfl

end Mesh

section Corners

variable {d : Definition} {m : Mesh Float}

/-- The corners of the facets are the rounded vertices, and all of them. -/
theorem Definition.IsTriangulation.exists_corner_iff (h : d.IsTriangulation m)
    {v : Vec3 Float32} :
    (∃ f ∈ m.facets, v ∈ f.corners) ↔ ∃ p ∈ m.positions, p.map Binary32.nearest = v := by
  constructor
  · rintro ⟨f, hf, hv⟩
    obtain ⟨t, ht, rfl⟩ := List.mem_map.mp hf
    obtain ⟨p, q, r, hcorners⟩ := Mesh.exists_corners h.isInRange ht
    rw [Mesh.vertex_of_getElem? hcorners.first, Mesh.vertex_of_getElem? hcorners.second,
      Mesh.vertex_of_getElem? hcorners.third] at hv
    simp only [Mesh.Facet.corners, Mesh.Facet.ofCorners, List.mem_cons, List.not_mem_nil, or_false]
      at hv
    obtain rfl | rfl | rfl := hv
    · exact ⟨p, Array.mem_of_getElem? hcorners.first, rfl⟩
    · exact ⟨q, Array.mem_of_getElem? hcorners.second, rfl⟩
    · exact ⟨r, Array.mem_of_getElem? hcorners.third, rfl⟩
  · rintro ⟨p, hp, rfl⟩
    obtain ⟨i, hi, rfl⟩ := Array.mem_iff_getElem.mp hp
    obtain ⟨t, ht, n, hn, hni⟩ := h.exists_triangle hi
    obtain ⟨k, hk⟩ := List.getElem?_of_mem ht
    obtain ⟨f, hf, -, hcorners⟩ := Mesh.exists_facet h.isInRange hk
    refine ⟨f, List.mem_of_getElem? hf, ?_⟩
    have hcorner : m.narrowed[n.toNat]? = some (m.positions[i].map Binary32.nearest) :=
      Mesh.getElem?_narrowed (by rw [hni, Array.getElem?_eq_getElem hi])
    have hmem : m.narrowed[n.toNat]? ∈ f.corners.map some := by
      rw [hcorners]
      exact List.mem_map_of_mem hn
    rw [hcorner] at hmem
    obtain ⟨v, hv, heq⟩ := List.mem_map.mp hmem
    exact Option.some.inj heq ▸ hv

theorem narrows_of_isFinite {p : Vec3 Float} (hp : p.isFinite = true) :
    ∀ x ∈ p.toList, Narrows x (Binary32.nearest x) := by
  have hp : (p.x.isFinite && p.y.isFinite && p.z.isFinite) = true := hp
  rw [Bool.and_eq_true, Bool.and_eq_true] at hp
  intro x hx
  refine Binary32.narrows_nearest ?_
  simp only [Vec3.toList, List.mem_cons, List.not_mem_nil, or_false] at hx
  obtain rfl | rfl | rfl := hx
  · exact hp.1.1
  · exact hp.1.2
  · exact hp.2

/-- A property of all coordinates of all corners. -/
theorem Definition.IsTriangulation.forall_corners_iff (h : d.IsTriangulation m)
    (P : Float32 → Prop) :
    (∀ f ∈ m.facets, ∀ v ∈ f.corners, ∀ x ∈ v.toList, P x) ↔
      ∀ p ∈ m.positions, ∀ x ∈ p.toList, P (Binary32.nearest x) := by
  constructor
  · intro hall p hp x hx
    obtain ⟨f, hf, hv⟩ := h.exists_corner_iff.mpr ⟨p, hp, rfl⟩
    exact hall f hf _ hv _ (List.mem_map_of_mem hx)
  · intro hall f hf v hv x hx
    obtain ⟨p, hp, rfl⟩ := h.exists_corner_iff.mp ⟨f, hf, hv⟩
    have hx : x ∈ p.toList.map Binary32.nearest := hx
    obtain ⟨y, hy, rfl⟩ := List.mem_map.mp hx
    exact hall p hp y hy

end Corners

/-! ## The file of a surface -/

/-- The file that the service answers with holds the facets of the surface. -/
theorem Service.facets_of_facetFile {d : Definition} {file : String} {content : FileBody}
    (h : facetFile d = .ok (.file file content)) :
    ∃ m, d.build = .ok m ∧ content = .facets m.facets := by
  unfold facetFile at h
  obtain ⟨⟨name, m⟩, hm, hfile⟩ | ⟨_, hfile⟩ := answering_eq_ok h
  · obtain ⟨m', hm', hm⟩ := bind_eq_ok.mp hm
    obtain ⟨_, -, hm⟩ := bind_eq_ok.mp hm
    cases hm
    exact ⟨m, hm', (Response.file.inj hfile).2.symm⟩
  · cases hfile

/-- What the export of a surface holds that has a mesh. There are two facets for each cell of the
grid, in 84 + 50 n bytes behind any header, and a reader finds them there. All corners come from one
array of rounded vertices: those of a facet are the ones of its triangle in the order of its
winding, and its attribute word is zero. Each coordinate is the nearest float to the position, but
for an infinity in place of a position that is too large. So none is undefined, and all of them are
finite exactly if no position is too large. -/
theorem facets_of_build (d : Definition) (m : Mesh Float) (h : d.build = .ok m) :
    d.uSteps = .int m.uSteps ∧ d.vSteps = .int m.vSteps ∧
    m.triangles = Grid.triangles m.uSteps m.vSteps ∧
    m.facets.length = 2 * m.uSteps * m.vSteps ∧
    (∀ header : List UInt8, header.length = 80 →
      (Mesh.stlFile header m.facets).length = 84 + 50 * (2 * m.uSteps * m.vSteps) ∧
      Mesh.HasFacets (Mesh.stlFile header m.facets) m.facets) ∧
    (∀ file content, Service.facetFile d = .ok (.file file content) →
      content = .facets m.facets ∧ content.size = 84 + 50 * (2 * m.uSteps * m.vSteps)) ∧
    (∃ corners : Array (Vec3 Float32), corners.size = m.vertexCount ∧
      (∀ (i : ℕ) (p : Vec3 Float), m.positions[i]? = some p →
        ∃ q : Vec3 Float32, corners[i]? = some q ∧ List.Forall₂ Narrows p.toList q.toList) ∧
      ∀ (k : ℕ) (t : Triangle), m.triangles[k]? = some t →
        ∃ f : Mesh.Facet, m.facets[k]? = some f ∧ f.attributeWord = 0 ∧
          f.corners.map some = t.corners.map fun i => corners[i.toNat]?) ∧
    (∀ f ∈ m.facets, ∀ v ∈ f.corners, ∀ x ∈ v.toList, x.isNaN = false) ∧
    ((∀ f ∈ m.facets, ∀ v ∈ f.corners, ∀ x ∈ v.toList, x.isFinite = true) ↔
      ∀ p ∈ m.positions, ∀ x ∈ p.toList, |Decimal.value x| < Binary32.limit) := by
  have htriangulation := Definition.isTriangulation_of_build h
  have hlength : m.facets.length = 2 * m.uSteps * m.vSteps := by
    rw [Mesh.facets, List.length_map, htriangulation.triangles]
    exact Grid.length_triangles _ _
  have hcells := htriangulation.steps.cells
  have hcount : m.facets.length < 256 ^ 4 := by
    rw [hlength, Nat.mul_assoc]
    omega
  have hnarrows : ∀ p ∈ m.positions, ∀ x ∈ p.toList, Narrows x (Binary32.nearest x) :=
    fun p hp => narrows_of_isFinite (htriangulation.finite p hp)
  refine ⟨htriangulation.steps.uSteps, htriangulation.steps.vSteps, htriangulation.triangles,
    hlength, fun header hheader => ?_, fun file content hfile => ?_,
    ⟨m.narrowed, Array.size_map, fun i p hp => ?_, fun k t ht => ?_⟩, ?_, ?_⟩
  · have hfacets : Mesh.HasFacets (Mesh.stlFile header m.facets) m.facets :=
      Mesh.hasFacets_stlFile hheader hcount
    exact ⟨by rw [hfacets.size, hlength, Mesh.fileSize], hfacets⟩
  · obtain ⟨m', hm', rfl⟩ := Service.facets_of_facetFile hfile
    cases h.symm.trans hm'
    exact ⟨rfl, by rw [Service.FileBody.size, hlength, Mesh.fileSize]⟩
  · have hall : List.Forall₂ Narrows p.toList (p.toList.map Binary32.nearest) :=
      List.forall₂_map_right_iff.mpr
        (List.forall₂_same.mpr (hnarrows p (Array.mem_of_getElem? hp)))
    exact ⟨_, Mesh.getElem?_narrowed hp, hall⟩
  · exact Mesh.exists_facet htriangulation.isInRange ht
  · rw [htriangulation.forall_corners_iff fun x => x.isNaN = false]
    exact fun p hp x hx => (hnarrows p hp x hx).isNaN_eq_false
  · rw [htriangulation.forall_corners_iff fun x => x.isFinite = true]
    exact forall₂_congr fun p hp => forall₂_congr fun x hx => (hnarrows p hp x hx).isFinite_iff

/-! ## A surface beyond the floats -/

/-- A square that is finite, but too far away for 32 bits. -/
def farSquare : Draft := ⟨"1e39", "u", "v", "0", "1", "0", "1", 4, 4⟩

theorem wellFormed_farSquare : farSquare.WellFormed ⟨0, 1, 0, 1⟩
    ⟨⟨"1e39", .number 1e39⟩, ⟨"u", .variable "u"⟩, ⟨"v", .variable "v"⟩⟩ where
  bounds := by
    have hzero : boundValue "0" = .ok 0 := boundValue_of_parse parse_zero (by decide +kernel)
    have hone : boundValue "1" = .ok 1 := boundValue_of_parse parse_one (by decide +kernel)
    exact ⟨hzero, hone, hzero, hone⟩
  grid := by
    have hzero : Decimal.units? 0 = some 0 := by decide +kernel
    have hone : Decimal.units? 1 = some (Decimal.twoTo 1074 : Nat) := by decide +kernel
    have hpos : (0 : ℤ) < (Decimal.twoTo 1074 : Nat) := by decide +kernel
    exact Grid.validate_doubles hzero hone hzero hone hpos hpos le_rfl le_rfl (by decide)
  coordinates := by
    have hnumber : Formula.tokens "1e39" = .ok [⟨.number 1e39, "1e39", 0⟩] := by decide +kernel
    have hu : Formula.tokens "u" = .ok [⟨.identifier, "u", 0⟩] := by decide +kernel
    have hv : Formula.tokens "v" = .ok [⟨.identifier, "v", 0⟩] := by decide +kernel
    refine ⟨Compiled.ofText_eq_ok_iff.mpr ⟨rfl, Formula.parse_eq_ok_iff.mpr ⟨_, hnumber, ?_⟩⟩,
      Compiled.ofText_eq_ok_iff.mpr ⟨rfl, Formula.parse_eq_ok_iff.mpr ⟨_, hu, ?_⟩⟩,
      Compiled.ofText_eq_ok_iff.mpr ⟨rfl, Formula.parse_eq_ok_iff.mpr ⟨_, hv, ?_⟩⟩⟩
    · exact .term (.factor (.power (.primary (.number rfl))))
    · exact .term (.factor (.power (.primary (.variable ⟨rfl, by decide +kernel, by decide⟩
        (by decide)))))
    · exact .term (.factor (.power (.primary (.variable ⟨rfl, by decide +kernel, by decide⟩
        (by decide)))))
  finite := by decide +kernel

/-- The export of the square has its 32 facets. -/
theorem facets_of_build_farSquare :
    let d := farSquare.definition (.str "square") (.bool false)
    ∃ m, d.build = .ok m ∧ m.facets.length = 32 ∧
      Mesh.HasFacets (Mesh.stlFile (List.replicate 80 0) m.facets) m.facets ∧
      (Mesh.stlFile (List.replicate 80 0) m.facets).length = 1684 := by
  intro d
  have hbuild := Draft.build_of_wellFormed (.str "square") (.bool false) wellFormed_farSquare
  obtain ⟨-, -, -, hlength, hfile, -⟩ := facets_of_build d _ hbuild
  obtain ⟨hbytes, hfacets⟩ := hfile (List.replicate 80 0) List.length_replicate
  exact ⟨_, hbuild, hlength, hfacets, hbytes⟩

/-- The corners of the square are infinite. -/
theorem infinite_corners_of_finite_mesh :
    ¬ ∀ (d : Definition) (m : Mesh Float), d.build = .ok m →
      ∀ f ∈ m.facets, ∀ v ∈ f.corners, ∀ x ∈ v.toList, x.isFinite = true := by
  intro hall
  have hbuild := Draft.build_of_wellFormed (.str "square") (.bool false) wellFormed_farSquare
  have htriangulation := Definition.isTriangulation_of_build hbuild
  have hfinite := (htriangulation.forall_corners_iff fun x => x.isFinite = true).mp
    (hall _ _ hbuild)
  have hlarge : (Binary32.nearest 1e39).isFinite = false := by decide +kernel
  obtain ⟨p, hp⟩ : ∃ p, p ∈ farSquare.samples ⟨0, 1, 0, 1⟩ :=
    ⟨_, List.head_mem (List.cons_ne_nil _ _)⟩
  have hcorner := hfinite _ (List.mem_toArray.mpr (List.mem_map_of_mem hp)) 1e39
    List.mem_cons_self
  rw [hlarge] at hcorner
  cases hcorner

end SurfaceStudio
