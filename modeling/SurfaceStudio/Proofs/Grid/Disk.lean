import Mathlib.Data.List.Pairwise
import Mathlib.Tactic.Linarith
import SurfaceStudio.Grid.Basic
import SurfaceStudio.Grid.Triangles
import SurfaceStudio.Proofs.Grid.Lattice
import SurfaceStudio.Proofs.Outcomes
/-!
# The triangulation of a grid

The triangles of a grid form a disk that is oriented throughout: `IsOrientedDisk`. What holds of the
nodes and edges of the lattice is carried over to indices, which is possible as long as the nodes
can be told apart by words of 32 bits. All grids that pass the checks are small enough for that.
-/

namespace SurfaceStudio

/-- The directed edges of a triangle, in the order of its winding. -/
def Triangle.edges (t : Triangle) : List (UInt32 × UInt32) := [(t.a, t.b), (t.b, t.c), (t.c, t.a)]

/-- A triangle with three corners does not go back along its edges. -/
theorem Triangle.swap_notMem_edges {t : Triangle} (h : t.corners.Nodup) {e : UInt32 × UInt32}
    (he : e ∈ t.edges) : e.swap ∉ t.edges := by
  obtain ⟨a, b, c⟩ := t
  simp only [corners, List.nodup_cons, List.mem_cons, List.not_mem_nil, or_false, not_or] at h
  simp only [edges, List.mem_cons, List.not_mem_nil, or_false] at he ⊢
  rcases he with rfl | rfl | rfl <;> simp only [Prod.swap_prod_mk, Prod.mk.injEq] <;> grind

namespace Grid

/-! ## Indices -/

/-- The index of a node. -/
def index (vSteps : Nat) (p : Node) : UInt32 := (p.1 * (vSteps + 1) + p.2).toUInt32

/-- The node that an index stands for. -/
def nodeAt (vSteps : Nat) (n : UInt32) : Node := (n.toNat / (vSteps + 1), n.toNat % (vSteps + 1))

section Index

variable {uSteps vSteps : Nat} {p q : Node}

theorem number_lt (hp : InGrid uSteps vSteps p) :
    p.1 * (vSteps + 1) + p.2 < (uSteps + 1) * (vSteps + 1) := by
  have hrow : p.1 * (vSteps + 1) ≤ uSteps * (vSteps + 1) := Nat.mul_le_mul_right _ hp.1
  have hcolumn := hp.2
  rw [Nat.succ_mul]
  omega

theorem toNat_index (hsize : (uSteps + 1) * (vSteps + 1) ≤ 2 ^ 32) (hp : InGrid uSteps vSteps p) :
    (index vSteps p).toNat = p.1 * (vSteps + 1) + p.2 := by
  have hlt := number_lt hp
  rw [index, Nat.toUInt32_eq, UInt32.toNat_ofNat']
  exact Nat.mod_eq_of_lt (by omega)

theorem nodeAt_index (hsize : (uSteps + 1) * (vSteps + 1) ≤ 2 ^ 32)
    (hp : InGrid uSteps vSteps p) : nodeAt vSteps (index vSteps p) = p := by
  have hcolumn : p.2 < vSteps + 1 := Nat.lt_succ_of_le hp.2
  rw [nodeAt, toNat_index hsize hp, Nat.mul_comm, Nat.mul_add_div (Nat.succ_pos _),
    Nat.mul_add_mod, Nat.div_eq_of_lt hcolumn, Nat.mod_eq_of_lt hcolumn, Nat.add_zero]

theorem index_injOn (hsize : (uSteps + 1) * (vSteps + 1) ≤ 2 ^ 32) (hp : InGrid uSteps vSteps p)
    (hq : InGrid uSteps vSteps q) (h : index vSteps p = index vSteps q) : p = q := by
  rw [← nodeAt_index hsize hp, h, nodeAt_index hsize hq]

theorem index_nodeAt (vSteps : Nat) (n : UInt32) : index vSteps (nodeAt vSteps n) = n := by
  have hnumber : n.toNat / (vSteps + 1) * (vSteps + 1) + n.toNat % (vSteps + 1) = n.toNat :=
    Nat.div_add_mod' _ _
  rw [index, nodeAt, hnumber, Nat.toUInt32_eq, UInt32.ofNat_toNat]

theorem inGrid_nodeAt {n : UInt32} (h : n.toNat < (uSteps + 1) * (vSteps + 1)) :
    InGrid uSteps vSteps (nodeAt vSteps n) := by
  have hrow := Nat.div_lt_of_lt_mul (Nat.mul_comm _ _ ▸ h)
  have hcolumn := Nat.mod_lt n.toNat (Nat.succ_pos vSteps)
  exact ⟨Nat.le_of_lt_succ hrow, Nat.le_of_lt_succ hcolumn⟩

end Index

/-! ## Triangles -/

/-- The first triangle of a cell. -/
def lowerTriangle (vSteps : Nat) (c : Node) : Triangle :=
  ⟨index vSteps (c.1, c.2), index vSteps (c.1 + 1, c.2), index vSteps (c.1, c.2 + 1)⟩

/-- The second triangle of a cell. -/
def upperTriangle (vSteps : Nat) (c : Node) : Triangle :=
  ⟨index vSteps (c.1 + 1, c.2), index vSteps (c.1 + 1, c.2 + 1), index vSteps (c.1, c.2 + 1)⟩

/-- Words are multiplied and added as the numbers they stand for. -/
theorem cell_eq (vSteps i j : Nat) : cell (vSteps + 1).toUInt32 i.toUInt32 j.toUInt32 =
    [lowerTriangle vSteps (i, j), upperTriangle vSteps (i, j)] := by
  simp only [cell, lowerTriangle, upperTriangle, index, Nat.toUInt32_eq, UInt32.ofNat_add,
    UInt32.ofNat_mul]
  rfl

theorem triangles_eq (uSteps vSteps : Nat) : triangles uSteps vSteps =
    (cells uSteps vSteps).flatMap fun c => [lowerTriangle vSteps c, upperTriangle vSteps c] := by
  have hcells : cells uSteps vSteps =
      (List.range uSteps).flatMap fun i => (List.range vSteps).map fun j => (i, j) := rfl
  simp only [triangles, hcells, List.flatMap_assoc, List.flatMap_map, cell_eq]

theorem mem_triangles {uSteps vSteps : Nat} {t : Triangle} : t ∈ triangles uSteps vSteps ↔
    ∃ c ∈ cells uSteps vSteps, t = lowerTriangle vSteps c ∨ t = upperTriangle vSteps c := by
  simp only [triangles_eq, List.mem_flatMap, List.mem_cons, List.not_mem_nil, or_false]

theorem edges_triangles (uSteps vSteps : Nat) :
    (triangles uSteps vSteps).flatMap Triangle.edges =
      (gridEdges uSteps vSteps).map (Prod.map (index vSteps) (index vSteps)) := by
  rw [triangles_eq, List.flatMap_assoc, gridEdges, List.map_flatMap]
  rfl

theorem corners_triangles (uSteps vSteps : Nat) :
    (triangles uSteps vSteps).flatMap Triangle.corners =
      ((cells uSteps vSteps).flatMap fun c => lowerNodes c ++ upperNodes c).map (index vSteps) := by
  rw [triangles_eq, List.flatMap_assoc, List.map_flatMap]
  rfl

theorem length_triangles (uSteps vSteps : Nat) :
    (triangles uSteps vSteps).length = 2 * uSteps * vSteps := by
  have hcells : (cells uSteps vSteps).length = uSteps * vSteps := by
    rw [cells, List.length_product, List.length_range, List.length_range]
  simp only [triangles_eq, List.length_flatMap, List.length_cons, List.length_nil, List.map_const',
    List.sum_replicate, hcells, smul_eq_mul]
  ring

/-! ## The disk -/

/-- An edge between indices with both ends on one side of the rectangle. -/
def IsBorder (uSteps vSteps : Nat) (e : UInt32 × UInt32) : Prop :=
  OnRim uSteps vSteps (nodeAt vSteps e.1, nodeAt vSteps e.2)

/-- The triangles of a grid, as a disk that is oriented throughout. -/
structure IsOrientedDisk (uSteps vSteps : Nat) (ts : List Triangle) : Prop where
  length_eq : ts.length = 2 * uSteps * vSteps
  /-- The corners of a triangle are three indices of nodes. -/
  corners : ∀ t ∈ ts, t.corners.Nodup ∧ ∀ n ∈ t.corners, n.toNat < (uSteps + 1) * (vSteps + 1)
  /-- No directed edge is met twice. -/
  oriented : (ts.flatMap Triangle.edges).Nodup
  /-- An edge is met in reverse, in just one other triangle, unless it is on the border. -/
  paired : ∀ t ∈ ts, ∀ e ∈ t.edges,
    (IsBorder uSteps vSteps e ∧ ∀ t' ∈ ts, e.swap ∉ t'.edges) ∨
    (¬ IsBorder uSteps vSteps e ∧ ∃ t' ∈ ts, t' ≠ t ∧ e.swap ∈ t'.edges ∧
      ∀ t'' ∈ ts, e.swap ∈ t''.edges → t'' = t')
  /-- The number of edges that are not met in reverse. -/
  border : (ts.flatMap Triangle.edges).countP (fun e => e.swap ∉ ts.flatMap Triangle.edges) =
    2 * (uSteps + vSteps)
  /-- The number of triangles that meet at a node. -/
  valence : ∀ n : UInt32, n.toNat < (uSteps + 1) * (vSteps + 1) →
    ts.countP (fun t => n ∈ t.corners) = valence uSteps vSteps (nodeAt vSteps n)

/-- A triangle with three corners has a node as a corner once or not at all. -/
theorem countP_mem_corners (n : UInt32) {ts : List Triangle} (h : ∀ t ∈ ts, t.corners.Nodup) :
    ts.countP (fun t => n ∈ t.corners) = (ts.flatMap Triangle.corners).count n := by
  induction ts with
  | nil => rfl
  | cons t ts ih =>
    have hcount : (if n ∈ t.corners then 1 else 0) = t.corners.count n := by
      by_cases hn : n ∈ t.corners
      · rw [if_pos hn, List.count_eq_one_of_mem (h t List.mem_cons_self) hn]
      · rw [if_neg hn, List.count_eq_zero_of_not_mem hn]
    rw [List.countP_cons, ih fun t' ht' => h t' (List.mem_cons_of_mem t ht'), List.flatMap_cons,
      List.count_append, ← hcount, Nat.add_comm]
    simp only [decide_eq_true_eq]

section Disk

variable {uSteps vSteps : Nat}

theorem inGrid_of_mem_cells {c p : Node} (hc : c ∈ cells uSteps vSteps)
    (hp : p ∈ lowerNodes c ++ upperNodes c) : InGrid uSteps vSteps p := by
  obtain ⟨hi, hj⟩ := mem_cells.mp hc
  simp only [lowerNodes, upperNodes, List.cons_append, List.nil_append, List.mem_cons,
    List.not_mem_nil, or_false] at hp
  rcases hp with rfl | rfl | rfl | rfl | rfl | rfl <;> simp only [InGrid] <;> omega

/-- The corners of a triangle are the indices of three nodes. -/
theorem corners_of_mem_triangles {t : Triangle} (h : t ∈ triangles uSteps vSteps) :
    ∃ ps : List Node, ps.Nodup ∧ (∀ p ∈ ps, InGrid uSteps vSteps p) ∧
      t.corners = ps.map (index vSteps) := by
  obtain ⟨⟨i, j⟩, hc, rfl | rfl⟩ := mem_triangles.mp h
  · refine ⟨lowerNodes (i, j), by simp [lowerNodes], fun p hp => ?_, rfl⟩
    exact inGrid_of_mem_cells hc (List.mem_append_left _ hp)
  · refine ⟨upperNodes (i, j), by simp [upperNodes], fun p hp => ?_, rfl⟩
    exact inGrid_of_mem_cells hc (List.mem_append_right _ hp)

variable (hsize : (uSteps + 1) * (vSteps + 1) ≤ 2 ^ 32)

include hsize

/-- The corners of a triangle are three different nodes. -/
theorem corners_spec {t : Triangle} (h : t ∈ triangles uSteps vSteps) :
    t.corners.Nodup ∧ ∀ n ∈ t.corners, n.toNat < (uSteps + 1) * (vSteps + 1) := by
  obtain ⟨ps, hnodup, hgrid, hcorners⟩ := corners_of_mem_triangles h
  rw [hcorners]
  constructor
  · exact hnodup.map_on fun p hp q hq => index_injOn hsize (hgrid p hp) (hgrid q hq)
  · intro n hn
    obtain ⟨p, hp, rfl⟩ := List.mem_map.mp hn
    rw [toNat_index hsize (hgrid p hp)]
    exact number_lt (hgrid p hp)

/-- The edges of a grid stay apart when they are numbered. -/
theorem mapIndex_injOn {e e' : Node × Node} (h : e ∈ gridEdges uSteps vSteps)
    (h' : InGrid uSteps vSteps e'.1 ∧ InGrid uSteps vSteps e'.2)
    (heq : Prod.map (index vSteps) (index vSteps) e = Prod.map (index vSteps) (index vSteps) e') :
    e = e' := by
  obtain ⟨h₁, h₂⟩ := inGrid_of_mem_gridEdges h
  obtain ⟨heq₁, heq₂⟩ := Prod.mk.inj heq
  exact Prod.ext (index_injOn hsize h₁ h'.1 heq₁) (index_injOn hsize h₂ h'.2 heq₂)

theorem nodup_edges : ((triangles uSteps vSteps).flatMap Triangle.edges).Nodup := by
  rw [edges_triangles]
  refine (nodup_gridEdges uSteps vSteps).map_on fun e he e' he' => ?_
  exact mapIndex_injOn hsize he (inGrid_of_mem_gridEdges he')

theorem isBorder_mapIndex {e : Node × Node} (h : e ∈ gridEdges uSteps vSteps) :
    IsBorder uSteps vSteps (Prod.map (index vSteps) (index vSteps) e) ↔ OnRim uSteps vSteps e := by
  obtain ⟨h₁, h₂⟩ := inGrid_of_mem_gridEdges h
  rw [IsBorder, Prod.map_fst, Prod.map_snd, nodeAt_index hsize h₁, nodeAt_index hsize h₂]

/-- The reverse of an edge between indices is an edge, unless the edge is on the border. -/
theorem swap_mem_edges {e : UInt32 × UInt32}
    (h : e ∈ (triangles uSteps vSteps).flatMap Triangle.edges) :
    e.swap ∈ (triangles uSteps vSteps).flatMap Triangle.edges ↔ ¬ IsBorder uSteps vSteps e := by
  rw [edges_triangles] at h ⊢
  obtain ⟨s, hs, rfl⟩ := List.mem_map.mp h
  rw [isBorder_mapIndex hsize hs, ← swap_mem_gridEdges hs, List.mem_map]
  constructor
  · rintro ⟨s', hs', heq⟩
    have hswap : s' = s.swap := mapIndex_injOn hsize hs' (inGrid_of_mem_gridEdges hs).symm heq
    rwa [← hswap]
  · intro hswap
    exact ⟨s.swap, hswap, rfl⟩

/-- An edge belongs to one triangle only. -/
theorem eq_of_mem_edges {t t' : Triangle} (ht : t ∈ triangles uSteps vSteps)
    (ht' : t' ∈ triangles uSteps vSteps) {e : UInt32 × UInt32} (he : e ∈ t.edges)
    (he' : e ∈ t'.edges) : t = t' := by
  by_contra hne
  have hdisjoint := (List.nodup_flatMap.mp (nodup_edges hsize)).2
  have : Std.Symm (Function.onFun List.Disjoint Triangle.edges) := ⟨fun _ _ h => h.symm⟩
  exact hdisjoint.forall ht ht' hne he he'

/-- An edge is met in reverse in one other triangle, unless it is on the border. -/
theorem edges_paired {t : Triangle} (ht : t ∈ triangles uSteps vSteps) {e : UInt32 × UInt32}
    (he : e ∈ t.edges) :
    (IsBorder uSteps vSteps e ∧ ∀ t' ∈ triangles uSteps vSteps, e.swap ∉ t'.edges) ∨
    (¬ IsBorder uSteps vSteps e ∧ ∃ t' ∈ triangles uSteps vSteps, t' ≠ t ∧ e.swap ∈ t'.edges ∧
      ∀ t'' ∈ triangles uSteps vSteps, e.swap ∈ t''.edges → t'' = t') := by
  have hswap := swap_mem_edges hsize (List.mem_flatMap.mpr ⟨t, ht, he⟩)
  by_cases hborder : IsBorder uSteps vSteps e
  · refine .inl ⟨hborder, fun t' ht' he' => ?_⟩
    exact hswap.mp (List.mem_flatMap.mpr ⟨t', ht', he'⟩) hborder
  · obtain ⟨t', ht', he'⟩ := List.mem_flatMap.mp (hswap.mpr hborder)
    refine .inr ⟨hborder, t', ht', ?_, he', fun t'' ht'' he'' => ?_⟩
    · rintro rfl
      exact Triangle.swap_notMem_edges (corners_spec hsize ht).1 he he'
    · exact eq_of_mem_edges hsize ht'' ht' he'' he'

/-- The number of edges that are not met in reverse. -/
theorem countP_border (hu : 1 ≤ uSteps) (hv : 1 ≤ vSteps) :
    ((triangles uSteps vSteps).flatMap Triangle.edges).countP
      (fun e => e.swap ∉ (triangles uSteps vSteps).flatMap Triangle.edges) =
      2 * (uSteps + vSteps) := by
  calc
    _ = (gridEdges uSteps vSteps).countP (fun e => OnRim uSteps vSteps e) := by
      rw [edges_triangles, List.countP_map]
      refine List.countP_congr fun e he => ?_
      have hmem : Prod.map (index vSteps) (index vSteps) e ∈
          (triangles uSteps vSteps).flatMap Triangle.edges := by
        rw [edges_triangles]
        exact List.mem_map_of_mem he
      have hswap := swap_mem_edges hsize hmem
      rw [isBorder_mapIndex hsize he, edges_triangles] at hswap
      rw [Function.comp_apply, decide_eq_true_iff, decide_eq_true_iff, hswap, not_not]
    _ = 2 * (uSteps + vSteps) := countP_onRim_gridEdges hu hv

/-- The number of triangles that meet at a node. -/
theorem countP_corners (hu : 1 ≤ uSteps) (hv : 1 ≤ vSteps) {n : UInt32}
    (hn : n.toNat < (uSteps + 1) * (vSteps + 1)) :
    (triangles uSteps vSteps).countP (fun t => n ∈ t.corners) =
      valence uSteps vSteps (nodeAt vSteps n) := by
  have hgrid := inGrid_nodeAt hn
  rw [countP_mem_corners n fun t ht => (corners_spec hsize ht).1, corners_triangles,
    ← count_corners hu hv hgrid, List.count, List.count, List.countP_map]
  refine List.countP_congr fun p hp => ?_
  obtain ⟨c, hc, hp⟩ := List.mem_flatMap.mp hp
  have hinj := index_injOn hsize (inGrid_of_mem_cells hc hp) hgrid
  rw [index_nodeAt] at hinj
  rw [Function.comp_apply, beq_iff_eq, beq_iff_eq]
  constructor
  · exact hinj
  · rintro rfl
    exact index_nodeAt vSteps n

theorem triangles_disk (hu : 1 ≤ uSteps) (hv : 1 ≤ vSteps) :
    IsOrientedDisk uSteps vSteps (triangles uSteps vSteps) where
  length_eq := length_triangles uSteps vSteps
  corners := fun _ ht => corners_spec hsize ht
  oriented := nodup_edges hsize
  paired := fun _ ht _ he => edges_paired hsize ht he
  border := countP_border hsize hu hv
  valence := fun _ hn => countP_corners hsize hu hv hn

end Disk

/-! ## Words -/

/-- The sums and products that come up in the cell in row `i` and column `j`, none of which is too
large for a word. -/
structure FitsWords (vSteps i j : Nat) : Prop where
  columns : (vSteps + 1).toUInt32.toNat = vSteps + 1
  nextRow : (i.toUInt32 + 1).toNat = i + 1
  nextColumn : (j.toUInt32 + 1).toNat = j + 1
  rowStart : (i.toUInt32 * (vSteps + 1).toUInt32).toNat = i * (vSteps + 1)
  nextRowStart : ((i.toUInt32 + 1) * (vSteps + 1).toUInt32).toNat = (i + 1) * (vSteps + 1)
  a : (i.toUInt32 * (vSteps + 1).toUInt32 + j.toUInt32).toNat = i * (vSteps + 1) + j
  b : ((i.toUInt32 + 1) * (vSteps + 1).toUInt32 + j.toUInt32).toNat = (i + 1) * (vSteps + 1) + j
  c : ((i.toUInt32 + 1) * (vSteps + 1).toUInt32 + (j.toUInt32 + 1)).toNat =
    (i + 1) * (vSteps + 1) + (j + 1)
  d : (i.toUInt32 * (vSteps + 1).toUInt32 + (j.toUInt32 + 1)).toNat = i * (vSteps + 1) + (j + 1)

theorem fitsWords {uSteps vSteps i j : Nat} (hsize : (uSteps + 1) * (vSteps + 1) ≤ 2 ^ 32)
    (hi : i < uSteps) (hj : j < vSteps) : FitsWords vSteps i j := by
  have hword : ∀ n : Nat, n < 2 ^ 32 → (UInt32.ofNat n).toNat = n := by
    intro n hn
    rw [UInt32.toNat_ofNat', Nat.mod_eq_of_lt hn]
  have hnext : ∀ n : Nat, UInt32.ofNat n + 1 = UInt32.ofNat (n + 1) := fun n =>
    (UInt32.ofNat_add n 1).symm
  -- the last corner of the cell has the greatest index, and no other number is greater
  have hlast : (i + 1) * (vSteps + 1) + (j + 1) < (uSteps + 1) * (vSteps + 1) :=
    number_lt (show InGrid uSteps vSteps (i + 1, j + 1) from ⟨hi, hj⟩)
  have hrow : (i + 1) * (vSteps + 1) = i * (vSteps + 1) + vSteps + 1 := Nat.succ_mul _ _
  have hrows : i + 1 ≤ (i + 1) * (vSteps + 1) := Nat.le_mul_of_pos_right _ (Nat.succ_pos _)
  constructor <;>
    simp only [Nat.toUInt32_eq, hnext, ← UInt32.ofNat_mul, ← UInt32.ofNat_add] <;>
    exact hword _ (by omega)

/-! ## Accepted grids -/

theorem le_of_steps? {v : Json} {n : Nat} (h : steps? v = some n) : Settings.minSteps ≤ n := by
  unfold steps? at h
  split at h
  · split at h
    · cases h
      omega
    · cases h
  · cases h

theorem steps_of_validate {r : Request} {g : Grid} (h : validate r = .ok g) :
    Settings.minSteps ≤ g.uSteps ∧ Settings.minSteps ≤ g.vSteps ∧
      g.uSteps * g.vSteps ≤ Settings.maxGridCells := by
  obtain ⟨uMin, -, h⟩ := bind_eq_ok.mp h
  obtain ⟨uMax, -, h⟩ := bind_eq_ok.mp h
  obtain ⟨vMin, -, h⟩ := bind_eq_ok.mp h
  obtain ⟨vMax, -, h⟩ := bind_eq_ok.mp h
  split at h
  · cases h
  split at h
  · cases h
  next uSteps hu =>
  split at h
  · cases h
  next vSteps hv =>
  split at h
  · cases h
  next hcells =>
  cases h
  exact ⟨le_of_steps? hu, le_of_steps? hv, Nat.le_of_not_lt hcells⟩

/-- The cap on the cells of a grid bounds its nodes. -/
theorem nodes_le {uSteps vSteps : Nat} (hu : 4 ≤ uSteps) (hv : 4 ≤ vSteps)
    (h : uSteps * vSteps ≤ 50000) : (uSteps + 1) * (vSteps + 1) ≤ 62505 := by
  obtain ⟨a, rfl⟩ := Nat.exists_eq_add_of_le hu
  obtain ⟨b, rfl⟩ := Nat.exists_eq_add_of_le hv
  have hab := Nat.zero_le (a * b)
  ring_nf at h ⊢
  omega

/-- The triangles of a grid form an oriented disk, as long as its nodes can be told apart by words.
The grids that pass the checks are among those, with some room to spare. -/
theorem triangles_isOrientedDisk :
    (∀ uSteps vSteps : Nat, 1 ≤ uSteps → 1 ≤ vSteps → (uSteps + 1) * (vSteps + 1) ≤ 2 ^ 32 →
      IsOrientedDisk uSteps vSteps (triangles uSteps vSteps) ∧
      ∀ i < uSteps, ∀ j < vSteps, FitsWords vSteps i j) ∧
    ∀ (r : Request) (g : Grid), validate r = .ok g →
      IsOrientedDisk g.uSteps g.vSteps (triangles g.uSteps g.vSteps) ∧
      (∀ t ∈ triangles g.uSteps g.vSteps, ∀ n ∈ t.corners, n.toNat ≤ 62504) ∧
      ∀ i < g.uSteps, ∀ j < g.vSteps, FitsWords g.vSteps i j := by
  refine ⟨fun uSteps vSteps hu hv hsize => ⟨triangles_disk hsize hu hv, fun i hi j hj => ?_⟩,
    fun r g hg => ?_⟩
  · exact fitsWords hsize hi hj
  · obtain ⟨hu, hv, hcells⟩ := steps_of_validate hg
    have hnodes := nodes_le hu hv hcells
    have hsize : (g.uSteps + 1) * (g.vSteps + 1) ≤ 2 ^ 32 := by omega
    have hu : 1 ≤ g.uSteps := Nat.le_trans (by decide) hu
    have hv : 1 ≤ g.vSteps := Nat.le_trans (by decide) hv
    refine ⟨triangles_disk hsize hu hv, fun t ht n hn => ?_, fun i hi j hj => ?_⟩
    · have hlt := (corners_spec hsize ht).2 n hn
      omega
    · exact fitsWords hsize hi hj

/-- The narrow grid that has the most nodes of all that pass the checks. -/
theorem triangles_isOrientedDisk_narrow :
    let r : Request := ⟨.int 0, .int 1, .int 0, .int 1, .int 4, .int 12500⟩
    let g : Grid := ⟨.integer 0, .integer 1, .integer 0, .integer 1, 4, 12500⟩
    validate r = .ok g ∧ (g.uSteps + 1) * (g.vSteps + 1) = 62505 ∧
      IsOrientedDisk 4 12500 (triangles 4 12500) ∧
      (∀ t ∈ triangles g.uSteps g.vSteps, ∀ n ∈ t.corners, n.toNat ≤ 62504) := by
  intro r g
  have hg : validate r = .ok g := by
    obtain ⟨x, hx⟩ : ∃ x, Json.doubleOfInteger 0 = .ok x := ⟨_, rfl⟩
    obtain ⟨y, hy⟩ : ∃ y, Json.doubleOfInteger 1 = .ok y := ⟨_, rfl⟩
    have hunits : ¬ integerUnits 1 ≤ integerUnits 0 := by decide +kernel
    simp [r, g, validate, finiteBound, bound?, measure?, steps?, bind, Except.bind, Except.map, hx,
      hy, hunits, Settings.minSteps, Settings.maxGridCells]
  exact ⟨hg, by decide, (triangles_isOrientedDisk.1 4 12500 (by decide) (by decide) (by decide)).1,
    (triangles_isOrientedDisk.2 r g hg).2.1⟩

end Grid

end SurfaceStudio
