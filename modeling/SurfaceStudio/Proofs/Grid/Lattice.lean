import Mathlib.Algebra.BigOperators.Group.Finset.Sigma
import Mathlib.Algebra.BigOperators.Ring.Finset
import Mathlib.Algebra.Group.Action.Defs
import Mathlib.Data.List.ProdSigma
import Mathlib.Tactic.Ring
/-!
# The lattice of a grid

The triangles of a grid in rows and columns, before their corners are numbered. Every cell has two
triangles; going around each of them once gives the six directed edges of the cell. Which cell an
edge belongs to, which edges are met a second time in reverse, and how many triangles meet at a node
are all decided here, by arithmetic on rows and columns.
-/

namespace SurfaceStudio.Grid

open Finset (range)

/-- A node of the grid: its row and its column. -/
abbrev Node := Nat × Nat

/-- The nodes of the first triangle of a cell. A cell goes by its node of least row and column. -/
def lowerNodes (c : Node) : List Node := [(c.1, c.2), (c.1 + 1, c.2), (c.1, c.2 + 1)]

/-- The nodes of the second triangle of a cell. -/
def upperNodes (c : Node) : List Node := [(c.1 + 1, c.2), (c.1 + 1, c.2 + 1), (c.1, c.2 + 1)]

/-- The directed edges of the two triangles of a cell. -/
def cellEdges (c : Node) : List (Node × Node) :=
  [((c.1, c.2), (c.1 + 1, c.2)), ((c.1 + 1, c.2), (c.1, c.2 + 1)), ((c.1, c.2 + 1), (c.1, c.2)),
    ((c.1 + 1, c.2), (c.1 + 1, c.2 + 1)), ((c.1 + 1, c.2 + 1), (c.1, c.2 + 1)),
    ((c.1, c.2 + 1), (c.1 + 1, c.2))]

/-! ## Cells -/

/-- The cells of a grid, row by row. -/
def cells (uSteps vSteps : Nat) : List Node := List.range uSteps ×ˢ List.range vSteps

theorem mem_cells {uSteps vSteps : Nat} {c : Node} :
    c ∈ cells uSteps vSteps ↔ c.1 < uSteps ∧ c.2 < vSteps := by
  rw [cells, List.mem_product, List.mem_range, List.mem_range]

theorem nodup_cells (uSteps vSteps : Nat) : (cells uSteps vSteps).Nodup :=
  List.nodup_range.product List.nodup_range

theorem sum_cells (uSteps vSteps : Nat) (f : Node → Nat) :
    ((cells uSteps vSteps).map f).sum = ∑ i ∈ range uSteps, ∑ j ∈ range vSteps, f (i, j) := by
  have hset : (cells uSteps vSteps).toFinset = range uSteps ×ˢ range vSteps := by
    ext c
    rw [List.mem_toFinset, mem_cells, Finset.mem_product, Finset.mem_range, Finset.mem_range]
  rw [← List.sum_toFinset f (nodup_cells uSteps vSteps), hset, Finset.sum_product]

/-! ## Edges -/

/-- All directed edges of a grid. -/
def gridEdges (uSteps vSteps : Nat) : List (Node × Node) :=
  (cells uSteps vSteps).flatMap cellEdges

theorem mem_cellEdges {c : Node} {e : Node × Node} : e ∈ cellEdges c ↔
    e = ((c.1, c.2), (c.1 + 1, c.2)) ∨ e = ((c.1 + 1, c.2), (c.1, c.2 + 1)) ∨
    e = ((c.1, c.2 + 1), (c.1, c.2)) ∨ e = ((c.1 + 1, c.2), (c.1 + 1, c.2 + 1)) ∨
    e = ((c.1 + 1, c.2 + 1), (c.1, c.2 + 1)) ∨ e = ((c.1, c.2 + 1), (c.1 + 1, c.2)) := by
  simp only [cellEdges, List.mem_cons, List.not_mem_nil, or_false]

theorem nodup_cellEdges (c : Node) : (cellEdges c).Nodup := by
  obtain ⟨i, j⟩ := c
  simp [cellEdges]

/-- A directed edge belongs to one cell only. -/
theorem eq_of_mem_cellEdges {c c' : Node} {e : Node × Node} (h : e ∈ cellEdges c)
    (h' : e ∈ cellEdges c') : c = c' := by
  obtain ⟨⟨a, b⟩, a', b'⟩ := e
  simp only [mem_cellEdges, Prod.mk.injEq] at h h'
  refine Prod.ext ?_ ?_ <;> omega

theorem nodup_gridEdges (uSteps vSteps : Nat) : (gridEdges uSteps vSteps).Nodup := by
  rw [gridEdges, List.nodup_flatMap]
  refine ⟨fun c _ => nodup_cellEdges c, (nodup_cells uSteps vSteps).imp fun hne e he he' => ?_⟩
  exact hne (eq_of_mem_cellEdges he he')

/-- The nodes of a grid. -/
def InGrid (uSteps vSteps : Nat) (p : Node) : Prop := p.1 ≤ uSteps ∧ p.2 ≤ vSteps

theorem inGrid_of_mem_gridEdges {uSteps vSteps : Nat} {e : Node × Node}
    (h : e ∈ gridEdges uSteps vSteps) : InGrid uSteps vSteps e.1 ∧ InGrid uSteps vSteps e.2 := by
  obtain ⟨c, hc, he⟩ := List.mem_flatMap.mp h
  obtain ⟨hi, hj⟩ := mem_cells.mp hc
  simp only [InGrid]
  rcases mem_cellEdges.mp he with rfl | rfl | rfl | rfl | rfl | rfl <;> dsimp only <;> omega

/-- An edge with both ends on one side of the rectangle. -/
def OnRim (uSteps vSteps : Nat) (e : Node × Node) : Prop :=
  (e.1.1 = 0 ∧ e.2.1 = 0) ∨ (e.1.1 = uSteps ∧ e.2.1 = uSteps) ∨
    (e.1.2 = 0 ∧ e.2.2 = 0) ∨ (e.1.2 = vSteps ∧ e.2.2 = vSteps)

instance (uSteps vSteps : Nat) (e : Node × Node) : Decidable (OnRim uSteps vSteps e) :=
  inferInstanceAs (Decidable (_ ∨ _))

/-- Which of the edges of a cell lie on the rim: the outer ones, each at one side of the grid. -/
structure RimOfCell (uSteps vSteps i j : Nat) : Prop where
  left : OnRim uSteps vSteps ((i, j), (i + 1, j)) ↔ j = 0
  top : OnRim uSteps vSteps ((i, j + 1), (i, j)) ↔ i = 0
  bottom : OnRim uSteps vSteps ((i + 1, j), (i + 1, j + 1)) ↔ i = uSteps - 1
  right : OnRim uSteps vSteps ((i + 1, j + 1), (i, j + 1)) ↔ j = vSteps - 1
  lowerDiagonal : ¬ OnRim uSteps vSteps ((i + 1, j), (i, j + 1))
  upperDiagonal : ¬ OnRim uSteps vSteps ((i, j + 1), (i + 1, j))

theorem rimOfCell {uSteps vSteps i j : Nat} (hi : i < uSteps) (hj : j < vSteps) :
    RimOfCell uSteps vSteps i j := by
  constructor <;> simp only [OnRim] <;> omega

/-- The reverse of an edge is an edge as well, unless the edge lies on the rim. -/
theorem swap_mem_gridEdges {uSteps vSteps : Nat} {e : Node × Node}
    (h : e ∈ gridEdges uSteps vSteps) :
    e.swap ∈ gridEdges uSteps vSteps ↔ ¬ OnRim uSteps vSteps e := by
  obtain ⟨⟨i, j⟩, hc, he⟩ := List.mem_flatMap.mp h
  obtain ⟨hi, hj⟩ := mem_cells.mp hc
  dsimp only at hi hj
  have hrim := rimOfCell hi hj
  have hmem : e.swap ∈ gridEdges uSteps vSteps ↔
      ∃ i' j', i' < uSteps ∧ j' < vSteps ∧ e.swap ∈ cellEdges (i', j') := by
    simp only [gridEdges, List.mem_flatMap, mem_cells, Prod.exists, and_assoc]
  rw [hmem]
  -- each outer edge is met again in the cell beyond it, a diagonal in the cell itself
  rcases mem_cellEdges.mp he with rfl | rfl | rfl | rfl | rfl | rfl <;>
    simp only [mem_cellEdges, Prod.swap_prod_mk, Prod.mk.injEq, hrim.left, hrim.top, hrim.bottom,
      hrim.right, hrim.lowerDiagonal, hrim.upperDiagonal, not_false_eq_true, iff_true]
  · exact ⟨by omega, fun _ => ⟨i, j - 1, by omega⟩⟩
  · exact ⟨i, j, by omega⟩
  · exact ⟨by omega, fun _ => ⟨i - 1, j, by omega⟩⟩
  · exact ⟨by omega, fun _ => ⟨i + 1, j, by omega⟩⟩
  · exact ⟨by omega, fun _ => ⟨i, j + 1, by omega⟩⟩
  · exact ⟨i, j, by omega⟩

/-! ## The rim -/

theorem mul_ite_one (p : Prop) [Decidable p] (n : Nat) :
    (n * if p then 1 else 0) = if p then n else 0 := by
  split
  · exact Nat.mul_one n
  · exact Nat.mul_zero n

/-- The edges of a cell that lie on the rim. -/
theorem countP_onRim_cellEdges {uSteps vSteps i j : Nat} (hi : i < uSteps) (hj : j < vSteps) :
    (cellEdges (i, j)).countP (fun e => OnRim uSteps vSteps e) =
      (if j = 0 then 1 else 0) + (if i = 0 then 1 else 0) +
        (if i = uSteps - 1 then 1 else 0) + if j = vSteps - 1 then 1 else 0 := by
  have hrim := rimOfCell hi hj
  simp only [cellEdges, List.countP_cons, List.countP_nil, decide_eq_true_eq, hrim.left, hrim.top,
    hrim.bottom, hrim.right, hrim.lowerDiagonal, hrim.upperDiagonal, if_false]
  ring

/-- The rim has as many edges as its four sides have steps. -/
theorem countP_onRim_gridEdges {uSteps vSteps : Nat} (hu : 1 ≤ uSteps) (hv : 1 ≤ vSteps) :
    (gridEdges uSteps vSteps).countP (fun e => OnRim uSteps vSteps e) =
      2 * (uSteps + vSteps) := by
  rw [gridEdges, List.countP_flatMap, sum_cells]
  calc
    _ = ∑ i ∈ range uSteps, ∑ j ∈ range vSteps,
          ((if j = 0 then 1 else 0) + (if i = 0 then 1 else 0) +
            (if i = uSteps - 1 then 1 else 0) + if j = vSteps - 1 then 1 else 0) := by
      refine Finset.sum_congr rfl fun i hi => Finset.sum_congr rfl fun j hj => ?_
      exact countP_onRim_cellEdges (Finset.mem_range.mp hi) (Finset.mem_range.mp hj)
    _ = uSteps + vSteps + vSteps + uSteps := by
      simp only [Finset.sum_add_distrib, Finset.sum_ite_eq', Finset.sum_const, Finset.mem_range,
        Finset.card_range, smul_eq_mul, mul_ite_one]
      rw [if_pos (by omega), if_pos (by omega), if_pos (by omega), if_pos (by omega)]
    _ = 2 * (uSteps + vSteps) := by ring

/-! ## Nodes -/

/-- The number of triangles that meet at a node. -/
def valence (uSteps vSteps : Nat) (p : Node) : Nat :=
  if p = (0, 0) ∨ p = (uSteps, vSteps) then 1
  else if p = (0, vSteps) ∨ p = (uSteps, 0) then 2
  else if p.1 = 0 ∨ p.1 = uSteps ∨ p.2 = 0 ∨ p.2 = vSteps then 3
  else 6

/-- A node stands at a given corner of one cell, if there is that cell. -/
theorem sum_ite_corner (uSteps vSteps a b : Nat) (p : Node) :
    (∑ i ∈ range uSteps, ∑ j ∈ range vSteps, if (i + a, j + b) = p then 1 else 0) =
      if a ≤ p.1 ∧ p.1 < uSteps + a ∧ b ≤ p.2 ∧ p.2 < vSteps + b then 1 else 0 := by
  obtain ⟨k, l⟩ := p
  by_cases h : a ≤ k ∧ b ≤ l
  · obtain ⟨ha, hb⟩ := h
    have hcell : ∀ i j, (i + a, j + b) = (k, l) ↔ j = l - b ∧ i = k - a := by
      intro i j
      rw [Prod.mk.injEq]
      omega
    have hrange : (a ≤ k ∧ k < uSteps + a ∧ b ≤ l ∧ l < vSteps + b) ↔
        k - a < uSteps ∧ l - b < vSteps := by omega
    simp only [hrange, hcell, ite_and, Finset.sum_ite_eq', Finset.mem_range]
    by_cases hl : l - b < vSteps <;> simp [hl]
  · have hcell : ∀ i j, (i + a, j + b) ≠ (k, l) := by
      intro i j heq
      rw [Prod.mk.injEq] at heq
      omega
    simp only [hcell, if_false, Finset.sum_const_zero]
    rw [if_neg (by omega)]

theorem count_corners {uSteps vSteps : Nat} (hu : 1 ≤ uSteps) (hv : 1 ≤ vSteps) {p : Node}
    (hp : InGrid uSteps vSteps p) :
    ((cells uSteps vSteps).flatMap fun c => lowerNodes c ++ upperNodes c).count p =
      valence uSteps vSteps p := by
  obtain ⟨k, l⟩ := p
  have hcorner := fun a b => sum_ite_corner uSteps vSteps a b (k, l)
  have h00 := hcorner 0 0
  have h01 := hcorner 0 1
  have h10 := hcorner 1 0
  have h11 := hcorner 1 1
  simp only [Nat.add_zero] at h00 h01 h10
  rw [List.count_flatMap, sum_cells]
  simp only [Function.comp_apply, lowerNodes, upperNodes, List.count_append, List.count_cons,
    List.count_nil, beq_iff_eq, Finset.sum_add_distrib, h00, h01, h10, h11, Finset.sum_const_zero]
  -- what is left is which of these corners there are, on each side of the grid
  simp only [InGrid] at hp
  simp only [valence, Prod.mk.injEq]
  split_ifs <;> omega

end SurfaceStudio.Grid
