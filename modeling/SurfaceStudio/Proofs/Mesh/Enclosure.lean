import Mathlib.Order.Bounds.Basic
import SurfaceStudio.Mesh.Sphere
import SurfaceStudio.Proofs.Mesh.Normals
/-!
# The sphere around a mesh

The vertices are scaled down before the sphere is searched, and the sphere is scaled up again. Over
the real numbers neither step shows: whatever the scale, the centre is the middle of the bounding box
of the vertices themselves, and the radius is the greatest distance of a vertex from there. Only a
mesh whose vertices are all in one place has another radius, which is 1.
-/

namespace SurfaceStudio.Mesh

/-! ## The least and the greatest of some numbers -/

section Extremes

variable {x : ℝ} {xs : List ℝ}

theorem isLeast_foldl_min : IsLeast {y | y ∈ x :: xs} (xs.foldl min x) := by
  have hmin : (x :: xs).min? = some (xs.foldl min x) := List.min?_cons'
  obtain ⟨hmem, hle⟩ := List.min?_eq_some_iff.mp hmin
  exact ⟨hmem, fun y hy => hle y hy⟩

theorem isGreatest_foldl_max : IsGreatest {y | y ∈ x :: xs} (xs.foldl max x) := by
  have hmax : (x :: xs).max? = some (xs.foldl max x) := List.max?_cons'
  obtain ⟨hmem, hle⟩ := List.max?_eq_some_iff.mp hmax
  exact ⟨hmem, fun y hy => hle y hy⟩

end Extremes

/-! ## Any scale -/

section Scales

variable {α : Type} [Scalar α]

/-- The sphere that is found if the vertices are divided by `e` for the search. -/
def sphereAtScale (e : α) (m : Mesh α) : Sphere α :=
  let ps := m.positions.map (·.dividedBy e)
  let first := ps.getD 0 Vec3.zero
  let center := (corner Scalar.min first ps + corner Scalar.max first ps).map Scalar.half
  let radius := e * reach center ps
  { center := center.times e
    radius := if !Scalar.isFinite radius || !Scalar.less Scalar.zero radius then
        Scalar.literal Settings.fallbackRadius
      else radius }

theorem boundingSphere_eq (m : Mesh α) : m.boundingSphere = m.sphereAtScale m.extent := rfl

end Scales

/-- The vertex that the search begins with. -/
noncomputable def firstVertex (ps : Array (Vec3 ℝ)) : Vec3 ℝ := ps.getD 0 Vec3.zero

/-- The middle between the two corners of the bounding box. -/
noncomputable def middle (ps : Array (Vec3 ℝ)) : Vec3 ℝ :=
  (corner Scalar.min (firstVertex ps) ps + corner Scalar.max (firstVertex ps) ps).map Scalar.half

section Scaling

variable {e : ℝ} {ps : Array (Vec3 ℝ)}

theorem zipWith_dividedBy {pick : ℝ → ℝ → ℝ} (h : ∀ a b, pick (a / e) (b / e) = pick a b / e)
    (p q : Vec3 ℝ) :
    Vec3.zipWith pick (p.dividedBy e) (q.dividedBy e) = (Vec3.zipWith pick p q).dividedBy e :=
  Vec3.ext (h _ _) (h _ _) (h _ _)

theorem corner_dividedBy {pick : ℝ → ℝ → ℝ} (h : ∀ a b, pick (a / e) (b / e) = pick a b / e)
    (first : Vec3 ℝ) : corner pick (first.dividedBy e) (ps.map (·.dividedBy e)) =
      (corner pick first ps).dividedBy e := by
  rw [corner, corner, Array.foldl_map]
  refine Array.foldl_hom (Vec3.dividedBy · e) ?_
  intro p q
  exact zipWith_dividedBy h p q

theorem firstVertex_dividedBy :
    firstVertex (ps.map (·.dividedBy e)) = (firstVertex ps).dividedBy e := by
  rw [firstVertex, firstVertex, Array.getD_eq_getD_getElem?, Array.getD_eq_getD_getElem?,
    Array.getElem?_map]
  cases ps[0]? with
  | some p => rfl
  | none => exact ((Vec3.dividedBy_eq _ _).trans (Vec3.zero_times _)).symm

theorem middle_dividedBy (he : 0 < e) :
    middle (ps.map (·.dividedBy e)) = (middle ps).dividedBy e := by
  have hmin : ∀ a b : ℝ, Scalar.min (a / e) (b / e) = Scalar.min a b / e :=
    fun a b => min_div_div_right he.le a b
  have hmax : ∀ a b : ℝ, Scalar.max (a / e) (b / e) = Scalar.max a b / e :=
    fun a b => max_div_div_right he.le a b
  have hhalf (a b : ℝ) : Scalar.half (a / e + b / e) = Scalar.half (a + b) / e := by
    rw [Scalar.half_real, Scalar.half_real, ← add_div, div_right_comm]
  rw [middle, middle, firstVertex_dividedBy, corner_dividedBy hmin, corner_dividedBy hmax]
  exact Vec3.ext (hhalf _ _) (hhalf _ _) (hhalf _ _)

theorem dividedBy_sub_dividedBy (p q : Vec3 ℝ) :
    p.dividedBy e - q.dividedBy e = (p - q).dividedBy e :=
  Vec3.ext (sub_div _ _ _).symm (sub_div _ _ _).symm (sub_div _ _ _).symm

theorem reach_dividedBy (he : 0 < e) (c : Vec3 ℝ) :
    reach (c.dividedBy e) (ps.map (·.dividedBy e)) = reach c ps / e := by
  have hstep (d : ℝ) (p : Vec3 ℝ) :
      Scalar.max (d / e) (p.dividedBy e - c.dividedBy e).length =
        Scalar.max d (p - c).length / e := by
    rw [dividedBy_sub_dividedBy, Vec3.dividedBy_eq, Vec3.length_times (inv_nonneg.mpr he.le),
      ← div_eq_mul_inv]
    exact max_div_div_right he.le _ _
  have hzero : (Scalar.zero : ℝ) = Scalar.zero / e := by
    rw [Scalar.zero_real, zero_div]
  rw [reach, reach, Array.foldl_map]
  conv_lhs => rw [hzero]
  exact Array.foldl_hom (· / e) hstep

end Scaling

/-! ## The sphere in exact arithmetic -/

theorem fallbackRadius_real : (Scalar.literal Settings.fallbackRadius : ℝ) = 1 := by
  have hone : Settings.fallbackRadius = Float.ofNat 1 := rfl
  rw [Scalar.literal_real, hone, (Decimal.value_ofNat (by norm_num)).2]
  norm_num

/-- The scale of the search does not matter. -/
theorem sphereAtScale_eq {m : Mesh ℝ} {e : ℝ} (he : 0 < e) : m.sphereAtScale e =
    ⟨middle m.positions, if 0 < reach (middle m.positions) m.positions then
      reach (middle m.positions) m.positions else 1⟩ := by
  have hcenter : ((middle m.positions).dividedBy e).times e = middle m.positions := by
    rw [Vec3.dividedBy_eq, Vec3.times_times, inv_mul_cancel₀ he.ne', Vec3.times_one]
  have hreach : e * reach (middle (m.positions.map (·.dividedBy e)))
      (m.positions.map (·.dividedBy e)) = reach (middle m.positions) m.positions := by
    rw [middle_dividedBy he, reach_dividedBy he, mul_div_cancel₀ _ he.ne']
  have hsphere : m.sphereAtScale e =
      ⟨(middle (m.positions.map (·.dividedBy e))).times e,
        if !Scalar.less Scalar.zero (e * reach (middle (m.positions.map (·.dividedBy e)))
            (m.positions.map (·.dividedBy e))) then Scalar.literal Settings.fallbackRadius
        else e * reach (middle (m.positions.map (·.dividedBy e)))
          (m.positions.map (·.dividedBy e))⟩ := rfl
  rw [hsphere, hreach, middle_dividedBy he, hcenter, fallbackRadius_real, Scalar.zero_real]
  congr 1
  rcases lt_or_ge 0 (reach (middle m.positions) m.positions) with hpos | hpos
  · have hless : Scalar.less 0 (reach (middle m.positions) m.positions) = true :=
      decide_eq_true hpos
    rw [hless, if_pos hpos]
    rfl
  · have hless : Scalar.less 0 (reach (middle m.positions) m.positions) = false :=
      decide_eq_false hpos.not_gt
    rw [hless, if_neg hpos.not_gt]
    rfl

/-- The three coordinates. -/
def axes : List (Vec3 ℝ → ℝ) := [Vec3.x, Vec3.y, Vec3.z]

theorem forall_mem_axes {P : (Vec3 ℝ → ℝ) → Prop} :
    (∀ axis ∈ axes, P axis) ↔ P Vec3.x ∧ P Vec3.y ∧ P Vec3.z := by
  rw [axes, List.forall_mem_cons, List.forall_mem_cons, List.forall_mem_singleton]

theorem eq_of_forall_axes {p q : Vec3 ℝ} (h : ∀ axis ∈ axes, axis p = axis q) : p = q := by
  obtain ⟨hx, hy, hz⟩ := forall_mem_axes.mp h
  exact Vec3.ext hx hy hz

section Vertices

variable {ps : Array (Vec3 ℝ)}

theorem firstVertex_mem (hps : 0 < ps.size) : firstVertex ps ∈ ps := by
  rw [firstVertex, Array.getD_eq_getD_getElem?, Array.getElem?_eq_getElem hps]
  exact Array.getElem_mem hps

/-- A search over points searches each coordinate. -/
theorem axis_corner {axis : Vec3 ℝ → ℝ} (haxis : axis ∈ axes) (pick : ℝ → ℝ → ℝ)
    (first : Vec3 ℝ) :
    axis (corner pick first ps) = (ps.toList.map axis).foldl pick (axis first) := by
  have hpick : ∀ axis ∈ axes, ∀ p q, pick (axis p) (axis q) = axis (Vec3.zipWith pick p q) :=
    forall_mem_axes.mpr ⟨fun _ _ => rfl, fun _ _ => rfl, fun _ _ => rfl⟩
  rw [corner, ← Array.foldl_toList, List.foldl_map]
  exact (List.foldl_hom axis (hpick axis haxis)).symm

theorem axis_middle (ps : Array (Vec3 ℝ)) : ∀ axis ∈ axes,
    axis (middle ps) = (axis (corner Scalar.min (firstVertex ps) ps) +
      axis (corner Scalar.max (firstVertex ps) ps)) / 2 :=
  forall_mem_axes.mpr ⟨Scalar.half_real _, Scalar.half_real _, Scalar.half_real _⟩

/-- The coordinates of the first vertex, with which the search begins, are among those searched. -/
theorem setOf_mem_cons_eq {axis : Vec3 ℝ → ℝ} (hps : 0 < ps.size) :
    {y | y ∈ axis (firstVertex ps) :: ps.toList.map axis} = axis '' {p | p ∈ ps} := by
  ext y
  rw [Set.mem_ofPred_eq, List.mem_cons, List.mem_map]
  constructor
  · rintro (rfl | ⟨p, hp, rfl⟩)
    · exact ⟨_, firstVertex_mem hps, rfl⟩
    · exact ⟨p, Array.mem_toList_iff.mp hp, rfl⟩
  · rintro ⟨p, hp, rfl⟩
    exact .inr ⟨p, Array.mem_toList_iff.mpr hp, rfl⟩

theorem isLeast_corner {axis : Vec3 ℝ → ℝ} (haxis : axis ∈ axes) (hps : 0 < ps.size) :
    IsLeast (axis '' {p | p ∈ ps}) (axis (corner Scalar.min (firstVertex ps) ps)) := by
  rw [axis_corner haxis, ← setOf_mem_cons_eq hps]
  exact isLeast_foldl_min

theorem isGreatest_corner {axis : Vec3 ℝ → ℝ} (haxis : axis ∈ axes) (hps : 0 < ps.size) :
    IsGreatest (axis '' {p | p ∈ ps}) (axis (corner Scalar.max (firstVertex ps) ps)) := by
  rw [axis_corner haxis, ← setOf_mem_cons_eq hps]
  exact isGreatest_foldl_max

/-- No distance is below zero, with which the search for the greatest one begins. -/
theorem isGreatest_reach (hps : 0 < ps.size) (c : Vec3 ℝ) :
    IsGreatest ((fun p => (p - c).length) '' {p | p ∈ ps}) (reach c ps) := by
  have hreach : reach c ps = (ps.toList.map fun p => (p - c).length).foldl max 0 := by
    rw [reach, ← Array.foldl_toList, List.foldl_map, Scalar.zero_real]
    rfl
  have hgreatest : IsGreatest {d | d ∈ (0 : ℝ) :: ps.toList.map fun p => (p - c).length}
      (reach c ps) := hreach ▸ isGreatest_foldl_max
  obtain ⟨hmem, hle⟩ := hgreatest
  have hbound : ∀ p ∈ ps, (p - c).length ≤ reach c ps := by
    intro p hp
    apply hle
    exact List.mem_cons_of_mem _ (List.mem_map.mpr ⟨p, Array.mem_toList_iff.mpr hp, rfl⟩)
  refine ⟨?_, ?_⟩
  · rcases List.mem_cons.mp hmem with hzero | hmem
    · have hfirst := hbound _ (firstVertex_mem hps)
      refine ⟨_, firstVertex_mem hps, le_antisymm hfirst ?_⟩
      rw [hzero]
      exact Vec3.length_nonneg _
    · obtain ⟨p, hp, hlength⟩ := List.mem_map.mp hmem
      exact ⟨p, Array.mem_toList_iff.mp hp, hlength⟩
  · rintro y ⟨p, hp, rfl⟩
    exact hbound p hp

/-- Only the distances from a common point are all zero. -/
theorem eq_of_reach_le_zero (hps : 0 < ps.size) {c p : Vec3 ℝ} (h : reach c ps ≤ 0)
    (hp : p ∈ ps) : p = c := by
  have hle : (p - c).length ≤ reach c ps := (isGreatest_reach hps c).2 ⟨p, hp, rfl⟩
  have hlength : (p - c).length = 0 := le_antisymm (hle.trans h) (Vec3.length_nonneg _)
  exact sub_eq_zero.mp (Vec3.length_eq_zero_iff.mp hlength)

theorem middle_of_forall_eq (hps : 0 < ps.size) {c : Vec3 ℝ} (h : ∀ p ∈ ps, p = c) :
    middle ps = c := by
  apply eq_of_forall_axes
  intro axis haxis
  have hall : ∀ y ∈ axis '' {p | p ∈ ps}, y = axis c := by
    rintro y ⟨p, hp, rfl⟩
    rw [h p hp]
  rw [axis_middle ps axis haxis, hall _ (isLeast_corner haxis hps).1,
    hall _ (isGreatest_corner haxis hps).1]
  exact add_self_div_two _

theorem reach_of_forall_eq (hps : 0 < ps.size) {c : Vec3 ℝ} (h : ∀ p ∈ ps, p = c) :
    reach c ps = 0 := by
  obtain ⟨p, hp, hlength⟩ := (isGreatest_reach hps c).1
  rw [← hlength, h p hp]
  exact Vec3.length_eq_zero_iff.mpr (sub_self c)

end Vertices

/-- The sphere around a mesh with vertices. Its centre is the middle between the least and the
greatest coordinate of the vertices on each axis. If two vertices differ, its radius is the greatest
distance of a vertex from the centre: all vertices are inside and one is on the sphere. If they are
all one point, that point is the centre and the radius is 1. The scale of the search does not matter:
every other one would give the same sphere. -/
theorem boundingSphere_encloses {m : Mesh ℝ} (hm : 0 < m.vertexCount) :
    ∃ s, m.boundingSphere? = .ok s ∧
      (∀ axis ∈ axes, ∃ lo hi, IsLeast (axis '' {p | p ∈ m.positions}) lo ∧
        IsGreatest (axis '' {p | p ∈ m.positions}) hi ∧ axis s.center = (lo + hi) / 2) ∧
      ((∃ p ∈ m.positions, ∃ q ∈ m.positions, p ≠ q) →
        IsGreatest ((fun p => (p - s.center).length) '' {p | p ∈ m.positions}) s.radius) ∧
      (∀ c, (∀ p ∈ m.positions, p = c) → s.center = c ∧ s.radius = 1) ∧
      ∀ e, 0 < e → m.sphereAtScale e = s := by
  have hsphere : m.boundingSphere? = .ok (m.sphereAtScale m.extent) := by
    have hempty : m.positions.isEmpty = false := by
      rw [Array.isEmpty_eq_false_iff]
      exact Array.size_pos_iff.mp hm
    rw [boundingSphere?, hempty, boundingSphere_eq]
    rfl
  rw [sphereAtScale_eq m.extent_pos] at hsphere
  refine ⟨_, hsphere, ?_, ?_, ?_, fun e he => sphereAtScale_eq he⟩
  · intro axis haxis
    exact ⟨_, _, isLeast_corner haxis hm, isGreatest_corner haxis hm, axis_middle _ axis haxis⟩
  · rintro ⟨p, hp, q, hq, hne⟩
    have hpos : 0 < reach (middle m.positions) m.positions := by
      by_contra hle
      have hp := eq_of_reach_le_zero hm (not_lt.mp hle) hp
      have hq := eq_of_reach_le_zero hm (not_lt.mp hle) hq
      exact hne (hp.trans hq.symm)
    show IsGreatest _ (if 0 < reach (middle m.positions) m.positions then
      reach (middle m.positions) m.positions else 1)
    rw [if_pos hpos]
    exact isGreatest_reach hm _
  · intro c hc
    have hcenter := middle_of_forall_eq hm hc
    refine ⟨hcenter, ?_⟩
    show (if 0 < reach (middle m.positions) m.positions then
      reach (middle m.positions) m.positions else 1) = 1
    rw [hcenter, reach_of_forall_eq hm hc, if_neg (lt_irrefl 0)]

/-- Vertices without a face between them. -/
def cloud (ps : Array (Vec3 ℝ)) : Mesh ℝ := ⟨ps, [], 0, 0⟩

/-- Two vertices six apart, and one point twice that is not the origin. -/
theorem boundingSphere_encloses_two_vertices :
    (∃ s, (cloud #[⟨1, 2, 2⟩, ⟨7, 2, 2⟩]).boundingSphere? = .ok s ∧ s.center = ⟨4, 2, 2⟩ ∧
      s.radius = 3) ∧
    ∃ s, (cloud #[⟨1, 2, 2⟩, ⟨1, 2, 2⟩]).boundingSphere? = .ok s ∧ s.center = ⟨1, 2, 2⟩ ∧
      s.radius = 1 := by
  obtain ⟨s, hs, hcenter, hradius, -, -⟩ :=
    boundingSphere_encloses (m := cloud #[⟨1, 2, 2⟩, ⟨7, 2, 2⟩]) (by decide)
  obtain ⟨s', hs', -, -, hpoint, -⟩ :=
    boundingSphere_encloses (m := cloud #[⟨1, 2, 2⟩, ⟨1, 2, 2⟩]) (by decide)
  refine ⟨⟨s, hs, ?_⟩, s', hs', hpoint ⟨1, 2, 2⟩ (by simp [cloud])⟩
  have haxis : ∀ axis ∈ axes, axis ⟨1, 2, 2⟩ ≤ axis ⟨7, 2, 2⟩ →
      axis s.center = (axis ⟨1, 2, 2⟩ + axis ⟨7, 2, 2⟩) / 2 := by
    intro axis haxis hle
    obtain ⟨lo, hi, ⟨⟨p, hp, hlo⟩, hleast⟩, ⟨⟨q, hq, hhi⟩, hgreatest⟩, hmiddle⟩ :=
      hcenter axis haxis
    have hlow : lo ≤ axis ⟨1, 2, 2⟩ := hleast ⟨_, by simp [cloud], rfl⟩
    have hhigh : axis ⟨7, 2, 2⟩ ≤ hi := hgreatest ⟨_, by simp [cloud], rfl⟩
    have hp : p = ⟨1, 2, 2⟩ ∨ p = ⟨7, 2, 2⟩ := by simpa [cloud] using hp
    have hq : q = ⟨1, 2, 2⟩ ∨ q = ⟨7, 2, 2⟩ := by simpa [cloud] using hq
    rw [hmiddle]
    rcases hp with rfl | rfl <;> rcases hq with rfl | rfl <;> linarith
  have hmiddle : s.center = ⟨4, 2, 2⟩ := by
    obtain ⟨hx, hy, hz⟩ := forall_mem_axes.mp haxis
    refine Vec3.ext ?_ ?_ ?_
    · rw [hx (by norm_num)]
      norm_num
    · rw [hy (by norm_num)]
      norm_num
    · rw [hz (by norm_num)]
      norm_num
  refine ⟨hmiddle, ?_⟩
  obtain ⟨p, hp, hlength⟩ :=
    (hradius ⟨⟨1, 2, 2⟩, by simp [cloud], ⟨7, 2, 2⟩, by simp [cloud], by norm_num⟩).1
  have hp : p = ⟨1, 2, 2⟩ ∨ p = ⟨7, 2, 2⟩ := by simpa [cloud] using hp
  have hthree : √((3 : ℝ) * 3) = 3 := Real.sqrt_mul_self (by norm_num)
  rw [← hlength]
  show (p - s.center).length = 3
  rw [hmiddle, Vec3.length_eq]
  rcases hp with rfl | rfl
  · norm_num [hthree]
  · norm_num [hthree]

end SurfaceStudio.Mesh
