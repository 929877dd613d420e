import SurfaceStudio.Mesh.Facets
import SurfaceStudio.Proofs.Mesh.Vectors
import SurfaceStudio.Proofs.Surface.Building
/-!
# Normals of meshes

The normals of the faces are added up at the vertices pass by pass: at the first corners of all
faces, then at the second and the third ones. Nothing is lost and nothing is added twice: at each
vertex the sum is taken over the pairs of a face and one of its corners that lie there, in this
order. This holds over any scalars. Over the real numbers the order does not matter; a face counts
once for each of its corners, whichever of them is named first, and with the opposite sign if it is
named backwards. Neither scaling that is made on the way has an effect on the direction.
-/

namespace SurfaceStudio.Mesh

/-! ## Sums over incident corners -/

section Sums

variable {α : Type} [Scalar α]

/-- The face normals that are added up at vertex `k`: one for each face and each of its corners
there, corner by corner, and in the order of the faces for each of them. -/
def normalsAt (positions : Array (Vec3 α)) (ts : List Triangle) (k : ℕ) : List (Vec3 α) :=
  [Triangle.a, Triangle.b, Triangle.c].flatMap fun corner =>
    (ts.filter fun t => (corner t).toNat = k).map (faceNormal positions)

/-- Their sum, from zero on. -/
def sumAt (positions : Array (Vec3 α)) (ts : List Triangle) (k : ℕ) : Vec3 α :=
  (normalsAt positions ts k).foldl (· + ·) Vec3.zero

/-- One addition changes one entry. -/
theorem getElem?_addAt (sums : Array (Vec3 α)) (i : UInt32) (n : Vec3 α) (k : ℕ) :
    (addAt sums i n)[k]? = if i.toNat = k then sums[k]?.map (· + n) else sums[k]? := by
  rw [addAt, Array.getElem?_modify]

/-- After all additions an entry holds what was added to it, in order. -/
theorem getElem?_foldl_addAt (cs : List (UInt32 × Vec3 α)) (sums : Array (Vec3 α)) (k : ℕ) :
    (cs.foldl (fun sums c => addAt sums c.1 c.2) sums)[k]? =
      sums[k]?.map (((cs.filter fun c => c.1.toNat = k).map (·.2)).foldl (· + ·)) := by
  induction cs generalizing sums with
  | nil => simp
  | cons c cs ih =>
    rw [List.foldl_cons, ih, getElem?_addAt]
    by_cases hc : c.1.toNat = k
    · rw [if_pos hc, List.filter_cons_of_pos (by simpa using hc), Option.map_map, List.map_cons]
      rfl
    · rw [if_neg hc, List.filter_cons_of_neg (by simpa using hc)]

/-- What is added at a vertex are the normals of the faces around it. -/
theorem filter_contributions (positions : Array (Vec3 α)) (ts : List Triangle) (k : ℕ) :
    ((contributions positions ts).filter fun c => c.1.toNat = k).map (·.2) =
      normalsAt positions ts k := by
  have hpass (corner : Triangle → UInt32) :
      (((ts.map fun t => (t, faceNormal positions t)).map fun f => (corner f.1, f.2)).filter
          fun c => c.1.toNat = k).map (·.2) =
        (ts.filter fun t => (corner t).toNat = k).map (faceNormal positions) := by
    rw [List.map_map, List.filter_map, List.map_map]
    rfl
  simp only [contributions, List.filter_append, List.map_append, hpass, normalsAt,
    List.flatMap_cons, List.flatMap_nil, List.append_nil, List.append_assoc]

theorem size_normalSums (m : Mesh α) : m.normalSums.size = m.vertexCount := by
  rw [normalSums, size_foldl_addAt, Array.size_replicate]

theorem getElem?_normalSums (m : Mesh α) {k : ℕ} (hk : k < m.vertexCount) :
    m.normalSums[k]? = some (sumAt m.scaled m.triangles k) := by
  rw [normalSums, getElem?_foldl_addAt, filter_contributions, Array.getElem?_replicate,
    if_pos hk]
  rfl

end Sums

/-! ## Corners -/

section Corners

variable {α : Type} {m : Mesh α} {t : Triangle} {p q r : Vec3 α}

/-- The corners of a triangle are these vertices of the mesh. -/
structure HasCorners (m : Mesh α) (t : Triangle) (p q r : Vec3 α) : Prop where
  first : m.positions[t.a.toNat]? = some p
  second : m.positions[t.b.toNat]? = some q
  third : m.positions[t.c.toNat]? = some r

theorem exists_corners (hm : m.isInRange = true) (ht : t ∈ m.triangles) :
    ∃ p q r, m.HasCorners t p q r := by
  have hrange : ∀ i ∈ t.corners, ∃ p, m.positions[i.toNat]? = some p := by
    intro i hi
    have hmem : i ∈ m.indices := List.mem_flatMap.mpr ⟨t, ht, hi⟩
    have hlt : i.toNat < m.positions.size := of_decide_eq_true (List.all_eq_true.mp hm i hmem)
    exact ⟨_, Array.getElem?_eq_getElem hlt⟩
  obtain ⟨p, hp⟩ := hrange t.a (by simp [Triangle.corners])
  obtain ⟨q, hq⟩ := hrange t.b (by simp [Triangle.corners])
  obtain ⟨r, hr⟩ := hrange t.c (by simp [Triangle.corners])
  exact ⟨p, q, r, hp, hq, hr⟩

variable [Scalar α]

theorem vertex_of_getElem? {positions : Array (Vec3 α)} {i : UInt32}
    (h : positions[i.toNat]? = some p) : vertex positions i = p := by
  rw [vertex, Array.getD_eq_getD_getElem?, h, Option.getD_some]

theorem vertex_scaled {i : UInt32} (h : m.positions[i.toNat]? = some p) :
    vertex m.scaled i = p.dividedBy m.extent := by
  refine vertex_of_getElem? ?_
  rw [scaled, Array.getElem?_map, h]
  rfl

/-- The normal of a face is taken at its second corner, from the scaled vertices. -/
theorem HasCorners.faceNormal_scaled (h : m.HasCorners t p q r) :
    faceNormal m.scaled t = (r.dividedBy m.extent - q.dividedBy m.extent).cross
      (p.dividedBy m.extent - q.dividedBy m.extent) := by
  rw [faceNormal, vertex_scaled h.first, vertex_scaled h.second, vertex_scaled h.third]

theorem HasCorners.faceNormal_eq (h : m.HasCorners t p q r) :
    faceNormal m.positions t = (r - q).cross (p - q) := by
  rw [faceNormal, vertex_of_getElem? h.first, vertex_of_getElem? h.second,
    vertex_of_getElem? h.third]

end Corners

/-! ## Faces in exact arithmetic -/

section Faces

variable (positions : Array (Vec3 ℝ)) (ts : List Triangle) (k : ℕ)

/-- The same corners in the same direction, beginning with the second one. -/
def turned (t : Triangle) : Triangle := ⟨t.b, t.c, t.a⟩

/-- The same corners in the other direction. -/
def reversed (t : Triangle) : Triangle := ⟨t.c, t.b, t.a⟩

/-- The number of corners that a face has at vertex `k`. -/
def incidences (t : Triangle) : ℕ := t.corners.countP fun i => i.toNat = k

theorem incidences_turned (t : Triangle) : incidences k (turned t) = incidences k t := by
  have hperm : ([t.b, t.c] ++ [t.a]).Perm ([t.a] ++ [t.b, t.c]) := List.perm_append_comm
  exact hperm.countP_eq _

theorem incidences_reversed (t : Triangle) : incidences k (reversed t) = incidences k t :=
  (List.reverse_perm t.corners).countP_eq _

theorem faceNormal_turned (t : Triangle) :
    faceNormal positions (turned t) = faceNormal positions t :=
  Vec3.cross_turned _ _ _

theorem faceNormal_reversed (t : Triangle) :
    faceNormal positions (reversed t) = -faceNormal positions t :=
  Vec3.cross_reversed _ _ _

/-- A face is counted once for each of its corners at the vertex. -/
theorem sumAt_eq :
    sumAt positions ts k = (ts.map fun t => incidences k t • faceNormal positions t).sum := by
  have hpass (corner : Triangle → UInt32) :
      ((ts.filter fun t => (corner t).toNat = k).map (faceNormal positions)).sum =
        (ts.map fun t => (if (corner t).toNat = k then 1 else 0) • faceNormal positions t).sum := by
    induction ts with
    | nil => rfl
    | cons t ts ih =>
      by_cases ht : (corner t).toNat = k
      · rw [List.filter_cons_of_pos (by simpa using ht), List.map_cons, List.map_cons,
          List.sum_cons, List.sum_cons, ih, if_pos ht, one_nsmul]
      · rw [List.filter_cons_of_neg (by simpa using ht), List.map_cons, List.sum_cons, ih,
          if_neg ht, zero_nsmul, zero_add]
  have hcorners (t : Triangle) : incidences k t = (if t.a.toNat = k then 1 else 0) +
      ((if t.b.toNat = k then 1 else 0) + if t.c.toNat = k then 1 else 0) := by
    simp [incidences, Triangle.corners, List.countP_cons]
    omega
  rw [sumAt, Vec3.foldl_add_eq_sum, normalsAt]
  simp only [List.flatMap_cons, List.flatMap_nil, List.append_nil, List.sum_append, hpass,
    ← List.sum_map_add, ← add_nsmul, ← hcorners]

variable {ts k} {ts' : List Triangle}

theorem sumAt_perm (h : ts.Perm ts') : sumAt positions ts k = sumAt positions ts' k := by
  rw [sumAt_eq, sumAt_eq]
  exact (h.map _).sum_eq

/-- The faces may begin with any of their corners. -/
theorem sumAt_turned (h : List.Forall₂ (fun t t' => ∃ n, t' = turned^[n] t) ts ts') :
    sumAt positions ts' k = sumAt positions ts k := by
  rw [sumAt_eq, sumAt_eq]
  congr 1
  induction h with
  | nil => rfl
  | cons hhead _ ih =>
    obtain ⟨n, rfl⟩ := hhead
    rw [List.map_cons, List.map_cons, ih]
    congr 1
    induction n with
    | zero => rfl
    | succ n ihn =>
      rw [Function.iterate_succ_apply', incidences_turned, faceNormal_turned, ihn]

theorem sumAt_reversed : sumAt positions (ts.map reversed) k = -sumAt positions ts k := by
  rw [sumAt_eq, sumAt_eq, List.map_map, List.sum_neg, List.map_map]
  congr 2
  funext t
  simp only [Function.comp_apply, incidences_reversed, faceNormal_reversed, smul_neg]

end Faces

/-! ## Scaling -/

theorem orOne_zero : orOne (0 : ℝ) = 1 := by
  have hzero : Scalar.isZero (0 : ℝ) = true := decide_eq_true rfl
  rw [orOne, if_pos hzero]
  exact Nat.cast_one

theorem orOne_of_ne {x : ℝ} (hx : x ≠ 0) : orOne x = x := by
  have hnot : Scalar.isZero x = false := decide_eq_false hx
  rw [orOne, hnot, if_neg Bool.false_ne_true]

section Scaling

variable (m : Mesh ℝ)

theorem extent_pos : 0 < m.extent := by
  -- the largest coordinate is not below zero, with which the search for it begins
  have hfold : ∀ (ps : List (Vec3 ℝ)) (e : ℝ), 0 ≤ e →
      0 ≤ ps.foldl (fun e p => max e p.peak) e := by
    intro ps
    induction ps with
    | nil => exact fun e he => he
    | cons p ps ih => exact fun e he => ih _ (he.trans (le_max_left _ _))
  obtain ⟨e, he⟩ : ∃ e, m.positions.foldl (fun e p => Scalar.max e p.peak) (Scalar.zero : ℝ) = e :=
    ⟨_, rfl⟩
  have hnonneg : 0 ≤ e := by
    rw [← he, ← Array.foldl_toList]
    exact hfold _ _ Scalar.zero_real.ge
  have hextent : m.extent = orOne e := by
    rw [extent, he]
    rfl
  rw [hextent]
  rcases eq_or_ne e 0 with rfl | hne
  · rw [orOne_zero]
    exact one_pos
  · rw [orOne_of_ne hne]
    exact lt_of_le_of_ne hnonneg hne.symm

/-- Every vertex is scaled, and so is what stands in for a missing one. -/
theorem vertex_scaled_real (i : UInt32) :
    vertex m.scaled i = (vertex m.positions i).times m.extent⁻¹ := by
  rw [← Vec3.dividedBy_eq]
  cases h : m.positions[i.toNat]? with
  | some p => rw [vertex_scaled h, vertex_of_getElem? h]
  | none =>
    have hscaled : m.scaled[i.toNat]? = none := by
      rw [scaled, Array.getElem?_map, h]
      rfl
    rw [vertex, vertex, Array.getD_eq_getD_getElem?, Array.getD_eq_getD_getElem?, h, hscaled]
    exact ((Vec3.dividedBy_eq _ _).trans (Vec3.zero_times _)).symm

/-- The normal of a face is scaled twice, once for each side. -/
theorem faceNormal_scaled_real (t : Triangle) :
    faceNormal m.scaled t = (faceNormal m.positions t).times (m.extent⁻¹ * m.extent⁻¹) := by
  rw [faceNormal, faceNormal, vertex_scaled_real, vertex_scaled_real, vertex_scaled_real]
  ext <;> simp <;> ring

theorem sumAt_scaled (ts : List Triangle) (k : ℕ) :
    sumAt m.scaled ts k = (sumAt m.positions ts k).times (m.extent⁻¹ * m.extent⁻¹) := by
  have hhom := map_list_sum (Vec3.timesHom (m.extent⁻¹ * m.extent⁻¹))
    (normalsAt m.positions ts k)
  have hnormals : normalsAt m.scaled ts k = (normalsAt m.positions ts k).map
      fun n => n.times (m.extent⁻¹ * m.extent⁻¹) := by
    simp only [normalsAt, List.map_flatMap, List.map_map]
    congr 1
    funext corner
    exact List.map_congr_left fun t _ => faceNormal_scaled_real m t
  rw [sumAt, sumAt, Vec3.foldl_add_eq_sum, Vec3.foldl_add_eq_sum, hnormals]
  exact hhom.symm

end Scaling

/-! ## Directions -/

section Directions

variable {n : Vec3 ℝ}

theorem unit_zero : unit (0 : Vec3 ℝ) = 0 := by
  rw [unit, Vec3.dividedBy_eq, Vec3.dividedBy_eq, Vec3.zero_times, Vec3.zero_times]

/-- The largest coordinate, by which a vector is divided first, cancels out. -/
theorem unit_of_ne_zero (hn : n ≠ 0) : unit n = n.times n.length⁻¹ := by
  have hpeak : n.peak ≠ 0 := mt Vec3.peak_eq_zero_iff.mp hn
  have hlength : n.length ≠ 0 := mt Vec3.length_eq_zero_iff.mp hn
  have hinv : 0 ≤ n.peak⁻¹ := inv_nonneg.mpr n.peak_nonneg
  have hscaled : (n.times n.peak⁻¹).length ≠ 0 := by
    rw [Vec3.length_times hinv]
    exact mul_ne_zero hlength (inv_ne_zero hpeak)
  rw [unit, orOne_of_ne hpeak, Vec3.dividedBy_eq n, Vec3.dividedBy_eq, orOne_of_ne hscaled,
    Vec3.times_times, Vec3.length_times hinv, mul_inv, inv_inv]
  congr 1
  field_simp

theorem unit_times {c : ℝ} (hc : 0 < c) (n : Vec3 ℝ) : unit (n.times c) = unit n := by
  rcases eq_or_ne n 0 with rfl | hn
  · rw [Vec3.zero_times]
  · have htimes : n.times c ≠ 0 := mt (Vec3.times_eq_zero_iff hc.ne').mp hn
    rw [unit_of_ne_zero htimes, unit_of_ne_zero hn, Vec3.times_times, Vec3.length_times hc.le]
    congr 1
    field_simp

/-- The direction of a vector: zero for zero, and otherwise of length 1, and what the vector is a
multiple of by its length. -/
structure IsDirection (s n : Vec3 ℝ) : Prop where
  zero : s = 0 → n = 0
  length : s ≠ 0 → n.length = 1
  along : s ≠ 0 → n.times s.length = s

theorem isDirection_unit (s : Vec3 ℝ) : IsDirection s (unit s) where
  zero := by
    rintro rfl
    exact unit_zero
  length := by
    intro hs
    rw [unit_of_ne_zero hs, Vec3.length_times (inv_nonneg.mpr s.length_nonneg)]
    exact mul_inv_cancel₀ (mt Vec3.length_eq_zero_iff.mp hs)
  along := by
    intro hs
    rw [unit_of_ne_zero hs, Vec3.times_times, inv_mul_cancel₀ (mt Vec3.length_eq_zero_iff.mp hs),
      Vec3.times_one]

end Directions

/-! ## Normals -/

/-- Meshes with the same vertices have the sums that are told by their faces. -/
theorem normalSums_eq_map {m n : Mesh ℝ} {f : Vec3 ℝ → Vec3 ℝ}
    (hpositions : n.positions = m.positions)
    (h : ∀ k, sumAt m.scaled n.triangles k = f (sumAt m.scaled m.triangles k)) :
    n.normalSums = m.normalSums.map f := by
  have hscaled : n.scaled = m.scaled := by
    simp only [scaled, extent, hpositions]
  have hcount : n.vertexCount = m.vertexCount := congrArg Array.size hpositions
  refine Array.ext_getElem? fun k => ?_
  rw [Array.getElem?_map]
  rcases lt_or_ge k m.vertexCount with hk | hk
  · rw [getElem?_normalSums m hk, getElem?_normalSums n (hcount ▸ hk), hscaled, h]
    rfl
  · rw [Array.getElem?_eq_none (by rw [size_normalSums, hcount]; exact hk),
      Array.getElem?_eq_none (by rw [size_normalSums]; exact hk)]
    rfl

/-- The normal at a vertex has the direction of the sum there, of the scaled faces as well as of the
faces themselves. -/
theorem getElem?_normals (m : Mesh ℝ) {k : ℕ} (hk : k < m.vertexCount) :
    ∃ n, m.normals[k]? = some n ∧ IsDirection (sumAt m.scaled m.triangles k) n ∧
      IsDirection (sumAt m.positions m.triangles k) n := by
  have hscale : 0 < m.extent⁻¹ * m.extent⁻¹ :=
    mul_pos (inv_pos.mpr m.extent_pos) (inv_pos.mpr m.extent_pos)
  have hunit : unit (sumAt m.scaled m.triangles k) = unit (sumAt m.positions m.triangles k) := by
    rw [sumAt_scaled, unit_times hscale]
  refine ⟨unit (sumAt m.scaled m.triangles k), ?_, isDirection_unit _, ?_⟩
  · rw [normals, Array.getElem?_map, getElem?_normalSums m hk]
    rfl
  · rw [hunit]
    exact isDirection_unit _

/-- What is added up at the vertices of a mesh in range. Over any scalars there is one sum for each
vertex, taken from zero over the faces and their corners there, corner by corner and face by face,
and the normal of a face is that of its three scaled vertices. Over the real numbers the sums do not
change with the order of the faces or with the corners that they begin with, and they change their
signs with the direction of all faces; the normal of a face is the one that is written for a facet
with these corners; and the normal at a vertex has the direction of the sum, whether the vertices
are scaled for it or not. -/
theorem normals_add_each_corner_once :
    (∀ (α : Type) [Scalar α] (m : Mesh α), m.isInRange = true →
      m.normalSums.size = m.vertexCount ∧
      (∀ k < m.vertexCount, m.normalSums[k]? =
        some ((normalsAt m.scaled m.triangles k).foldl (· + ·) Vec3.zero)) ∧
      ∀ t ∈ m.triangles, ∃ p q r, m.HasCorners t p q r ∧
        faceNormal m.scaled t = (r.dividedBy m.extent - q.dividedBy m.extent).cross
          (p.dividedBy m.extent - q.dividedBy m.extent)) ∧
    (∀ m : Mesh ℝ, m.isInRange = true →
      (∀ ts, m.triangles.Perm ts → normalSums { m with triangles := ts } = m.normalSums) ∧
      (∀ ts, List.Forall₂ (fun t t' => ∃ n, t' = turned^[n] t) m.triangles ts →
        normalSums { m with triangles := ts } = m.normalSums) ∧
      normalSums { m with triangles := m.triangles.map reversed } = m.normalSums.map (- ·) ∧
      (∀ t ∈ m.triangles, ∀ p q r, m.HasCorners t p q r →
        faceNormal m.positions t = Facet.normalOf p q r ∧
        faceNormal m.scaled t = Facet.normalOf (p.dividedBy m.extent) (q.dividedBy m.extent)
          (r.dividedBy m.extent)) ∧
      ∀ k < m.vertexCount, ∃ n, m.normals[k]? = some n ∧
        IsDirection (sumAt m.scaled m.triangles k) n ∧
        IsDirection (sumAt m.positions m.triangles k) n) ∧
    ∀ p q r : Vec3 Float, (Facet.ofCorners p q r).normal =
      Facet.normalOf (p.map Binary32.nearest) (q.map Binary32.nearest)
        (r.map Binary32.nearest) := by
  refine ⟨fun α _ m hm => ⟨size_normalSums m, fun k hk => getElem?_normalSums m hk, ?_⟩,
    fun m _ => ⟨?_, ?_, ?_, ?_, fun k hk => getElem?_normals m hk⟩, fun p q r => rfl⟩
  · intro t ht
    obtain ⟨p, q, r, hcorners⟩ := exists_corners hm ht
    exact ⟨p, q, r, hcorners, hcorners.faceNormal_scaled⟩
  · intro ts hts
    have hsums := normalSums_eq_map (m := m) (n := { m with triangles := ts }) (f := id) rfl
      fun k => (sumAt_perm m.scaled hts).symm
    rw [hsums, Array.map_id]
  · intro ts hts
    have hsums := normalSums_eq_map (m := m) (n := { m with triangles := ts }) (f := id) rfl
      fun k => sumAt_turned m.scaled hts
    rw [hsums, Array.map_id]
  · exact normalSums_eq_map rfl fun k => sumAt_reversed m.scaled
  · intro t _ p q r hcorners
    rw [hcorners.faceNormal_eq, hcorners.faceNormal_scaled]
    exact ⟨Vec3.cross_sides _ _ _, Vec3.cross_sides _ _ _⟩

/-- Two faces with a common side, a face that has a vertex twice, and a vertex in no face. -/
def sail (α : Type) [Scalar α] : Mesh α where
  positions := #[⟨Scalar.natural 0, Scalar.natural 0, Scalar.natural 0⟩,
    ⟨Scalar.natural 2, Scalar.natural 0, Scalar.natural 1⟩,
    ⟨Scalar.natural 2, Scalar.natural 3, Scalar.natural 0⟩,
    ⟨Scalar.natural 0, Scalar.natural 3, Scalar.natural 5⟩,
    ⟨Scalar.natural 7, Scalar.natural 7, Scalar.natural 7⟩]
  triangles := [⟨0, 1, 2⟩, ⟨0, 2, 3⟩, ⟨3, 3, 1⟩]
  uSteps := 0
  vSteps := 0

theorem normals_add_each_corner_once_sail :
    (sail Float).isInRange = true ∧ (sail ℝ).isInRange = true ∧
    (sail Float).normalSums[3]? = some (Vec3.zero + faceNormal (sail Float).scaled ⟨3, 3, 1⟩ +
      faceNormal (sail Float).scaled ⟨3, 3, 1⟩ + faceNormal (sail Float).scaled ⟨0, 2, 3⟩) ∧
    normalSums { sail ℝ with triangles := [⟨0, 2, 3⟩, ⟨0, 1, 2⟩, ⟨3, 3, 1⟩] } =
      (sail ℝ).normalSums ∧
    normalSums { sail ℝ with triangles := [⟨1, 2, 0⟩, ⟨3, 0, 2⟩, ⟨3, 3, 1⟩] } =
      (sail ℝ).normalSums ∧
    ∃ n, (sail ℝ).normals[4]? = some n ∧ n = 0 := by
  obtain ⟨hsums, hreal, -⟩ := normals_add_each_corner_once
  obtain ⟨horder, hturned, -, -, hnormals⟩ := hreal (sail ℝ) rfl
  obtain ⟨n, hn, hdirection, -⟩ := hnormals 4 (by decide)
  refine ⟨rfl, rfl, (hsums Float (sail Float) rfl).2.1 3 (by decide), ?_, ?_, n, hn, ?_⟩
  · exact horder _ (List.Perm.swap _ _ _)
  · exact hturned _ (.cons ⟨1, rfl⟩ (.cons ⟨2, rfl⟩ (.cons ⟨0, rfl⟩ .nil)))
  · -- no face is at the last vertex
    exact hdirection.zero rfl

end SurfaceStudio.Mesh
