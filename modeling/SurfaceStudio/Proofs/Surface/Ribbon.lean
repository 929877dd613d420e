import SurfaceStudio.Proofs.Formula.Bounds
import SurfaceStudio.Proofs.Grid.Covering
import SurfaceStudio.Proofs.Surface.Building
/-!
# The ribbon over a curve

The ribbon has its own bounds and takes over the step counts of the surface that it replaces. If
that surface has a mesh, or has the step counts of the start, then nothing but the two expressions
of the curve and the values they take can keep the ribbon from being built: `ribbon_cases`.
-/

namespace SurfaceStudio

/-! ## Bounds -/

theorem boundValue_of_parse {text : String} {f : Formula} (h : Formula.parse [] text = .ok f)
    (hfinite : (f.values Float 0 0).isFinite = true) :
    boundValue text = .ok (f.values Float 0 0) := by
  rcases boundValue_cases text with ⟨hblank, -⟩ | ⟨-, hnone, -⟩ | ⟨f', hparse, hvalue⟩
  · exact absurd h (hblank.parse_ne_ok [] f)
  · exact absurd h (hnone f)
  · cases h.symm.trans hparse
    rw [hvalue, boundOutcome, if_pos hfinite]

/-! ## The texts of a ribbon -/

theorem parse_zero : Formula.parse [] "0" = .ok (.number 0) := by
  have htokens : Formula.tokens "0" = .ok [⟨.number 0, "0", 0⟩] := by decide +kernel
  exact Formula.parse_eq_ok_iff.mpr ⟨_, htokens, .term (.factor (.power (.primary (.number rfl))))⟩

theorem parse_one : Formula.parse [] "1" = .ok (.number 1) := by
  have htokens : Formula.tokens "1" = .ok [⟨.number 1, "1", 0⟩] := by decide +kernel
  exact Formula.parse_eq_ok_iff.mpr ⟨_, htokens, .term (.factor (.power (.primary (.number rfl))))⟩

theorem parse_twoPi :
    Formula.parse [] "2 * pi" = .ok (.binary .mul (.number 2) (.number Formula.pi)) := by
  have htokens : Formula.tokens "2 * pi" =
      .ok ([⟨.number 2, "2", 0⟩] ++ ⟨.star, "*", 2⟩ :: [⟨.identifier, "pi", 4⟩]) := by
    decide +kernel
  refine Formula.parse_eq_ok_iff.mpr ⟨_, htokens, .term ?_⟩
  exact .scale (.factor (.power (.primary (.number rfl)))) rfl
    (.power (.primary (.pi rfl (by decide +kernel))))

theorem parse_minusOne : Formula.parse [] "-1" = .ok (.signed .minus (.number 1)) := by
  have htokens : Formula.tokens "-1" = .ok (⟨.minus, "-", 0⟩ :: [⟨.number 1, "1", 1⟩]) := by
    decide +kernel
  exact Formula.parse_eq_ok_iff.mpr ⟨_, htokens, .term (.factor
    (.signed rfl (.power (.primary (.number rfl)))))⟩

theorem parse_height :
    Formula.parse Compiled.parameterNames "0.1 * v" =
      .ok (.binary .mul (.number 0.1) (.variable "v")) := by
  have htokens : Formula.tokens "0.1 * v" =
      .ok ([⟨.number 0.1, "0.1", 0⟩] ++ ⟨.star, "*", 4⟩ :: [⟨.identifier, "v", 6⟩]) := by
    decide +kernel
  refine Formula.parse_eq_ok_iff.mpr ⟨_, htokens, .term ?_⟩
  exact .scale (.factor (.power (.primary (.number rfl)))) rfl
    (.power (.primary (.variable ⟨rfl, by decide +kernel, by decide⟩ (by decide))))

namespace Definition

/-! ## Step counts -/

/-- Step counts that are accepted along with any bounds that are. -/
structure HasSteps (d : Definition) (m n : ℕ) : Prop where
  uSteps : d.uSteps = .int m
  vSteps : d.vSteps = .int n
  u : 4 ≤ m
  v : 4 ≤ n
  cells : m * n ≤ 50000

theorem hasSteps_default : HasSteps {} 60 30 := ⟨rfl, rfl, by decide, by decide, by decide⟩

/-- A definition that is built is the triangulation of a grid of such step counts over the
positions at its points, all of them finite. -/
theorem exists_grid_of_build {d : Definition} {mesh : Mesh Float} (h : d.build = .ok mesh) :
    ∃ (c : Coordinates) (g : Grid) (pts : List (Float × Float)), d.HasSteps g.uSteps g.vSteps ∧
      g.points = .ok pts ∧ (∀ p ∈ pts, (c.position p).isFinite = true) ∧
      mesh =
        ⟨(pts.map c.position).toArray, Grid.triangles g.uSteps g.vSteps, g.uSteps, g.vSteps⟩ := by
  obtain ⟨spec, hspec, hmesh⟩ := bind_eq_ok.mp h
  obtain ⟨a, -, hspec⟩ := bind_eq_ok.mp hspec
  obtain ⟨b, -, hspec⟩ := bind_eq_ok.mp hspec
  obtain ⟨a', -, hspec⟩ := bind_eq_ok.mp hspec
  obtain ⟨b', -, hspec⟩ := bind_eq_ok.mp hspec
  obtain ⟨_, -, hspec⟩ := bind_eq_ok.mp hspec
  cases hspec
  obtain ⟨x, -, hmesh⟩ := bind_eq_ok.mp hmesh
  obtain ⟨y, -, hmesh⟩ := bind_eq_ok.mp hmesh
  obtain ⟨z, -, hmesh⟩ := bind_eq_ok.mp hmesh
  obtain ⟨g, pts, hg, hpts, hfinite, rfl⟩ := Draft.tessellate_eq_ok (c := ⟨x, y, z⟩) hmesh
  obtain ⟨hu, hv, -⟩ := Grid.admissible_of_validate hg
  obtain ⟨hm, hn, hcells⟩ := Grid.steps_of_validate hg
  exact ⟨_, g, pts, ⟨hu, hv, hm, hn, hcells⟩, hpts, hfinite, rfl⟩

end Definition

/-! ## The draft of a ribbon -/

theorem Draft.HasBounds.unique {t : Draft} {e e' : Extent} (h : t.HasBounds e)
    (h' : t.HasBounds e') : e = e' := by
  obtain ⟨a, b, c, d⟩ := e
  obtain ⟨a', b', c', d'⟩ := e'
  cases h.uMin.symm.trans h'.uMin
  cases h.uMax.symm.trans h'.uMax
  cases h.vMin.symm.trans h'.vMin
  cases h.vMax.symm.trans h'.vMax
  rfl

/-- The texts and step counts of the ribbon over a curve. -/
def ribbonDraft (x y : String) (m n : ℕ) : Draft :=
  let r : Ribbon := {}
  ⟨x, y, r.z, r.uMin, r.uMax, r.vMin, r.vMax, m, n⟩

/-- The parameters of a ribbon. -/
def ribbonExtent : Extent := ⟨0, 2 * Formula.pi, -1, 1⟩

section Ribbon

variable {d : Definition} {x y : String} {m n : ℕ}

theorem ribbon_eq (h : d.HasSteps m n) :
    d.ribbon x y = (ribbonDraft x y m n).definition d.name d.wireframe := by
  rw [Definition.ribbon, h.uSteps, h.vSteps]
  rfl

theorem ribbon_hasBounds : (ribbonDraft x y m n).HasBounds ribbonExtent where
  uMin := boundValue_of_parse parse_zero (by decide +kernel)
  uMax := boundValue_of_parse parse_twoPi (by decide +kernel)
  vMin := boundValue_of_parse parse_minusOne (by decide +kernel)
  vMax := boundValue_of_parse parse_one (by decide +kernel)

/-- The grid of a ribbon is accepted with all step counts that are. -/
theorem ribbon_hasGrid (h : d.HasSteps m n) : (ribbonDraft x y m n).HasGrid ribbonExtent := by
  -- the ends of the two intervals in units of the least double
  have hu : Decimal.units? 0 = some 0 ∧
      Decimal.units? (2 * Formula.pi) = some (7074237752028440 * 2 ^ 1024) := by decide +kernel
  have hv : Decimal.units? (-1) = some (-2 ^ 1074) ∧ Decimal.units? 1 = some (2 ^ 1074) := by
    decide +kernel
  exact Grid.validate_doubles hu.1 hu.2 hv.1 hv.2 (by decide +kernel) (by decide +kernel) h.u h.v
    h.cells

/-! ## Building a ribbon -/

/-- What can become of a ribbon. -/
inductive RibbonOutcome (x y : String) : Except Trouble (Mesh Float) → Prop where
  | x {f : Failure} : Compiled.ofText x = .error f → RibbonOutcome x y (.error (.failure f))
  | y {c : Compiled} {f : Failure} : Compiled.ofText x = .ok c → Compiled.ofText y = .error f →
    RibbonOutcome x y (.error (.failure f))
  | sample {c c' : Compiled} (u v : Float) : Compiled.ofText x = .ok c →
    Compiled.ofText y = .ok c' → RibbonOutcome x y (.error (.failure (.nonFiniteVertex u v)))
  | mesh {c c' : Compiled} (m : Mesh Float) : Compiled.ofText x = .ok c →
    Compiled.ofText y = .ok c' → RibbonOutcome x y (.ok m)

/-- A ribbon is refused for the first expression of the curve that is, or for a value of them that
is not finite, and for nothing else. -/
theorem ribbon_cases (h : d.HasSteps m n) (x y : String) :
    RibbonOutcome x y (d.ribbon x y).build := by
  have hbounds : (ribbonDraft x y m n).HasBounds ribbonExtent := ribbon_hasBounds
  have hgrid : (ribbonDraft x y m n).HasGrid ribbonExtent := ribbon_hasGrid h
  have hz : Compiled.ofText "0.1 * v" = .ok ⟨_, _⟩ :=
    Compiled.ofText_eq_ok_iff.mpr ⟨rfl, parse_height⟩
  rw [ribbon_eq h]
  rcases hx : Compiled.ofText x with f | cx
  · rw [Draft.build_of_firstFailure _ _ (.x hbounds hgrid hx)]
    exact .x hx
  rcases hy : Compiled.ofText y with f | cy
  · rw [Draft.build_of_firstFailure _ _ (.y hbounds hgrid hx hy)]
    exact .y hx hy
  rcases Draft.build_cases d.name d.wireframe (ribbonDraft x y m n) with
    ⟨e, c, -, hbuild⟩ | ⟨f, hf, hbuild⟩
  · rw [hbuild]
    exact .mesh _ hx hy
  · rw [hbuild]
    -- all other stages pass, so that a sample is left
    cases hf with
    | sample => exact .sample _ _ hx hy
    | uMin ha => cases hbounds.uMin.symm.trans ha
    | uMax _ hb => cases hbounds.uMax.symm.trans hb
    | vMin _ _ hc => cases hbounds.vMin.symm.trans hc
    | vMax _ _ _ hd => cases hbounds.vMax.symm.trans hd
    | grid hb hg =>
      cases hb.unique hbounds
      cases hgrid.symm.trans hg
    | x _ _ hx' => cases hx.symm.trans hx'
    | y _ _ _ hy' => cases hy.symm.trans hy'
    | z _ _ _ _ hz' => cases hz.symm.trans hz'

end Ribbon

end SurfaceStudio
