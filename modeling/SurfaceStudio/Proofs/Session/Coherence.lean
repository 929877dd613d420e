import Mathlib.Data.List.Induction
import SurfaceStudio.Proofs.Fourier.Fit
import SurfaceStudio.Proofs.Session.Steps
/-!
# Sessions over whole runs

A session that starts with a definition and nothing else stays coherent under any requests: what is
on display is what its definition builds, and a fit that is stored goes back to the last request
that made one.
-/

namespace SurfaceStudio.Session

open SurfaceStudio.Fourier

/-- The session that starts with a definition. -/
def start (d : Definition) : Session := { definition := d }

theorem run_append_singleton (s : Session) (rs : List Request) (r : Request) :
    s.run (rs ++ [r]) = (s.run rs).after r := by
  rw [run, List.foldl_append]
  rfl

/-- Every request of a run has a property, in the session that it meets. -/
def Always (P : Session → Request → Prop) (s : Session) : List Request → Prop
  | [] => True
  | r :: rs => P s r ∧ Always P (s.after r) rs

theorem always_append_singleton {P : Session → Request → Prop} {s : Session} {rs : List Request}
    {r : Request} : Always P s (rs ++ [r]) ↔ Always P s rs ∧ P (s.run rs) r := by
  induction rs generalizing s with
  | nil => exact ⟨fun h => ⟨trivial, h.1⟩, fun h => ⟨h.2, trivial⟩⟩
  | cons r' rs ih =>
    rw [List.cons_append, Always, Always, ih, and_assoc]
    rfl

/-! ## The surface on display -/

/-- There is a surface on display exactly if one was answered; until then the definition is the one
of the start, and from then on it is the one that the surface was built of. -/
theorem run_mesh (d : Definition) (rs : List Request) :
    (((start d).run rs).mesh = none ↔ Always (fun s r => ¬ s.AnswersMesh r) (start d) rs) ∧
    (((start d).run rs).mesh = none → ((start d).run rs).definition = d) ∧
    ∀ m, ((start d).run rs).mesh = some m → ((start d).run rs).definition.build = .ok m := by
  induction rs using List.reverseRecOn with
  | nil => exact ⟨⟨fun _ => trivial, fun _ => rfl⟩, fun _ => rfl, nofun⟩
  | append_singleton rs r ih =>
    obtain ⟨hnone, hinitial, hbuilt⟩ := ih
    rw [run_append_singleton, always_append_singleton, ← hnone]
    have hchange := after_change ((start d).run rs) r
    generalize ((start d).run rs).after r = s' at hchange ⊢
    cases hchange with
    | built hm _ hmesh _ =>
      -- the definition and the surface are replaced together
      refine ⟨⟨nofun, fun h => absurd hmesh h.2⟩, nofun, ?_⟩
      rintro m ⟨⟩
      exact hm
    | fitted _ _ hmesh _ => exact ⟨⟨fun h => ⟨h, hmesh⟩, fun h => h.1⟩, hinitial, hbuilt⟩
    | cleared _ hmesh => exact ⟨⟨fun h => ⟨h, hmesh⟩, fun h => h.1⟩, hinitial, hbuilt⟩
    | kept _ _ hmesh _ => exact ⟨⟨fun h => ⟨h, hmesh⟩, fun h => h.1⟩, hinitial, hbuilt⟩

/-! ## The fit -/

/-- The fit was made by a request of the run, from the points that the stroke had then, and neither
was the drawing cleared nor another fit made after it. -/
def FittedIn (s : Session) (rs : List Request) (f : Fit) : Prop :=
  ∃ before order canvas later, rs = before ++ .computeFourier order canvas :: later ∧
    Fit.ofStroke (s.run before).stroke.points canvas order = .ok f ∧ f.IsProper order ∧
    Always (fun s' r => r ≠ .clear ∧ ¬ s'.AnswersFit r)
      (s.run (before ++ [.computeFourier order canvas])) later

/-- A request that neither clears the drawing nor makes a fit lets a fit stand. -/
theorem FittedIn.append {s : Session} {rs : List Request} {f : Fit} (h : FittedIn s rs f)
    {r : Request} (hclear : r ≠ .clear) (hfit : ¬ (s.run rs).AnswersFit r) :
    FittedIn s (rs ++ [r]) f := by
  -- the request joins those that came after the fit
  obtain ⟨before, order, canvas, later, rfl, hf, hproper, hlater⟩ := h
  refine ⟨before, order, canvas, later ++ [r], by simp, hf, hproper, ?_⟩
  have hrun : (s.run (before ++ [.computeFourier order canvas])).run later =
      s.run (before ++ .computeFourier order canvas :: later) := by
    simp only [run, List.foldl_append, List.foldl_cons, List.foldl_nil]
  rw [always_append_singleton, hrun]
  exact ⟨hlater, hclear, hfit⟩

theorem run_fit (d : Definition) (rs : List Request) (f : Fit)
    (h : ((start d).run rs).fit = some f) : FittedIn (start d) rs f := by
  induction rs using List.reverseRecOn with
  | nil => cases h
  | append_singleton rs r ih =>
    rw [run_append_singleton] at h
    have hchange := after_change ((start d).run rs) r
    generalize ((start d).run rs).after r = s' at hchange h
    cases hchange with
    | built _ hclear _ hfit => exact (ih h).append hclear hfit
    | fitted hr hf _ _ =>
      -- the run ends with the request that made the fit, and nothing comes later
      cases h
      subst hr
      exact ⟨rs, _, _, [], rfl, hf, (Fit.ofStroke_isProper hf).1, trivial⟩
    | cleared _ _ => cases h
    | kept _ hclear _ hfit => exact (ih h).append hclear hfit

/-- Under any requests a session stays coherent. -/
theorem run_coherent (d : Definition) (rs : List Request) :
    (((start d).run rs).mesh = none ↔ Always (fun s r => ¬ s.AnswersMesh r) (start d) rs) ∧
    (((start d).run rs).mesh = none → ((start d).run rs).definition = d) ∧
    (∀ m, ((start d).run rs).mesh = some m → ((start d).run rs).definition.build = .ok m) ∧
    ∀ f, ((start d).run rs).fit = some f → FittedIn (start d) rs f := by
  obtain ⟨hnone, hinitial, hbuilt⟩ := run_mesh d rs
  exact ⟨hnone, hinitial, hbuilt, run_fit d rs⟩

end SurfaceStudio.Session
