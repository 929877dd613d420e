import SurfaceStudio.Session
import SurfaceStudio.Proofs.Outcomes
/-!
# What a request does to a session

A request does one of four things: it puts a surface that was built on display, it stores a fit, it
clears the drawing, or it leaves everything but the stroke as it was. `Session.Effect` lists them,
each with what the answer tells; `step_effect` is all that is ever needed of the requests.
-/

namespace SurfaceStudio

namespace Turn

/-- The turn has put a surface on display that was built. -/
def Builds (s : Session) (t : Turn) : Prop :=
  ∃ d m message, d.build = .ok m ∧ t.session = { s with definition := d, mesh := some m } ∧
    t.outcome = .success message (some (.mesh m))

/-- The turn has changed nothing and has produced nothing. -/
def Keeps (s : Session) (t : Turn) : Prop := t.session = s ∧ t.outcome.product? = none

end Turn

namespace Session

/-! ## One kind of request at a time -/

section

variable {s : Session} {t : Turn}

theorem guarded_spec {what : String} {x : Except Trouble Turn} (h : s.guarded what x = .ok t) :
    x = .ok t ∨ t.Keeps s := by
  rcases x with (f | f) | t'
  · cases h
    exact .inr ⟨rfl, rfl⟩
  · cases h
  · cases h
    exact .inl rfl

theorem build_spec {d : Definition} (h : s.build d = .ok t) : t.Builds s ∨ t.Keeps s := by
  rcases guarded_spec h with h | h
  · obtain ⟨m, hm, h⟩ := bind_eq_ok.mp h
    cases h
    exact .inl ⟨d, m, _, hm, rfl, rfl⟩
  · exact .inr h

theorem withMessage_spec (message : String) (h : t.Builds s ∨ t.Keeps s) :
    (Turn.withMessage message t).Builds s ∨ (Turn.withMessage message t).Keeps s := by
  obtain ⟨session, outcome, entries⟩ := t
  rcases h with ⟨d, m, _, hm, rfl, rfl⟩ | ⟨rfl, h⟩
  · exact .inl ⟨d, m, message, hm, rfl, rfl⟩
  · rcases outcome with ⟨_, _ | product⟩ | f
    · exact .inr ⟨rfl, rfl⟩
    · cases h
    · exact .inr ⟨rfl, rfl⟩

/-- A surface that is built and reported with a message of its own. -/
theorem build_withMessage_spec {d : Definition} {message : String}
    (h : (s.build d).map (Turn.withMessage message) = .ok t) : t.Builds s ∨ t.Keeps s := by
  obtain ⟨t', ht, rfl⟩ := map_eq_ok.mp h
  exact withMessage_spec message (build_spec ht)

theorem reject_keeps (what : String) (f : Failure) : (s.reject what f).Keeps s := ⟨rfl, rfl⟩

theorem rejectKey_keeps {key : Json} (h : s.rejectKey key = .ok t) : t.Keeps s := by
  obtain ⟨shown, -, h⟩ := bind_eq_ok.mp h
  cases h
  exact reject_keeps _ _

theorem applyExample_spec {key : Json} (h : s.applyExample key = .ok t) :
    t.Builds s ∨ t.Keeps s := by
  unfold applyExample at h
  split at h
  · cases h
  · cases h
  · -- past the keys that are no texts, each way but one rejects or keeps
    split at h
    · split at h
      · cases h
        exact .inr ⟨rfl, rfl⟩
      · split at h
        · split at h
          · exact build_spec h
          · rcases guarded_spec h with h | h
            · cases h
            · exact .inr h
        · exact .inr (rejectKey_keeps h)
    · exact .inr (rejectKey_keeps h)

theorem loadPreset_spec {u : Preset.Upload} (h : s.loadPreset u = .ok t) :
    t.Builds s ∨ t.Keeps s := by
  unfold loadPreset at h
  split at h
  · rcases guarded_spec h with h | h
    · cases h
    · exact .inr h
  · exact build_withMessage_spec h

theorem toSurface_spec (h : s.toSurface = .ok t) : t.Builds s ∨ t.Keeps s := by
  unfold toSurface at h
  split at h
  · cases h
    exact .inr (reject_keeps _ _)
  · exact build_withMessage_spec h

theorem computeFourier_spec {order : Json} {canvas : Canvas Json}
    (h : s.computeFourier order canvas = .ok t) :
    (∃ f message, Fourier.Fit.ofStroke s.stroke.points canvas order = .ok f ∧
      t.session = { s with fit := some f } ∧ t.outcome = .success message (some (.fit f))) ∨
    t.Keeps s := by
  rcases guarded_spec h with h | h
  · obtain ⟨f, hf, h⟩ := bind_eq_ok.mp h
    cases h
    exact .inl ⟨f, _, hf, rfl, rfl⟩
  · exact .inr h

end

/-! ## All requests -/

/-- The answer brings nothing that was produced. -/
def Answer.IsBare : Answer → Prop
  | .outcome o => o.product? = none
  | _ => True

/-- What a request has done to a session. -/
inductive Effect (s : Session) (r : Request) (t : Step) : Prop where
  | built {d m message} : r ≠ .clear → d.build = .ok m →
      t.session = { s with definition := d, mesh := some m } →
      t.answer = .outcome (.success message (some (.mesh m))) → Effect s r t
  | fitted {order canvas f message} : r = .computeFourier order canvas →
      Fourier.Fit.ofStroke s.stroke.points canvas order = .ok f →
      t.session = { s with fit := some f } →
      t.answer = .outcome (.success message (some (.fit f))) → Effect s r t
  | cleared : r = .clear → t.session = { s with stroke := .empty, fit := none } →
      t.answer.IsBare → Effect s r t
  | kept (stroke : Stroke) : r ≠ .clear → t.session = s.withStroke stroke →
      t.answer.IsBare → Effect s r t

/-- A turn that builds or keeps has one of two effects. -/
theorem effect_of_turn {s : Session} {r : Request} {t : Turn} (hr : r ≠ .clear)
    (h : t.Builds s ∨ t.Keeps s) : Effect s r (.ofTurn t) := by
  obtain ⟨session, outcome, entries⟩ := t
  rcases h with ⟨d, m, message, hm, rfl, rfl⟩ | ⟨rfl, h⟩
  · exact .built hr hm rfl rfl
  · exact .kept session.stroke hr rfl h

/-- Every request that is answered has one of the effects. -/
theorem step_effect {s : Session} {r : Request} {t : Step} (h : s.step r = .ok t) :
    Effect s r t := by
  cases r with
  | build d =>
    obtain ⟨t', ht, rfl⟩ := map_eq_ok.mp h
    exact effect_of_turn (by simp) (build_spec ht)
  | applyExample key =>
    obtain ⟨t', ht, rfl⟩ := map_eq_ok.mp h
    exact effect_of_turn (by simp) (applyExample_spec ht)
  | loadPreset u =>
    obtain ⟨t', ht, rfl⟩ := map_eq_ok.mp h
    exact effect_of_turn (by simp) (loadPreset_spec ht)
  | exportPreset name =>
    obtain ⟨p, -, rfl⟩ := map_eq_ok.mp h
    exact .kept s.stroke (by simp) rfl trivial
  | beginStroke p =>
    obtain ⟨stroke, -, rfl⟩ := map_eq_ok.mp h
    exact .kept _ (by simp) rfl trivial
  | extendStroke p =>
    obtain ⟨stroke, -, rfl⟩ := map_eq_ok.mp h
    exact .kept _ (by simp) rfl trivial
  | finishStroke =>
    cases h
    exact .kept _ (by simp) rfl trivial
  | computeFourier order canvas =>
    obtain ⟨t', ht, rfl⟩ := map_eq_ok.mp h
    rcases computeFourier_spec ht with ⟨f, message, hf, hs, ho⟩ | hk
    · exact .fitted rfl hf hs (congrArg Answer.outcome ho)
    · exact effect_of_turn (by simp) (.inr hk)
  | clear =>
    cases h
    exact .cleared rfl rfl rfl
  | toSurface =>
    obtain ⟨t', ht, rfl⟩ := map_eq_ok.mp h
    exact effect_of_turn (by simp) (toSurface_spec ht)

/-! ## The session afterwards -/

/-- The request is fulfilled and answered with a product. -/
def Answers (s : Session) (r : Request) (p : Product) : Prop :=
  ∃ t message, s.step r = .ok t ∧ t.answer = .outcome (.success message (some p))

/-- The request is fulfilled and answered with a mesh. -/
def AnswersMesh (s : Session) (r : Request) : Prop :=
  ∃ t message m, s.step r = .ok t ∧ t.answer = .outcome (.success message (some (.mesh m)))

/-- The request is fulfilled and answered with a fit. -/
def AnswersFit (s : Session) (r : Request) : Prop :=
  ∃ t message f, s.step r = .ok t ∧ t.answer = .outcome (.success message (some (.fit f)))

/-- How a session has changed after a request, fault or not. -/
inductive Change (s : Session) (r : Request) : Session → Prop where
  | built {d m} : d.build = .ok m → r ≠ .clear → s.AnswersMesh r → ¬ s.AnswersFit r →
      Change s r { s with definition := d, mesh := some m }
  | fitted {order canvas f} : r = .computeFourier order canvas →
      Fourier.Fit.ofStroke s.stroke.points canvas order = .ok f → ¬ s.AnswersMesh r →
      s.AnswersFit r → Change s r { s with fit := some f }
  | cleared : r = .clear → ¬ s.AnswersMesh r →
      Change s r { s with stroke := .empty, fit := none }
  | kept (stroke : Stroke) : r ≠ .clear → ¬ s.AnswersMesh r → ¬ s.AnswersFit r →
      Change s r (s.withStroke stroke)

section

variable {s : Session} {r : Request} {t : Step}

theorem AnswersMesh.answers (h : s.AnswersMesh r) : ∃ m, s.Answers r (.mesh m) := by
  obtain ⟨t, message, m, ht, ha⟩ := h
  exact ⟨m, t, message, ht, ha⟩

theorem AnswersFit.answers (h : s.AnswersFit r) : ∃ f, s.Answers r (.fit f) := by
  obtain ⟨t, message, f, ht, ha⟩ := h
  exact ⟨f, t, message, ht, ha⟩

/-- A request has one answer. -/
theorem Answers.answer {p : Product} (hp : s.Answers r p) (h : s.step r = .ok t) :
    ∃ message, t.answer = .outcome (.success message (some p)) := by
  obtain ⟨t', message, ht, ha⟩ := hp
  cases h.symm.trans ht
  exact ⟨message, ha⟩

theorem Answers.not_isBare {p : Product} (hp : s.Answers r p) (h : s.step r = .ok t) :
    ¬ t.answer.IsBare := by
  intro hbare
  obtain ⟨message, ha⟩ := hp.answer h
  rw [ha] at hbare
  cases hbare

theorem not_answers_of_isBare (h : s.step r = .ok t) (hb : t.answer.IsBare) :
    ¬ s.AnswersMesh r ∧ ¬ s.AnswersFit r := by
  constructor
  · intro hmesh
    obtain ⟨m, hm⟩ := hmesh.answers
    exact hm.not_isBare h hb
  · intro hfit
    obtain ⟨f, hf⟩ := hfit.answers
    exact hf.not_isBare h hb

end

theorem after_change (s : Session) (r : Request) : Change s r (s.after r) := by
  rcases h : s.step r with fault | t
  · -- a request that is not answered leaves the session as it was
    have hafter : s.after r = s.withStroke s.stroke := by
      rw [after, h]
      rfl
    rw [hafter]
    refine .kept _ ?_ ?_ ?_
    · rintro rfl
      cases h
    · rintro ⟨t, message, m, ht, -⟩
      cases h.symm.trans ht
    · rintro ⟨t, message, f, ht, -⟩
      cases h.symm.trans ht
  · have hafter : s.after r = t.session := by rw [after, h]
    rw [hafter]
    rcases step_effect h with
      ⟨hr, hm, hs, ha⟩ | ⟨hr, hf, hs, ha⟩ | ⟨hr, hs, hb⟩ | ⟨stroke, hr, hs, hb⟩
    · rw [hs]
      refine .built hm hr ⟨t, _, _, h, ha⟩ fun hfit => ?_
      obtain ⟨f, hf⟩ := hfit.answers
      obtain ⟨message, hf⟩ := hf.answer h
      cases ha.symm.trans hf
    · rw [hs]
      refine .fitted hr hf (fun hmesh => ?_) ⟨t, _, _, h, ha⟩
      obtain ⟨m, hm⟩ := hmesh.answers
      obtain ⟨message, hm⟩ := hm.answer h
      cases ha.symm.trans hm
    · rw [hs]
      exact .cleared hr (not_answers_of_isBare h hb).1
    · obtain ⟨hmesh, hfit⟩ := not_answers_of_isBare h hb
      rw [hs]
      exact .kept _ hr hmesh hfit

/-- A request leaves no surface on display if there was none and it is not answered with one. -/
theorem after_mesh_eq_none_iff (s : Session) (r : Request) :
    (s.after r).mesh = none ↔ s.mesh = none ∧ ¬ s.AnswersMesh r := by
  have hchange := after_change s r
  generalize s.after r = s' at hchange ⊢
  cases hchange with
  | built _ _ hmesh _ => exact ⟨nofun, fun h => absurd hmesh h.2⟩
  | fitted _ _ hmesh _ => exact (and_iff_left hmesh).symm
  | cleared _ hmesh => exact (and_iff_left hmesh).symm
  | kept _ _ hmesh _ => exact (and_iff_left hmesh).symm

end Session

end SurfaceStudio
