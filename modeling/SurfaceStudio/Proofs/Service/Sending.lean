import SurfaceStudio.Proofs.Fourier.Acceptance
import SurfaceStudio.Proofs.Service.Conversation
import SurfaceStudio.Proofs.Session.Coherence
import SurfaceStudio.Proofs.Surface.Ribbon
/-!
# Sending a fit to the surface view

A fit that a conversation has stored was made from the points that were drawn before, and the
surface of the session has step counts with which a ribbon can be built. So it depends on the two
expressions alone whether the fit is turned down as a text that cannot be read, and on the
coefficients whether these are expressions: `stored_fit_is_sent_iff`. The coordinates of the points
are taken as they come, and where they have no place in the frame of the canvas there are coefficients
that are no numbers.
-/

namespace SurfaceStudio

open SurfaceStudio.Fourier

/-! ## The surface of a session -/

/-- Whatever was asked for, the surface on display has step counts that are accepted. -/
theorem Session.exists_hasSteps (rs : List Session.Request) :
    ∃ m n, ((Session.start {}).run rs).definition.HasSteps m n := by
  obtain ⟨-, hinitial, hbuilt⟩ := Session.run_mesh {} rs
  rcases hmesh : ((Session.start {}).run rs).mesh with _ | mesh
  · rw [hinitial hmesh]
    exact ⟨60, 30, Definition.hasSteps_default⟩
  · obtain ⟨-, g, -, hsteps, -⟩ := Definition.exists_grid_of_build (hbuilt mesh hmesh)
    exact ⟨g.uSteps, g.vSteps, hsteps⟩

namespace Service

/-- Messages one after another do to a session what the requests do that they stand for. -/
theorem sessionAfter_eq_run (s : Session) (ms : List Json) :
    sessionAfter s ms = s.run (ms.filterMap request?) := by
  induction ms generalizing s with
  | nil => rfl
  | cons m ms ih =>
    rw [sessionAfter_cons, ih, (receive_answered s m).session_eq]
    cases hm : request? m with
    | none =>
      rw [List.filterMap_cons_none hm]
      rfl
    | some r =>
      rw [List.filterMap_cons_some hm]
      rfl

/-! ## Where a fit comes from -/

/-- The fit was made by one of the messages, from the points drawn before it on a canvas. -/
def MadeFrom (ms : List Json) (f : Fit) (points : List (Point Float)) (canvas : Canvas Float) :
    Prop :=
  ∃ before m later order, ms = before ++ m :: later ∧ messageType? m = some .fourierCompute ∧
    accepted? Form.fitRequest (messagePayload m) = some ⟨order, canvas⟩ ∧
    points = (sessionAfter {} before).stroke.points ∧ Fit.ofPoints points canvas order = .ok f

/-- The messages that stand for a request to fit a series. -/
theorem request?_computeFourier {m order : Json} {canvas : Canvas Json}
    (h : request? m = some (.computeFourier order canvas)) :
    messageType? m = some .fourierCompute ∧ ∃ r,
      accepted? Form.fitRequest (messagePayload m) = some r ∧ order = r.order ∧
        canvas = r.canvas.map .float := by
  rw [request?] at h
  split at h
  case h_7 htype =>
    obtain ⟨r, hr, heq⟩ := Option.map_eq_some_iff.mp h
    cases heq
    exact ⟨htype, r, hr, rfl, rfl⟩
  all_goals simp at h

/-- After a message the fit is the one from before, or it was made by the message. -/
theorem receive_fit {s : Session} {m : Json} {f : Fit} (h : (receive s m).session.fit = some f) :
    s.fit = some f ∨ messageType? m = some .fourierCompute ∧
      ∃ r, accepted? Form.fitRequest (messagePayload m) = some r ∧
        Fit.ofPoints s.stroke.points r.canvas r.order = .ok f := by
  rw [(receive_answered s m).session_eq] at h
  cases hm : request? m with
  | none =>
    rw [hm] at h
    exact .inl h
  | some r =>
    rw [hm, Option.elim_some] at h
    have hchange := Session.after_change s r
    generalize s.after r = s' at hchange h
    cases hchange with
    | built _ _ _ _ => exact .inl h
    | fitted hr hf _ _ =>
      cases h
      subst hr
      obtain ⟨htype, r, hr, rfl, rfl⟩ := request?_computeFourier hm
      obtain ⟨_, -, hf⟩ := bind_eq_ok.mp hf
      exact .inr ⟨htype, r, hr, hf⟩
    | cleared _ _ => cases h
    | kept _ _ _ _ => exact .inl h

/-- By induction on the messages: a message that does not make the fit joins the later ones. -/
theorem exists_madeFrom {ms : List Json} {f : Fit} (h : (sessionAfter {} ms).fit = some f) :
    ∃ points canvas, MadeFrom ms f points canvas := by
  induction ms using List.reverseRecOn with
  | nil => cases h
  | append_singleton ms m ih =>
    rw [sessionAfter_append_singleton] at h
    rcases receive_fit h with hbefore | ⟨htype, r, hr, hf⟩
    · obtain ⟨points, canvas, before, m', later, order, rfl, hmade⟩ := ih hbefore
      exact ⟨points, canvas, before, m', later ++ [m], order, by simp, hmade⟩
    · exact ⟨_, r.canvas, ms, m, [], r.order, rfl, htype, hr, rfl, hf⟩

/-! ## Sending it -/

/-- The only reply is that a text could not be read. -/
def IsCompileError (replies : List Reply) : Prop :=
  ∃ f, replies = [.status (.failure f)] ∧ f.code = "COMPILE_ERROR"

section Sending

variable {s : Session} {m : Json} {f : Fit} {d : Definition} {message : String}

/-- A surface that is refused is reported as such. -/
theorem replies_of_refused {failure : Failure} (h : d.build = .error (.failure failure)) :
    (finishing s surfaceReplies ((s.build d).map (Session.Turn.withMessage message))).replies =
      [.status (.failure failure)] := by
  rw [Session.build, h]
  rfl

/-- A surface that is built is shown. -/
theorem replies_of_built {mesh : Mesh Float} (h : d.build = .ok mesh) :
    ∃ reply o, (finishing s surfaceReplies
      ((s.build d).map (Session.Turn.withMessage message))).replies = [reply, .status o] := by
  rw [Session.build, h]
  exact ⟨_, _, rfl⟩

/-- A fit is sent as the ribbon over its expressions. It is turned down as a text that cannot be
read exactly if a coefficient is not finite. -/
theorem isCompileError_iff (htype : messageType? m = some .fourierToSurface)
    (hf : s.fit = some f) {order : Json} (hproper : f.IsProper order) {k n : ℕ}
    (hsteps : s.definition.HasSteps k n) :
    IsCompileError (receive s m).replies ↔ ¬ (f.x.IsFinite ∧ f.y.IsFinite) := by
  obtain ⟨⟨hokX, hrefusedX⟩, hokY, hrefusedY⟩ := hproper.accepted_iff
  rw [receive_of_type htype, dispatch, Session.toSurface, hf]
  have hcases := ribbon_cases hsteps f.expressionX f.expressionY
  generalize hbuild : (s.definition.ribbon f.expressionX f.expressionY).build = outcome at hcases
  cases hcases with
  | x hx =>
    have hnot : ¬ f.x.IsFinite := fun hfinite => by
      obtain ⟨c, hc⟩ := hokX.mpr hfinite
      cases hx.symm.trans hc
    obtain ⟨reason, hreason⟩ := hrefusedX.mpr hnot
    cases hx.symm.trans hreason
    exact iff_of_true ⟨_, replies_of_refused hbuild, rfl⟩ fun h => hnot h.1
  | y hx hy =>
    have hnot : ¬ f.y.IsFinite := fun hfinite => by
      obtain ⟨c, hc⟩ := hokY.mpr hfinite
      cases hy.symm.trans hc
    obtain ⟨reason, hreason⟩ := hrefusedY.mpr hnot
    cases hy.symm.trans hreason
    exact iff_of_true ⟨_, replies_of_refused hbuild, rfl⟩ fun h => hnot h.2
  | sample u v hx hy =>
    refine iff_of_false ?_ (not_not_intro ⟨hokX.mp ⟨_, hx⟩, hokY.mp ⟨_, hy⟩⟩)
    rintro ⟨failure, hreplies, hcode⟩
    cases (replies_of_refused hbuild).symm.trans hreplies
    have hcode : "NON_FINITE_VERTEX" = "COMPILE_ERROR" := hcode
    exact absurd hcode (by decide)
  | mesh mesh hx hy =>
    refine iff_of_false ?_ (not_not_intro ⟨hokX.mp ⟨_, hx⟩, hokY.mp ⟨_, hy⟩⟩)
    rintro ⟨failure, hreplies, -⟩
    obtain ⟨reply, o, hbuilt⟩ := replies_of_built hbuild
    cases hbuilt.symm.trans hreplies

end Sending

/-- In a conversation the conditions on the fit and on the surface are met. -/
theorem isCompileError_of_stored {ms : List Json} {f : Fit}
    (h : (sessionAfter {} ms).fit = some f) {m : Json}
    (htype : messageType? m = some .fourierToSurface) :
    IsCompileError (receive (sessionAfter {} ms) m).replies ↔ ¬ (f.x.IsFinite ∧ f.y.IsFinite) := by
  obtain ⟨k, n, hsteps⟩ : ∃ k n, (sessionAfter {} ms).definition.HasSteps k n := by
    rw [sessionAfter_eq_run]
    exact Session.exists_hasSteps _
  obtain ⟨points, canvas, _, _, _, order, -, -, -, -, hf⟩ := exists_madeFrom h
  exact isCompileError_iff htype h (Fit.ofPoints_isProper hf).1 hsteps

/-- A fit that any conversation has stored can be sent to the surface view as far as its
coefficients are finite. Its two expressions are accepted exactly if those of their series are, and
a request to send it is answered with a text that cannot be read exactly if one of them is not. The
coefficients come from the points of the gesture that was drawn before the fit was asked for. They
are finite only if all of these points have finite coordinates in the frame of the canvas, and so only
if the points themselves are finite. -/
theorem stored_fit_is_sent_iff (ms : List Json) (f : Fit) (h : (sessionAfter {} ms).fit = some f) :
    ((∃ c, Compiled.ofText f.expressionX = .ok c) ↔ f.x.IsFinite) ∧
    ((∃ c, Compiled.ofText f.expressionY = .ok c) ↔ f.y.IsFinite) ∧
    (∀ m, messageType? m = some .fourierToSurface →
      (IsCompileError (receive (sessionAfter {} ms) m).replies ↔
        ¬ (f.x.IsFinite ∧ f.y.IsFinite))) ∧
    ∃ points canvas, MadeFrom ms f points canvas ∧
      (f.x.IsFinite →
        ∀ p ∈ points, (canvas.toFrame p).x.isFinite = true ∧ p.x.isFinite = true) ∧
      (f.y.IsFinite →
        ∀ p ∈ points, (canvas.toFrame p).y.isFinite = true ∧ p.y.isFinite = true) := by
  obtain ⟨points, canvas, hmade⟩ := exists_madeFrom h
  obtain ⟨_, _, _, order, -, -, -, -, hf⟩ := id hmade
  obtain ⟨hproper, -⟩ := Fit.ofPoints_isProper hf
  obtain ⟨hx, hy⟩ := Fit.toFrame_isFinite_of_ofPoints hf
  refine ⟨hproper.accepted_iff.1.1, hproper.accepted_iff.2.1,
    fun m htype => isCompileError_of_stored h htype, points, canvas, hmade, ?_, ?_⟩
  · exact fun hfinite p hp => ⟨hx hfinite p hp, x_isFinite_of_toFrame (hx hfinite p hp)⟩
  · exact fun hfinite p hp => ⟨hy hfinite p hp, y_isFinite_of_toFrame (hy hfinite p hp)⟩

/-! ## Conversations with a fit that cannot be sent -/

/-- A message about a point of the pointer on the upper edge of the canvas. -/
def pointMessage (type : String) (x : Float) : Json :=
  .object [("type", .str type), ("payload", .object [("x", .float x), ("y", .int 0)])]

/-- A gesture of sixteen points, to and fro. -/
def gesture (x : Float) : List Json :=
  pointMessage "stroke_start" x ::
    (List.range 15).map fun i => pointMessage "stroke_move" (if i % 2 = 0 then -x else x)

/-- A request for a fit with one harmonic, on a canvas of one pixel. -/
def fitMessage : Json :=
  .object [("type", .str "fourier_compute"), ("payload", .object
    [("order", .int 1), ("canvas_width", .int 1), ("canvas_height", .int 1)])]

/-- A request to send the fit. -/
def sendMessage : Json := .object [("type", .str "fourier_to_surface")]

/-- The fit of a gesture has a coefficient that is not finite if a point of it has no place in the
frame of the canvas. -/
theorem exists_fit_of_gesture {x : Float} (hnone : (sessionAfter {} (gesture x)).fit.isNone = true)
    (hsome : (sessionAfter {} (gesture x ++ [fitMessage])).fit.isSome = true)
    (hplaces : ¬ ∀ p ∈ (sessionAfter {} (gesture x)).stroke.points,
      (Canvas.toFrame ⟨1, 1⟩ p).x.isFinite = true) :
    ∃ f, (sessionAfter {} (gesture x ++ [fitMessage])).fit = some f ∧ ¬ f.x.IsFinite := by
  have haccepted : accepted? Form.fitRequest (messagePayload fitMessage) =
      some ⟨.int 1, ⟨1, 1⟩⟩ := rfl
  obtain ⟨f, hf⟩ := Option.isSome_iff_exists.mp hsome
  refine ⟨f, hf, fun hfinite => ?_⟩
  rw [sessionAfter_append_singleton] at hf
  rcases receive_fit hf with hbefore | ⟨-, r, hr, hfit⟩
  · rw [hbefore] at hnone
    cases hnone
  · cases haccepted.symm.trans hr
    exact hplaces ((Fit.toFrame_isFinite_of_ofPoints hfit).1 hfinite)

/-- Points that are all finite, and are so far away that they are not in the frame of the canvas. -/
theorem stored_fit_is_sent_iff_far_away :
    (∀ p ∈ (sessionAfter {} (gesture 1e308)).stroke.points, p.x.isFinite = true) ∧
      ∃ f, (sessionAfter {} (gesture 1e308 ++ [fitMessage])).fit = some f ∧
        IsCompileError
          (receive (sessionAfter {} (gesture 1e308 ++ [fitMessage])) sendMessage).replies := by
  obtain ⟨f, hf, hspecial⟩ := exists_fit_of_gesture (x := 1e308) (by decide +kernel)
    (by decide +kernel) (by decide +kernel)
  obtain ⟨-, -, hsend, -⟩ := stored_fit_is_sent_iff _ f hf
  exact ⟨by decide +kernel, f, hf, (hsend sendMessage rfl).mpr fun h => hspecial h.1⟩

/-- Points without a place. -/
theorem stored_fit_of_undefined_points :
    ∃ f, (sessionAfter {} (gesture (0 / 0) ++ [fitMessage])).fit = some f ∧
      IsCompileError
        (receive (sessionAfter {} (gesture (0 / 0) ++ [fitMessage])) sendMessage).replies := by
  obtain ⟨f, hf, hspecial⟩ := exists_fit_of_gesture (x := 0 / 0) (by decide +kernel)
    (by decide +kernel) (by decide +kernel)
  exact ⟨f, hf, (isCompileError_of_stored hf rfl).mpr fun h => hspecial h.1⟩

end Service

end SurfaceStudio
