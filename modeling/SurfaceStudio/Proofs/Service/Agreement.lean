import SurfaceStudio.Service.Http
import SurfaceStudio.Proofs.Service.Replies
import SurfaceStudio.Proofs.Surface.Building
/-!
# One surface, asked for in two ways

A surface can be asked for in a single request and over a live session. Both read the same form and
build what it holds, but they carry the outcome in different ways: one as an answer, the other in a
turn of the session and the replies to it. They come to the same.
-/

namespace SurfaceStudio.Service

/-! ## What the form of a surface accepts -/

namespace Form

theorem both_eq_ok {α β : Type} {x : Checked α} {y : Checked β} {p : α × β}
    (h : both x y = .ok p) : x = .ok p.1 ∧ y = .ok p.2 := by
  cases x with
  | ok a =>
    cases y with
    | ok b =>
      cases h
      exact ⟨rfl, rfl⟩
    | error ds => cases h
  | error cs => cases y <;> cases h

theorem inside_eq_ok {α : Type} {step : PathStep} {x : Checked α} {a : α}
    (h : inside step x = .ok a) : x = .ok a := by
  cases x with
  | ok b =>
    cases h
    rfl
  | error cs => cases h

/-- A member that may be missing is of one kind if its default is and all that is read is. -/
theorem optional_map {α : Type} {key : String} {k : α → Json} {default : α}
    {read : Json → Checked α} {m : Members} {v : Json}
    (h : optional key (k default) (fun w => (read w).map k) m = .ok v) : ∃ a, v = k a := by
  unfold optional at h
  split at h
  · obtain ⟨a, -, ha⟩ := map_eq_ok.mp (inside_eq_ok h)
    exact ⟨a, ha.symm⟩
  · cases h
    exact ⟨default, rfl⟩

/-- The form of a surface lets through nothing but texts where texts belong and integers where
integers belong. -/
theorem surface_isDraft {m : Members} {d : Definition} (h : surface m = .ok d) :
    ∃ t : Draft, ∃ name wireframe : Json, d = t.definition name wireframe := by
  simp only [surface] at h
  obtain ⟨p, hp, rfl⟩ := map_eq_ok.mp h
  obtain ⟨⟨⟨x, y, z⟩, ⟨uMin, uMax⟩, vMin, vMax⟩, ⟨uSteps, vSteps⟩, name, wireframe⟩ := p
  obtain ⟨hshape, hrest⟩ := both_eq_ok hp
  obtain ⟨htexts, hbounds⟩ := both_eq_ok hshape
  obtain ⟨hcounts, -⟩ := both_eq_ok hrest
  obtain ⟨hx, hyz⟩ := both_eq_ok htexts
  obtain ⟨hy, hz⟩ := both_eq_ok hyz
  obtain ⟨hu, hv⟩ := both_eq_ok hbounds
  obtain ⟨huMin, huMax⟩ := both_eq_ok hu
  obtain ⟨hvMin, hvMax⟩ := both_eq_ok hv
  obtain ⟨huSteps, hvSteps⟩ := both_eq_ok hcounts
  obtain ⟨x, rfl⟩ := optional_map (k := .str) hx
  obtain ⟨y, rfl⟩ := optional_map (k := .str) hy
  obtain ⟨z, rfl⟩ := optional_map (k := .str) hz
  obtain ⟨uMin, rfl⟩ := optional_map (k := .str) huMin
  obtain ⟨uMax, rfl⟩ := optional_map (k := .str) huMax
  obtain ⟨vMin, rfl⟩ := optional_map (k := .str) hvMin
  obtain ⟨vMax, rfl⟩ := optional_map (k := .str) hvMax
  obtain ⟨uSteps, rfl⟩ := optional_map (k := .int) huSteps
  obtain ⟨vSteps, rfl⟩ := optional_map (k := .int) hvSteps
  exact ⟨⟨x, y, z, uMin, uMax, vMin, vMax, uSteps, vSteps⟩, name, wireframe, rfl⟩

end Form

/-! ## The single request -/

/-- What an answer says beside its status code when it turns a request down. -/
def Response.detail? : Response → Option Json
  | .refused f => some f.report
  | .problem _ text => some (.str text)
  | _ => none

/-- A request for the surface that is described in the body. -/
structure Request.AsksForSurface (r : Request) (members : Members) (d : Definition) : Prop where
  path : Route.ofPath r.path = some .surface
  method : r.method.toUpper = "POST"
  body : r.body.read = .ok (.object members)
  accepted : Form.surface members = .ok d

/-- A message to a session with the same description of a surface. -/
structure IsBuildMessage (m : Json) (members : Members) : Prop where
  type : messageType? m = some .buildSurface
  payload : messagePayload m = .object members

section

variable {r : Request} {m : Json} {members : Members} {d : Definition}

theorem Request.AsksForSurface.respond_eq (h : r.AsksForSurface members d) :
    respond r = surfaceResponse d := by
  have hmethod : r.method.toUpper = Route.surface.method := h.method
  unfold respond
  rw [h.path]
  show (if r.method.toUpper = Route.surface.method then Route.surface.respond r.body else _) = _
  rw [if_pos hmethod]
  unfold Route.respond handle
  rw [h.body]
  unfold readBody
  simp only [h.accepted, Form.inside]

theorem IsBuildMessage.replies_eq (h : IsBuildMessage m members)
    (haccepted : Form.surface members = .ok d) (s : Session) :
    (receive s m).replies = (finishing s surfaceReplies (s.build d)).replies := by
  have hd : accepted? Form.surface (messagePayload m) = some d := by
    unfold accepted?
    rw [h.payload]
    simp only [haccepted]
    rfl
  rw [receive_of_type h.type, dispatch, withMessage_of_accepted hd]

/-! ## The two answers to a draft -/

theorem surfaceResponse_of_ok {mesh : Mesh Float} (h : d.build = .ok mesh) :
    surfaceResponse d = .ok (.mesh (mesh.payload d.wireframe)) := by
  unfold surfaceResponse
  rw [h]
  rfl

theorem surfaceResponse_of_failure {f : Failure} (h : d.build = .error (.failure f)) :
    surfaceResponse d = .ok (.refused f) := by
  unfold surfaceResponse
  rw [h]
  rfl

/-- The session has taken over the definition before the mesh is sent, so that the frame is drawn
as the request says and not as it was drawn before. -/
theorem replies_of_ok {mesh : Mesh Float} (h : d.build = .ok mesh) (s : Session) :
    ∃ o : Outcome, o.severity = .str "ok" ∧
      (finishing s surfaceReplies (s.build d)).replies =
        [.meshUpdate (mesh.payload d.wireframe) d, .status o] := by
  unfold Session.build
  rw [h]
  exact ⟨_, rfl, rfl⟩

theorem replies_of_failure {f : Failure} (h : d.build = .error (.failure f)) (s : Session) :
    (finishing s surfaceReplies (s.build d)).replies = [.status (.failure f)] := by
  unfold Session.build
  rw [h]
  rfl

/-- A surface that the form accepts is either built in both ways or refused in both ways. -/
theorem both_ways (hr : r.AsksForSurface members d) (hm : IsBuildMessage m members) (s : Session) :
    (∃ P, ∃ o : Outcome, respond r = .ok (.mesh P) ∧ o.severity = .str "ok" ∧
      (receive s m).replies = [.meshUpdate P d, .status o]) ∨
    ∃ f, respond r = .ok (.refused f) ∧ (receive s m).replies = [.status (.failure f)] := by
  rw [hr.respond_eq, hm.replies_eq hr.accepted]
  obtain ⟨t, name, wireframe, rfl⟩ := Form.surface_isDraft hr.accepted
  rcases Draft.build_cases name wireframe t with ⟨e, c, -, hbuild⟩ | ⟨f, -, hbuild⟩
  · obtain ⟨o, ho, hreplies⟩ := replies_of_ok hbuild s
    exact .inl ⟨_, o, surfaceResponse_of_ok hbuild, ho, hreplies⟩
  · exact .inr ⟨f, surfaceResponse_of_failure hbuild, replies_of_failure hbuild s⟩

/-- A failure as it is named in an answer. -/
def failureDetail (code message severity : String) : Json :=
  .object [("code", .str code), ("message", .str message), ("severity", .str severity)]

/-- A status that names a failure. -/
structure NamesFailure (o : Outcome) (code message severity : String) : Prop where
  code : o.status.get? "code" = some (.str code)
  message : o.status.get? "message" = some (.str message)
  severity : o.status.get? "severity" = some (.str severity)

theorem namesFailure_iff {f : Failure} {code message severity : String} :
    NamesFailure (.failure f) code message severity ↔
      f.report = failureDetail code message severity := by
  have hcode : (Outcome.failure f).status.get? "code" = some (.str f.code) := rfl
  have hmessage : (Outcome.failure f).status.get? "message" = some (.str f.message) := rfl
  have hseverity : (Outcome.failure f).status.get? "severity" = some (.str Failure.severity) := rfl
  constructor
  · intro h
    cases hcode.symm.trans h.code
    cases hmessage.symm.trans h.message
    cases hseverity.symm.trans h.severity
    rfl
  · intro h
    unfold Failure.report failureDetail at h
    injection h with h
    injection h with hc h
    injection h with hm h
    injection h with hs
    injection hc with _ hc
    injection hm with _ hm
    injection hs with _ hs
    exact ⟨hcode.trans (congrArg some hc), hmessage.trans (congrArg some hm),
      hseverity.trans (congrArg some hs)⟩

theorem ofPath_surface : Route.ofPath ["surface"] = some .surface := by
  have hjoined : "/".intercalate ["surface"] = "surface" := by decide +kernel
  have hsplit : "surface".splitOn "/" = ["surface"] := by
    unfold String.splitOn
    rw [if_neg (by decide)]
    -- one step for each letter, and one for the end
    iterate 7 rw [String.splitOnAux, if_neg (by decide +kernel), if_neg (by decide +kernel)]
    rw [String.splitOnAux, if_pos (by decide +kernel)]
    decide +kernel
  unfold Route.ofPath
  rw [hjoined, hsplit]
  rfl

/-- The single request and the message to a session give the same answer for every surface that the
form accepts, whatever the session has been through. The request is answered by a mesh exactly if
the message is answered by a mesh and a status that reports success; then both have the same
buffers, and the message also gets the definition that was sent. The request is refused with a code,
a message and a severity exactly if the message gets nothing but a status with the same three. One
of the two happens. -/
theorem request_and_message_agree (hr : r.AsksForSurface members d) (hm : IsBuildMessage m members)
    (s : Session) :
    ((∃ P, respond r = .ok (.mesh P)) ↔
      ∃ P d' o, (receive s m).replies = [.meshUpdate P d', .status o] ∧ o.severity = .str "ok") ∧
    (∀ P, respond r = .ok (.mesh P) →
      ∃ o, (receive s m).replies = [.meshUpdate P d, .status o] ∧ o.severity = .str "ok") ∧
    (∀ code message severity,
      (∃ a, respond r = .ok a ∧ a.status = 400 ∧
        a.detail? = some (failureDetail code message severity)) ↔
      ∃ o, (receive s m).replies = [.status o] ∧ NamesFailure o code message severity) ∧
    ((∃ P, respond r = .ok (.mesh P)) ∨ ∃ f, respond r = .ok (.refused f)) := by
  rcases both_ways hr hm s with ⟨P, o, hrespond, ho, hreplies⟩ | ⟨f, hrespond, hreplies⟩
  · rw [hrespond, hreplies]
    refine ⟨⟨fun _ => ⟨P, d, o, rfl, ho⟩, fun _ => ⟨P, rfl⟩⟩, ?_, ?_, .inl ⟨P, rfl⟩⟩
    · intro Q hQ
      cases hQ
      exact ⟨o, rfl, ho⟩
    · intro code message severity
      constructor
      · intro h
        obtain ⟨a, ha, hstatus, -⟩ := h
        cases ha
        cases hstatus
      · intro h
        obtain ⟨o', hreplies', -⟩ := h
        cases hreplies'
  · rw [hrespond, hreplies]
    refine ⟨⟨?_, ?_⟩, ?_, ?_, .inr ⟨f, rfl⟩⟩
    · intro h
      obtain ⟨P, hP⟩ := h
      cases hP
    · intro h
      obtain ⟨P, d', o, hreplies', -⟩ := h
      cases hreplies'
    · intro P hP
      cases hP
    · intro code message severity
      constructor
      · intro h
        obtain ⟨a, ha, -, hdetail⟩ := h
        cases ha
        exact ⟨_, rfl, namesFailure_iff.mpr (Option.some.inj hdetail)⟩
      · intro h
        obtain ⟨o, hreplies', hnames⟩ := h
        cases hreplies'
        exact ⟨_, rfl, rfl, congrArg some (namesFailure_iff.mp hnames)⟩

end

/-- A bound that is left empty is refused in both ways. -/
theorem request_and_message_agree_empty_bound :
    let members : Members := [("u_min", .str "")]
    let r : Request := ⟨"POST", ["surface"], .value (.object members)⟩
    let m : Json := .object [("type", .str "build_surface"), ("payload", .object members)]
    r.AsksForSurface members { uMin := .str "" } ∧ IsBuildMessage m members ∧
      ∃ o, (receive {} m).replies = [.status o] ∧
        NamesFailure o "EMPTY_BOUND" "Parameter bound expression is empty." "error" := by
  intro members r m
  have hr : r.AsksForSurface members { uMin := .str "" } :=
    ⟨ofPath_surface, by decide +kernel, rfl, rfl⟩
  have hm : IsBuildMessage m members := ⟨rfl, rfl⟩
  have hrespond : respond r = .ok (.refused .emptyBound) := hr.respond_eq.trans rfl
  exact ⟨hr, hm, ((request_and_message_agree hr hm {}).2.2.1 _ _ _).mp ⟨_, hrespond, rfl, rfl⟩⟩

end SurfaceStudio.Service
