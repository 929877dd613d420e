import SurfaceStudio.Service.Live
import SurfaceStudio.Proofs.Session.Steps
import SurfaceStudio.Proofs.Stroke.Thinning
/-!
# What a message does to a session, and how it is answered

A message stands for a request of the session (`request?`), and all it does to the session is what
that request does. `Answered` lists the exchanges that a message can lead to; `receive_answered` is
all that is ever needed of the handlers. The properties of single exchanges are read off the list:
the shapes of the replies, which messages end in an error, that these leave the session alone, and
that a surface is shown as the session has it.
-/

namespace SurfaceStudio

/-- The severity in the line that reports how a request ended. -/
def Outcome.severity (o : Outcome) : Json := (o.status.get? "severity").getD .null

@[simp] theorem Outcome.severity_success (message : String) (product : Option Product) :
    (Outcome.success message product).severity = .str "ok" := rfl

@[simp] theorem Outcome.severity_failure (f : Failure) :
    (Outcome.failure f).severity = .str "error" := rfl

/-- A request that a session does not fulfil: it ends in a failure or in a fault. -/
def Session.Refuses (s : Session) (r : Session.Request) : Prop :=
  ∀ t, s.step r = .ok t → ∃ f, t.answer = .outcome (.failure f)

namespace Service

/-! ## The parts of a message -/

/-- The type that a message names, if it is a known one. -/
def messageType? : Json → Option MessageType
  | .object members => MessageType.ofJson? ((Json.lookup "type" members).getD (.str ""))
  | _ => none

/-- The payload of a message. One that counts as nothing stands for an empty object. -/
def messagePayload : Json → Json
  | .object members =>
    let given := (Json.lookup "payload" members).getD .null
    if given.isFalsy then .object [] else given
  | _ => .object []

theorem receive_of_type {m : Json} {type : MessageType} (h : messageType? m = some type)
    (s : Session) : receive s m = dispatch s (messagePayload m) type := by
  cases m with
  | object members =>
    rw [messageType?] at h
    simp only [receive, h, messagePayload]
  | _ => cases h

theorem receive_of_no_type {m : Json} (h : messageType? m = none) (s : Session) :
    ∃ r, receive s m = rejecting s r := by
  cases m with
  | object members =>
    rw [messageType?] at h
    simp only [receive, h]
    cases ((Json.lookup "type" members).getD (.str "")).display with
    | ok shown => exact ⟨_, rfl⟩
    | error f => exact ⟨_, rfl⟩
  | _ => exact ⟨_, rfl⟩

/-- What is read from a payload, if it is accepted. -/
def accepted? {α : Type} (read : Members → Checked α) : Json → Option α
  | .object members => (read members).toOption
  | _ => none

theorem withMessage_of_accepted {α : Type} {read : Members → Checked α} {payload : Json} {a : α}
    (h : accepted? read payload = some a) (s : Session) (k : α → Exchange) :
    withMessage s payload read k = k a := by
  cases payload with
  | object members =>
    rw [accepted?] at h
    simp only [withMessage, withMembers]
    cases hread : read members with
    | ok a' =>
      rw [hread] at h
      cases h
      rfl
    | error cs =>
      rw [hread] at h
      cases h
  | _ => cases h

theorem withMessage_of_not_accepted {α : Type} {read : Members → Checked α} {payload : Json}
    (h : accepted? read payload = none) (s : Session) (k : α → Exchange) :
    ∃ rejection, withMessage s payload read k = rejecting s rejection := by
  cases payload with
  | object members =>
    rw [accepted?] at h
    simp only [withMessage, withMembers]
    cases hread : read members with
    | ok a =>
      rw [hread] at h
      cases h
    | error cs => exact ⟨_, rfl⟩
  | _ => exact ⟨_, rfl⟩

/-- The request that a message stands for, if its payload is accepted. To ask for the mesh is no
request of the session. -/
def request? (m : Json) : Option Session.Request :=
  let payload := messagePayload m
  match messageType? m with
  | some .buildSurface => (accepted? Form.surface payload).map .build
  | some .loadExample => (accepted? .ok payload).map fun members =>
    .applyExample ((Json.lookup "key" members).getD (.str ""))
  | some .loadPreset => (accepted? .ok payload).map fun members =>
    .loadPreset (.value ((Json.lookup "preset" members).getD (.object members)))
  | some .strokeStart => (accepted? Form.point payload).map fun p =>
    .beginStroke ⟨.float p.x, .float p.y⟩
  | some .strokeMove => (accepted? Form.point payload).map fun p =>
    .extendStroke ⟨.float p.x, .float p.y⟩
  | some .strokeEnd => some .finishStroke
  | some .fourierCompute => (accepted? Form.fitRequest payload).map fun r =>
    .computeFourier r.order (r.canvas.map .float)
  | some .fourierClear => some .clear
  | some .fourierToSurface => some .toSurface
  | some .requestMesh => none
  | none => none

/-- A movement of the pointer that is accepted: the end of a gesture, or a point that starts it or
goes on with it. -/
def IsGesture (m : Json) : Prop :=
  messageType? m = some .strokeEnd ∨
    ((messageType? m = some .strokeStart ∨ messageType? m = some .strokeMove) ∧
      ∃ p, accepted? Form.point (messagePayload m) = some p)

/-- A request for the mesh of a session that has one. -/
def AsksForMesh (s : Session) (m : Json) : Prop :=
  messageType? m = some .requestMesh ∧ s.mesh ≠ none

/-- A message that cannot be answered as it asks: the session refuses the request that it stands
for, or it stands for none and there is no mesh that it could ask for. -/
def Fails (s : Session) (m : Json) : Prop :=
  match request? m with
  | some r => s.Refuses r
  | none => ¬ AsksForMesh s m

/-! ## All that a message can lead to -/

/-- The exchanges that a message can lead to. -/
inductive Answered (s : Session) (m : Json) : Exchange → Prop where
  | refused (rejection : Rejection) : request? m = none → ¬ AsksForMesh s m →
    Answered s m ⟨s, [.rejected rejection]⟩
  | faulted {r : Session.Request} {fault : Fault} : request? m = some r →
    s.step r = .error fault → Answered s m ⟨s, [.rejected (.fault fault)]⟩
  | shown {mesh : Mesh Float} : messageType? m = some .requestMesh → request? m = none →
    s.mesh = some mesh → Answered s m ⟨s, [meshReply s mesh]⟩
  | silent {r : Session.Request} {t : Session.Step} : IsGesture m → request? m = some r →
    s.step r = .ok t → (∀ o, t.answer ≠ .outcome o) → Answered s m ⟨t.session, []⟩
  | cleared : request? m = some .clear →
    Answered s m ⟨s.clear.session, [.status s.clear.outcome]⟩
  | reported {r : Session.Request} {o : Outcome} {entries : List Journal.Entry} :
    request? m = some r → s.step r = .ok ⟨s, .outcome o, entries⟩ → o.product? = none →
    Answered s m ⟨s, [.status o]⟩
  | built {r : Session.Request} {t : Session.Step} {mesh : Mesh Float} {message : String} :
    request? m = some r → s.step r = .ok t → t.session.mesh = some mesh →
    t.answer = .outcome (.success message (some (.mesh mesh))) →
    Answered s m ⟨t.session,
      [meshReply t.session mesh, .status (.success message (some (.mesh mesh)))]⟩
  | fitted {r : Session.Request} {t : Session.Step} {f : Fourier.Fit} {canvas : Canvas Float}
    {message : String} : request? m = some r → s.step r = .ok t →
    t.answer = .outcome (.success message (some (.fit f))) →
    Answered s m ⟨t.session, [.fourierResult f canvas, .status (.success message (some (.fit f)))]⟩

section

variable {s : Session} {m : Json}

/-- A payload that is accepted leads on to the request, and any other is turned down. -/
theorem answered_withMessage {α : Type} {read : Members → Checked α} {k : α → Exchange}
    {ask : α → Session.Request} (htype : messageType? m ≠ some .requestMesh)
    (hrequest : request? m = (accepted? read (messagePayload m)).map ask)
    (h : ∀ a, accepted? read (messagePayload m) = some a → request? m = some (ask a) →
      Answered s m (k a)) :
    Answered s m (withMessage s (messagePayload m) read k) := by
  cases haccepted : accepted? read (messagePayload m) with
  | none =>
    rw [haccepted, Option.map_none] at hrequest
    obtain ⟨rejection, hrejected⟩ := withMessage_of_not_accepted haccepted s k
    rw [hrejected]
    exact .refused rejection hrequest fun hask => htype hask.1
  | some a =>
    rw [haccepted, Option.map_some] at hrequest
    rw [withMessage_of_accepted haccepted]
    exact h a haccepted hrequest

theorem withMembers_eq (s : Session) (payload : Json) (k : Members → Exchange) :
    withMembers s payload k = withMessage s payload .ok k := by
  cases payload <;> rfl

/-- A request for a surface builds one and shows it, or is reported and changes nothing. -/
theorem answered_surface {r : Session.Request} {x : Except Fault Turn}
    (hrequest : request? m = some r) (hstep : s.step r = x.map .ofTurn)
    (h : ∀ t, x = .ok t → t.Builds s ∨ t.Keeps s) :
    Answered s m (finishing s surfaceReplies x) := by
  rcases x with fault | ⟨session, outcome, entries⟩
  · exact .faulted hrequest hstep
  · rcases h _ rfl with ⟨d, mesh, message, hmesh, rfl, rfl⟩ | ⟨rfl, hproduct⟩
    · exact .built hrequest hstep rfl rfl
    · have hreplies : surfaceReplies session outcome = [.status outcome] := by
        simp only at hproduct
        rw [surfaceReplies, hproduct]
      rw [finishing, hreplies]
      exact .reported hrequest hstep hproduct

/-- A request for a fit makes one and sends it, or is reported and changes nothing. -/
theorem answered_fit {r : Session.Request} {canvas : Canvas Float} {x : Except Fault Turn}
    (hrequest : request? m = some r) (hstep : s.step r = x.map .ofTurn)
    (h : ∀ t, x = .ok t →
      (∃ f message, t.outcome = .success message (some (.fit f))) ∨ t.Keeps s) :
    Answered s m (finishing s (fun _ => fitReplies canvas) x) := by
  rcases x with fault | ⟨session, outcome, entries⟩
  · exact .faulted hrequest hstep
  · rcases h _ rfl with ⟨f, message, rfl⟩ | ⟨rfl, hproduct⟩
    · exact .fitted hrequest hstep rfl
    · have hreplies : fitReplies canvas outcome = [.status outcome] := by
        simp only at hproduct
        rw [fitReplies, hproduct]
      rw [finishing, hreplies]
      exact .reported hrequest hstep hproduct

/-- A point of the live service starts a gesture as the request for it does. -/
theorem step_beginStroke (s : Session) (p : Point Float) :
    s.step (.beginStroke ⟨.float p.x, .float p.y⟩) = .ok ⟨s.withStroke (.start p), .done, []⟩ := rfl

/-- Every message leads to one of these exchanges. -/
theorem receive_answered (s : Session) (m : Json) : Answered s m (receive s m) := by
  cases htype : messageType? m with
  | none =>
    obtain ⟨rejection, hr⟩ := receive_of_no_type htype s
    rw [hr]
    exact .refused rejection (by rw [request?, htype]) fun hask => by simp [hask.1] at htype
  | some type =>
    have hne : type ≠ .requestMesh → messageType? m ≠ some .requestMesh := by
      rw [htype]
      exact fun h heq => h (Option.some.inj heq)
    rw [receive_of_type htype]
    cases type with
    | buildSurface =>
      refine answered_withMessage (hne (by decide)) (by rw [request?, htype]) ?_
      exact fun d _ hrequest => answered_surface hrequest rfl fun _ => Session.build_spec
    | requestMesh =>
      rw [dispatch]
      split
      next mesh hmesh => exact .shown htype (by rw [request?, htype]) hmesh
      next hmesh => exact .refused _ (by rw [request?, htype]) fun hask => hask.2 hmesh
    | loadExample =>
      rw [dispatch, withMembers_eq]
      refine answered_withMessage (hne (by decide)) (by rw [request?, htype]) ?_
      exact fun _ _ hrequest => answered_surface hrequest rfl fun _ => Session.applyExample_spec
    | loadPreset =>
      rw [dispatch, withMembers_eq]
      refine answered_withMessage (hne (by decide)) (by rw [request?, htype]) ?_
      exact fun _ _ hrequest => answered_surface hrequest rfl fun _ => Session.loadPreset_spec
    | strokeStart =>
      refine answered_withMessage (hne (by decide)) (by rw [request?, htype]) ?_
      intro p hp hrequest
      exact .silent (.inr ⟨.inl htype, p, hp⟩) hrequest (step_beginStroke s p) nofun
    | strokeMove =>
      refine answered_withMessage (hne (by decide)) (by rw [request?, htype]) ?_
      intro p hp hrequest
      obtain ⟨kept, hstep, -⟩ := Stroke.step_extend_answer s p
      exact .silent (.inr ⟨.inr htype, p, hp⟩) hrequest hstep nofun
    | strokeEnd =>
      have hstep : s.step .finishStroke = .ok ⟨s.withStroke s.stroke.finish, .done, []⟩ := rfl
      exact .silent (.inl htype) (by rw [request?, htype]) hstep nofun
    | fourierCompute =>
      refine answered_withMessage (hne (by decide)) (by rw [request?, htype]) ?_
      intro r _ hrequest
      refine answered_fit hrequest rfl fun t ht => ?_
      rcases Session.computeFourier_spec ht with ⟨f, message, -, -, houtcome⟩ | hkeeps
      · exact .inl ⟨f, message, houtcome⟩
      · exact .inr hkeeps
    | fourierClear => exact .cleared (by rw [request?, htype])
    | fourierToSurface =>
      exact answered_surface (by rw [request?, htype]) rfl fun _ => Session.toSurface_spec

/-! ## The shapes of the replies -/

/-- The shapes that the replies to a message can have. -/
inductive ReplyShape (m : Json) : List Reply → Prop where
  | silence : IsGesture m → ReplyShape m []
  | error (rejection : Rejection) : ReplyShape m [.rejected rejection]
  | status (o : Outcome) : ReplyShape m [.status o]
  | mesh (p : Mesh.Payload Float) (d : Definition) :
    messageType? m = some .requestMesh → ReplyShape m [.meshUpdate p d]
  | meshAndStatus (p : Mesh.Payload Float) (d : Definition) {o : Outcome} :
    o.severity = .str "ok" → ReplyShape m [.meshUpdate p d, .status o]
  | fitAndStatus (f : Fourier.Fit) (canvas : Canvas Float) {o : Outcome} :
    o.severity = .str "ok" → ReplyShape m [.fourierResult f canvas, .status o]

variable {e : Exchange}

theorem Answered.replyShape (h : Answered s m e) : ReplyShape m e.replies := by
  cases h with
  | refused rejection hrequest hask => exact .error rejection
  | faulted hrequest hstep => exact .error _
  | shown htype hrequest hmesh => exact .mesh _ _ htype
  | silent hgesture hrequest hstep hanswer => exact .silence hgesture
  | cleared hrequest => exact .status _
  | reported hrequest hstep hproduct => exact .status _
  | built hrequest hstep hmesh hanswer => exact .meshAndStatus _ _ rfl
  | fitted hrequest hstep hanswer => exact .fitAndStatus _ _ rfl

/-- A movement that is accepted gets no reply. -/
theorem replies_of_isGesture (h : IsGesture m) (s : Session) : (receive s m).replies = [] := by
  rcases h with htype | ⟨htype, p, hp⟩
  · rw [receive_of_type htype]
    rfl
  · rcases htype with htype | htype
    · rw [receive_of_type htype, dispatch, withMessage_of_accepted hp]
    · rw [receive_of_type htype, dispatch, withMessage_of_accepted hp]

theorem replies_eq_nil_iff : (receive s m).replies = [] ↔ IsGesture m := by
  refine ⟨fun h => ?_, fun h => replies_of_isGesture h s⟩
  have hshape : ReplyShape m (receive s m).replies := (receive_answered s m).replyShape
  rw [h] at hshape
  cases hshape with
  | silence hgesture => exact hgesture

/-! ## The session after a message -/

theorem after_of_step {r : Session.Request} {t : Session.Step} (hrequest : request? m = some r)
    (hstep : s.step r = .ok t) : t.session = (request? m).elim s s.after := by
  rw [hrequest, Option.elim_some, Session.after, hstep]

/-- A message does to a session what the request does that it stands for. -/
theorem Answered.session_eq (h : Answered s m e) : e.session = (request? m).elim s s.after := by
  cases h with
  | refused rejection hrequest hask => rw [hrequest, Option.elim_none]
  | faulted hrequest hstep => rw [hrequest, Option.elim_some, Session.after, hstep]
  | shown htype hrequest hmesh => rw [hrequest, Option.elim_none]
  | silent hgesture hrequest hstep hanswer => exact after_of_step hrequest hstep
  | cleared hrequest => exact after_of_step (t := .ofTurn s.clear) hrequest rfl
  | reported hrequest hstep hproduct => exact after_of_step hrequest hstep
  | built hrequest hstep hmesh hanswer => exact after_of_step hrequest hstep
  | fitted hrequest hstep hanswer => exact after_of_step hrequest hstep

/-! ## Errors -/

/-- A reply that reports an error: a rejection, or a status of that severity. -/
def Reply.IsError : Reply → Prop
  | .rejected _ => True
  | .status o => o.severity = .str "error"
  | _ => False

/-- One of the replies reports an error. -/
def Exchange.HasError (e : Exchange) : Prop := ∃ r ∈ e.replies, r.IsError

theorem isError_status {o : Outcome} : (Reply.status o).IsError ↔ ∃ f, o = .failure f := by
  cases o with
  | success message product => simp [Reply.IsError]
  | failure f => simp [Reply.IsError]

theorem fails_of_request {r : Session.Request} (h : request? m = some r) :
    Fails s m ↔ s.Refuses r := by
  rw [Fails, h]

theorem fails_of_no_request (h : request? m = none) : Fails s m ↔ ¬ AsksForMesh s m := by
  rw [Fails, h]

/-- A request that is answered is refused if its outcome is a failure. -/
theorem refuses_iff {r : Session.Request} {t : Session.Step} (h : s.step r = .ok t) :
    s.Refuses r ↔ ∃ f, t.answer = .outcome (.failure f) := by
  refine ⟨fun hrefuses => hrefuses t h, fun hanswer t' ht' => ?_⟩
  cases h.symm.trans ht'
  exact hanswer

/-- Errors are reported exactly of the messages that cannot be answered as they ask. -/
theorem Answered.hasError_iff (h : Answered s m e) : e.HasError ↔ Fails s m := by
  cases h with
  | refused rejection hrequest hask =>
    rw [fails_of_no_request hrequest]
    exact iff_of_true ⟨_, List.mem_singleton_self _, trivial⟩ hask
  | faulted hrequest hstep =>
    rw [fails_of_request hrequest]
    refine iff_of_true ⟨_, List.mem_singleton_self _, trivial⟩ fun t ht => ?_
    cases hstep.symm.trans ht
  | shown htype hrequest hmesh =>
    rw [fails_of_no_request hrequest]
    have hask : AsksForMesh s m := ⟨htype, by simp [hmesh]⟩
    simp [Exchange.HasError, Reply.IsError, meshReply, hask]
  | silent hgesture hrequest hstep hanswer =>
    rw [fails_of_request hrequest, refuses_iff hstep]
    simp [Exchange.HasError, hanswer]
  | cleared hrequest =>
    rw [fails_of_request hrequest, refuses_iff rfl]
    simp [Exchange.HasError, isError_status, Session.Step.ofTurn]
  | reported hrequest hstep hproduct =>
    rw [fails_of_request hrequest, refuses_iff hstep]
    simp [Exchange.HasError, isError_status]
  | built hrequest hstep hmesh hanswer =>
    rw [fails_of_request hrequest, refuses_iff hstep, hanswer]
    simp [Exchange.HasError, Reply.IsError, meshReply]
  | fitted hrequest hstep hanswer =>
    rw [fails_of_request hrequest, refuses_iff hstep, hanswer]
    simp [Exchange.HasError, Reply.IsError]

/-- A message that ends in an error changes nothing. -/
theorem Answered.session_eq_of_error (h : Answered s m e) (herror : e.HasError) :
    e.session = s := by
  have hfails : Fails s m := h.hasError_iff.mp herror
  cases h with
  | refused rejection hrequest hask => rfl
  | faulted hrequest hstep => rfl
  | shown htype hrequest hmesh => rfl
  | reported hrequest hstep hproduct => rfl
  -- the other exchanges report no error
  | silent hgesture hrequest hstep hanswer =>
    obtain ⟨f, hf⟩ := (refuses_iff hstep).mp ((fails_of_request hrequest).mp hfails)
    exact absurd hf (hanswer _)
  | cleared hrequest =>
    obtain ⟨f, hf⟩ := (refuses_iff rfl).mp ((fails_of_request hrequest).mp hfails)
    cases hf
  | built hrequest hstep hmesh hanswer =>
    obtain ⟨f, hf⟩ := (refuses_iff hstep).mp ((fails_of_request hrequest).mp hfails)
    cases hanswer.symm.trans hf
  | fitted hrequest hstep hanswer =>
    obtain ⟨f, hf⟩ := (refuses_iff hstep).mp ((fails_of_request hrequest).mp hfails)
    cases hanswer.symm.trans hf

/-! ## Surfaces that are shown -/

/-- A surface is shown as the session has it after the message. -/
theorem Answered.shows_session (h : Answered s m e) {p : Mesh.Payload Float} {d : Definition}
    (hr : .meshUpdate p d ∈ e.replies) : ∃ mesh, e.session.mesh = some mesh ∧
      p = mesh.payload e.session.definition.wireframe ∧ d = e.session.definition := by
  cases h with
  | @shown mesh htype hrequest hmesh =>
    cases List.mem_singleton.mp hr
    exact ⟨mesh, hmesh, rfl, rfl⟩
  | @built r t mesh message hrequest hstep hmesh hanswer =>
    rw [List.mem_cons, List.mem_singleton] at hr
    rcases hr with hr | hr
    · cases hr
      exact ⟨mesh, hmesh, rfl, rfl⟩
    · cases hr
  | silent hgesture hrequest hstep hanswer => cases hr
  | refused rejection hrequest hask => simp at hr
  | faulted hrequest hstep => simp at hr
  | cleared hrequest => simp at hr
  | reported hrequest hstep hproduct => simp at hr
  | fitted hrequest hstep hanswer => simp at hr

/-- A message that stands for a request which is answered with a mesh. -/
def BuildsMesh (s : Session) (m : Json) : Prop := ∃ r ∈ request? m, s.AnswersMesh r

/-- The request of a message is answered with a mesh if its own answer is one. -/
theorem buildsMesh_iff {r : Session.Request} {t : Session.Step} (hrequest : request? m = some r)
    (hstep : s.step r = .ok t) :
    BuildsMesh s m ↔
      ∃ message mesh, t.answer = .outcome (.success message (some (.mesh mesh))) := by
  constructor
  · rintro ⟨r', hr', t', message, mesh, ht', hanswer⟩
    cases hrequest.symm.trans hr'
    cases hstep.symm.trans ht'
    exact ⟨message, mesh, hanswer⟩
  · rintro ⟨message, mesh, hanswer⟩
    exact ⟨r, hrequest, t, message, mesh, hstep, hanswer⟩

theorem not_buildsMesh_of_no_request (h : request? m = none) : ¬ BuildsMesh s m := by
  rintro ⟨r, hr, -⟩
  cases h.symm.trans hr

/-- A surface and a status are sent exactly when a surface was built. -/
theorem Answered.mesh_and_status_iff (h : Answered s m e) :
    (∃ p d o, e.replies = [.meshUpdate p d, .status o]) ↔ BuildsMesh s m := by
  cases h with
  | refused rejection hrequest hask => simp [not_buildsMesh_of_no_request hrequest]
  | faulted hrequest hstep =>
    refine iff_of_false (by simp) ?_
    rintro ⟨r, hr, t, message, mesh, ht, -⟩
    cases hrequest.symm.trans hr
    cases hstep.symm.trans ht
  | shown htype hrequest hmesh => simp [not_buildsMesh_of_no_request hrequest]
  | silent hgesture hrequest hstep hanswer =>
    rw [buildsMesh_iff hrequest hstep]
    simp [hanswer]
  | cleared hrequest =>
    rw [buildsMesh_iff (t := .ofTurn s.clear) hrequest rfl]
    simp [Session.Step.ofTurn, Session.clear]
  | reported hrequest hstep hproduct =>
    rw [buildsMesh_iff hrequest hstep]
    refine iff_of_false (by simp) ?_
    rintro ⟨message, mesh, hanswer⟩
    cases hanswer
    cases hproduct
  | built hrequest hstep hmesh hanswer =>
    rw [buildsMesh_iff hrequest hstep, hanswer]
    simp [meshReply]
  | fitted hrequest hstep hanswer =>
    rw [buildsMesh_iff hrequest hstep, hanswer]
    simp

/-- There is no surface on display as long as none was built. -/
theorem Answered.mesh_eq_none_iff (h : Answered s m e) :
    e.session.mesh = none ↔ s.mesh = none ∧ ¬ BuildsMesh s m := by
  rw [h.session_eq]
  cases hrequest : request? m with
  | none =>
    rw [Option.elim_none]
    exact (and_iff_left (not_buildsMesh_of_no_request hrequest)).symm
  | some r =>
    have hbuilds : BuildsMesh s m ↔ s.AnswersMesh r := by simp [BuildsMesh, hrequest]
    rw [Option.elim_some, Session.after_mesh_eq_none_iff, hbuilds]

/-- A request for the mesh is turned down exactly when there is none. -/
theorem replies_requestMesh (htype : messageType? m = some .requestMesh) :
    (receive s m).replies = [.rejected .noMesh] ↔ s.mesh = none := by
  rw [receive_of_type htype, dispatch]
  cases s.mesh with
  | none => simp [rejecting]
  | some mesh => simp [meshReply]

end

end Service

end SurfaceStudio
