import Mathlib.Data.List.Induction
import SurfaceStudio.Proofs.Service.Replies
/-!
# Conversations

A connection starts with a fresh session and answers one message after the other. What is known of
single exchanges holds of every message of a conversation, in the session that the messages before
it left behind; and that session has a surface to show exactly if one of them built it.
-/

namespace SurfaceStudio.Service

/-- The session after some messages. -/
def sessionAfter (s : Session) (ms : List Json) : Session :=
  ms.foldl (fun s m => (receive s m).session) s

/-- The message at place `i` of a conversation builds a surface. -/
def BuildsAt (ms : List Json) (i : Nat) : Prop :=
  ∃ m ∈ ms[i]?, BuildsMesh (sessionAfter {} (ms.take i)) m

theorem sessionAfter_cons (s : Session) (m : Json) (ms : List Json) :
    sessionAfter s (m :: ms) = sessionAfter (receive s m).session ms := rfl

theorem sessionAfter_append_singleton (s : Session) (ms : List Json) (m : Json) :
    sessionAfter s (ms ++ [m]) = (receive (sessionAfter s ms) m).session := by
  rw [sessionAfter, List.foldl_append]
  rfl

/-- Each message is answered in the session that the messages before it left behind. -/
theorem converse_getElem? (s : Session) (ms : List Json) (i : Nat) :
    (converse s ms)[i]? = ms[i]?.map fun m => (receive (sessionAfter s (ms.take i)) m).replies := by
  induction ms generalizing s i with
  | nil => rfl
  | cons m ms ih =>
    cases i with
    | zero => rfl
    | succ i =>
      simp only [converse, List.getElem?_cons_succ, List.take_succ_cons, sessionAfter_cons]
      exact ih (receive s m).session i

/-- What a message builds does not depend on the messages that come later. -/
theorem buildsAt_of_start {ms ms' : List Json} {i : Nat} (h : ms <+: ms') (hi : i < ms.length) :
    BuildsAt ms' i ↔ BuildsAt ms i := by
  obtain ⟨later, rfl⟩ := h
  rw [BuildsAt, BuildsAt, List.getElem?_append_left hi,
    List.take_append_of_le_length (Nat.le_of_lt hi)]

/-- There is a surface on display exactly if one of the messages built one. -/
theorem sessionAfter_mesh (ms : List Json) :
    (sessionAfter {} ms).mesh = none ↔ ∀ i < ms.length, ¬ BuildsAt ms i := by
  induction ms using List.reverseRecOn with
  | nil => exact ⟨fun _ => nofun, fun _ => rfl⟩
  | append_singleton ms m ih =>
    have hearlier : ∀ i < ms.length, (BuildsAt (ms ++ [m]) i ↔ BuildsAt ms i) :=
      fun i => buildsAt_of_start (List.prefix_append ms [m])
    have hlast : BuildsAt (ms ++ [m]) ms.length ↔ BuildsMesh (sessionAfter {} ms) m := by
      simp [BuildsAt]
    rw [sessionAfter_append_singleton, (receive_answered _ m).mesh_eq_none_iff, ih,
      List.length_append, List.length_singleton, Nat.forall_lt_succ_right, hlast]
    exact and_congr_left fun _ => forall₂_congr fun i hi => not_congr (hearlier i hi).symm

/-- The live service answers every message in one of the known shapes, with silence for the
movements of the pointer alone and with an error for exactly the messages that cannot be answered as
they ask. A message does to the session what its request does; one that ends in an error leaves the
whole session as it was. A surface that was built is shown with a status, and every surface is shown
as the session has it after the message. In a conversation a request for the mesh is turned down
exactly if no message before it built one. -/
theorem live_service_spec :
    (∀ (s : Session) (m : Json),
      ReplyShape m (receive s m).replies ∧
      ((receive s m).replies = [] ↔ IsGesture m) ∧
      ((receive s m).HasError ↔ Fails s m) ∧
      ((receive s m).HasError → (receive s m).session = s) ∧
      (receive s m).session = (request? m).elim s s.after ∧
      ((∃ p d o, (receive s m).replies = [.meshUpdate p d, .status o]) ↔ BuildsMesh s m) ∧
      ∀ p d, .meshUpdate p d ∈ (receive s m).replies →
        ∃ mesh, (receive s m).session.mesh = some mesh ∧
          p = mesh.payload (receive s m).session.definition.wireframe ∧
          d = (receive s m).session.definition) ∧
    ∀ (ms : List Json) (i : Nat) (m : Json), ms[i]? = some m →
      messageType? m = some .requestMesh →
      ((converse {} ms)[i]? = some [.rejected .noMesh] ↔ ∀ j < i, ¬ BuildsAt ms j) := by
  refine ⟨fun s m => ?_, fun ms i m hm htype => ?_⟩
  · have h : Answered s m (receive s m) := receive_answered s m
    exact ⟨h.replyShape, replies_eq_nil_iff, h.hasError_iff, h.session_eq_of_error, h.session_eq,
      h.mesh_and_status_iff, fun p d => h.shows_session⟩
  · have hi : i < ms.length := (List.getElem?_eq_some_iff.mp hm).1
    have htake : (ms.take i).length = i := List.length_take_of_le (Nat.le_of_lt hi)
    rw [converse_getElem?, hm, Option.map_some, Option.some_inj, replies_requestMesh htype,
      sessionAfter_mesh, htake]
    refine forall₂_congr fun j hj => not_congr ?_
    exact (buildsAt_of_start (List.take_prefix i ms) (by omega)).symm

end SurfaceStudio.Service
