import Mathlib.Data.List.Chain
import Mathlib.Data.List.Induction
import SurfaceStudio.Session
/-!
# Strokes over whole gestures

A stroke holds the points of the gesture that was started last, thinned out from its start on: a
point is kept unless it is less than one pixel away from the point kept before it. The sequences of
movements fall into four kinds, by what came last, which `Recorded` lists with the points that each
of them leaves behind.
-/

namespace SurfaceStudio.Stroke

/-! ## Thinning -/

/-- The squared distance from a point to another one. -/
def squaredDistance (p q : Point Float) : Float :=
  (q.x - p.x) * (q.x - p.x) + (q.y - p.y) * (q.y - p.y)

/-- The points that are kept after `last`. -/
def thinned (last : Point Float) : List (Point Float) → List (Point Float)
  | [] => []
  | p :: ps => if squaredDistance last p < 1 then thinned last ps else p :: thinned p ps

theorem isNear_iff (last p : Point Float) : isNear last p = true ↔ squaredDistance last p < 1 := by
  have hspacing : Settings.minStrokeSpacingSquared = 1 := by decide +kernel
  show decide (squaredDistance last p < Settings.minStrokeSpacingSquared) = true ↔ _
  rw [decide_eq_true_iff, hspacing]

/-- Neighbours among the kept points are far enough from each other. -/
theorem isChain_thinned (last : Point Float) (ps : List (Point Float)) :
    (last :: thinned last ps).IsChain fun p q => ¬ squaredDistance p q < 1 := by
  induction ps generalizing last with
  | nil => exact .singleton last
  | cons p ps ih =>
    rw [thinned]
    split
    · exact ih last
    · next hfar => exact .cons_cons hfar (ih p)

/-! ## Moving on -/

section Steps

variable {s : Stroke} {last p : Point Float} {older : List (Point Float)}

theorem accepts_drawing : (⟨last :: older, true⟩ : Stroke).accepts p = !isNear last p := rfl

theorem accepts_ended (h : s.drawing = false) : s.accepts p = false := by
  rw [accepts, h, Bool.false_and]

theorem extend_of_accepts (h : s.accepts p = true) :
    s.extend p = { s with kept := p :: s.kept } := by
  rw [extend, if_pos h]

theorem extend_of_not_accepts (h : s.accepts p = false) : s.extend p = s := by
  rw [extend, h]
  rfl

theorem points_cons (kept : List (Point Float)) (drawing : Bool) :
    (⟨p :: kept, drawing⟩ : Stroke).points = (⟨kept, drawing⟩ : Stroke).points ++ [p] :=
  List.reverse_cons

/-- A point is kept exactly if it stands at the end of the points afterwards. -/
theorem accepts_iff : s.accepts p = true ↔ (s.extend p).points = s.points ++ [p] := by
  constructor
  · intro h
    rw [extend_of_accepts h]
    exact points_cons s.kept s.drawing
  · intro h
    by_contra hnot
    rw [extend_of_not_accepts (Bool.eq_false_iff.mpr hnot)] at h
    simp at h

end Steps

theorem run_cons (s : Stroke) (g : Gesture Float) (gs : List (Gesture Float)) :
    s.run (g :: gs) = (s.step g).run gs := rfl

theorem run_append (s : Stroke) (gs hs : List (Gesture Float)) :
    s.run (gs ++ hs) = (s.run gs).run hs := List.foldl_append

/-! ## Kinds of movements -/

/-- While no gesture is started there is nothing to record. -/
theorem run_of_no_start {gs : List (Gesture Float)} (h : ∀ p, .start p ∉ gs) :
    empty.run gs = empty := by
  induction gs with
  | nil => rfl
  | cons g gs ih =>
    have hrest : ∀ p, .start p ∉ gs := fun p hp => h p (List.mem_cons_of_mem g hp)
    have hstep : empty.step g = empty := by
      cases g with
      | start p => exact absurd List.mem_cons_self (h p)
      | extend p => rfl
      | finish => rfl
      | clear => rfl
    rw [run_cons, hstep, ih hrest]

/-- The movements of a pointer after its gesture: moving on, and ending what has ended. -/
def Gesture.IsIdle : Gesture Float → Prop
  | .extend _ | .finish => True
  | _ => False

/-- After a gesture the pointer may move without any effect. -/
theorem run_of_idle {s : Stroke} (hs : s.drawing = false) {gs : List (Gesture Float)}
    (h : ∀ g ∈ gs, g.IsIdle) : s.run gs = s := by
  induction gs with
  | nil => rfl
  | cons g gs ih =>
    obtain ⟨hg, hrest⟩ := List.forall_mem_cons.mp h
    have hstep : s.step g = s := by
      cases g with
      | start p => exact hg.elim
      | extend p => exact extend_of_not_accepts (accepts_ended hs)
      | finish =>
        show { s with drawing := false } = s
        rw [← hs]
      | clear => exact hg.elim
    rw [run_cons, hstep, ih hrest]

/-- The moves of a gesture leave the thinned points behind, the last one first. -/
theorem run_moves (last : Point Float) (older moves : List (Point Float)) :
    run ⟨last :: older, true⟩ (moves.map .extend) =
      ⟨(thinned last moves).reverse ++ last :: older, true⟩ := by
  induction moves generalizing last older with
  | nil => rfl
  | cons p moves ih =>
    rw [List.map_cons, run_cons, thinned]
    show ((⟨last :: older, true⟩ : Stroke).extend p).run _ = _
    have haccepts : (⟨last :: older, true⟩ : Stroke).accepts p = !isNear last p := accepts_drawing
    split
    · next hnear =>
      rw [(isNear_iff last p).mpr hnear] at haccepts
      rw [extend_of_not_accepts haccepts, ih]
    · next hfar =>
      rw [Bool.eq_false_iff.mpr (mt (isNear_iff last p).mp hfar)] at haccepts
      rw [extend_of_accepts haccepts, ih, List.reverse_cons, List.append_assoc]
      rfl

/-- The points that a sequence of movements leaves behind, and whether the gesture still goes on. -/
inductive Recorded : List (Gesture Float) → List (Point Float) → Bool → Prop
  /-- No gesture was started at all. -/
  | blank {gs} (h : ∀ p, .start p ∉ gs) : Recorded gs [] false
  /-- The drawing was cleared and no gesture was started after that. -/
  | cleared {before after} (h : ∀ p, .start p ∉ after) :
      Recorded (before ++ .clear :: after) [] false
  /-- The last gesture goes on. -/
  | ongoing (before : List (Gesture Float)) (p : Point Float) (moves : List (Point Float)) :
      Recorded (before ++ .start p :: moves.map .extend) (p :: thinned p moves) true
  /-- The last gesture was ended after some moves, and neither was the drawing cleared nor another
  gesture started after that. -/
  | ended (before : List (Gesture Float)) (p : Point Float) (moves : List (Point Float)) {after}
      (h : ∀ g ∈ after, g.IsIdle) :
      Recorded (before ++ .start p :: (moves.map .extend ++ .finish :: after))
        (p :: thinned p moves) false

/-- Idle movements do not change the kind of what has ended. -/
theorem Recorded.append_idle {gs : List (Gesture Float)} {ps : List (Point Float)}
    (h : Recorded gs ps false) {g : Gesture Float} (hg : g.IsIdle) :
    Recorded (gs ++ [g]) ps false := by
  have hkeeps : ∀ {hs : List (Gesture Float)},
      (∀ p, .start p ∉ hs) → ∀ p, .start p ∉ hs ++ [g] := by
    intro hs hno p hmem
    rcases List.mem_append.mp hmem with hmem | hmem
    · exact hno p hmem
    · rw [← List.mem_singleton.mp hmem] at hg
      exact hg
  cases h with
  | blank h => exact .blank (hkeeps h)
  | cleared h =>
    rw [List.append_assoc]
    exact .cleared (hkeeps h)
  | ended before p moves h =>
    rw [List.append_assoc, List.cons_append, List.append_assoc, List.cons_append]
    exact .ended before p moves
      (List.forall_mem_append.mpr ⟨h, List.forall_mem_singleton.mpr hg⟩)

/-- Every sequence of movements is of one of the kinds. -/
theorem exists_recorded (gs : List (Gesture Float)) : ∃ ps drawing, Recorded gs ps drawing := by
  induction gs using List.reverseRecOn with
  | nil => exact ⟨_, _, .blank fun p => List.not_mem_nil⟩
  | append_singleton gs g ih =>
    obtain ⟨ps, drawing, h⟩ := ih
    cases g with
    | start p => exact ⟨_, _, .ongoing gs p []⟩
    | clear =>
      have hcleared : Recorded (gs ++ .clear :: []) [] false := .cleared fun p => List.not_mem_nil
      exact ⟨_, _, hcleared⟩
    | extend q =>
      cases drawing with
      | false => exact ⟨_, _, h.append_idle trivial⟩
      | true =>
        cases h with
        | ongoing before p moves =>
          have hmoves : moves.map Gesture.extend ++ [.extend q] = (moves ++ [q]).map .extend := by
            rw [List.map_append, List.map_singleton]
          rw [List.append_assoc, List.cons_append, hmoves]
          exact ⟨_, _, .ongoing before p (moves ++ [q])⟩
    | finish =>
      cases drawing with
      | false => exact ⟨_, _, h.append_idle trivial⟩
      | true =>
        cases h with
        | ongoing before p moves =>
          rw [List.append_assoc, List.cons_append]
          exact ⟨_, _, .ended before p moves (List.forall_mem_nil _)⟩

/-- The stroke is what its kind of movements leaves behind. -/
theorem Recorded.run_eq {gs : List (Gesture Float)} {ps : List (Point Float)} {drawing : Bool}
    (h : Recorded gs ps drawing) : empty.run gs = ⟨ps.reverse, drawing⟩ := by
  cases h with
  | blank h => exact run_of_no_start h
  | cleared h =>
    rw [run_append, run_cons]
    exact run_of_no_start h
  | ongoing before p moves =>
    rw [run_append, run_cons, List.reverse_cons]
    exact run_moves p [] moves
  | ended before p moves h =>
    have hmoves : ((empty.run before).step (.start p)).run (moves.map .extend) = _ :=
      run_moves p [] moves
    rw [run_append, run_cons, run_append, hmoves, run_cons, List.reverse_cons]
    exact run_of_idle rfl h

theorem recorded_iff {gs : List (Gesture Float)} {ps : List (Point Float)} {drawing : Bool} :
    Recorded gs ps drawing ↔ (empty.run gs).points = ps ∧ (empty.run gs).drawing = drawing := by
  have hpoints : ∀ {qs b}, Recorded gs qs b →
      (empty.run gs).points = qs ∧ (empty.run gs).drawing = b := by
    intro qs b h
    rw [h.run_eq]
    exact ⟨List.reverse_reverse qs, rfl⟩
  refine ⟨hpoints, ?_⟩
  rintro ⟨rfl, rfl⟩
  obtain ⟨qs, b, h⟩ := exists_recorded gs
  obtain ⟨rfl, rfl⟩ := hpoints h
  exact h

/-! ## What a stroke records -/

/-- Movements after a start that neither end the gesture, clear the drawing nor start another
gesture are moves. -/
theorem exists_moves {gs : List (Gesture Float)} (hstart : ∀ p, .start p ∉ gs)
    (hfinish : .finish ∉ gs) (hclear : .clear ∉ gs) :
    ∃ moves : List (Point Float), gs = moves.map .extend := by
  induction gs with
  | nil => exact ⟨[], rfl⟩
  | cons g gs ih =>
    obtain ⟨moves, rfl⟩ := ih (fun p h => hstart p (.tail g h)) (fun h => hfinish (.tail g h))
      (fun h => hclear (.tail g h))
    cases g with
    | extend p => exact ⟨p :: moves, rfl⟩
    | start p => exact absurd (.head _) (hstart p)
    | finish => exact absurd (.head _) hfinish
    | clear => exact absurd (.head _) hclear

/-- A gesture goes on exactly if nothing but moves came after the last start. -/
theorem drawing_iff {gs : List (Gesture Float)} :
    (empty.run gs).drawing = true ↔ ∃ before p after, gs = before ++ .start p :: after ∧
      (∀ q, .start q ∉ after) ∧ .finish ∉ after ∧ .clear ∉ after := by
  constructor
  · intro h
    obtain ⟨ps, hrecorded⟩ : ∃ ps, Recorded gs ps true := ⟨_, recorded_iff.mpr ⟨rfl, h⟩⟩
    cases hrecorded with
    | ongoing before p moves =>
      refine ⟨before, p, moves.map .extend, rfl, ?_, ?_, ?_⟩ <;> simp
  · rintro ⟨before, p, after, rfl, hstart, hfinish, hclear⟩
    obtain ⟨moves, rfl⟩ := exists_moves hstart hfinish hclear
    exact (recorded_iff.mp (.ongoing before p moves)).2

theorem Recorded.isChain {gs : List (Gesture Float)} {ps : List (Point Float)} {drawing : Bool}
    (h : Recorded gs ps drawing) : ps.IsChain fun p q => ¬ squaredDistance p q < 1 := by
  cases h with
  | blank h => exact .nil
  | cleared h => exact .nil
  | ongoing before p moves => exact isChain_thinned p moves
  | ended before p moves h => exact isChain_thinned p moves

/-- A movement as it is submitted. -/
def Gesture.submitted : Gesture Float → Gesture Json
  | .start p => .start ⟨.float p.x, .float p.y⟩
  | .extend p => .extend ⟨.float p.x, .float p.y⟩
  | .finish => .finish
  | .clear => .clear

/-- A movement that is submitted in doubles is taken as it is. -/
theorem receive_submitted (s : Stroke) (g : Gesture Float) :
    s.receive g.submitted = .ok (s.step g) := by
  cases g with
  | start p => rfl
  | extend p =>
    show s.receive (.extend ⟨.float p.x, .float p.y⟩) = .ok (s.extend p)
    cases hdrawing : s.drawing with
    | true =>
      rw [receive, if_pos hdrawing]
      rfl
    | false =>
      rw [receive, hdrawing, extend_of_not_accepts (accepts_ended hdrawing)]
      rfl
  | finish => rfl
  | clear => rfl

/-- The answer to a further point tells whether the point was kept. -/
theorem step_extend_answer (s : Session) (p : Point Float) :
    ∃ kept, s.step (.extendStroke ⟨.float p.x, .float p.y⟩) =
        .ok ⟨s.withStroke (s.stroke.extend p), .extended kept, []⟩ ∧
      (kept = true ↔ (s.stroke.extend p).points = s.stroke.points ++ [p]) ∧
      (kept = false ↔ s.stroke.extend p = s.stroke) := by
  have hstep : s.step (.extendStroke ⟨.float p.x, .float p.y⟩) =
      .ok ⟨s.withStroke (s.stroke.extend p),
        .extended (s.stroke.length < (s.stroke.extend p).length), []⟩ := by
    have hreceive : s.stroke.receive (.extend ⟨.float p.x, .float p.y⟩) =
        .ok (s.stroke.extend p) := receive_submitted s.stroke (.extend p)
    rw [Session.step, hreceive]
    rfl
  refine ⟨_, hstep, ?_⟩
  cases haccepts : s.stroke.accepts p with
  | true =>
    have hpoints := accepts_iff.mp haccepts
    have hextend := extend_of_accepts haccepts
    have hlonger : s.stroke.length < (s.stroke.extend p).length := by
      rw [hextend]
      exact Nat.lt_succ_self _
    have hne : s.stroke.extend p ≠ s.stroke := fun heq => by
      rw [heq] at hlonger
      exact Nat.lt_irrefl _ hlonger
    rw [decide_eq_true hlonger]
    exact ⟨⟨fun _ => hpoints, fun _ => rfl⟩, ⟨nofun, fun h => absurd h hne⟩⟩
  | false =>
    have hextend := extend_of_not_accepts haccepts
    have hnot : ¬ (s.stroke.extend p).points = s.stroke.points ++ [p] := by
      rw [← accepts_iff, haccepts]
      exact Bool.false_ne_true
    have hsame : ¬ s.stroke.length < (s.stroke.extend p).length := by
      rw [hextend]
      exact Nat.lt_irrefl _
    rw [decide_eq_false hsame]
    exact ⟨⟨nofun, fun h => absurd h hnot⟩, ⟨fun _ => hextend, fun _ => rfl⟩⟩

/-- A stroke that was blank at first holds the greedy thinning of the last gesture, whatever the
movements were: what it holds is what `Recorded` says, the gesture goes on exactly if nothing but
moves came after the last start, and movements in doubles are never refused. A further point is
answered by whether it was kept. A gesture that goes on has a point, neighbouring points are not too
near to each other, and moving on or ending again after a gesture has no effect. -/
theorem run_holds_thinning (gs : List (Gesture Float)) :
    (∀ ps drawing, Recorded gs ps drawing ↔
      (empty.run gs).points = ps ∧ (empty.run gs).drawing = drawing) ∧
    ((empty.run gs).drawing = true ↔ ∃ before p after, gs = before ++ .start p :: after ∧
      (∀ q, .start q ∉ after) ∧ .finish ∉ after ∧ .clear ∉ after) ∧
    (∀ g, (empty.run gs).receive g.submitted = .ok (empty.run (gs ++ [g]))) ∧
    (∀ (s : Session) p, s.stroke = empty.run gs →
      ∃ kept, s.step (.extendStroke ⟨.float p.x, .float p.y⟩) =
          .ok ⟨s.withStroke (empty.run (gs ++ [.extend p])), .extended kept, []⟩ ∧
        (kept = true ↔
          (empty.run (gs ++ [.extend p])).points = (empty.run gs).points ++ [p]) ∧
        (kept = false ↔ empty.run (gs ++ [.extend p]) = empty.run gs)) ∧
    ((empty.run gs).drawing = true → (empty.run gs).points ≠ []) ∧
    (empty.run gs).points.IsChain (fun p q => ¬ squaredDistance p q < 1) ∧
    ((empty.run gs).drawing = false → ∀ later, (∀ g ∈ later, g.IsIdle) →
      empty.run (gs ++ later) = empty.run gs) := by
  have hrecorded : Recorded gs (empty.run gs).points (empty.run gs).drawing :=
    recorded_iff.mpr ⟨rfl, rfl⟩
  have hnext : ∀ g, empty.run (gs ++ [g]) = (empty.run gs).step g :=
    fun g => run_append empty gs [g]
  refine ⟨fun ps drawing => recorded_iff, drawing_iff, ?_, ?_, ?_, hrecorded.isChain, ?_⟩
  · intro g
    rw [hnext]
    exact receive_submitted _ g
  · intro s p hs
    rw [hnext, ← hs]
    exact step_extend_answer s p
  · intro hdrawing
    rw [hdrawing] at hrecorded
    generalize (empty.run gs).points = ps at hrecorded ⊢
    cases hrecorded
    exact List.cons_ne_nil _ _
  · intro hdrawing later hidle
    rw [run_append]
    exact run_of_idle hdrawing hidle

end SurfaceStudio.Stroke
