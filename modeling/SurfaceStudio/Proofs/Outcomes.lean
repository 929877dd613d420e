import SurfaceStudio.Failure
/-!
# Outcomes that succeed

What is known of the parts when a computation that may fail has succeeded as a whole.
-/

namespace SurfaceStudio

theorem bind_eq_ok {ε α β : Type} {x : Except ε α} {f : α → Except ε β} {b : β} :
    (x >>= f) = .ok b ↔ ∃ a, x = .ok a ∧ f a = .ok b := by
  rcases x with e | a
  · simp [bind, Except.bind]
  · simp [bind, Except.bind]

theorem map_eq_ok {ε α β : Type} {x : Except ε α} {f : α → β} {b : β} :
    x.map f = .ok b ↔ ∃ a, x = .ok a ∧ f a = b := by
  rcases x with e | a
  · simp [Except.map]
  · simp [Except.map]

theorem refusing_eq_ok {α : Type} {x : Except Failure α} {a : α} :
    refusing x = .ok a ↔ x = .ok a := by
  rcases x with e | a' <;> simp [refusing]

theorem faulting_eq_ok {α : Type} {x : Except Fault α} {a : α} :
    faulting x = .ok a ↔ x = .ok a := by
  rcases x with e | a' <;> simp [faulting]

end SurfaceStudio
