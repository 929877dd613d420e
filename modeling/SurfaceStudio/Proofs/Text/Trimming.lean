import Mathlib.Data.List.DropRight
import SurfaceStudio.Text.Blank
/-!
# Trimming

A text is its trimmed form with characters of the trimmed class around it, and the trimmed form is
the part between them if it neither starts nor ends with one.
-/

namespace SurfaceStudio.Text

variable {p : Char → Bool} {cs : List Char}

/-- A text is its trimmed form with blanks around it. -/
theorem exists_trimWhile (p : Char → Bool) (cs : List Char) :
    ∃ lead trail, cs = lead ++ (trimWhile p cs ++ trail) ∧
      (∀ c ∈ lead, p c = true) ∧ ∀ c ∈ trail, p c = true := by
  have hback := List.takeWhile_append_dropWhile (p := p) (l := (cs.dropWhile p).reverse)
  refine ⟨cs.takeWhile p, ((cs.dropWhile p).reverse.takeWhile p).reverse, ?_,
    List.all_eq_true.mp List.all_takeWhile, ?_⟩
  · rw [trimWhile, ← List.reverse_append, hback, List.reverse_reverse,
      List.takeWhile_append_dropWhile]
  · intro c hc
    exact List.all_eq_true.mp List.all_takeWhile c (List.mem_reverse.mp hc)

/-- What surrounds a text is trimmed if the text neither starts nor ends with a blank. -/
theorem trimWhile_between {lead trail : List Char} (hlead : ∀ c ∈ lead, p c = true)
    (htrail : ∀ c ∈ trail, p c = true) (hfirst : ∃ c tail, cs = c :: tail ∧ p c = false)
    (hlast : ∃ init c, cs = init ++ [c] ∧ p c = false) :
    trimWhile p (lead ++ (cs ++ trail)) = cs := by
  obtain ⟨c, tail, hcs, hc⟩ := hfirst
  obtain ⟨init, d, hcs', hd⟩ := hlast
  have hfront : (lead ++ (cs ++ trail)).dropWhile p = cs ++ trail := by
    rw [List.dropWhile_append_of_pos hlead, hcs, List.cons_append]
    exact List.dropWhile_cons_of_neg (by rw [hc]; decide)
  have hback : (trail.reverse ++ cs.reverse).dropWhile p = cs.reverse := by
    rw [List.dropWhile_append_of_pos fun c hc => htrail c (List.mem_reverse.mp hc), hcs',
      List.reverse_append]
    exact List.dropWhile_cons_of_neg (by rw [hd]; decide)
  rw [trimWhile, hfront, List.reverse_append, hback, List.reverse_reverse]

/-- Nothing is trimmed from a text without blanks at its ends. -/
theorem trimWhile_of_ends (hfirst : ∃ c tail, cs = c :: tail ∧ p c = false)
    (hlast : ∃ init c, cs = init ++ [c] ∧ p c = false) : trimWhile p cs = cs := by
  have hbetween : trimWhile p ([] ++ (cs ++ [])) = cs :=
    trimWhile_between nofun nofun hfirst hlast
  rwa [List.nil_append, List.append_nil] at hbetween

/-- Only characters of the trimmed class are lost. -/
theorem mem_trimWhile {c : Char} (h : c ∈ cs) (hc : p c = false) : c ∈ trimWhile p cs := by
  obtain ⟨lead, trail, hcs, hlead, htrail⟩ := exists_trimWhile p cs
  rw [hcs] at h
  rcases List.mem_append.mp h with h | h
  · rw [hlead c h] at hc
    cases hc
  · rcases List.mem_append.mp h with h | h
    · exact h
    · rw [htrail c h] at hc
      cases hc

end SurfaceStudio.Text
