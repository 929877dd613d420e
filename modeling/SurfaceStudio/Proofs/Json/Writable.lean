import Mathlib.Algebra.Ring.Nat
import SurfaceStudio.Json.Display
import SurfaceStudio.Json.Writer
/-!
# Values that have a text

A value can be written, or shown in a message, unless an integer with too many digits stands anywhere
in it. `HasText` says so of the integers themselves, whatever lists and objects they stand in.
-/

namespace SurfaceStudio.Json

/-- An integer stands in a value: it is the value, or it stands in an item or a member of it. -/
inductive Holds (n : Int) : Json → Prop
  | itself : Holds n (.int n)
  | item {v items} : v ∈ items → Holds n v → Holds n (.list items)
  | member {k v members} : (k, v) ∈ members → Holds n v → Holds n (.object members)

/-- All integers in a value have few enough digits. -/
def HasText (v : Json) : Prop := ∀ n, Holds n v → n.natAbs < 10 ^ Settings.maxIntegerDigits

theorem isWritableInteger_iff {n : Int} :
    isWritableInteger n = true ↔ n.natAbs < 10 ^ Settings.maxIntegerDigits :=
  decide_eq_true_iff.trans (Nat.length_toDigits_le_iff (by decide) (by decide))

mutual

theorem isWritable_iff : ∀ v : Json, v.isWritable = true ↔ v.HasText
  | .null | .bool _ | .float _ | .str _ => iff_of_true rfl nofun
  | .int n => by
    rw [isWritable, isWritableInteger_iff]
    refine ⟨?_, fun h => h n .itself⟩
    rintro h _ ⟨⟩
    exact h
  | .list items => by
    rw [isWritable, areWritableItems_iff items]
    refine ⟨?_, fun h v hv n hn => h n (.item hv hn)⟩
    rintro h n (_ | ⟨hv, hn⟩)
    exact h _ hv n hn
  | .object members => by
    rw [isWritable, areWritableMembers_iff members]
    refine ⟨?_, fun h k v hv n hn => h n (.member hv hn)⟩
    rintro h n (_ | _ | ⟨hv, hn⟩)
    exact h _ _ hv n hn

theorem areWritableItems_iff : ∀ vs : List Json,
    areWritableItems vs = true ↔ ∀ v ∈ vs, v.HasText
  | [] => iff_of_true rfl nofun
  | v :: vs => by
    rw [areWritableItems, Bool.and_eq_true, isWritable_iff v, areWritableItems_iff vs,
      List.forall_mem_cons]

theorem areWritableMembers_iff : ∀ ms : List (String × Json),
    areWritableMembers ms = true ↔ ∀ k v, (k, v) ∈ ms → v.HasText
  | [] => iff_of_true rfl nofun
  | (k, v) :: ms => by
    rw [areWritableMembers, Bool.and_eq_true, isWritable_iff v, areWritableMembers_iff ms]
    constructor
    · rintro ⟨hv, hms⟩ k' v' (_ | ⟨_, hmem⟩)
      · exact hv
      · exact hms k' v' hmem
    · intro h
      exact ⟨h k v List.mem_cons_self, fun k' v' hmem => h k' v' (List.mem_cons_of_mem _ hmem)⟩

end

theorem display_of_hasText {v : Json} (h : v.HasText) : ∃ s, v.display = .ok s := by
  cases v with
  | str s => exact ⟨s, rfl⟩
  | null | bool | int | float | list | object =>
    rw [display, if_pos ((isWritable_iff _).mpr h)]
    · exact ⟨_, rfl⟩
    · nofun

theorem display_of_not_hasText {v : Json} (h : ¬ v.HasText) :
    v.display = .error .integerTooLong := by
  cases v with
  | str s => exact absurd nofun h
  | null | bool | int | float | list | object =>
    rw [display, if_neg (mt (isWritable_iff _).mp h)]
    nofun

theorem exists_display_iff {v : Json} : (∃ s, v.display = .ok s) ↔ v.HasText := by
  refine ⟨fun ⟨s, hs⟩ => ?_, display_of_hasText⟩
  by_contra hnone
  cases hs.symm.trans (display_of_not_hasText hnone)

end SurfaceStudio.Json
