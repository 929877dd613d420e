import Mathlib.Data.List.Infix
import SurfaceStudio.Journal.Outlets
/-!
# Writers below the root writer

Whoever is below the root writer has its name, or continues it after a dot. The other way round this
holds whatever writers are in use, unless there are two dots in a row: the writers above a name are
found at its dots, but never at the dot in front of one where a writer was looked for already.
-/

namespace SurfaceStudio.Journal

/-- A name is that of the root writer or continues it after a dot. -/
def IsDotted (root name : String) : Prop := name = root ∨ ∃ rest, name = root ++ "." ++ rest

/-- Two dots of a name are in a row. -/
def HasDoubleDot (name : String) : Prop := ∃ before after, name = before ++ ".." ++ after

/-! ## Cuts -/

section Cuts

variable {cs ds : List Char}

/-- A cut leaves out at least a dot and what is behind it. -/
theorem exists_of_mem_cuts (h : ds ∈ cuts cs) : ds ≠ [] ∧ ∃ behind, cs = behind ++ '.' :: ds := by
  fun_induction cuts cs with
  | case1 => cases h
  | case2 c rest ih =>
    rcases List.mem_cons.mp h with rfl | h
    · exact ⟨List.cons_ne_nil _ _, [], rfl⟩
    · obtain ⟨hne, behind, rfl⟩ := ih h
      exact ⟨hne, '.' :: c :: behind, rfl⟩
  | case3 c rest _ ih =>
    obtain ⟨hne, behind, rfl⟩ := ih h
    exact ⟨hne, c :: behind, rfl⟩

theorem length_lt_of_mem_cuts (h : ds ∈ cuts cs) : ds.length < cs.length := by
  obtain ⟨-, behind, rfl⟩ := exists_of_mem_cuts h
  rw [List.length_append, List.length_cons]
  omega

theorem pairwise_cuts (cs : List Char) : (cuts cs).Pairwise fun d e => e.length < d.length := by
  fun_induction cuts cs with
  | case1 => exact .nil
  | case2 c rest ih =>
    refine List.pairwise_cons.mpr ⟨?_, ih⟩
    intro ds hds
    have hlength := length_lt_of_mem_cuts hds
    rw [List.length_cons]
    omega
  | case3 c rest _ ih => exact ih

/-- The shorter one of two cuts is cut off the longer one at a dot. -/
theorem suffix_of_mem_cuts {es : List Char} (hds : ds ∈ cuts cs) (hes : es ∈ cuts cs)
    (hlength : es.length < ds.length) : '.' :: es <:+ ds := by
  obtain ⟨-, behind, hcs⟩ := exists_of_mem_cuts hds
  obtain ⟨-, behind', hcs'⟩ := exists_of_mem_cuts hes
  refine List.suffix_of_suffix_length_le ⟨behind', hcs'.symm⟩
    ⟨behind ++ ['.'], by rw [hcs]; simp⟩ ?_
  rw [List.length_cons]
  omega

/-- A search finds the longest cut of those that it looks for. -/
theorem eq_or_length_lt_of_find? {p : List Char → Bool} {es : List Char}
    (h : (cuts cs).find? p = some ds) (hes : es ∈ cuts cs) (hp : p es = true) :
    es = ds ∨ es.length < ds.length := by
  obtain ⟨-, before, behind, hcuts, hbefore⟩ := List.find?_eq_some_iff_append.mp h
  have hpairwise := pairwise_cuts cs
  rw [hcuts, List.pairwise_append, List.pairwise_cons] at hpairwise
  rw [hcuts, List.mem_append, List.mem_cons] at hes
  rcases hes with hmem | rfl | hmem
  · have hnot := hbefore es hmem
    rw [hp] at hnot
    exact absurd hnot (by decide)
  · exact .inl rfl
  · exact .inr (hpairwise.2.1.1 es hmem)

/-- Without two dots in a row there is a cut at every dot that letters are in front of. -/
theorem mem_cuts (hdots : ¬ ['.', '.'] <:+: cs) (hne : ds ≠ []) {behind : List Char}
    (h : cs = behind ++ '.' :: ds) : ds ∈ cuts cs := by
  fun_induction cuts cs generalizing behind with
  | case1 => cases behind <;> cases h
  | case2 c rest ih =>
    have hrest : ¬ ['.', '.'] <:+: rest := fun hpair =>
      hdots (hpair.trans (List.suffix_append ['.', c] rest).isInfix)
    rcases behind with _ | ⟨a, _ | ⟨b, behind⟩⟩
    · cases h
      exact List.mem_cons_self
    · -- the dot in question would be the second one of two in a row
      cases h
      exact absurd ⟨[], ds, rfl⟩ hdots
    · cases h
      exact List.mem_cons_of_mem _ (ih hrest rfl)
  | case3 c rest hcut ih =>
    have hrest : ¬ ['.', '.'] <:+: rest := fun hpair =>
      hdots (hpair.trans (List.suffix_cons c rest).isInfix)
    rcases behind with _ | ⟨a, behind⟩
    · cases h
      cases ds with
      | nil => exact absurd rfl hne
      | cons d ds => exact absurd rfl (hcut d ds rfl)
    · cases h
      exact ih hrest rfl

end Cuts

/-! ## Names -/

section Names

variable {root name : String} {inUse : List String}

theorem hasDoubleDot_iff : HasDoubleDot name ↔ ['.', '.'] <:+: name.toList.reverse := by
  have hreverse : ['.', '.'].reverse <:+: name.toList.reverse ↔ ['.', '.'] <:+: name.toList :=
    List.reverse_infix
  rw [show ['.', '.'].reverse = ['.', '.'] from rfl] at hreverse
  rw [hreverse]
  constructor
  · rintro ⟨before, behind, rfl⟩
    exact ⟨before.toList, behind.toList, by simp⟩
  · rintro ⟨before, behind, h⟩
    refine ⟨String.ofList before, String.ofList behind, ?_⟩
    rw [← String.toList_inj, ← h]
    simp

/-- What a name is cut to is continued by it after a dot. -/
theorem exists_of_cut {ds : List Char} (h : ds ∈ cuts name.toList.reverse) :
    ∃ rest, name = String.ofList ds.reverse ++ "." ++ rest := by
  obtain ⟨-, behind, hname⟩ := exists_of_mem_cuts h
  refine ⟨String.ofList behind.reverse, ?_⟩
  have hlist : name.toList = ds.reverse ++ '.' :: behind.reverse := by
    rw [← List.reverse_reverse name.toList, hname]
    simp
  rw [← String.toList_inj, hlist]
  simp

theorem IsDotted.continued {rest : String} (h : IsDotted root name) :
    IsDotted root (name ++ "." ++ rest) := by
  rcases h with rfl | ⟨middle, rfl⟩
  · exact .inr ⟨rest, rfl⟩
  · exact .inr ⟨middle ++ "." ++ rest, by simp only [String.append_assoc]⟩

/-- Nobody else is reached from the root writer. -/
theorem isDotted_of_reaches {steps : ℕ} (h : reaches root inUse steps name = true) :
    IsDotted root name := by
  induction steps generalizing name with
  | zero => exact .inl (beq_iff_eq.mp h)
  | succ steps ih =>
    rw [reaches, Bool.or_eq_true, Option.any_eq_true] at h
    rcases h with h | ⟨above, habove, hreaches⟩
    · exact .inl (beq_iff_eq.mp h)
    · rw [above?, List.find?_map, Option.map_eq_some_iff] at habove
      obtain ⟨ds, hds, rfl⟩ := habove
      obtain ⟨rest, hname⟩ := exists_of_cut (List.mem_of_find?_eq_some hds)
      rw [hname]
      exact (ih hreaches).continued

theorem isDotted_of_cut {ds : List Char} (hds : ds ∈ cuts name.toList.reverse)
    (hroot : root.toList.reverse ∈ cuts name.toList.reverse)
    (h : root.toList.reverse = ds ∨ root.toList.reverse.length < ds.length) :
    IsDotted root (String.ofList ds.reverse) := by
  rcases h with h | h
  · refine .inl ?_
    rw [← h, List.reverse_reverse, String.ofList_toList]
  · obtain ⟨middle, rfl⟩ := suffix_of_mem_cuts hds hroot h
    refine .inr ⟨String.ofList middle.reverse, ?_⟩
    rw [← String.toList_inj]
    simp

/-- The next writer above a name that continues the root's is the root or continues it as well: the
root is at one of the cuts, so the search does not go beyond it. -/
theorem exists_above (hroot : root ≠ "") (hinUse : root ∈ inUse) (hdots : ¬ HasDoubleDot name)
    {rest : String} (hname : name = root ++ "." ++ rest) :
    ∃ n, above? inUse name = some n ∧ IsDotted root n ∧ ¬ HasDoubleDot n ∧
      n.length < name.length := by
  have hcut : root.toList.reverse ∈ cuts name.toList.reverse := by
    have hlist : name.toList.reverse = rest.toList.reverse ++ '.' :: root.toList.reverse := by
      rw [hname]
      simp
    exact mem_cuts (mt hasDoubleDot_iff.mpr hdots) (by simpa using hroot) hlist
  have hsought : (inUse.contains ∘ fun cs => String.ofList cs.reverse) root.toList.reverse =
      true := by simpa using hinUse
  have hfound : ∃ ds, (cuts name.toList.reverse).find?
      (inUse.contains ∘ fun cs => String.ofList cs.reverse) = some ds := by
    rw [← Option.isSome_iff_exists, List.find?_isSome]
    exact ⟨_, hcut, hsought⟩
  obtain ⟨ds, hds⟩ := hfound
  have hmem := List.mem_of_find?_eq_some hds
  obtain ⟨later, hlater⟩ := exists_of_cut hmem
  refine ⟨String.ofList ds.reverse, ?_, ?_, ?_, ?_⟩
  · rw [above?, List.find?_map, hds]
    rfl
  · exact isDotted_of_cut hmem hcut (eq_or_length_lt_of_find? hds hcut hsought)
  · rintro ⟨before, behind, h⟩
    refine hdots ⟨before, behind ++ "." ++ later, ?_⟩
    rw [hlater, h]
    simp only [String.append_assoc]
  · have hlength := length_lt_of_mem_cuts hmem
    rw [List.length_reverse, String.length_toList] at hlength
    rw [String.length_ofList, List.length_reverse]
    exact hlength

theorem reaches_of_isDotted (hroot : root ≠ "") (hinUse : root ∈ inUse) {steps : ℕ}
    (hsteps : name.length ≤ steps) (hdots : ¬ HasDoubleDot name) (h : IsDotted root name) :
    reaches root inUse steps name = true := by
  induction steps generalizing name with
  | zero =>
    rcases h with rfl | ⟨rest, hname⟩
    · exact beq_self_eq_true _
    · obtain ⟨n, -, -, -, hlength⟩ := exists_above hroot hinUse hdots hname
      omega
  | succ steps ih =>
    rw [reaches, Bool.or_eq_true]
    rcases h with rfl | ⟨rest, hname⟩
    · exact .inl (beq_self_eq_true _)
    · obtain ⟨n, habove, hn, hdots', hlength⟩ := exists_above hroot hinUse hdots hname
      rw [habove]
      exact .inr (ih (by omega) hdots' hn)

theorem isDotted_of_isBelow (h : isBelow root inUse name = true) : IsDotted root name :=
  isDotted_of_reaches h

theorem isBelow_iff (hroot : root ≠ "") (hinUse : root ∈ inUse) (hdots : ¬ HasDoubleDot name) :
    isBelow root inUse name = true ↔ IsDotted root name :=
  ⟨isDotted_of_isBelow, reaches_of_isDotted hroot hinUse le_rfl hdots⟩

end Names

end SurfaceStudio.Journal
