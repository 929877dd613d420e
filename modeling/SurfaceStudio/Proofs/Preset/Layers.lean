import SurfaceStudio.Proofs.Preset.Applying
/-!
# Presets over presets

Two presets that are laid over a definition one after the other are one preset: the later one decides
all texts, the steps are those of the last preset that has any, and so is the name. The three rules
differ in what they take for missing. A text that is missing or null is empty, steps that are missing
or null are left to the preset below, and so is a name that counts as nothing.
-/

namespace SurfaceStudio

namespace Preset

/-- The keys of the steps. -/
def stepKeys : List String := ["uSteps", "vSteps"]

/-- A preset says what `q` says that is laid over `p`. -/
structure Combines (p q r : Preset) : Prop where
  text : ∀ key ∈ textKeys, Json.present? key r = Json.present? key q
  steps : ∀ key ∈ stepKeys,
    Json.present? key r = (Json.present? key q).or (Json.present? key p)
  name : r.name? = q.name?.or p.name?

/-- The members that `q` says when it is laid over `p`, with null for what neither of them says. -/
def combined (p q : Preset) : Preset :=
  (textKeys.map fun key => (key, (Json.present? key q).getD .null)) ++
    ((stepKeys.map fun key =>
        (key, ((Json.present? key q).or (Json.present? key p)).getD .null)) ++
      [("name", (q.name?.or p.name?).getD .null)])

/-- All steps that a preset has stand for integers. -/
def HasReadableSteps (p : Preset) : Prop :=
  ∀ key ∈ stepKeys, ∀ v, Json.present? key p = some v → ∃ n, StandsFor v n

/-- A preset of which all members that are taken can be taken. -/
structure IsReadable (p : Preset) : Prop where
  texts : p.HasTexts
  steps : p.HasReadableSteps
  name : p.HasName

/-! ## Members -/

theorem present?_of_lookup {key : String} {p : Preset} {o : Option Json}
    (h : Json.lookup key p = some (o.getD .null)) (hnull : o ≠ some .null) :
    Json.present? key p = o := by
  rw [Json.present?, h]
  cases o with
  | none => rfl
  | some v =>
    cases v with
    | null => exact absurd rfl hnull
    | bool | int | float | str | list | object => rfl

theorem present?_ne_null (key : String) (p : Preset) : Json.present? key p ≠ some .null := by
  intro h
  rw [Json.present?] at h
  split at h
  · cases h
  · next hnull => exact hnull h

/-- Members that are listed by their keys are found by them. -/
theorem lookup_map_append (keys : List String) (f : String → Json) (rest : Preset)
    (key : String) : Json.lookup key ((keys.map fun k => (k, f k)) ++ rest) =
      if key ∈ keys then some (f key) else Json.lookup key rest := by
  induction keys with
  | nil => rfl
  | cons k keys ih =>
    rw [List.map_cons, List.cons_append, Json.lookup, ih]
    by_cases hk : k = key
    · subst hk
      simp
    · have hkey : key ≠ k := fun h => hk h.symm
      simp [hk, hkey]

theorem combines_combined (p q : Preset) : Combines p q (combined p q) where
  text := by
    intro key hkey
    apply present?_of_lookup
    · rw [combined, lookup_map_append, if_pos hkey]
    · exact present?_ne_null key q
  steps := by
    intro key hkey
    have htext : key ∉ textKeys := by
      intro h
      revert key
      decide
    apply present?_of_lookup
    · rw [combined, lookup_map_append, if_neg htext, lookup_map_append, if_pos hkey]
    · cases h : Json.present? key q with
      | none => exact present?_ne_null key p
      | some v => exact fun hv => present?_ne_null key q (h.trans hv)
  name := by
    have hlookup : Json.lookup "name" (combined p q) =
        some ((q.name?.or p.name?).getD .null) := by
      rw [combined, lookup_map_append, if_neg (by decide), lookup_map_append, if_neg (by decide)]
      rfl
    have hname : ∀ v, q.name?.or p.name? = some v → v.isFalsy = false := by
      intro v hv
      rcases Option.or_eq_some_iff.mp hv with h | ⟨-, h⟩
      · simpa using (Option.filter_eq_some_iff.mp h).2
      · simpa using (Option.filter_eq_some_iff.mp h).2
    rw [name?, hlookup]
    cases h : q.name?.or p.name? with
    | none => rfl
    | some v => exact Option.filter_eq_some_iff.mpr ⟨rfl, by rw [hname v h]; rfl⟩

/-! ## One rule for each kind of field -/

theorem stepsAt_eq (key : String) (p : Preset) (old : Json) : p.stepsAt key old =
    (Json.present? key p).elim (.ok old) fun v => (steps key v).map .int := by
  rw [stepsAt]
  cases Json.present? key p <;> rfl

section

variable {p q r : Preset} (h : Combines p q r)

include h

theorem Combines.textAt {key : String} (hkey : key ∈ textKeys) : r.textAt key = q.textAt key := by
  rw [textAt_eq, textAt_eq, h.text key hkey]

/-- The steps of the lower preset are taken where they were taken before. -/
theorem Combines.stepsAt {key : String} (hkey : key ∈ stepKeys) {old below : Json}
    (hbelow : p.stepsAt key old = .ok below) : r.stepsAt key old = q.stepsAt key below := by
  rw [stepsAt_eq, stepsAt_eq, h.steps key hkey]
  cases Json.present? key q with
  | some v => rfl
  | none => exact (stepsAt_eq key p old).symm.trans hbelow

/-- So is the name. -/
theorem Combines.nameAt {old below : Json} (hbelow : p.nameAt old = .ok below) :
    r.nameAt old = q.nameAt below := by
  rw [nameAt_eq, nameAt_eq, h.name]
  cases q.name? with
  | some v => rfl
  | none => exact (nameAt_eq p old).symm.trans hbelow

end

/-- A preset that is laid over itself says nothing new. -/
theorem combines_self (p : Preset) : Combines p p p where
  text _ _ := rfl
  steps _ _ := Option.or_self.symm
  name := Option.or_self.symm

end Preset

/-! ## Definitions -/

namespace Definition

open Preset

/-- A definition that a preset was laid over: its texts are those of the preset, its steps and its
name are those of the preset or its own, and its wire frame is its own. -/
structure IsOverlay (d : Definition) (p : Preset) (e : Definition) : Prop where
  texts : (textKeys.map fun key => (p.textAt key).map Json.str) = e.texts.map .ok
  uSteps : p.stepsAt "uSteps" d.uSteps = .ok e.uSteps
  vSteps : p.stepsAt "vSteps" d.vSteps = .ok e.vSteps
  name : p.nameAt d.name = .ok e.name
  wireframe : e.wireframe = d.wireframe

theorem isOverlay_of_overlay {d d' : Definition} {p : Preset} (h : d.overlay p = .ok d') :
    IsOverlay d p d' := by
  obtain ⟨e, us, vs, name, he, hus, hvs, hname, rfl⟩ := overlay_eq_ok.mp h
  have htexts := texts_of_withTexts he
  have hframe := wireframe_of_withTexts he
  exact ⟨htexts, hus, hvs, hname, hframe⟩

/-- Whether a preset can be laid over a definition does not depend on the definition. -/
theorem exists_overlay_iff_isReadable (d : Definition) (p : Preset) :
    (∃ e, d.overlay p = .ok e) ↔ p.IsReadable := by
  have hsteps (key : String) (old : Json) : (∃ s, p.stepsAt key old = .ok s) ↔
      ∀ v, Json.present? key p = some v → ∃ n, StandsFor v n := by
    simp only [stepsAt_eq_iff]
    constructor
    · rintro ⟨s, hs⟩ v hv
      cases hs with
      | kept hnone => cases hnone.symm.trans hv
      | taken hv' hn =>
        cases hv'.symm.trans hv
        exact ⟨_, hn⟩
    · intro h
      cases hv : Json.present? key p with
      | none => exact ⟨old, .kept hv⟩
      | some v =>
        obtain ⟨n, hn⟩ := h v hv
        exact ⟨.int n, .taken hv hn⟩
  have hreadable : p.HasReadableSteps ↔ (∃ us, p.stepsAt "uSteps" d.uSteps = .ok us) ∧
      ∃ vs, p.stepsAt "vSteps" d.vSteps = .ok vs := by
    rw [hsteps, hsteps, HasReadableSteps, stepKeys, List.forall_mem_cons,
      List.forall_mem_singleton]
  constructor
  · rintro ⟨e, he⟩
    obtain ⟨htexts, hus, hvs, hname⟩ := exists_overlay_iff.mp ⟨e, he, rfl, rfl⟩
    exact ⟨htexts, hreadable.mpr ⟨⟨_, hus⟩, _, hvs⟩, hname⟩
  · rintro ⟨htexts, hread, hname⟩
    obtain ⟨⟨us, hus⟩, vs, hvs⟩ := hreadable.mp hread
    obtain ⟨e, he, -⟩ := exists_overlay_iff.mpr ⟨htexts, hus, hvs, hname⟩
    exact ⟨e, he⟩

/-- What comes out of a preset over a definition that another one was laid over before, be it a
definition or trouble, comes out of both presets in one. -/
theorem overlay_of_combines {d d₁ : Definition} {p q r : Preset} (hp : d.overlay p = .ok d₁)
    (hr : Combines p q r) : d₁.overlay q = d.overlay r := by
  obtain ⟨-, hus, hvs, hname, hwireframe⟩ := isOverlay_of_overlay hp
  have htexts : d.withTexts r = d.withTexts q := by
    simp only [withTexts, hr.textAt (show "x" ∈ textKeys by decide),
      hr.textAt (show "y" ∈ textKeys by decide), hr.textAt (show "z" ∈ textKeys by decide),
      hr.textAt (show "uMin" ∈ textKeys by decide), hr.textAt (show "uMax" ∈ textKeys by decide),
      hr.textAt (show "vMin" ∈ textKeys by decide), hr.textAt (show "vMax" ∈ textKeys by decide)]
  rw [overlay, overlay, htexts, withTexts_eq_map d d₁, hr.stepsAt (by decide) hus,
    hr.stepsAt (by decide) hvs, hr.nameAt hname]
  cases he : d.withTexts q with
  | error f => rfl
  | ok e =>
    -- all that is left of the definition is its wire frame
    have hframe : e.wireframe = d₁.wireframe := (wireframe_of_withTexts he).trans hwireframe.symm
    rw [← hframe]
    rfl

/-- Presets are laid over each other. Which presets can be laid over a definition is up to the preset
alone. Two of them, one after the other, are one preset with the texts of the second one, with its
steps and its name where it has any, and with those of the first one elsewhere; every preset that says
so is laid over a definition in the same way, and there is one. So a preset that is laid over a
definition once more changes nothing; its texts are all that is left of texts, and the wire frame is
that of the definition. -/
theorem overlays_combine (p q : Preset) :
    Combines p q (combined p q) ∧
    (∀ d : Definition, (∃ e, d.overlay p = .ok e) ↔ p.IsReadable) ∧
    ∀ d d₁ : Definition, d.overlay p = .ok d₁ →
      (∀ r, Combines p q r → d₁.overlay q = d.overlay r) ∧
      d₁.overlay p = .ok d₁ ∧
      (textKeys.map fun key => (p.textAt key).map Json.str) = d₁.texts.map .ok ∧
      d₁.wireframe = d.wireframe := by
  refine ⟨combines_combined p q, fun d => exists_overlay_iff_isReadable d p, ?_⟩
  intro d d₁ h
  have hoverlay := isOverlay_of_overlay h
  have hagain : d₁.overlay p = d.overlay p := overlay_of_combines h (combines_self p)
  exact ⟨fun r hr => overlay_of_combines h hr, hagain.trans h, hoverlay.texts,
    hoverlay.wireframe⟩

/-- A preset with one text, with steps of two kinds and with a name. -/
def sketch : Preset :=
  [("x", .str "u"), ("uSteps", .float 12), ("vSteps", .str " 7 "), ("name", .str "Mine")]

/-- A preset with another text, with steps on one side, and with an empty name. -/
def revision : Preset :=
  [("y", .int 3), ("uSteps", .null), ("vSteps", .int 8), ("name", .str "")]

/-- The text of the sketch is lost under the revision; its steps on one side and its name are not. -/
theorem overlays_combine_revision : ∃ d₁ d₂ : Definition,
    overlay { wireframe := .bool true } sketch = .ok d₁ ∧ d₁.overlay revision = .ok d₂ ∧
    overlay { wireframe := .bool true } (combined sketch revision) = .ok d₂ ∧
    d₂ = { x := .str "", y := .str "3", z := .str "", uMin := .str "", uMax := .str "",
           vMin := .str "", vMax := .str "", uSteps := .int 12, vSteps := .int 8,
           name := .str "Mine", wireframe := .bool true } := by
  obtain ⟨hcombined, -, hover⟩ := overlays_combine sketch revision
  have hsketch : overlay { wireframe := .bool true } sketch = .ok
      { x := .str "u", y := .str "", z := .str "", uMin := .str "", uMax := .str "",
        vMin := .str "", vMax := .str "", uSteps := .int 12, vSteps := .int 7,
        name := .str "Mine", wireframe := .bool true } := rfl
  refine ⟨_, _, hsketch, rfl, ?_, rfl⟩
  rw [← (hover _ _ hsketch).1 _ hcombined]
  rfl

end Definition

end SurfaceStudio
