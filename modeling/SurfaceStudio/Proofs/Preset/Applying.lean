import SurfaceStudio.Proofs.Json.Writable
import SurfaceStudio.Proofs.Outcomes
import SurfaceStudio.Proofs.Preset.Loading
import SurfaceStudio.Proofs.Preset.Steps
/-!
# How laying a preset over a definition ends

It ends in a definition, in the refusal of steps, or in a fault. A fault comes from steps that are
let through but cannot be read, and from a text or a name that is shown although an integer in it is
too long. No session and no request turns a fault into an answer.
-/

namespace SurfaceStudio

/-! ## Faults of one kind -/

/-- A computation that fails at an integer that is too long, if it fails at all. -/
def FailsOnlyLong {α : Type} (x : Except Fault α) : Prop := ∀ f, x = .error f → f = .integerTooLong

section

variable {α β : Type} {x : Except Fault α}

theorem failsOnlyLong_ok (a : α) : FailsOnlyLong (.ok a : Except Fault α) := nofun

theorem FailsOnlyLong.bind {g : α → Except Fault β} (hx : FailsOnlyLong x)
    (hg : ∀ a, FailsOnlyLong (g a)) : FailsOnlyLong (x >>= g) := by
  cases x with
  | error f =>
    rintro _ ⟨⟩
    exact hx f rfl
  | ok a => exact hg a

theorem FailsOnlyLong.map (hx : FailsOnlyLong x) (g : α → β) : FailsOnlyLong (x.map g) := by
  cases x with
  | error f =>
    rintro _ ⟨⟩
    exact hx f rfl
  | ok a => exact failsOnlyLong_ok (g a)

/-- What does not succeed fails at an integer that is too long. -/
theorem FailsOnlyLong.eq_error (hx : FailsOnlyLong x) (h : ¬ ∃ a, x = .ok a) :
    x = .error .integerTooLong := by
  cases x with
  | error f => rw [hx f rfl]
  | ok a => exact absurd ⟨a, rfl⟩ h

end

theorem Json.display_failsOnlyLong (v : Json) : FailsOnlyLong v.display := by
  intro f hf
  by_cases h : v.HasText
  · obtain ⟨s, hs⟩ := display_of_hasText h
    cases hs.symm.trans hf
  · cases (display_of_not_hasText h).symm.trans hf
    rfl

namespace Preset

variable {p : Preset}

/-! ## Texts and names -/

/-- The keys of the expressions and the bounds. -/
def textKeys : List String := ["x", "y", "z", "uMin", "uMax", "vMin", "vMax"]

/-- The name that a preset gives: its own, unless that counts as nothing. -/
def name? (p : Preset) : Option Json := (Json.lookup "name" p).filter fun v => !v.isFalsy

/-- All expressions and bounds can be shown. -/
def HasTexts (p : Preset) : Prop :=
  ∀ key ∈ textKeys, ∀ v, Json.present? key p = some v → v.HasText

/-- The name can be shown, if there is one. -/
def HasName (p : Preset) : Prop := ∀ v, p.name? = some v → v.HasText

theorem textAt_eq (key : String) (p : Preset) :
    p.textAt key = (Json.present? key p).elim (.ok "") Json.display := by
  rw [textAt, Json.present?]
  rcases Json.lookup key p with _ | v
  · rfl
  · cases v <;> rfl

theorem nameAt_eq (p : Preset) (old : Json) :
    p.nameAt old = p.name?.elim (.ok old) fun v => v.display.map .str := by
  rw [nameAt, name?]
  rcases Json.lookup "name" p with _ | v
  · rfl
  · cases h : v.isFalsy with
    | true => simp [Option.filter, h]
    | false => simp [Option.filter, h]

theorem textAt_failsOnlyLong (key : String) (p : Preset) : FailsOnlyLong (p.textAt key) := by
  rw [textAt_eq]
  cases Json.present? key p with
  | none => exact failsOnlyLong_ok _
  | some v => exact v.display_failsOnlyLong

theorem nameAt_failsOnlyLong (p : Preset) (old : Json) : FailsOnlyLong (p.nameAt old) := by
  rw [nameAt_eq]
  cases p.name? with
  | none => exact failsOnlyLong_ok _
  | some v => exact v.display_failsOnlyLong.map Json.str

theorem exists_textAt_iff {key : String} : (∃ s, p.textAt key = .ok s) ↔
    ∀ v, Json.present? key p = some v → v.HasText := by
  rw [textAt_eq]
  cases Json.present? key p with
  | none => simp
  | some v => simpa using Json.exists_display_iff

theorem exists_nameAt_iff {old : Json} : (∃ name, p.nameAt old = .ok name) ↔ p.HasName := by
  rw [nameAt_eq, HasName]
  cases p.name? with
  | none => simp
  | some v => simpa [map_eq_ok] using Json.exists_display_iff

/-- What keeps a preset from being laid over a definition: its texts, its steps and its name are taken
in this order, and the first of them that fails. -/
inductive Fails (d : Definition) (p : Preset) : Trouble → Prop
  | texts : ¬ p.HasTexts → Fails d p (.fault .integerTooLong)
  | uSteps {t} : p.HasTexts → StepsEnd "uSteps" p d.uSteps (.error t) → Fails d p t
  | vSteps {us t} : p.HasTexts → StepsEnd "uSteps" p d.uSteps (.ok us) →
      StepsEnd "vSteps" p d.vSteps (.error t) → Fails d p t
  | name {us vs} : p.HasTexts → StepsEnd "uSteps" p d.uSteps (.ok us) →
      StepsEnd "vSteps" p d.vSteps (.ok vs) → ¬ p.HasName → Fails d p (.fault .integerTooLong)

end Preset

/-! ## Definitions -/

namespace Definition

open Preset

variable {d e : Definition} {p : Preset} {us vs name : Json} {t : Trouble}

/-- The expressions and the bounds. -/
def texts (d : Definition) : List Json := [d.x, d.y, d.z, d.uMin, d.uMax, d.vMin, d.vMax]

theorem withTexts_failsOnlyLong (d : Definition) (p : Preset) : FailsOnlyLong (d.withTexts p) := by
  unfold withTexts
  iterate 7 refine (textAt_failsOnlyLong _ p).bind fun _ => ?_
  exact failsOnlyLong_ok _

/-- Every text is shown, and the other fields stay. -/
theorem withTexts_eq_ok : d.withTexts p = .ok e ↔ ∃ x y z uMin uMax vMin vMax,
    p.textAt "x" = .ok x ∧ p.textAt "y" = .ok y ∧ p.textAt "z" = .ok z ∧
    p.textAt "uMin" = .ok uMin ∧ p.textAt "uMax" = .ok uMax ∧
    p.textAt "vMin" = .ok vMin ∧ p.textAt "vMax" = .ok vMax ∧
    e = { d with
      x := .str x, y := .str y, z := .str z, uMin := .str uMin, uMax := .str uMax
      vMin := .str vMin, vMax := .str vMax } := by
  constructor
  · intro h
    obtain ⟨x, hx, h⟩ := bind_eq_ok.mp h
    obtain ⟨y, hy, h⟩ := bind_eq_ok.mp h
    obtain ⟨z, hz, h⟩ := bind_eq_ok.mp h
    obtain ⟨uMin, huMin, h⟩ := bind_eq_ok.mp h
    obtain ⟨uMax, huMax, h⟩ := bind_eq_ok.mp h
    obtain ⟨vMin, hvMin, h⟩ := bind_eq_ok.mp h
    obtain ⟨vMax, hvMax, h⟩ := bind_eq_ok.mp h
    cases h
    exact ⟨x, y, z, uMin, uMax, vMin, vMax, hx, hy, hz, huMin, huMax, hvMin, hvMax, rfl⟩
  · rintro ⟨x, y, z, uMin, uMax, vMin, vMax, hx, hy, hz, huMin, huMax, hvMin, hvMax, rfl⟩
    rw [withTexts, hx, hy, hz, huMin, huMax, hvMin, hvMax]
    rfl

/-- The texts are those that are shown for the members of the preset. -/
theorem texts_of_withTexts (h : d.withTexts p = .ok e) :
    (textKeys.map fun key => (p.textAt key).map Json.str) = e.texts.map .ok := by
  obtain ⟨_, _, _, _, _, _, _, hx, hy, hz, huMin, huMax, hvMin, hvMax, rfl⟩ :=
    withTexts_eq_ok.mp h
  simp only [textKeys, texts, List.map_cons, List.map_nil, hx, hy, hz, huMin, huMax, hvMin, hvMax,
    Except.map]

theorem wireframe_of_withTexts (h : d.withTexts p = .ok e) : e.wireframe = d.wireframe := by
  obtain ⟨_, _, _, _, _, _, _, -, -, -, -, -, -, -, rfl⟩ := withTexts_eq_ok.mp h
  rfl

/-- What the texts are does not depend on the definition that they are set in. -/
theorem withTexts_eq_map (d d₁ : Definition) (p : Preset) : d₁.withTexts p =
    (fun e => { e with uSteps := d₁.uSteps, vSteps := d₁.vSteps, name := d₁.name
                       wireframe := d₁.wireframe }) <$> d.withTexts p := by
  simp only [withTexts, map_bind, map_pure]

theorem exists_withTexts_iff : (∃ e, d.withTexts p = .ok e) ↔ p.HasTexts := by
  constructor
  · rintro ⟨e, he⟩ key hkey
    have hmem : (p.textAt key).map Json.str ∈ textKeys.map fun key => (p.textAt key).map Json.str :=
      List.mem_map_of_mem hkey
    rw [texts_of_withTexts he] at hmem
    obtain ⟨v, -, hv⟩ := List.mem_map.mp hmem
    obtain ⟨s, hs, -⟩ := map_eq_ok.mp hv.symm
    exact exists_textAt_iff.mp ⟨s, hs⟩
  · intro h
    have htext : ∀ key ∈ textKeys, ∃ s, p.textAt key = .ok s :=
      fun key hkey => exists_textAt_iff.mpr (h key hkey)
    obtain ⟨x, hx⟩ := htext "x" (by decide)
    obtain ⟨y, hy⟩ := htext "y" (by decide)
    obtain ⟨z, hz⟩ := htext "z" (by decide)
    obtain ⟨uMin, huMin⟩ := htext "uMin" (by decide)
    obtain ⟨uMax, huMax⟩ := htext "uMax" (by decide)
    obtain ⟨vMin, hvMin⟩ := htext "vMin" (by decide)
    obtain ⟨vMax, hvMax⟩ := htext "vMax" (by decide)
    exact ⟨_, withTexts_eq_ok.mpr
      ⟨x, y, z, uMin, uMax, vMin, vMax, hx, hy, hz, huMin, huMax, hvMin, hvMax, rfl⟩⟩

theorem overlay_eq_ok {e' : Definition} : d.overlay p = .ok e' ↔
    ∃ e us vs name, d.withTexts p = .ok e ∧ p.stepsAt "uSteps" d.uSteps = .ok us ∧
      p.stepsAt "vSteps" d.vSteps = .ok vs ∧ p.nameAt d.name = .ok name ∧
      e' = { e with uSteps := us, vSteps := vs, name := name } := by
  constructor
  · intro h
    obtain ⟨e, he, h⟩ := bind_eq_ok.mp h
    obtain ⟨us, hus, h⟩ := bind_eq_ok.mp h
    obtain ⟨vs, hvs, h⟩ := bind_eq_ok.mp h
    obtain ⟨name, hname, h⟩ := bind_eq_ok.mp h
    cases h
    exact ⟨e, us, vs, name, faulting_eq_ok.mp he, hus, hvs, faulting_eq_ok.mp hname, rfl⟩
  · rintro ⟨e, us, vs, name, he, hus, hvs, hname, rfl⟩
    rw [overlay, he, hus, hvs, hname]
    rfl

/-- The steps of the definition that comes out. -/
theorem exists_overlay_iff : (∃ d', d.overlay p = .ok d' ∧ d'.uSteps = us ∧ d'.vSteps = vs) ↔
    p.HasTexts ∧ p.stepsAt "uSteps" d.uSteps = .ok us ∧ p.stepsAt "vSteps" d.vSteps = .ok vs ∧
      p.HasName := by
  constructor
  · rintro ⟨d', h, rfl, rfl⟩
    obtain ⟨e, us, vs, name, he, hus, hvs, hname, rfl⟩ := overlay_eq_ok.mp h
    exact ⟨exists_withTexts_iff.mp ⟨e, he⟩, hus, hvs, exists_nameAt_iff.mp ⟨name, hname⟩⟩
  · rintro ⟨htexts, hus, hvs, hname⟩
    obtain ⟨e, he⟩ := exists_withTexts_iff.mpr htexts
    obtain ⟨name, hname⟩ := exists_nameAt_iff.mpr hname
    exact ⟨_, overlay_eq_ok.mpr ⟨e, us, vs, name, he, hus, hvs, hname, rfl⟩, rfl, rfl⟩

theorem overlay_of_fails (h : Fails d p t) : d.overlay p = .error t := by
  cases h with
  | texts htexts =>
    have hfault := (withTexts_failsOnlyLong d p).eq_error (mt exists_withTexts_iff.mp htexts)
    rw [overlay, hfault]
    rfl
  | uSteps htexts hus =>
    obtain ⟨e, he⟩ := exists_withTexts_iff.mpr htexts
    rw [overlay, he, stepsAt_eq_iff.mpr hus]
    rfl
  | vSteps htexts hus hvs =>
    obtain ⟨e, he⟩ := exists_withTexts_iff.mpr htexts
    rw [overlay, he, stepsAt_eq_iff.mpr hus, stepsAt_eq_iff.mpr hvs]
    rfl
  | name htexts hus hvs hname =>
    obtain ⟨e, he⟩ := exists_withTexts_iff.mpr htexts
    have hfault := (nameAt_failsOnlyLong p d.name).eq_error (mt exists_nameAt_iff.mp hname)
    rw [overlay, he, stepsAt_eq_iff.mpr hus, stepsAt_eq_iff.mpr hvs, hfault]
    rfl

/-- What does not keep a preset from being laid over a definition lets it come out. -/
theorem exists_overlay_or_fails (d : Definition) (p : Preset) :
    (∃ d', d.overlay p = .ok d') ∨ ∃ t, Fails d p t := by
  by_cases htexts : p.HasTexts
  · cases hus : p.stepsAt "uSteps" d.uSteps with
    | error t => exact .inr ⟨t, .uSteps htexts (stepsAt_eq_iff.mp hus)⟩
    | ok us =>
      cases hvs : p.stepsAt "vSteps" d.vSteps with
      | error t => exact .inr ⟨t, .vSteps htexts (stepsAt_eq_iff.mp hus) (stepsAt_eq_iff.mp hvs)⟩
      | ok vs =>
        by_cases hname : p.HasName
        · obtain ⟨d', hd', -⟩ := exists_overlay_iff.mpr ⟨htexts, hus, hvs, hname⟩
          exact .inl ⟨d', hd'⟩
        · exact .inr ⟨_, .name htexts (stepsAt_eq_iff.mp hus) (stepsAt_eq_iff.mp hvs) hname⟩
  · exact .inr ⟨_, .texts htexts⟩

theorem overlay_eq_error_iff : d.overlay p = .error t ↔ Fails d p t := by
  refine ⟨fun h => ?_, overlay_of_fails⟩
  rcases exists_overlay_or_fails d p with ⟨d', hd'⟩ | ⟨t', ht'⟩
  · cases hd'.symm.trans h
  · cases (overlay_of_fails ht').symm.trans h
    exact ht'

end Definition

/-! ## Sessions and requests -/

theorem Session.loadPreset_of_overlay_error {s : Session} {u : Preset.Upload} {p : Preset}
    {t : Trouble} (hp : Preset.ofUpload u = .ok p) (h : s.definition.overlay p = .error t) :
    s.loadPreset u = s.guarded "Preset load" (.error t) := by
  have hoverlaid : s.overlaid u = .error t := by
    simp only [overlaid, hp, h, bind, Except.bind]
  rw [loadPreset, hoverlaid]

theorem Service.presetResponse_of_ok {members : Members} {p : Preset}
    (hp : Preset.ofUpload (.value (.object members)) = .ok p) :
    presetResponse members = answering (Definition.overlay {} p) fun d =>
      .json (.object [("definition", definitionBody d)]) := by
  simp only [presetResponse, hp, bind, Except.bind]

namespace Preset

/-- A preset is laid over a definition unless its steps are refused, or a fault keeps it from that:
steps are let through and cannot be read, or a text or a name is shown although an integer in it is
too long. Steps that cannot be read are texts of the right form that have an information separator
among their blanks or too many digits; every other text of that form is read as the number that it
spells. A session and a request answer the refusal, but a fault goes through them. -/
theorem applying_ends (d : Definition) (p : Preset) :
    (∀ s, isStepText s = true ↔ ∃ t : StepText, s = t.text) ∧
      (∀ t : StepText, Text.integer t.text =
        if t.IsSpaced then
          if Settings.maxIntegerDigits < t.digits.length then .error .integerTooLong
          else .ok t.number
        else .error .malformedInteger) ∧
      (∀ us vs, (∃ d', d.overlay p = .ok d' ∧ d'.uSteps = us ∧ d'.vSteps = vs) ↔
        p.HasTexts ∧ StepsEnd "uSteps" p d.uSteps (.ok us) ∧
          StepsEnd "vSteps" p d.vSteps (.ok vs) ∧ p.HasName) ∧
      (∀ t, d.overlay p = .error t ↔ Fails d p t) ∧
      (∀ (s : Session) (u : Upload), s.definition = d → ofUpload u = .ok p →
        (∀ f, d.overlay p = .error (.failure f) →
          s.loadPreset u = .ok (s.reject "Preset load" f)) ∧
        ∀ f, d.overlay p = .error (.fault f) → s.loadPreset u = .error f) ∧
      ∀ members, d = {} → ofUpload (.value (.object members)) = .ok p →
        (∀ f, d.overlay p = .error (.failure f) →
          Service.presetResponse members = .ok (.refused f)) ∧
        ∀ f, d.overlay p = .error (.fault f) → Service.presetResponse members = .error f := by
  refine ⟨fun s => isStepText_iff, fun t => t.integer_text, ?_,
    fun t => Definition.overlay_eq_error_iff, ?_, ?_⟩
  · intro us vs
    simp only [← stepsAt_eq_iff]
    exact Definition.exists_overlay_iff
  · rintro s u rfl hp
    exact ⟨fun f hf => Session.loadPreset_of_overlay_error hp hf,
      fun f hf => Session.loadPreset_of_overlay_error hp hf⟩
  · rintro members rfl hp
    rw [Service.presetResponse_of_ok hp]
    constructor
    · intro f hf
      rw [hf]
      rfl
    · intro f hf
      rw [hf]
      rfl

/-- A text with an information separator in front is neither taken nor refused. -/
theorem applying_fails_behind_separator :
    ¬ ∀ (d : Definition) (p : Preset), (∃ d', d.overlay p = .ok d') ∨
      ∃ reason, d.overlay p = .error (.failure (.invalidPreset reason)) := by
  have hfault : Definition.overlay {} [("uSteps", .str "\x1c12")] =
      .error (.fault .malformedInteger) := by
    have hform : isStepText "\x1c12" = true := by decide +kernel
    have hread : Text.integer "\x1c12" = .error .malformedInteger := by
      have hsigned : Text.signed? (Text.trimWhile Text.isSpace "\x1c12".toList) = none := by
        decide +kernel
      simp only [Text.integer, hsigned]
    have hsteps : stepsAt "uSteps" [("uSteps", .str "\x1c12")] (.int 60) =
        .error (.fault .malformedInteger) := by
      simp [stepsAt, Json.present?, Json.lookup, steps, hform, hread, faulting, Except.map]
    refine Definition.overlay_of_fails (.uSteps ?_ (stepsAt_eq_iff.mp hsteps))
    intro key hkey v hv
    have hnone : ∀ key ∈ textKeys, Json.present? key [("uSteps", .str "\x1c12")] = none := by
      decide +kernel
    cases (hnone key hkey).symm.trans hv
  intro h
  rcases h {} [("uSteps", .str "\x1c12")] with ⟨d', hd'⟩ | ⟨reason, hreason⟩
  · cases hfault.symm.trans hd'
  · cases hfault.symm.trans hreason

end Preset

end SurfaceStudio
