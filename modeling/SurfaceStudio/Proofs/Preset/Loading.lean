import SurfaceStudio.Session
import SurfaceStudio.Service.Http
import SurfaceStudio.Proofs.Json.Decoding
import SurfaceStudio.Proofs.Json.LongIntegers
import SurfaceStudio.Proofs.Preset.Reloading
/-!
# How the loading of a document ends

A document that is submitted as a value holds a preset or is refused, and a refusal leaves the
session as it was. A text may end in a third way: the reading breaks off at an integer of too many
digits. So may bytes, and those that spell no code points in their encoding are never read. Both are
faults, which no session turns into an answer.
-/

namespace SurfaceStudio

namespace Preset

/-! ## Documents -/

/-- A preset counts in a value: the object itself unless it is a collection, whose first entry
counts. -/
inductive CountsIn (p : Preset) : Json → Prop
  | itself : (∀ v further, Json.lookup "presets" p ≠ some (.list (v :: further))) →
      CountsIn p (.object p)
  | first {members further} : Json.lookup "presets" members = some (.list (.object p :: further)) →
      CountsIn p (.object members)

theorem ofDocument_eq_ok_iff {p : Preset} {v : Json} : ofDocument v = .ok p ↔ CountsIn p v := by
  constructor
  · intro h
    unfold ofDocument at h
    split at h
    · split at h
      · next hlookup =>
        cases h
        exact .first hlookup
      · cases h
      · next members _ hother =>
        cases h
        exact .itself fun v further hlookup => hother v further hlookup
    · cases h
  · rintro (hlookup | hlookup)
    · simp only [ofDocument]
      split
      · next hfirst => exact absurd hfirst (hlookup _ _)
      · next hfirst => exact absurd hfirst (hlookup _ _)
      · rfl
    · simp only [ofDocument, hlookup]

/-- A value without a preset is refused in one way. -/
theorem ofDocument_eq_error_iff {f : Failure} {v : Json} :
    ofDocument v = .error f ↔ f = noObject ∧ ∀ p, ¬ CountsIn p v := by
  have hfailure : ∀ f', ofDocument v = .error f' → f' = noObject := by
    intro f' h
    unfold ofDocument at h
    split at h
    · split at h <;> cases h
      rfl
    · cases h
      rfl
  cases h : ofDocument v with
  | ok p => simp [← ofDocument_eq_ok_iff, h]
  | error f' =>
    have hf' := hfailure f' h
    simp [← ofDocument_eq_ok_iff, h, hf', eq_comm]

/-! ## Uploads -/

/-- The value that an upload reads as: itself, or what its text or the text of its bytes is. -/
inductive Reads : Upload → Json → Prop
  | value {v} : (∀ s, v ≠ .str s) → Reads (.value v) v
  | text {s v} : Json.ofText s = .ok v → Reads (.value (.str s)) v
  | bytes {bs s v} : Json.textOfBytes? bs = some s → Json.ofDecoded s = .ok v →
      Reads (.bytes bs) v

/-- An upload whose text is no JSON, with what is said about it. -/
inductive Misreads : Upload → String → Prop
  | text {s f} : Json.ofText s = .error (.malformed f) → Misreads (.value (.str s)) (f.message s)
  | bytes {bs s f} : Json.textOfBytes? bs = some s → Json.ofDecoded s = .error (.malformed f) →
      Misreads (.bytes bs) (f.message s)

/-- An upload with a text that is not read to its end, because an integer in it is too long. -/
inductive BreaksOff : Upload → String → Prop
  | text {s} : Json.ofText s = .error (.fault .integerTooLong) → BreaksOff (.value (.str s)) s
  | bytes {bs s} : Json.textOfBytes? bs = some s →
      Json.ofDecoded s = .error (.fault .integerTooLong) → BreaksOff (.bytes bs) s

/-- How the loading of an upload ends. -/
inductive Ends : Upload → Except Trouble Preset → Prop
  | loaded {u v p} : Reads u v → CountsIn p v → Ends u (.ok p)
  | empty {u v} : Reads u v → (∀ p, ¬ CountsIn p v) → Ends u (.error (.failure noObject))
  | misread {u reason} : Misreads u reason →
      Ends u (.error (.failure (.invalidPreset ("Could not read preset file: " ++ reason))))
  | undecodable {bs} : ¬ Json.Decodable bs → Ends (.bytes bs) (.error (.fault .undecodableBytes))
  | brokenOff {u s} : BreaksOff u s → Ends u (.error (.fault .integerTooLong))

theorem ofUpload_of_reads {u : Upload} {v : Json} (h : Reads u v) :
    ofUpload u = refusing (ofDocument v) := by
  cases h with
  | value hne =>
    rw [ofUpload]
    exact hne
  | text hs => simp only [ofUpload, ofText, hs]
  | bytes hbs hs => simp only [ofUpload, ofText, hbs, hs]

theorem ofUpload_of_misreads {u : Upload} {reason : String} (h : Misreads u reason) :
    ofUpload u = .error (.failure (.invalidPreset ("Could not read preset file: " ++ reason))) := by
  cases h with
  | text hs => simp only [ofUpload, ofText, hs]
  | bytes hbs hs => simp only [ofUpload, ofText, hbs, hs]

theorem ofUpload_of_breaksOff {u : Upload} {s : String} (h : BreaksOff u s) :
    ofUpload u = .error (.fault .integerTooLong) := by
  cases h with
  | text hs => simp only [ofUpload, ofText, hs]
  | bytes hbs hs => simp only [ofUpload, ofText, hbs, hs]

/-- The reading breaks off only where more digits stand in a row than an integer may have. -/
theorem hasLongRun_of_breaksOff {u : Upload} {s : String} (h : BreaksOff u s) :
    Json.HasLongRun s.toList := by
  cases h with
  | text hs => exact (Json.ofText_eq_fault hs).2
  | bytes hbs hs => exact (Json.ofDecoded_eq_fault hs).2

/-- An integer of too many digits breaks the reading off, as a text and as bytes. -/
theorem breaksOff_toString {n : Int} (h : 10 ^ Settings.maxIntegerDigits ≤ n.natAbs) :
    BreaksOff (.value (.str (toString n))) (toString n) ∧
      BreaksOff (.bytes (Json.utf8Bytes (toString n))) (toString n) := by
  have hlong : Json.isWritableInteger n = false := by
    rw [← Bool.not_eq_true, Json.isWritableInteger_iff]
    exact Nat.not_lt.mpr h
  exact ⟨.text (Json.ofText_toString hlong),
    .bytes (Json.textOfBytes?_toString n) (Json.ofDecoded_toString hlong)⟩

theorem textOfBytes?_eq_none_iff {bs : List UInt8} :
    Json.textOfBytes? bs = none ↔ ¬ Json.Decodable bs := by
  rw [← Json.isSome_textOfBytes?_iff, Option.not_isSome_iff_eq_none]

/-- Every upload is read, is misread, breaks off, or is bytes that cannot be decoded. -/
theorem reads_or_misreads (u : Upload) :
    (∃ v, Reads u v) ∨ (∃ reason, Misreads u reason) ∨ (∃ s, BreaksOff u s) ∨
      ∃ bs, u = .bytes bs ∧ ¬ Json.Decodable bs := by
  rcases u with v | bs
  · by_cases htext : ∃ s, v = .str s
    · obtain ⟨s, rfl⟩ := htext
      rcases hs : Json.ofText s with (f | f) | v
      · exact .inr (.inl ⟨_, .text hs⟩)
      · obtain rfl := (Json.ofText_eq_fault hs).1
        exact .inr (.inr (.inl ⟨_, .text hs⟩))
      · exact .inl ⟨v, .text hs⟩
    · exact .inl ⟨v, .value fun s hv => htext ⟨s, hv⟩⟩
  · cases hbs : Json.textOfBytes? bs with
    | none => exact .inr (.inr (.inr ⟨bs, rfl, textOfBytes?_eq_none_iff.mp hbs⟩))
    | some s =>
      rcases hs : Json.ofDecoded s with (f | f) | v
      · exact .inr (.inl ⟨_, .bytes hbs hs⟩)
      · obtain rfl := (Json.ofDecoded_eq_fault hs).1
        exact .inr (.inr (.inl ⟨_, .bytes hbs hs⟩))
      · exact .inl ⟨v, .bytes hbs hs⟩

theorem ofUpload_eq_iff {u : Upload} {r : Except Trouble Preset} : ofUpload u = r ↔ Ends u r := by
  constructor
  · rintro rfl
    rcases reads_or_misreads u with ⟨v, hv⟩ | ⟨reason, hreason⟩ | ⟨s, hs⟩ | ⟨bs, rfl, hbs⟩
    · rw [ofUpload_of_reads hv]
      cases hdocument : ofDocument v with
      | ok p => exact .loaded hv (ofDocument_eq_ok_iff.mp hdocument)
      | error f =>
        obtain ⟨rfl, hnone⟩ := ofDocument_eq_error_iff.mp hdocument
        exact .empty hv hnone
    · rw [ofUpload_of_misreads hreason]
      exact .misread hreason
    · rw [ofUpload_of_breaksOff hs]
      exact .brokenOff hs
    · rw [ofUpload, textOfBytes?_eq_none_iff.mpr hbs]
      exact .undecodable hbs
  · rintro (⟨hv, hp⟩ | ⟨hv, hnone⟩ | hreason | hbs | hs)
    · rw [ofUpload_of_reads hv, ofDocument_eq_ok_iff.mpr hp]
      rfl
    · rw [ofUpload_of_reads hv, ofDocument_eq_error_iff.mpr ⟨rfl, hnone⟩]
      rfl
    · exact ofUpload_of_misreads hreason
    · rw [ofUpload, textOfBytes?_eq_none_iff.mpr hbs]
    · exact ofUpload_of_breaksOff hs

end Preset

/-! ## Sessions and requests -/

theorem Session.loadPreset_of_error {u : Preset.Upload} {t : Trouble}
    (h : Preset.ofUpload u = .error t) (s : Session) :
    s.loadPreset u = s.guarded "Preset load" (.error t) := by
  have hoverlaid : s.overlaid u = .error t := by
    rw [overlaid, h]
    rfl
  rw [loadPreset, hoverlaid]

theorem Service.presetResponse_of_error {members : Members} {f : Failure}
    (h : Preset.ofUpload (.value (.object members)) = .error (.failure f)) :
    presetResponse members = .ok (.refused f) := by
  rw [presetResponse, h]
  rfl

namespace Preset

/-- The loading of an upload ends with its preset, with one of two refusals, or with a fault: bytes
cannot be decoded, or the reading breaks off at an integer that is too long. It breaks off only where
too many digits stand in a row, and it does so at the text of every integer of too many digits. A
session answers a refusal and stays as it is, but a fault goes through it. The body of a request is
an object, which holds a preset or is refused. -/
theorem loading_ends (s : Session) (u : Upload) :
    (∀ r, ofUpload u = r ↔ Ends u r) ∧
      (∀ t, BreaksOff u t → Json.HasLongRun t.toList) ∧
      (∀ n : Int, 10 ^ Settings.maxIntegerDigits ≤ n.natAbs →
        BreaksOff (.value (.str (toString n))) (toString n) ∧
          BreaksOff (.bytes (Json.utf8Bytes (toString n))) (toString n)) ∧
      (∀ f, Ends u (.error (.failure f)) → s.loadPreset u = .ok (s.reject "Preset load" f)) ∧
      (∀ f, Ends u (.error (.fault f)) → s.loadPreset u = .error f ∧ s.after (.loadPreset u) = s) ∧
      ∀ members, (∃ p, CountsIn p (.object members)) ∨
        Service.presetResponse members = .ok (.refused noObject) := by
  refine ⟨fun r => ofUpload_eq_iff, fun t => hasLongRun_of_breaksOff, fun n => breaksOff_toString,
    ?_, ?_, ?_⟩
  · intro f hf
    exact s.loadPreset_of_error (ofUpload_eq_iff.mpr hf)
  · intro f hf
    have hfault : s.loadPreset u = .error f := s.loadPreset_of_error (ofUpload_eq_iff.mpr hf)
    refine ⟨hfault, ?_⟩
    rw [Session.after, Session.step, hfault]
    rfl
  · intro members
    by_cases hnone : ∀ p, ¬ CountsIn p (.object members)
    · exact .inr (Service.presetResponse_of_error
        (ofUpload_eq_iff.mpr (.empty (.value nofun) hnone)))
    · exact .inl (not_forall_not.mp hnone)

/-- Bytes that start like no character are neither loaded nor refused. -/
theorem loading_fails_on_stray_byte :
    ¬ ∀ u, (∃ p, ofUpload u = .ok p) ∨
      ∃ reason, ofUpload u = .error (.failure (.invalidPreset reason)) := by
  have hstray : ofUpload (.bytes [0xFF]) = .error (.fault .undecodableBytes) := by
    have hnone : Json.textOfBytes? [0xFF] = none := by decide +kernel
    rw [ofUpload, hnone]
  intro h
  rcases h (.bytes [0xFF]) with ⟨p, hp⟩ | ⟨reason, hreason⟩
  · cases hstray.symm.trans hp
  · cases hstray.symm.trans hreason

end Preset

end SurfaceStudio
