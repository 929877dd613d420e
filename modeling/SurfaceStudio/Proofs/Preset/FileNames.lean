import Mathlib.Data.List.Chain
import SurfaceStudio.Proofs.Outcomes
import SurfaceStudio.Proofs.Text.Trimming
import SurfaceStudio.Service.Http
/-!
# Names of files

A file is named after the words of a name: its longest runs of small letters and digits, with one
hyphen between any two of them. Putting a hyphen in place of all else, run by run, and taking the
hyphens off the ends comes to just that. Such a name holds nothing that ends or splits it where it
stands between quotes in the header of an answer, and it names itself.
-/

namespace SurfaceStudio

namespace Preset

/-! ## Words -/

/-- The pieces of a text between the characters that a name does not keep. -/
def pieces (cs : List Char) : List (List Char) := cs.splitOnP (!isWordChar ·)

/-- The words of a text: its longest runs of characters that a name keeps. -/
def words (cs : List Char) : List (List Char) := (pieces cs).filter (!·.isEmpty)

/-- Words with hyphens between them. -/
def joined (ws : List (List Char)) : List Char := ['-'].intercalate ws

/-- A word by itself. -/
structure IsWord (w : List Char) : Prop where
  ne_nil : w ≠ []
  kept : ∀ c ∈ w, isWordChar c = true

theorem joined_nil_cons {ws : List (List Char)} (h : ws ≠ []) :
    joined ([] :: ws) = '-' :: joined ws :=
  List.intercalate_cons_of_ne_nil h

theorem joined_cons_cons (c : Char) (w : List Char) (ws : List (List Char)) :
    joined ((c :: w) :: ws) = c :: joined (w :: ws) :=
  List.intercalate_cons_cons_left

theorem joined_singleton (w : List Char) : joined [w] = w := List.intercalate_singleton

theorem joined_cons {w : List Char} {ws : List (List Char)} (h : ws ≠ []) :
    joined (w :: ws) = w ++ '-' :: joined ws := by
  rw [joined, List.intercalate_cons_of_ne_nil h, List.append_assoc]
  rfl

theorem pieces_nil : pieces [] = [[]] := List.splitOnP_nil

/-- A kept character lengthens the first piece. -/
theorem pieces_of_kept {c : Char} (hc : isWordChar c = true) {rest w : List Char}
    {ps : List (List Char)} (h : pieces rest = w :: ps) : pieces (c :: rest) = (c :: w) :: ps := by
  rw [pieces, List.splitOnP_cons_eq_if_modifyHead, if_neg (by simp [hc])]
  exact congrArg (List.modifyHead (c :: ·)) h

/-- Any other character is the end of an empty first piece. -/
theorem pieces_of_dropped {c : Char} (hc : isWordChar c = false) (rest : List Char) :
    pieces (c :: rest) = [] :: pieces rest := by
  rw [pieces, List.splitOnP_cons_eq_if_modifyHead, if_pos (by simp [hc])]
  rfl

theorem exists_pieces (cs : List Char) : ∃ w ps, pieces cs = w :: ps :=
  List.exists_cons_of_ne_nil (List.splitOnP_ne_nil _ _)

theorem kept_of_mem_pieces {cs p : List Char} (hp : p ∈ pieces cs) :
    ∀ c ∈ p, isWordChar c = true := by
  induction cs generalizing p with
  | nil =>
    rw [pieces_nil, List.mem_singleton] at hp
    rw [hp]
    exact nofun
  | cons c rest ih =>
    cases hc : isWordChar c with
    | false =>
      rw [pieces_of_dropped hc] at hp
      rcases List.mem_cons.mp hp with rfl | hp
      · exact nofun
      · exact ih hp
    | true =>
      obtain ⟨w, ps, hrest⟩ := exists_pieces rest
      rw [pieces_of_kept hc hrest] at hp
      rw [hrest] at ih
      rcases List.mem_cons.mp hp with rfl | hp
      · exact List.forall_mem_cons.mpr ⟨hc, ih List.mem_cons_self⟩
      · exact ih (List.mem_cons_of_mem w hp)

theorem isWord_of_mem_words {cs w : List Char} (hw : w ∈ words cs) : IsWord w := by
  obtain ⟨hmem, hne⟩ := List.mem_filter.mp hw
  exact ⟨by simpa using hne, kept_of_mem_pieces hmem⟩

/-! ## From hyphens to words -/

/-- Hyphens between the words are what is left of all other characters, apart from those at the
ends. Inside of a gap no hyphen is in front; otherwise there is one, in front of an empty piece. -/
theorem hyphenate_eq (cs : List Char) : ∃ w ps, pieces cs = w :: ps ∧
    (∃ trail, (∀ c ∈ trail, c = '-') ∧
      hyphenate false cs = joined (w :: ps.filter (!·.isEmpty)) ++ trail) ∧
    ∃ trail, (∀ c ∈ trail, c = '-') ∧ (words cs = [] → trail = []) ∧
      hyphenate true cs = joined (words cs) ++ trail := by
  induction cs with
  | nil => exact ⟨[], [], pieces_nil, ⟨[], nofun, rfl⟩, [], nofun, fun _ => rfl, rfl⟩
  | cons c rest ih =>
    obtain ⟨w, ps, hpieces, ⟨trail, htrail, hword⟩, ⟨gap, hgap, hnone, hjoined⟩⟩ := ih
    cases hc : isWordChar c with
    | true =>
      -- the first word grows by a character, whether a gap ends here or not
      have hwords : words (c :: rest) = (c :: w) :: ps.filter (!·.isEmpty) := by
        rw [words, pieces_of_kept hc hpieces]
        rfl
      have hfalse : c :: hyphenate false rest =
          joined ((c :: w) :: ps.filter (!·.isEmpty)) ++ trail := by
        rw [hword, joined_cons_cons]
        rfl
      refine ⟨c :: w, ps, pieces_of_kept hc hpieces, ⟨trail, htrail, ?_⟩, trail, htrail, ?_, ?_⟩
      · rw [hyphenate, if_pos hc, hfalse]
      · rw [hwords]
        exact nofun
      · rw [hyphenate, if_pos hc, hfalse, hwords]
    | false =>
      have hwords : words (c :: rest) = words rest := by
        rw [words, pieces_of_dropped hc]
        rfl
      have hfilter : (pieces rest).filter (!·.isEmpty) = words rest := rfl
      refine ⟨[], pieces rest, pieces_of_dropped hc rest, ?_, gap, hgap, ?_, ?_⟩
      · rw [hyphenate, if_neg (by simp [hc]), if_neg (by decide), hjoined, hfilter]
        rcases eq_or_ne (words rest) [] with hempty | hne
        · refine ⟨['-'], by simp, ?_⟩
          rw [hempty, hnone hempty]
          rfl
        · exact ⟨gap, hgap, by rw [joined_nil_cons hne]; rfl⟩
      · rw [hwords]
        exact hnone
      · rw [hyphenate, if_neg (by simp [hc]), if_pos rfl, hjoined, hwords]

/-- Around the words there is nothing but hyphens. -/
theorem hyphenate_surrounded (cs : List Char) : ∃ lead trail, (∀ c ∈ lead, c = '-') ∧
    (∀ c ∈ trail, c = '-') ∧ hyphenate false cs = lead ++ (joined (words cs) ++ trail) := by
  obtain ⟨w, ps, hpieces, ⟨trail, htrail, heq⟩, -⟩ := hyphenate_eq cs
  rw [heq]
  cases w with
  | cons c w =>
    have hwords : words cs = (c :: w) :: ps.filter (!·.isEmpty) := by
      rw [words, hpieces]
      rfl
    exact ⟨[], trail, nofun, htrail, by rw [hwords]; rfl⟩
  | nil =>
    have hwords : words cs = ps.filter (!·.isEmpty) := by
      rw [words, hpieces]
      rfl
    rw [← hwords]
    rcases eq_or_ne (words cs) [] with hempty | hne
    · exact ⟨[], trail, nofun, htrail, by rw [hempty]; rfl⟩
    · exact ⟨['-'], trail, by simp, htrail, by rw [joined_nil_cons hne]; rfl⟩

/-! ## Slugs -/

/-- A text of kept characters, with single hyphens inside of it. -/
structure IsSlug (cs : List Char) : Prop where
  ne_nil : cs ≠ []
  chars : ∀ c ∈ cs, isWordChar c = true ∨ c = '-'
  first : cs.head? ≠ some '-'
  last : cs.getLast? ≠ some '-'
  apart : cs.IsChain fun a b => ¬ (a = '-' ∧ b = '-')

theorem ne_hyphen_of_kept {c : Char} (hc : isWordChar c = true) : c ≠ '-' := by
  rintro rfl
  exact absurd hc (by decide)

theorem IsWord.isSlug {w : List Char} (hw : IsWord w) : IsSlug w where
  ne_nil := hw.ne_nil
  chars := fun c hc => .inl (hw.kept c hc)
  first := fun h => ne_hyphen_of_kept (hw.kept _ (List.mem_of_head? h)) rfl
  last := fun h => ne_hyphen_of_kept (hw.kept _ (List.mem_of_getLast? h)) rfl
  apart := by
    refine List.Pairwise.isChain (List.pairwise_of_forall_mem_list fun a ha b _ hab => ?_)
    exact ne_hyphen_of_kept (hw.kept a ha) hab.1

theorem IsSlug.cons_word {w s : List Char} (hw : IsWord w) (hs : IsSlug s) :
    IsSlug (w ++ '-' :: s) where
  ne_nil := by simp
  chars := by
    intro c hc
    rcases List.mem_append.mp hc with hc | hc
    · exact .inl (hw.kept c hc)
    · rcases List.mem_cons.mp hc with hc | hc
      · exact .inr hc
      · exact hs.chars c hc
  first := by
    rw [List.head?_append_of_ne_nil _ hw.ne_nil]
    exact hw.isSlug.first
  last := by
    rw [List.getLast?_append_of_ne_nil _ (List.cons_ne_nil _ _),
      List.getLast?_cons_of_ne_nil hs.ne_nil]
    exact hs.last
  apart := by
    -- the hyphen between them stands between two kept characters
    rw [List.isChain_append, List.isChain_cons]
    refine ⟨hw.isSlug.apart, ⟨fun b hb hab => hs.first (hab.2 ▸ hb), hs.apart⟩, ?_⟩
    intro a ha b _ hab
    exact hw.isSlug.last (hab.1 ▸ ha)

theorem isSlug_joined {ws : List (List Char)} (hne : ws ≠ []) (hws : ∀ w ∈ ws, IsWord w) :
    IsSlug (joined ws) := by
  induction ws with
  | nil => exact absurd rfl hne
  | cons w ws ih =>
    obtain ⟨hw, hws⟩ := List.forall_mem_cons.mp hws
    rcases eq_or_ne ws [] with rfl | hne
    · rw [joined_singleton]
      exact hw.isSlug
    · rw [joined_cons hne]
      exact .cons_word hw (ih hne hws)

/-- What the hyphens at the ends leave are the words. -/
theorem trim_hyphenate (cs : List Char) :
    Text.trimWhile (· == '-') (hyphenate false cs) = joined (words cs) := by
  obtain ⟨lead, trail, hlead, htrail, heq⟩ := hyphenate_surrounded cs
  have hlead : ∀ c ∈ lead, (c == '-') = true := fun c hc => beq_iff_eq.mpr (hlead c hc)
  have htrail : ∀ c ∈ trail, (c == '-') = true := fun c hc => beq_iff_eq.mpr (htrail c hc)
  rw [heq]
  rcases eq_or_ne (words cs) [] with hempty | hne
  · have hall : ∀ c ∈ lead ++ (joined [] ++ trail), (c == '-') = true :=
      List.forall_mem_append.mpr ⟨hlead, htrail⟩
    rw [hempty, Text.trimWhile, List.dropWhile_eq_nil_iff.mpr hall]
    rfl
  · have hslug := isSlug_joined hne fun w hw => isWord_of_mem_words hw
    obtain ⟨c, tail, hcons⟩ := List.exists_cons_of_ne_nil hslug.ne_nil
    refine Text.trimWhile_between hlead htrail ⟨c, tail, hcons, ?_⟩ ⟨_, _,
      (List.dropLast_append_getLast hslug.ne_nil).symm, ?_⟩
    · exact beq_false_of_ne fun hc => hslug.first (by rw [hcons, hc]; rfl)
    · exact beq_false_of_ne fun hc =>
        hslug.last (by rw [List.getLast?_eq_some_getLast hslug.ne_nil, hc])

theorem slug_eq (name : String) :
    slug name = if words (Text.lower name).toList = [] then "surface"
      else String.ofList (joined (words (Text.lower name).toList)) := by
  rw [slug, trim_hyphenate]
  generalize hws : words (Text.lower name).toList = ws
  rcases eq_or_ne ws [] with rfl | hne
  · rfl
  · have hslug := isSlug_joined hne fun w hw => isWord_of_mem_words (hws ▸ hw)
    rw [if_neg hne]
    split
    · next hnil => exact absurd hnil hslug.ne_nil
    · rfl

/-- There are always words that the name of a file consists of. -/
theorem exists_slug_eq (name : String) : ∃ ws, ws ≠ [] ∧ (∀ w ∈ ws, IsWord w) ∧
    slug name = String.ofList (joined ws) := by
  rw [slug_eq]
  split
  · refine ⟨["surface".toList], by simp, ?_, ?_⟩
    · rw [List.forall_mem_singleton]
      exact ⟨by decide, by simp [isWordChar]⟩
    · rw [joined_singleton, String.ofList_toList]
  · next hne => exact ⟨_, hne, fun w hw => isWord_of_mem_words hw, rfl⟩

theorem isSlug_slug (name : String) : IsSlug (slug name).toList := by
  obtain ⟨ws, hne, hws, heq⟩ := exists_slug_eq name
  rw [heq, String.toList_ofList]
  exact isSlug_joined hne hws

/-! ## Slugs of slugs -/

theorem words_of_isWord {w : List Char} (hw : IsWord w) : words w = [w] := by
  rw [words, pieces, List.splitOnP_eq_singleton fun c hc => by simp [hw.kept c hc]]
  simp [hw.ne_nil]

theorem words_joined {ws : List (List Char)} (hws : ∀ w ∈ ws, IsWord w) :
    words (joined ws) = ws := by
  induction ws with
  | nil => rfl
  | cons w ws ih =>
    obtain ⟨hw, hws⟩ := List.forall_mem_cons.mp hws
    rcases eq_or_ne ws [] with rfl | hne
    · rw [joined_singleton, words_of_isWord hw]
    · have hsplit : pieces (w ++ '-' :: joined ws) = w :: pieces (joined ws) :=
        List.splitOnP_append_cons_of_forall_mem (fun c hc => by simp [hw.kept c hc]) '-' rfl _
      have hkeep : (!w.isEmpty) = true := by simp [hw.ne_nil]
      have hfilter : (w :: pieces (joined ws)).filter (!·.isEmpty) = w :: words (joined ws) :=
        List.filter_cons_of_pos hkeep
      rw [joined_cons hne, words, hsplit, hfilter, ih hws]

theorem toNat_of_small {c : Char} (hc : isWordChar c = true ∨ c = '-') :
    c.toNat = 45 ∨ 48 ≤ c.toNat ∧ c.toNat ≤ 57 ∨ 97 ≤ c.toNat ∧ c.toNat ≤ 122 := by
  rcases hc with hc | rfl
  · rcases Bool.or_eq_true_iff.mp hc with hc | hc
    · obtain ⟨hlow, hhigh⟩ := Bool.and_eq_true_iff.mp hc
      exact .inr (.inr ⟨of_decide_eq_true hlow, of_decide_eq_true hhigh⟩)
    · obtain ⟨hlow, hhigh⟩ := Bool.and_eq_true_iff.mp hc
      exact .inr (.inl ⟨of_decide_eq_true hlow, of_decide_eq_true hhigh⟩)
  · exact .inl rfl

/-- No letter of a slug is a capital one. -/
theorem lowerChar_of_small {c : Char} (hc : isWordChar c = true ∨ c = '-') :
    Text.lowerChar c = [c] := by
  have hruns : ∀ r ∈ Text.caseRuns, 0x41 ≤ r.first ∧ r.last ≤ 0x5A ∨ 0xC0 ≤ r.first := by
    decide +kernel
  have hsmall := toNat_of_small hc
  have hnone : Text.caseRuns.find? (·.covers c) = none := by
    refine List.find?_eq_none.mpr fun r hr hcovers => ?_
    simp only [Text.CaseRun.covers, Bool.and_eq_true, decide_eq_true_eq] at hcovers
    have := hruns r hr
    omega
  rw [Text.lowerChar, if_neg (by omega), hnone]

theorem lower_of_isSlug {s : String} (hs : IsSlug s.toList) : Text.lower s = s := by
  have hself : s.toList.flatMap Text.lowerChar = s.toList.flatMap fun c => [c] :=
    List.flatMap_congr fun c hc => lowerChar_of_small (hs.chars c hc)
  rw [Text.lower, hself, List.flatMap_singleton', String.ofList_toList]

/-- A slug is its own slug. -/
theorem slug_slug (name : String) : slug (slug name) = slug name := by
  obtain ⟨ws, hne, hws, heq⟩ := exists_slug_eq name
  rw [slug_eq, lower_of_isSlug (isSlug_slug name), heq, String.toList_ofList, words_joined hws,
    if_neg hne]

end Preset

/-! ## Names in headers -/

namespace Service

/-- The characters that part the words of a header. -/
def separators : List Char :=
  ['(', ')', '<', '>', '@', ',', ';', ':', '\\', '"', '/', '[', ']', '?', '=', '\x7b', '\x7d', ' ',
   '\t']

/-- A character that a name in a header can have anywhere: visible, of ASCII and no separator. -/
def isPlain (c : Char) : Bool :=
  0x20 < c.toNat && c.toNat < 0x7F && !separators.contains c

theorem isPlain_of_small {c : Char} (hc : Preset.isWordChar c = true ∨ c = '-') :
    isPlain c = true := by
  have hseparators : ∀ d ∈ separators, ¬ (d.toNat = 45 ∨ 48 ≤ d.toNat ∧ d.toNat ≤ 57 ∨
      97 ≤ d.toNat ∧ d.toNat ≤ 122) := by simp [separators]
  have hsmall := Preset.toNat_of_small hc
  have hno : separators.contains c = false := by
    rw [List.contains_eq_mem, decide_eq_false_iff_not]
    exact fun hmem => hseparators c hmem hsmall
  have hlow : 0x20 < c.toNat := by omega
  have hhigh : c.toNat < 0x7F := by omega
  simp only [isPlain, hno, hlow, hhigh, decide_true, Bool.not_false, Bool.and_self]

/-- A slug with either ending is a plain name. -/
theorem isPlain_fileName {stem : String} (hstem : Preset.IsSlug stem.toList) {ending : String}
    (hending : ending = ".json" ∨ ending = ".stl") :
    (stem ++ ending).toList.all isPlain = true := by
  have hends : ending.toList.all isPlain = true := by
    rcases hending with rfl | rfl <;> decide
  rw [String.toList_append, List.all_append, hends, Bool.and_true, List.all_eq_true]
  exact fun c hc => isPlain_of_small (hstem.chars c hc)

/-! ## Answers that are files -/

section

variable {a : Response}

theorem answering_eq_ok {α : Type} {x : Except Trouble α} {f : α → Response}
    (h : answering x f = .ok a) : (∃ b, x = .ok b ∧ f b = a) ∨ ∃ e, a = .refused e := by
  rcases x with (e | e) | b
  · cases h
    exact .inr ⟨e, rfl⟩
  · cases h
  · cases h
    exact .inl ⟨b, rfl, rfl⟩

/-- A file comes from the answer to a message that could be read. -/
theorem handle_eq_file {α : Type} {body : Body} {d : Defect} {read : Members → Checked α}
    {answer : α → Except Fault Response} {file : String} {content : FileBody}
    (h : handle body d read answer = .ok (.file file content)) :
    ∃ b, answer b = .ok (.file file content) := by
  unfold handle at h
  split at h
  · next e _ => cases e <;> cases h
  · split at h
    · unfold invalidResponse at h
      split at h <;> cases h
    · next b _ => exact ⟨b, h⟩

/-- A file is the preset or the facets of a definition. -/
theorem exists_definition_of_file {route : Route} {body : Body} {file : String}
    {content : FileBody} (h : route.respond body = .ok (.file file content)) :
    ∃ d, presetFile d = .ok (.file file content) ∨ facetFile d = .ok (.file file content) := by
  cases route with
  | examples | health => cases h
  | «example» key =>
    have h : exampleResponse key = .file file content := Except.ok.inj h
    unfold exampleResponse at h
    split at h <;> cases h
  | compile =>
    obtain ⟨s, hs⟩ := handle_eq_file h
    obtain ⟨_, _, hfile⟩ | ⟨_, hfile⟩ := answering_eq_ok hs <;> cases hfile
  | bound =>
    obtain ⟨s, hs⟩ := handle_eq_file h
    obtain ⟨_, _, hfile⟩ | ⟨_, hfile⟩ := answering_eq_ok hs <;> cases hfile
  | surface =>
    obtain ⟨d, hd⟩ := handle_eq_file h
    obtain ⟨_, _, hfile⟩ | ⟨_, hfile⟩ := answering_eq_ok hd <;> cases hfile
  | fit =>
    obtain ⟨p, hp⟩ := handle_eq_file h
    unfold fitResponse at hp
    split at hp
    · cases hp
    · cases hp
    · split at hp <;> cases hp
  | presetParse =>
    obtain ⟨members, hmembers⟩ := handle_eq_file h
    obtain ⟨_, _, hfile⟩ | ⟨_, hfile⟩ := answering_eq_ok hmembers <;> cases hfile
  | presetExport =>
    obtain ⟨d, hd⟩ := handle_eq_file h
    exact ⟨d, .inl hd⟩
  | stl =>
    obtain ⟨d, hd⟩ := handle_eq_file h
    exact ⟨d, .inr hd⟩

/-- The file of a preset has the slug of a name. -/
theorem name_of_presetFile {d : Definition} {file : String} {content : FileBody}
    (h : presetFile d = .ok (.file file content)) :
    ∃ name, file = Preset.slug name ++ ".json" := by
  unfold presetFile at h
  obtain ⟨name, -, h⟩ := bind_eq_ok.mp h
  obtain ⟨p, -, h⟩ := bind_eq_ok.mp h
  obtain ⟨text, -, h⟩ := bind_eq_ok.mp h
  obtain ⟨hfile, -⟩ := Response.file.inj (Except.ok.inj h)
  exact ⟨Preset.documentName name, hfile.symm⟩

theorem name_of_facetFile {d : Definition} {file : String} {content : FileBody}
    (h : facetFile d = .ok (.file file content)) :
    ∃ name, file = Preset.slug name ++ ".stl" := by
  unfold facetFile at h
  obtain ⟨⟨name, m⟩, -, hfile⟩ | ⟨_, hfile⟩ := answering_eq_ok h
  · exact ⟨name, (Response.file.inj hfile).1.symm⟩
  · cases hfile

theorem exists_name_of_file {route : Route} {body : Body} {file : String} {content : FileBody}
    (h : route.respond body = .ok (.file file content)) :
    ∃ name ending, (ending = ".json" ∨ ending = ".stl") ∧ file = Preset.slug name ++ ending := by
  obtain ⟨d, hd | hd⟩ := exists_definition_of_file h
  · obtain ⟨name, hname⟩ := name_of_presetFile hd
    exact ⟨name, ".json", .inl rfl, hname⟩
  · obtain ⟨name, hname⟩ := name_of_facetFile hd
    exact ⟨name, ".stl", .inr rfl, hname⟩

end

end Service

/-- The file of a name is its words in small letters, joined by single hyphens, or `surface` if
there are none, and that is a slug, which names itself. With either ending it holds no quote, no
control character, no separator and nothing beyond ASCII; and every file that the service answers
with has such a name, in its header between quotes. -/
theorem fileName_isSafe (name : String) :
    let ws := Preset.words (Text.lower name).toList
    Preset.fileName name = Preset.slug name ++ ".json" ∧
    Preset.slug name = (if ws = [] then "surface" else String.ofList (['-'].intercalate ws)) ∧
    Preset.IsSlug (Preset.slug name).toList ∧
    Preset.fileName (Preset.slug name) = Preset.slug name ++ ".json" ∧
    (∀ ending, ending = ".json" ∨ ending = ".stl" →
      (Preset.slug name ++ ending).toList.all Service.isPlain = true) ∧
    ∀ (route : Service.Route) (body : Service.Body) (file : String) (content : Service.FileBody),
      route.respond body = .ok (.file file content) →
        (∃ n ending, (ending = ".json" ∨ ending = ".stl") ∧ file = Preset.slug n ++ ending) ∧
        Service.Response.disposition file = "attachment; filename=\"" ++ file ++ "\"" ∧
        file.toList.all Service.isPlain = true := by
  refine ⟨rfl, Preset.slug_eq name, Preset.isSlug_slug name, ?_, ?_, ?_⟩
  · rw [Preset.fileName, Preset.slug_slug]
  · intro ending hending
    exact Service.isPlain_fileName (Preset.isSlug_slug name) hending
  · intro route body file content h
    obtain ⟨n, ending, hending, rfl⟩ := Service.exists_name_of_file h
    exact ⟨⟨n, ending, hending, rfl⟩, rfl,
      Service.isPlain_fileName (Preset.isSlug_slug n) hending⟩

/-- A name with an umlaut, quotes and the sign of the kelvin, whose small letter is a `k`. -/
theorem fileName_isSafe_kelvin :
    let body : Service.Body := .value (.object [("name", .str "  M\u00f6bius \"300 \u212a\"")])
    ∃ content, Service.Route.presetExport.respond body = .ok (.file "m-bius-300-k.json" content) ∧
      Service.Response.disposition "m-bius-300-k.json" =
        "attachment; filename=\"m-bius-300-k.json\"" ∧
      "m-bius-300-k.json".toList.all Service.isPlain = true := by
  intro body
  have hfile : ∃ content, Service.Route.presetExport.respond body =
      .ok (.file "m-bius-300-k.json" content) := ⟨_, by rfl⟩
  obtain ⟨content, hcontent⟩ := hfile
  have hsafe := (fileName_isSafe "m-bius-300-k").2.2.2.2.2 _ _ _ _ hcontent
  exact ⟨content, hcontent, rfl, hsafe.2.2⟩

end SurfaceStudio
