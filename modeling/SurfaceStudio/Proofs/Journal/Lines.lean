import Mathlib.Data.List.Induction
import Mathlib.Data.List.Nodup
import SurfaceStudio.Proofs.Journal.Writers
import SurfaceStudio.Proofs.Outcomes
/-!
# What the journal writes

Whatever set-ups and records come one after the other, the journal stands as the latest set-up that
succeeded has left it: its level is in force, and its outlets are in use, each of them once. A record
is written to each outlet that is in use when it comes, once and in its turn, if its writer is then
below the root writer and has told that the level is reached. So nothing is written twice, and nothing
is lost. For a name without two dots in a row being below the root means to continue its name, and
what the writer tells is what the level of the latest set-up says.
-/

namespace SurfaceStudio.Journal

open Outlets

/-! ## Set-ups -/

namespace Outlets

variable {o : Outlets} {level : Json} {file : Option String}

theorem foldl_remove (xs : List Outlet) (o : Outlets) :
    xs.foldl remove o = { o with inUse := xs.foldl List.erase o.inUse } := by
  induction xs generalizing o with
  | nil => rfl
  | cons x xs ih => exact ih (o.remove x)

theorem foldl_add (xs : List Outlet) (o : Outlets) :
    xs.foldl add o = { o with inUse := o.inUse ++ xs } := by
  induction xs generalizing o with
  | nil => simp
  | cons x xs ih =>
    rw [List.foldl_cons, ih, add]
    simp

/-- When all outlets have been taken out of use one by one, none is left. -/
theorem foldl_erase_self (xs : List Outlet) : xs.foldl List.erase xs = [] := by
  induction xs with
  | nil => rfl
  | cons x xs ih => rw [List.foldl_cons, List.erase_cons_head, ih]

theorem setUp_eq : o.setUp level file = (levelOf level).map fun n =>
    { o with level := n, inUse := Outlet.chosen file, answers := [] } := by
  cases h : levelOf level with
  | error f =>
    rw [setUp, setLevel, h]
    rfl
  | ok n =>
    rw [setUp, setLevel, h]
    show Except.ok ((Outlet.chosen file).foldl add (o.inUse.foldl remove _)) = _
    rw [foldl_remove, foldl_add, foldl_erase_self]
    rfl

/-- A name is an unknown level exactly if it is not in the list. -/
theorem levelOf_name_eq_error_iff {name : String} :
    levelOf (.str name) = .error .unknownLevel ↔ ∀ n, (name, n) ∉ levelNames := by
  rw [levelOf]
  cases h : levelNames.lookup name with
  | none =>
    have hnone := List.lookup_eq_none_iff.mp h
    refine ⟨fun _ n hn => ?_, fun _ => rfl⟩
    simpa using hnone _ hn
  | some n =>
    obtain ⟨before, behind, hnames, -⟩ := List.lookup_eq_some_iff.mp h
    refine ⟨nofun, fun hnone => absurd ?_ (hnone n)⟩
    rw [hnames]
    simp

end Outlets

/-! ## Runs -/

/-- The level and the file of a set-up that succeeds. -/
def Outlets.Event.success? : Event → Option (Int × Option String)
  | .setUp level file =>
    match levelOf level with
    | .ok n => some (n, file)
    | .error _ => none
  | .record _ => none

/-- The record of an event. -/
def Outlets.Event.record? : Event → Option Record
  | .setUp _ _ => none
  | .record r => some r

/-- The latest set-up that succeeded. -/
def latest? (es : List Event) : Option (Int × Option String) :=
  es.reverse.findSome? Event.success?

/-- The number of set-ups that succeeded. -/
def successes (es : List Event) : ℕ := es.countP fun e => e.success?.isSome

/-- The level that is set after some events. -/
def levelAfter (es : List Event) : Int := (latest? es).elim initial.level (·.1)

/-- The outlets in use after some events. -/
def inUseAfter (es : List Event) : List Outlet :=
  (latest? es).elim initial.inUse fun s => Outlet.chosen s.2

/-- The writers that have had records. -/
def writersIn (es : List Event) : List String := (es.filterMap Event.record?).map (·.writer)

/-- The records among further events, each with all that came before it. -/
def entriesAfter (before : List Event) : List Event → List (List Event × Record)
  | [] => []
  | .record r :: es => (before, r) :: entriesAfter (before ++ [.record r]) es
  | e :: es => entriesAfter (before ++ [e]) es

/-- The records of a run, each with what came before it. -/
def entries (es : List Event) : List (List Event × Record) := entriesAfter [] es

section

variable (root : String) (before : List Event) (r : Record)

/-- The writers in use when a record has come. -/
def writersAt : List String := root :: (writersIn before ++ [r.writer])

/-- The level of a record is reached when it comes. -/
def isReached : Bool := reachesLevel root (writersAt root before r) (levelAfter before) r

/-- A record asks the same as another one, with no set-up in between that succeeded. -/
def asksAgain (asked : List Event × Record) : Bool :=
  (asked.2.writer, asked.2.level) == (r.writer, r.level) && successes asked.1 == successes before

/-- The answer for a record: that for the first one which asked the same since the latest set-up. -/
def isAdmitted : Bool :=
  let asked := ((entries before).find? (asksAgain before r)).getD (before, r)
  isReached root asked.1 asked.2

/-- A record is written. -/
def isWritten : Bool :=
  isAdmitted root before r && isBelow root (writersAt root before r) r.writer

end

theorem asksAgain_self (before : List Event) (r : Record) :
    asksAgain before r (before, r) = true := by
  rw [asksAgain, beq_self_eq_true, beq_self_eq_true]
  rfl

/-! ## One more event -/

section

variable {es : List Event} {e : Event} {r : Record} {level : Json} {file : Option String}

theorem entriesAfter_append_singleton (before : List Event) :
    entriesAfter before (es ++ [e]) =
      entriesAfter before es ++ (e.record?.map fun r => (before ++ es, r)).toList := by
  induction es generalizing before with
  | nil => cases e <;> simp [entriesAfter, Event.record?]
  | cons e' es ih => cases e' <;> simp [entriesAfter, ih]

theorem entries_record : entries (es ++ [.record r]) = entries es ++ [(es, r)] :=
  entriesAfter_append_singleton []

theorem entries_setUp : entries (es ++ [.setUp level file]) = entries es :=
  (entriesAfter_append_singleton []).trans (List.append_nil _)

theorem latest?_append_singleton : latest? (es ++ [e]) = e.success?.or (latest? es) := by
  rw [latest?, List.reverse_append, List.reverse_singleton, List.singleton_append,
    List.findSome?_cons]
  cases e.success? <;> rfl

theorem successes_append_singleton :
    successes (es ++ [e]) = successes es + if e.success?.isSome then 1 else 0 := by
  rw [successes, List.countP_append, List.countP_singleton]
  rfl

theorem writersIn_record : writersIn (es ++ [.record r]) = writersIn es ++ [r.writer] := by
  simp [writersIn, Event.record?]

theorem writersIn_setUp : writersIn (es ++ [.setUp level file]) = writersIn es := by
  simp [writersIn, Event.record?]

theorem successes_le_of_mem_entries {entry : List Event × Record} (h : entry ∈ entries es) :
    successes entry.1 ≤ successes es := by
  induction es using List.reverseRecOn with
  | nil => cases h
  | append_singleton es e ih =>
    rw [successes_append_singleton]
    cases e with
    | setUp level file =>
      rw [entries_setUp] at h
      have hle := ih h
      omega
    | record r =>
      rw [entries_record, List.mem_append, List.mem_singleton] at h
      rcases h with h | rfl
      · have hle := ih h
        omega
      · exact Nat.le_add_right _ _

end

/-! ## What a run leaves -/

/-- The journal is as the events have left it. -/
structure Tracks (root : String) (es : List Event) (o : Outlets) : Prop where
  level : o.level = levelAfter es
  inUse : o.inUse = inUseAfter es
  writers : o.writers = writersIn es
  answers : ∀ r : Record, o.answers.lookup (r.writer, r.level) =
    ((entries es).find? (asksAgain es r)).map fun entry => isReached root entry.1 entry.2
  written : o.written = (entries es).flatMap fun entry =>
    if isWritten root entry.1 entry.2 then (inUseAfter entry.1).map fun x => (x, entry.2.line)
    else []

section

variable {root : String} {es : List Event} {o : Outlets}

theorem tracks_initial : Tracks root [] initial := ⟨rfl, rfl, rfl, fun _ => rfl, rfl⟩

/-- A record that asks again gets the answer that was given, and another one is answered now. -/
theorem Tracks.answer_eq (h : Tracks root es o) (r : Record) :
    (o.answers.lookup (r.writer, r.level)).getD
        (reachesLevel root (root :: (o.writers ++ [r.writer])) o.level r) =
      isAdmitted root es r := by
  have hnow : reachesLevel root (root :: (o.writers ++ [r.writer])) o.level r =
      isReached root es r := by
    rw [h.writers, h.level]
    rfl
  rw [h.answers, hnow, isAdmitted]
  cases (entries es).find? (asksAgain es r) <;> rfl

theorem Tracks.record (h : Tracks root es o) (r : Record) :
    Tracks root (es ++ [.record r]) (o.write root r) where
  level := by
    rw [levelAfter, latest?_append_singleton]
    exact h.level
  inUse := by
    rw [inUseAfter, latest?_append_singleton]
    exact h.inUse
  writers := by
    rw [writersIn_record, ← h.writers]
    rfl
  answers := by
    intro r'
    have hasks : asksAgain (es ++ [.record r]) r' = asksAgain es r' := by
      funext asked
      rw [asksAgain, asksAgain, successes_append_singleton]
      rfl
    have hanswers : (o.write root r).answers =
        ((r.writer, r.level), isAdmitted root es r) :: o.answers := by
      rw [← h.answer_eq r]
      rfl
    rw [hanswers, entries_record, hasks, List.find?_append]
    by_cases hkey : (r'.writer, r'.level) = (r.writer, r.level)
    · -- the record has asked, now or before
      have hsame : asksAgain es r' = asksAgain es r := by
        funext asked
        rw [asksAgain, hkey]
        rfl
      have hself : [(es, r)].find? (asksAgain es r) = some (es, r) := by
        rw [List.find?_singleton, asksAgain_self]
        rfl
      rw [hkey, List.lookup_cons_self, hsame, hself, isAdmitted]
      cases (entries es).find? (asksAgain es r) <;> rfl
    · have hother : [(es, r)].find? (asksAgain es r') = none := by
        rw [List.find?_singleton, asksAgain, beq_eq_false_iff_ne.mpr (Ne.symm hkey)]
        rfl
      rw [List.lookup_cons, beq_eq_false_iff_ne.mpr hkey, hother, Option.or_none]
      exact h.answers r'
  written := by
    have hwritten : (o.write root r).written = o.written ++
        if isWritten root es r then o.inUse.map fun x => (x, r.line) else [] := by
      rw [isWritten, ← h.answer_eq r, writersAt, ← h.writers]
      rfl
    rw [hwritten, entries_record, List.flatMap_append, h.written, h.inUse, List.flatMap_singleton]

/-- A set-up that fails is as good as none. -/
theorem Tracks.setUp_of_error (h : Tracks root es o) {level : Json} {f : Fault}
    (hlevel : levelOf level = .error f) (file : Option String) :
    Tracks root (es ++ [.setUp level file]) (o.after root (.setUp level file)) := by
  have hsuccess : (Event.setUp level file).success? = none := by
    rw [Event.success?, hlevel]
  have hlatest : latest? (es ++ [.setUp level file]) = latest? es := by
    rw [latest?_append_singleton, hsuccess]
    rfl
  have hsuccesses : successes (es ++ [.setUp level file]) = successes es := by
    rw [successes_append_singleton, hsuccess]
    rfl
  have hafter : o.after root (.setUp level file) = o := by
    rw [after, setUp_eq, hlevel]
    rfl
  rw [hafter]
  refine ⟨?_, ?_, ?_, ?_, ?_⟩
  · rw [levelAfter, hlatest]
    exact h.level
  · rw [inUseAfter, hlatest]
    exact h.inUse
  · rw [writersIn_setUp]
    exact h.writers
  · intro r
    have hasks : asksAgain (es ++ [.setUp level file]) r = asksAgain es r := by
      funext asked
      rw [asksAgain, asksAgain, hsuccesses]
    rw [entries_setUp, hasks]
    exact h.answers r
  · rw [entries_setUp]
    exact h.written

/-- All records so far came before a set-up that succeeds now, so that no writer has been asked since. -/
theorem Tracks.setUp_of_ok (h : Tracks root es o) {level : Json} {n : Int}
    (hlevel : levelOf level = .ok n) (file : Option String) :
    Tracks root (es ++ [.setUp level file]) (o.after root (.setUp level file)) := by
  have hsuccess : (Event.setUp level file).success? = some (n, file) := by
    rw [Event.success?, hlevel]
  have hlatest : latest? (es ++ [.setUp level file]) = some (n, file) := by
    rw [latest?_append_singleton, hsuccess]
    rfl
  have hsuccesses : successes (es ++ [.setUp level file]) = successes es + 1 := by
    rw [successes_append_singleton, hsuccess]
    rfl
  have hafter : o.after root (.setUp level file) =
      { o with level := n, inUse := Outlet.chosen file, answers := [] } := by
    rw [after, setUp_eq, hlevel]
    rfl
  rw [hafter]
  refine ⟨?_, ?_, ?_, ?_, ?_⟩
  · rw [levelAfter, hlatest]
    rfl
  · rw [inUseAfter, hlatest]
    rfl
  · rw [writersIn_setUp]
    exact h.writers
  · intro r
    have hnone : (entries es).find? (asksAgain (es ++ [.setUp level file]) r) = none := by
      rw [List.find?_eq_none]
      intro entry hentry
      have hle := successes_le_of_mem_entries hentry
      rw [asksAgain, hsuccesses, Bool.and_eq_true, beq_iff_eq, beq_iff_eq]
      omega
    rw [entries_setUp, hnone]
    rfl
  · rw [entries_setUp]
    exact h.written

theorem tracks_run (root : String) (es : List Event) : Tracks root es (run root initial es) := by
  induction es using List.reverseRecOn with
  | nil => exact tracks_initial
  | append_singleton es e ih =>
    rw [run, List.foldl_append]
    cases e with
    | setUp level file =>
      cases hlevel : levelOf level with
      | error f => exact ih.setUp_of_error hlevel file
      | ok n => exact ih.setUp_of_ok hlevel file
    | record r => exact ih.record r

end

/-! ## Lines -/

theorem nodup_chosen (file : Option String) : (Outlet.chosen file).Nodup := by
  rcases file with _ | name
  · exact List.nodup_singleton _
  · rw [Outlet.chosen]
    split <;> simp

theorem nodup_inUseAfter (es : List Event) : (inUseAfter es).Nodup := by
  rw [inUseAfter]
  cases latest? es with
  | none => exact List.nodup_singleton _
  | some s => exact nodup_chosen s.2

/-- A line that goes to some outlets, each of them once, comes to one of these once. -/
theorem linesAt_map {xs : List Outlet} (hxs : xs.Nodup) (x : Outlet) (line : String) :
    ((xs.map fun y => (y, line)).filter fun w => w.1 == x).map (·.2) =
      if x ∈ xs then [line] else [] := by
  have hfilter : xs.filter ((fun w => w.1 == x) ∘ fun y => (y, line)) =
      List.replicate (xs.count x) x := List.filter_beq x
  rw [List.filter_map, hfilter, List.map_map, List.map_replicate, hxs.count]
  split <;> rfl

theorem linesAt_run (root : String) (es : List Event) (x : Outlet) :
    (run root initial es).linesAt x = ((entries es).filter fun entry =>
      isWritten root entry.1 entry.2 && decide (x ∈ inUseAfter entry.1)).map (·.2.line) := by
  rw [linesAt, (tracks_run root es).written]
  induction entries es with
  | nil => rfl
  | cons entry later ih =>
    rw [List.flatMap_cons, List.filter_append, List.map_append, ih]
    cases hwritten : isWritten root entry.1 entry.2 with
    | false => simp [hwritten]
    | true =>
      rw [if_pos rfl, linesAt_map (nodup_inUseAfter entry.1)]
      by_cases hx : x ∈ inUseAfter entry.1 <;> simp [hwritten, hx]

theorem console_mem_inUseAfter {es : List Event} :
    Outlet.console ∈ inUseAfter es ↔ (latest? es).isSome = true := by
  rw [inUseAfter]
  rcases latest? es with _ | ⟨n, _ | name⟩
  · simp [initial]
  · simp [Outlet.chosen]
  · by_cases hname : name = "" <;> simp [Outlet.chosen, hname]

theorem file_mem_inUseAfter {es : List Event} {name : String} (hname : name ≠ "") :
    Outlet.file name ∈ inUseAfter es ↔ (latest? es).any (fun s => s.2 == some name) = true := by
  rw [inUseAfter]
  rcases latest? es with _ | ⟨n, _ | name'⟩
  · simp [initial]
  · simp [Outlet.chosen]
  · rcases eq_or_ne name' "" with rfl | hname'
    · simp [Outlet.chosen, hname.symm]
    · have hmem : Outlet.file name ∈ Outlet.chosen (some name') ↔ name = name' := by
        simp [Outlet.chosen, hname']
      refine hmem.trans (eq_comm.trans ?_)
      simp

/-! ## Records -/

section

variable {root : String} {before : List Event} {r : Record}

theorem isDotted_of_isWritten (h : isWritten root before r = true) : IsDotted root r.writer :=
  isDotted_of_isBelow ((Bool.and_eq_true _ _).mp h).2

/-- As long as no set-up succeeds, the latest one stays the same. -/
theorem latest?_of_mem_entries {es : List Event} {entry : List Event × Record}
    (h : entry ∈ entries es) (hsuccesses : successes entry.1 = successes es) :
    latest? entry.1 = latest? es := by
  induction es using List.reverseRecOn with
  | nil => cases h
  | append_singleton es e ih =>
    rw [successes_append_singleton] at hsuccesses
    rw [latest?_append_singleton]
    cases e with
    | setUp level file =>
      rw [entries_setUp] at h
      have hle := successes_le_of_mem_entries h
      cases hsuccess : (Event.setUp level file).success? with
      | none => exact ih h (by simpa [hsuccess] using hsuccesses)
      | some s =>
        rw [hsuccess, Option.isSome_some, if_pos rfl] at hsuccesses
        omega
    | record r =>
      rw [entries_record, List.mem_append, List.mem_singleton] at h
      rcases h with h | rfl
      · exact ih h hsuccesses
      · rfl

/-- Whether the level of a record is reached depends on its name, its level and the latest set-up, and
without two dots in a row in the name it depends on nothing else. -/
theorem isReached_iff (hroot : root ≠ "") (hdots : ¬ HasDoubleDot r.writer)
    (hdotted : IsDotted root r.writer) : isReached root before r = true ↔
      0 < r.level ∧ inForce (levelAfter before) ≤ r.level := by
  have hbelow : isBelow root (writersAt root before r) r.writer = true :=
    (isBelow_iff hroot List.mem_cons_self hdots).mpr hdotted
  rw [isReached, reachesLevel, hbelow, if_pos rfl, Bool.and_eq_true, decide_eq_true_eq,
    decide_eq_true_eq]

theorem isAdmitted_iff (hroot : root ≠ "") (hdots : ¬ HasDoubleDot r.writer)
    (hdotted : IsDotted root r.writer) : isAdmitted root before r = true ↔
      0 < r.level ∧ inForce (levelAfter before) ≤ r.level := by
  rw [isAdmitted]
  cases hasked : (entries before).find? (asksAgain before r) with
  | none => exact isReached_iff hroot hdots hdotted
  | some asked =>
    -- the record that asked first is one of the same writer and level, under the same set-up
    have hasks := List.find?_some hasked
    rw [asksAgain, Bool.and_eq_true, beq_iff_eq, beq_iff_eq, Prod.mk.injEq] at hasks
    obtain ⟨⟨hwriter, hlevel⟩, hsuccesses⟩ := hasks
    have hlatest := latest?_of_mem_entries (List.mem_of_find?_eq_some hasked) hsuccesses
    have hset : levelAfter asked.1 = levelAfter before := by
      rw [levelAfter, levelAfter, hlatest]
    rw [← hwriter] at hdots hdotted
    rw [Option.getD_some, isReached_iff hroot hdots hdotted, hlevel, hset]

theorem isWritten_iff (hroot : root ≠ "") (hdots : ¬ HasDoubleDot r.writer) :
    isWritten root before r = true ↔
      IsDotted root r.writer ∧ 0 < r.level ∧ inForce (levelAfter before) ≤ r.level := by
  constructor
  · intro h
    have hdotted := isDotted_of_isWritten h
    exact ⟨hdotted, (isAdmitted_iff hroot hdots hdotted).mp ((Bool.and_eq_true _ _).mp h).1⟩
  · rintro ⟨hdotted, hlevel⟩
    exact (Bool.and_eq_true _ _).mpr ⟨(isAdmitted_iff hroot hdots hdotted).mpr hlevel,
      (isBelow_iff hroot List.mem_cons_self hdots).mpr hdotted⟩

end

/-! ## Whole runs -/

/-- The outlets of a set-up are the console and the file, if one with a name is asked for. -/
theorem chosen_eq (file : Option String) :
    Outlet.chosen file = .console :: ((file.filter (· ≠ "")).map Outlet.file).toList := by
  rcases file with _ | name
  · rfl
  · by_cases hname : name = "" <;> simp [Outlet.chosen, Option.filter, hname]

/-- The journal after any set-ups and records. A set-up fails exactly if its level is unknown, for a
name if it is not in the list, and then leaves all as it was. After a set-up that succeeded its level
is set, and in use are the console and the file that it names, each once. The console has the lines of
the records that were written after some set-up had succeeded, and a file has those of the records
that were written while it was the file of the latest set-up, in the order in which they came and each
once. Only records of the root writer and of names that continue its name after a dot are written. Of
names without two dots in a row those are written whose level is that of the latest set-up at least,
or the default one where none is set. -/
theorem lines_of_run {root : String} (hroot : root ≠ "") (es : List Event) :
    (∀ level file f, levelOf level = .error f →
      (run root initial es).setUp level file = .error f ∧
      run root initial (es ++ [.setUp level file]) = run root initial es) ∧
    (∀ name, levelOf (.str name) = .error .unknownLevel ↔ ∀ n, (name, n) ∉ levelNames) ∧
    (∀ n file, latest? es = some (n, file) → (run root initial es).level = n ∧
      (run root initial es).inUse =
        .console :: ((file.filter (· ≠ "")).map Outlet.file).toList) ∧
    (run root initial es).linesAt .console = ((entries es).filter fun entry =>
      isWritten root entry.1 entry.2 && (latest? entry.1).isSome).map (·.2.line) ∧
    (∀ name, name ≠ "" →
      (run root initial es).linesAt (.file name) = ((entries es).filter fun entry =>
        isWritten root entry.1 entry.2 &&
          (latest? entry.1).any (fun s => s.2 == some name)).map (·.2.line)) ∧
    ∀ before r, (isWritten root before r = true → IsDotted root r.writer) ∧
      (¬ HasDoubleDot r.writer → (isWritten root before r = true ↔
        IsDotted root r.writer ∧ 0 < r.level ∧ inForce (levelAfter before) ≤ r.level)) := by
  have htracks := tracks_run root es
  refine ⟨?_, fun name => levelOf_name_eq_error_iff, ?_, ?_, ?_, ?_⟩
  · intro level file f hlevel
    have hfails : (run root initial es).setUp level file = .error f := by
      rw [setUp_eq, hlevel]
      rfl
    refine ⟨hfails, ?_⟩
    rw [run, List.foldl_append]
    show after root (run root initial es) (.setUp level file) = _
    rw [after, hfails]
  · intro n file hlatest
    rw [htracks.level, htracks.inUse, levelAfter, inUseAfter, hlatest]
    exact ⟨rfl, chosen_eq file⟩
  · rw [linesAt_run]
    simp only [console_mem_inUseAfter, Bool.decide_eq_true]
  · intro name hname
    rw [linesAt_run]
    simp only [file_mem_inUseAfter hname, Bool.decide_eq_true]
  · intro before r
    exact ⟨isDotted_of_isWritten, isWritten_iff hroot⟩

/-- Two set-ups with a failing one in between, and a record on either side of them. -/
def reloaded : List Event :=
  [.record ⟨"paramsurf", 40, "early"⟩, .setUp (.str "INFO") (some "a.log"),
    .record ⟨"paramsurf.x", 20, "one"⟩, .setUp (.str "LOUD") none,
    .record ⟨"other", 50, "foreign"⟩, .record ⟨"paramsurf", 30, "two"⟩,
    .setUp (.str "ERROR") none, .record ⟨"paramsurf.x", 20, "low"⟩,
    .record ⟨"paramsurf.x.y", 40, "three"⟩]

theorem lines_of_run_reloaded :
    "paramsurf" ≠ "" ∧ latest? reloaded = some (40, none) ∧
    (run "paramsurf" initial reloaded).inUse = [.console] ∧
    (run "paramsurf" initial reloaded).linesAt .console =
      ["INFO    paramsurf.x: one", "WARNING paramsurf: two", "ERROR   paramsurf.x.y: three"] ∧
    (run "paramsurf" initial reloaded).linesAt (.file "a.log") =
      ["INFO    paramsurf.x: one", "WARNING paramsurf: two"] := by
  have hroot : "paramsurf" ≠ "" := by decide
  have hlatest : latest? reloaded = some (40, none) := by decide +kernel
  obtain ⟨-, -, hlast, hconsole, hfile, -⟩ := lines_of_run hroot reloaded
  refine ⟨hroot, hlatest, (hlast 40 none hlatest).2, ?_, ?_⟩
  · rw [hconsole]
    decide +kernel
  · rw [hfile "a.log" (by decide)]
    decide +kernel

/-- A record is lost although its writer's name continues the root's after a dot and its level is
reached: with two dots in a row the root is not found above it. -/
theorem line_lost_behind_two_dots :
    ¬ ∀ (es : List Event) (r : Record) (n : Int) (file : Option String),
      latest? es = some (n, file) → IsDotted "paramsurf" r.writer → 0 < r.level →
      inForce n ≤ r.level →
      r.line ∈ (run "paramsurf" initial (es ++ [.record r])).linesAt .console := by
  intro h
  have hdotted : IsDotted "paramsurf" "paramsurf..x" := .inr ⟨".x", by decide⟩
  have hmem := h [.setUp (.str "INFO") none] ⟨"paramsurf..x", 20, "lost"⟩ 20 none
    (by decide +kernel) hdotted (by decide) (by decide)
  have hnone : (run "paramsurf" initial
      [.setUp (.str "INFO") none, .record ⟨"paramsurf..x", 20, "lost"⟩]).linesAt .console = [] := by
    decide +kernel
  exact absurd (hnone ▸ hmem) List.not_mem_nil

end SurfaceStudio.Journal
