import SurfaceStudio.Failure
import SurfaceStudio.Text.Lines
/-!
Where the records of the journal go: to the console, and to a file if one is named. The set-up says
from which level on records are written; a record belongs to a writer, and only those of one root
writer and of the writers below it are written. Which writers are above one another follows from the
dots in their names and from the writers that are in use.
-/

namespace SurfaceStudio.Journal

/-- The levels that have names. -/
def levelNames : List (String × Int) :=
  [("CRITICAL", 50), ("ERROR", 40), ("WARNING", 30), ("INFO", 20), ("DEBUG", 10), ("NOTSET", 0),
   ("FATAL", 50), ("WARN", 30)]

/-- The level that is in force where none is set. -/
def defaultLevel : Int := 30

/-- The level that was asked for: a number, or a name in capital letters. -/
def levelOf : Json → Except Fault Int
  | .int n => .ok n
  | .bool b => .ok (if b then 1 else 0)
  | .str name =>
    match levelNames.lookup name with
    | some n => .ok n
    | none => .error .unknownLevel
  | _ => .error .notAnInteger

/-- The name of a level in a line. -/
def levelText (level : Int) : String :=
  match levelNames.find? (·.2 == level) with
  | some (name, _) => name
  | none => s!"Level {level}"

/-- A record as its writer handed it in. -/
structure Record where
  writer : String
  level : Int
  message : String
  deriving Repr, DecidableEq

/-- A text filled with spaces to at least seven characters. -/
def padded (s : String) : String := s.pushn ' ' (7 - s.length)

/-- The text of a record, which is one line unless its message has several. -/
def Record.line (r : Record) : String :=
  padded (levelText r.level) ++ " " ++ r.writer ++ ": " ++ r.message

/-- The lines that written records take up, one record below the other. -/
def linesOf (records : List String) : List String :=
  records.flatMap fun r => Text.lines (r ++ "\n")

/-! ## Writers -/

/-- The names above a name, nearest first, all of them with the last letter first: the name is cut
at its last dot, and each further cut leaves out at least one more letter before the dot. -/
def cuts : List Char → List (List Char)
  | [] => []
  | '.' :: c :: rest => (c :: rest) :: cuts rest
  | _ :: rest => cuts rest

/-- The nearest writer above a name, of those in use. -/
def above? (inUse : List String) (name : String) : Option String :=
  ((cuts name.toList.reverse).map fun cs => String.ofList cs.reverse).find? inUse.contains

/-- The root writer, or one from which it is reached in at most `steps` steps. -/
def reaches (root : String) (inUse : List String) : (steps : Nat) → (name : String) → Bool
  | 0, name => name == root
  | steps + 1, name => name == root || (above? inUse name).any (reaches root inUse steps)

/-- The root writer or one below it. Every step up shortens the name. -/
def isBelow (root : String) (inUse : List String) (name : String) : Bool :=
  reaches root inUse name.length name

/-! ## Outlets -/

/-- A place that lines are written to. -/
inductive Outlet where
  /-- What was in use before the first set-up. Nobody reads its lines. -/
  | former
  | console
  | file (name : String)
  deriving Repr, DecidableEq

/-- The level from which on records are written if `level` is set. -/
def inForce (level : Int) : Int := if level = 0 then defaultLevel else level

/-- The answer of a writer that is asked whether a record matters enough: below the root writer the
level that is set counts, and elsewhere the default one. -/
def reachesLevel (root : String) (inUse : List String) (level : Int) (r : Record) : Bool :=
  0 < r.level && (if isBelow root inUse r.writer then inForce level else defaultLevel) ≤ r.level

/-- The outlets of a set-up: the console, and the file if one is named. -/
def Outlet.chosen (file : Option String) : List Outlet :=
  match file with
  | some name => if name.isEmpty then [.console] else [.console, .file name]
  | none => [.console]

/-- The set-up of the journal, the writers that were in use besides the root, and what was written so
far and where. A writer is asked about a level once: its answer holds until the next set-up. -/
structure Outlets where
  level : Int
  inUse : List Outlet
  writers : List String
  answers : List ((String × Int) × Bool)
  written : List (Outlet × String)
  deriving Repr, DecidableEq

namespace Outlets

/-- Before the first set-up. -/
def initial : Outlets := ⟨20, [.former], [], [], []⟩

/-- The number of outlets in use. -/
def count (o : Outlets) : Nat := o.inUse.length

/-- Sets the level. All writers have to be asked again. -/
def setLevel (o : Outlets) (level : Json) : Except Fault Outlets :=
  (levelOf level).map fun n => { o with level := n, answers := [] }

/-- Takes an outlet out of use. -/
def remove (o : Outlets) (x : Outlet) : Outlets := { o with inUse := o.inUse.erase x }

/-- Puts an outlet to use besides the others. -/
def add (o : Outlets) (x : Outlet) : Outlets := { o with inUse := o.inUse ++ [x] }

/-- Sets the level and replaces the outlets, by the console and by the file that is named. An unknown
level changes nothing. A file can always be written to, and keeps the lines that it has. -/
def setUp (o : Outlets) (level : Json) (file : Option String) : Except Fault Outlets := do
  let leveled ← o.setLevel level
  let cleared := leveled.inUse.foldl remove leveled
  return (Outlet.chosen file).foldl add cleared

/-- Takes a record. The line of one that is written goes to all outlets in use. -/
def write (root : String) (o : Outlets) (r : Record) : Outlets :=
  let writers := o.writers ++ [r.writer]
  let answer := (o.answers.lookup (r.writer, r.level)).getD
    (reachesLevel root (root :: writers) o.level r)
  let lines := if answer && isBelow root (root :: writers) r.writer then
      o.inUse.map fun x => (x, r.line)
    else []
  { o with
    writers := writers
    answers := ((r.writer, r.level), answer) :: o.answers
    written := o.written ++ lines }

/-- The lines that were written to an outlet. -/
def linesAt (x : Outlet) (o : Outlets) : List String :=
  (o.written.filter fun w => w.1 == x).map (·.2)

/-- What the journal is asked to do. -/
inductive Event where
  | setUp (level : Json) (file : Option String)
  | record (r : Record)

/-- The journal after an event; a set-up that fails leaves it as it was. -/
def after (root : String) (o : Outlets) : Event → Outlets
  | .setUp level file =>
    match o.setUp level file with
    | .ok next => next
    | .error _ => o
  | .record r => o.write root r

/-- The journal after some events. -/
def run (root : String) (o : Outlets) (es : List Event) : Outlets := es.foldl (after root) o

end Outlets

end SurfaceStudio.Journal
