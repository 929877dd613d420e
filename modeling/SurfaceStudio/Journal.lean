import SurfaceStudio.Json.Basic
/-!
The journal: records of what the studio did.
-/

namespace SurfaceStudio.Journal

/-- The parts of the studio that write records. -/
inductive Source where
  | surface
  | fourier
  | session
  deriving Repr, DecidableEq

/-- How much a record matters. -/
inductive Weight where
  | info
  | warning
  deriving Repr, DecidableEq

/-- The name of a weight. -/
def Weight.name : Weight → String
  | .info => "INFO"
  | .warning => "WARNING"

/-- A record. -/
structure Entry where
  weight : Weight
  source : Source
  message : String
  deriving Repr, DecidableEq

end SurfaceStudio.Journal
