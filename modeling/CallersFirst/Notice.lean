/-! What a run tells about its progress. -/

namespace CallersFirst

/-- How much a notice matters. -/
inductive Level where
  /-- Progress. -/
  | info
  /-- Something was left undone. -/
  | warn
deriving DecidableEq, Repr

/-- A line about the progress of a run. -/
structure Notice where
  /-- How much it matters. -/
  level : Level
  /-- What it says. -/
  text : String
deriving DecidableEq, Repr

/-- The word for a level. -/
def Level.word : Level → String
  | .info => "INFO"
  | .warn => "WARN"

/-- A notice as a line. -/
def Notice.line (notice : Notice) : String :=
  notice.level.word ++ " " ++ notice.text

end CallersFirst
