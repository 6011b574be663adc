import DeclSurvey.Text.Basic

/-! # The log

What a run tells about its work, apart from its result.  Each line has a severity; lines for
debugging are kept only on demand. -/

namespace DeclSurvey

/-- How much a line of the log matters. -/
inductive Severity where
  /-- For whoever follows the run closely. -/
  | debug
  /-- For everyone. -/
  | info
  /-- Something was passed over. -/
  | warn
  deriving DecidableEq, Repr

namespace Severity

/-- The name of a severity in the log. -/
def name : Severity → Text
  | debug => "DEBUG".toList
  | info => "INFO".toList
  | warn => "WARN".toList

end Severity

/-- A line of the log. -/
structure LogLine where
  /-- How much it matters. -/
  severity : Severity
  /-- What it says. -/
  message : Text
  deriving DecidableEq, Repr

namespace LogLine

/-- The line as it is written. -/
def display (l : LogLine) : Text :=
  l.severity.name ++ ' ' :: l.message

/-- The lines that are kept: all of them, or all but those for debugging. -/
def kept (verbose : Bool) (log : List LogLine) : List LogLine :=
  log.filter fun l => verbose || l.severity != .debug

@[simp] theorem kept_true (log : List LogLine) : kept true log = log := by
  simp [kept]

end LogLine

end DeclSurvey
