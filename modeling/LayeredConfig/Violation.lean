import LayeredConfig.Origin

/-!
# Violations

The problems that a resolution can find, and the report that lists them all. Each violation is
rendered on one line of the report unless its own texts hold line breaks.
-/

namespace LayeredConfig

inductive Violation where
  | missingRequiredField (path : String)
  | typeMismatch (path expected found : String) (origin : Origin)
  | malformedSource (origin : Origin) (message : String)
  | unknownField (path : String) (origin : Origin)
  /-- A value of the right kind that cannot be used. -/
  | invalidValue (path message : String)
deriving DecidableEq, Inhabited

namespace Violation

/-- The dotted path that the violation is about, if it is about one place. -/
def path? : Violation → Option String
  | missingRequiredField path => some path
  | typeMismatch path _ _ _ => some path
  | malformedSource _ _ => none
  | unknownField path _ => some path
  | invalidValue path _ => some path

def render : Violation → String
  | missingRequiredField path => "missing required field `" ++ path ++ "`"
  | typeMismatch path expected found origin =>
    "type mismatch at `" ++ path ++ "` (from " ++ origin.render ++ "): expected " ++ expected
      ++ ", found " ++ found
  | malformedSource origin message => "malformed source (" ++ origin.render ++ "): " ++ message
  | unknownField path origin => "unknown field `" ++ path ++ "` (from " ++ origin.render ++ ")"
  | invalidValue path message => "invalid value at `" ++ path ++ "`: " ++ message

end Violation

/-- Every violation of one resolution, in the order in which they were found. -/
structure Report where
  violations : List Violation
deriving DecidableEq, Inhabited

namespace Report

/-- The number of problems, then each violation on a line of its own. -/
def render (report : Report) : String :=
  "invalid configuration (" ++ toString report.violations.length ++ " problem(s)):"
    ++ String.join (report.violations.map fun violation => "\n  - " ++ violation.render)

end Report

end LayeredConfig
