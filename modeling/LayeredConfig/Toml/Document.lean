import LayeredConfig.Toml.Grammar

/-!
# TOML documents

A document is read as a list of statements, which build its tables one after the other. An error is
known by its line: that of the first statement that conflicts with those before it, or else that of
the point where reading stopped, or else that of the first entry in the place of a date that is
none.
-/

namespace LayeredConfig.Toml

/-- A document that is no TOML, by the line, from one, on which that shows, and a text that says
what shows there. -/
structure ParseError where
  line : Nat
  text : String
deriving DecidableEq, Inhabited

namespace ParseError

def message (problem : ParseError) : String :=
  problem.text ++ " (line " ++ toString problem.line ++ ")"

end ParseError

/-- A document under construction, with the keys of the table that statements go into. -/
structure Progress where
  root : Draft
  current : List String

namespace Progress

def start : Progress := ⟨[], []⟩

def step (progress : Progress) (place : Place) : Statement → Except Draft.Conflict Progress
  | .table target => do
    return ⟨← progress.root.openTable place target, target.parents ++ [target.key]⟩
  | .element target => do
    return ⟨← progress.root.openElement place target, target.parents ++ [target.key]⟩
  | .assign target value => do
    let assign := Draft.assign place target value
    return ⟨← Draft.descend place assign progress.current progress.root, progress.current⟩

/-- Carries out statements up to the first conflict, which stops at the statement. -/
def run : Progress → List (Place × Statement) → Reading Progress
  | progress, [] => .ok progress
  | progress, (place, next) :: rest =>
    match progress.step place next with
    | .ok progress => progress.run rest
    | .error _ => stop place

end Progress

def lineOf (whole : List Char) (rest : Place) : Nat :=
  1 + (whole.count '\n' - rest.count '\n')

/-- A byte order mark at the very beginning is passed over. -/
def afterMark : List Char → List Char
  | '\uFEFF' :: rest => rest
  | cs => cs

def parse (contents : String) : Except ParseError Value :=
  let whole := contents.toList
  let body := afterMark whole
  let (read, stopped) := statements (body.length + 1) body
  let failure (stopped : Stop) : Except ParseError Value :=
    .error ⟨lineOf whole stopped.rest, "TOML"⟩
  match Progress.start.run read, stopped with
  | .error conflict, _ => failure conflict
  | .ok _, some stopped => failure stopped
  | .ok progress, none =>
    match finishEntries progress.root with
    | .error stopped => failure stopped
    | .ok entries => .ok (.table entries)

end LayeredConfig.Toml
