/-!
# Dotted paths

Key paths written as one string, keys joined by dots. Different key paths can share one dotted
form, since keys may hold dots or be empty.
-/

namespace LayeredConfig.KeyPath

/-- A dotted path with one more key. Below the root there is no dot before the key. -/
def join (path key : String) : String :=
  if path = "" then key else path ++ "." ++ key

def dotted (keys : List String) : String :=
  keys.foldl join ""

/-- The parts of a list that end before an occurrence of `separator`, shortest first, and the whole
list last. -/
def cuts (separator : Char) : List Char → List (List Char)
  | [] => [[]]
  | c :: rest =>
    let longer := (cuts separator rest).map (c :: ·)
    if c = separator then [] :: longer else longer

/-- A dotted path and what is left of it before each of its dots, longest first. -/
def ancestors (path : String) : List String :=
  (cuts '.' path.toList).reverse.map String.ofList

/-- The path lies strictly below `above`: it goes on from there with a dot. -/
def isBelow (path above : String) : Bool :=
  (above ++ ".").toList.isPrefixOf path.toList

end LayeredConfig.KeyPath
