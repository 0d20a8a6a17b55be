/-!
# Beginnings of texts
-/

namespace LayeredConfig.Text

/-- The characters after `start`, if the list begins with it. -/
def after? : List Char → List Char → Option (List Char)
  | [], cs => some cs
  | _ :: _, [] => none
  | s :: start, c :: cs => if s = c then after? start cs else none

def beginsWith (text start : String) : Bool :=
  start.toList.isPrefixOf text.toList

/-- ASCII letters in lower case; all other characters stay. -/
def lowerCase (cs : List Char) : List Char := cs.map Char.toLower

end LayeredConfig.Text
