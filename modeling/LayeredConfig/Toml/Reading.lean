/-!
# Reading text

What the readers of a grammar share. A reader takes text from the front of its argument and returns
what is left. One that fails for good returns the text at which it stopped, from which the line of
the error follows. An attempt may also find that the text does not begin with what it looks for;
once it has found that it does, whatever breaks off is an error.
-/

namespace LayeredConfig.Toml

/-- A point in a text, as the text from there on. -/
abbrev Place := List Char

structure Stop where
  rest : Place
deriving DecidableEq

abbrev Reading := Except Stop

abbrev Taken (α : Type) := α × List Char

abbrev Reader (α : Type) := List Char → Reading (Taken α)

/-- Takes something from the front of a text that begins with it. -/
abbrev Attempt (α : Type) := List Char → Reading (Option (Taken α))

def stop {α : Type} (rest : Place) : Reading α := .error ⟨rest⟩

def prepend (c : Char) (read : Reading (Taken (List Char))) : Reading (Taken (List Char)) :=
  read.map fun (cs, rest) => (c :: cs, rest)

def mark (c : Char) : List Char → Reading (List Char)
  | [] => stop []
  | d :: rest => if d = c then .ok rest else stop (d :: rest)

def isBlank (c : Char) : Bool := decide (c = ' ' ∨ c = '\t')

def skipBlanks (cs : List Char) : List Char := cs.dropWhile isBlank

/-- Characters that may stand in texts and comments. Control characters other than the tab may
not. -/
def isPlain (c : Char) : Bool :=
  decide (c = '\t' ∨ (0x20 ≤ c.toNat ∧ c.toNat ≠ 0x7F))

/-- The text after a line break, if it begins with one. A carriage return alone is none. -/
def lineBreak? : List Char → Option (List Char)
  | '\n' :: rest => some rest
  | '\r' :: '\n' :: rest => some rest
  | _ => none

/-- The text from the end of a comment, if it begins with one. -/
def skipComment : List Char → List Char
  | '#' :: rest => rest.dropWhile isPlain
  | cs => cs

/-- The rest of a line after a statement: blanks, a comment, and a line break or the end. -/
def endOfLine (cs : List Char) : Reading (List Char) :=
  match skipComment (skipBlanks cs) with
  | [] => .ok []
  | other =>
    match lineBreak? other with
    | some rest => .ok rest
    | none => stop other

mutual

def skipGap : List Char → Reading (List Char)
  | [] => .ok []
  | '\r' :: '\n' :: rest => skipGap rest
  | c :: rest =>
    if isBlank c ∨ c = '\n' then skipGap rest
    else if c = '#' then skipGapComment rest
    else if c = '\r' then stop (c :: rest)
    else .ok (c :: rest)
termination_by structural cs => cs

/-- Skips the comment of which `#` has been read, and the gap after it. -/
def skipGapComment : List Char → Reading (List Char)
  | [] => stop []
  | '\r' :: '\n' :: rest => skipGap rest
  | c :: rest =>
    if c = '\n' then skipGap rest
    else if isPlain c then skipGapComment rest
    else stop (c :: rest)
termination_by structural cs => cs

end

end LayeredConfig.Toml
