import LayeredConfig.Text.Digits

/-!
# Socket addresses

The text form of an internet address with a port: four decimal octets, or eight groups of
hexadecimal digits in brackets in which one run of zero groups may be left out and the last two
groups may be written as four octets. A bracketed address may name a scope after a percent sign.

Each reader returns what it read and the text after it.
-/

namespace LayeredConfig.SocketAddress

open Text (isDigit isHexDigit natOfDigits)

/-- Digits up to the first character of another kind, of which there must be one or more. -/
def number? (cs : List Char) : Option (List Char × List Char) :=
  let digits := cs.takeWhile isDigit
  if digits = [] then none else some (digits, cs.dropWhile isDigit)

/-- A number from 0 to 255 of at most three digits, without a zero before other digits. -/
def octet? (cs : List Char) : Option (List Char) :=
  (number? cs).bind fun (digits, rest) =>
    let short := digits.length ≤ 3 ∧ (digits.head? ≠ some '0' ∨ digits.length = 1)
    if short ∧ natOfDigits 10 digits ≤ 255 then some rest else none

def char? (c : Char) : List Char → Option (List Char)
  | [] => none
  | d :: rest => if d = c then some rest else none

def v4? (cs : List Char) : Option (List Char) := do
  let cs ← octet? cs
  let cs ← octet? (← char? '.' cs)
  let cs ← octet? (← char? '.' cs)
  octet? (← char? '.' cs)

def group? (cs : List Char) : Option (List Char) :=
  let digits := cs.takeWhile isHexDigit
  if digits ≠ [] ∧ digits.length ≤ 4 then some (cs.dropWhile isHexDigit) else none

/-- What was read of a run of groups: how many, and whether octets closed it. -/
structure Run where
  count : Nat
  closed : Bool

/-- Reads groups, joined by colons, while there is room for them. Octets take the room of two groups
and end the run. `taken` groups come before. -/
def groups (taken : Nat) : Nat → List Char → Run × List Char
  | 0, cs => (⟨taken, false⟩, cs)
  | room + 1, cs =>
    let start? := if taken = 0 then some cs else char? ':' cs
    match start? with
    | none => (⟨taken, false⟩, cs)
    | some start =>
      match (if room = 0 then none else v4? start) with
      | some rest => (⟨taken + 2, true⟩, rest)
      | none =>
        match group? start with
        | some rest => groups (taken + 1) room rest
        | none => (⟨taken, false⟩, cs)

/-- Eight groups, or two shorter runs around a double colon. -/
def v6? (cs : List Char) : Option (List Char) :=
  let (head, rest) := groups 0 8 cs
  if head.count = 8 then some rest
  else if head.closed then none
  else do
    let rest ← char? ':' (← char? ':' rest)
    some (groups 0 (7 - head.count) rest).2

/-- A number below `limit`, in any number of digits. -/
def below? (limit : Nat) (cs : List Char) : Option (List Char) :=
  (number? cs).bind fun (digits, rest) => if natOfDigits 10 digits < limit then some rest else none

def port? (cs : List Char) : Option (List Char) := do
  below? UInt16.size (← char? ':' cs)

def scope? (cs : List Char) : Option (List Char) :=
  match cs with
  | '%' :: rest => below? UInt32.size rest
  | _ => some cs

def bracketed? (cs : List Char) : Option (List Char) := do
  let cs ← scope? (← v6? (← char? '[' cs))
  char? ']' cs

/-- The whole text is an address with a port. -/
def valid (text : String) : Bool :=
  let ends (reader : List Char → Option (List Char)) : Bool :=
    ((reader text.toList).bind port?) == some []
  ends v4? || ends bracketed?

end LayeredConfig.SocketAddress
