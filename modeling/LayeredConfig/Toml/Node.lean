import LayeredConfig.Toml.Reading
import LayeredConfig.Toml.Value

/-!
# Parts of a document

A document under construction keeps what its values no longer show: the order in which keys came,
where each entry was written, and how each table came to be. A finished part becomes a value.
A table below the document's own whose first key is the one under which trees hold dates is itself
a date: the text at that key must be that of a date or time, and the keys after it are passed over.
-/

namespace LayeredConfig.Toml

/-- How a table came to be. -/
inductive Standing where
  /-- By a header of its own, or as an element of an array of tables. -/
  | opened
  /-- On the way of a header to a table below it. -/
  | passed
  /-- On the way of a dotted key. -/
  | dotted
deriving DecidableEq, Inhabited

/-- A part of a document. The entries of a table come with the place on whose line each stands. -/
inductive Node where
  | scalar (value : Scalar)
  | array (items : List Node)
  /-- A table between braces, which takes nothing more in. -/
  | inline (entries : List (String × Place × Node))
  | table (standing : Standing) (entries : List (String × Place × Node))
  /-- An array of tables, of which the last is open. -/
  | tables (done : List (List (String × Place × Node))) (last : List (String × Place × Node))
deriving Inhabited

/-- The entries of a table under construction, in the order in which their keys came. -/
abbrev Draft := List (String × Place × Node)

namespace Draft

/-- The draft with an entry for `key`: in the place of one that is there, or at the end. -/
def put : Draft → String → Place × Node → Draft
  | [], key, entry => [(key, entry)]
  | (other, present) :: rest, key, entry =>
    if other = key then (key, entry) :: rest else (other, present) :: put rest key entry

/-- The date that a table stands for, if its first key is reserved for one. -/
def dated? : Draft → Option (Reading Value)
  | [] => none
  | (key, place, node) :: _ =>
    if key = Value.dateTimeKey then
      match node with
      | .scalar (.string text) =>
        match DateTime.ofText? text with
        | some moment => some (.ok (.dateTime moment))
        | none => some (stop place)
      | _ => some (stop place)
    else none

/-- The value of a table below the document's own, given what its entries amount to. -/
def asValue (draft : Draft) (entries : Reading (List (String × Value))) : Reading Value :=
  match draft.dated? with
  | some read => read
  | none => entries.map .table

end Draft

mutual

/-- The value that a finished part of a document is. What is wrong with it stops at its place. -/
def Node.finish : Node → Reading Value
  | .scalar value => .ok value.toValue
  | .array items => (finishItems items).map .array
  | .inline entries => Draft.asValue entries (finishEntries entries)
  | .table _ entries => Draft.asValue entries (finishEntries entries)
  | .tables done last => do
    let values ← finishTables done
    return .array (values ++ [← Draft.asValue last (finishEntries last)])
termination_by structural node => node

def finishItems : List Node → Reading (List Value)
  | [] => .ok []
  | node :: rest => do
    let value ← node.finish
    return value :: (← finishItems rest)
termination_by structural items => items

def finishEntries : List (String × Place × Node) → Reading (List (String × Value))
  | [] => .ok []
  | (key, _, node) :: rest => do
    let value ← node.finish
    return Keyed.insert (← finishEntries rest) key value
termination_by structural entries => entries

def finishTables : List (List (String × Place × Node)) → Reading (List Value)
  | [] => .ok []
  | entries :: rest => do
    let value ← Draft.asValue entries (finishEntries entries)
    return value :: (← finishTables rest)
termination_by structural tables => tables

end

end LayeredConfig.Toml
