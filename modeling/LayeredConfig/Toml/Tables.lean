import LayeredConfig.Toml.Node

/-!
# Building tables

Statements put values and tables into a document under construction. How a table came to be decides
what may still be added to it: a header may open a table once, also after headers of tables below
it; dotted keys may extend only tables that dotted keys made.
-/

namespace LayeredConfig.Toml

structure DottedKey where
  parents : List String
  key : String
deriving DecidableEq, Inhabited

namespace Draft

structure Conflict where
deriving DecidableEq

abbrev Building := Except Conflict Draft

def conflict : Building := .error ⟨⟩

/-- Changes the table that headers reach from `draft` by the given keys, making tables on the way.
Of an array of tables they reach the last element. -/
def descend (place : Place) (change : Draft → Building) : List String → Draft → Building
  | [], draft => change draft
  | key :: keys, draft =>
    match Keyed.get? draft key with
    | none => do
      return put draft key (place, .table .passed (← descend place change keys []))
    | some (made, .table standing entries) => do
      return put draft key (made, .table standing (← descend place change keys entries))
    | some (made, .tables done last) => do
      return put draft key (made, .tables done (← descend place change keys last))
    | some _ => conflict

/-- Puts a value at a dotted key. `direct` says whether the draft at hand may take the last key
itself: the table of the statement may, and below it those that dotted keys made. -/
def assignFrom (place : Place) (key : String) (value : Node) (direct : Bool) :
    List String → Draft → Building
  | [], draft =>
    if direct ∧ (Keyed.get? draft key).isNone then .ok (put draft key (place, value))
    else conflict
  | parent :: parents, draft =>
    match Keyed.get? draft parent with
    | none => do
      return put draft parent (place, .table .dotted (← assignFrom place key value true parents []))
    | some (_, .table .opened _) => conflict
    | some (made, .table standing entries) => do
      let direct := decide (standing = .dotted)
      return put draft parent
        (made, .table standing (← assignFrom place key value direct parents entries))
    | some (made, .tables done last) => do
      return put draft parent
        (made, .tables done (← assignFrom place key value false parents last))
    | some _ => conflict

def assign (place : Place) (target : DottedKey) (value : Node) (draft : Draft) : Building :=
  assignFrom place target.key value true target.parents draft

/-- Opens the table that a header names: a new one, or one that only headers below it passed. Either
comes last in its table. -/
def openTable (place : Place) (target : DottedKey) (root : Draft) : Building :=
  descend place (fun draft =>
    match Keyed.get? draft target.key with
    | none => .ok (draft ++ [(target.key, place, .table .opened [])])
    | some (_, .table .passed entries) =>
      .ok (Keyed.erase draft target.key ++ [(target.key, place, .table .opened entries)])
    | some _ => conflict) target.parents root

/-- Opens a new last element of the array of tables that a header names. -/
def openElement (place : Place) (target : DottedKey) (root : Draft) : Building :=
  descend place (fun draft =>
    match Keyed.get? draft target.key with
    | none => .ok (put draft target.key (place, .tables [] []))
    | some (made, .tables done last) =>
      .ok (put draft target.key (made, .tables (done ++ [last]) []))
    | some _ => conflict) target.parents root

end Draft

end LayeredConfig.Toml
