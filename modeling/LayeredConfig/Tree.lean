import LayeredConfig.Keyed

/-!
# Configuration trees

The untyped form of a configuration: what a document holds, what a layer writes, and what the
layers together amount to. A tree is read at key paths, lists of keys from the root down. Keys are
arbitrary strings, so a key may hold dots or nothing at all.
-/

namespace LayeredConfig

/-- A configuration value. Arrays are opaque: no path leads into them. -/
inductive Tree where
  | null
  | bool (flag : Bool)
  | int (number : Int)
  | float (number : Float)
  | string (text : String)
  | array (items : List Tree)
  | table (entries : List (String × Tree))
deriving Inhabited

namespace Tree

def empty : Tree := .table []

def isTable : Tree → Bool
  | .table _ => true
  | _ => false

/-- The node at a key path. Only tables have nodes below them. -/
def at? : Tree → List String → Option Tree
  | tree, [] => some tree
  | .table entries, key :: path => (Keyed.get? entries key).bind fun child => child.at? path
  | _, _ :: _ => none

/-- The outcome of walking a key path that a schema gives. -/
inductive Lookup where
  | found (value : Tree)
  | missing
  /-- The node at `table`, a proper part of the path, is no table but `value`. -/
  | blocked (table : List String) (value : Tree)

/-- Walks `path` from a node that was itself reached by `walked`. -/
def lookupFrom (walked : List String) : Tree → List String → Lookup
  | tree, [] => .found tree
  | .table entries, key :: path =>
    match Keyed.get? entries key with
    | some child => lookupFrom (walked ++ [key]) child path
    | none => .missing
  | tree, _ :: _ => .blocked walked tree

/-- Walks a key path, telling a node that is absent from one that cannot be there. -/
def lookup (tree : Tree) (path : List String) : Lookup :=
  lookupFrom [] tree path

/-- The tree that holds `value` at the end of a path and nothing else. -/
def nest : List String → Tree → Tree
  | [], value => value
  | key :: path, value => .table [(key, nest path value)]

mutual

/-- How many values other than tables a tree holds. An array counts as one. -/
def leaves : Tree → Nat
  | .table entries => leavesIn entries
  | _ => 1
termination_by structural tree => tree

def leavesIn : List (String × Tree) → Nat
  | [] => 0
  | (_, child) :: rest => leaves child + leavesIn rest
termination_by structural entries => entries

end

mutual

/-- The tree with `layer` laid over it: tables are merged key by key, and anything else in the
layer takes the place of what was there. -/
def overlay (base : Tree) : Tree → Tree
  | .table entries =>
    match base with
    | .table under => .table (overlayIn under entries)
    | _ => .table entries
  | value => value
termination_by structural layer => layer

def overlayIn (under : List (String × Tree)) : List (String × Tree) → List (String × Tree)
  | [] => under
  | (key, value) :: rest =>
    let merged :=
      match Keyed.get? under key with
      | some existing => overlay existing value
      | none => value
    overlayIn (Keyed.insert under key merged) rest
termination_by structural entries => entries

end

mutual

/-- Every table of the tree has its keys in strictly ascending order. Trees with the same nodes at
the same paths are then equal. -/
def Canonical : Tree → Prop
  | .table entries => Keyed.Ascending entries ∧ CanonicalIn entries
  | _ => True
termination_by structural tree => tree

def CanonicalIn : List (String × Tree) → Prop
  | [] => True
  | (_, child) :: rest => Canonical child ∧ CanonicalIn rest
termination_by structural entries => entries

end

mutual

/-- Whether two trees are the same, key by key. -/
def same : Tree → Tree → Bool
  | .null, .null => true
  | .bool a, .bool b => decide (a = b)
  | .int a, .int b => decide (a = b)
  | .float a, .float b => decide (a = b)
  | .string a, .string b => decide (a = b)
  | .array as, .array bs => sameItems as bs
  | .table as, .table bs => sameEntries as bs
  | _, _ => false
termination_by structural tree => tree

def sameItems : List Tree → List Tree → Bool
  | [], [] => true
  | a :: as, b :: bs => same a b && sameItems as bs
  | _, _ => false
termination_by structural items => items

def sameEntries : List (String × Tree) → List (String × Tree) → Bool
  | [], [] => true
  | (j, a) :: as, (k, b) :: bs => decide (j = k) && same a b && sameEntries as bs
  | _, _ => false
termination_by structural entries => entries

end

mutual

theorem same_iff : ∀ (a b : Tree), same a b = true ↔ a = b
  | .array as, b => by cases b <;> simp [same, sameItems_iff as]
  | .table as, b => by cases b <;> simp [same, sameEntries_iff as]
  | .null, b | .bool _, b | .int _, b | .float _, b | .string _, b => by
    cases b <;> simp [same]
termination_by structural tree => tree

theorem sameItems_iff : ∀ (as bs : List Tree), sameItems as bs = true ↔ as = bs
  | [], bs => by cases bs <;> simp [sameItems]
  | a :: as, bs => by cases bs <;> simp [sameItems, same_iff a, sameItems_iff as]
termination_by structural items => items

theorem sameEntries_iff : ∀ (as bs : List (String × Tree)), sameEntries as bs = true ↔ as = bs
  | [], bs => by cases bs <;> simp [sameEntries]
  | (j, a) :: as, bs => by
    cases bs <;> simp [sameEntries, same_iff a, sameEntries_iff as, Prod.ext_iff]
termination_by structural entries => entries

end

instance : DecidableEq Tree := fun a b => decidable_of_iff _ (same_iff a b)

@[simp] theorem at?_nil (tree : Tree) : tree.at? [] = some tree := by
  cases tree <;> rfl

theorem at?_table_cons (entries : List (String × Tree)) (key : String) (path : List String) :
    (table entries).at? (key :: path) =
      (Keyed.get? entries key).bind fun child => child.at? path := rfl

theorem at?_nest (path : List String) (value : Tree) : (nest path value).at? path = some value := by
  induction path with
  | nil => exact at?_nil value
  | cons key path ih => simp [nest, at?_table_cons, Keyed.get?_cons, ih]

theorem leaves_nest (path : List String) {value : Tree} (h : value.isTable = false) :
    (nest path value).leaves = 1 := by
  induction path with
  | nil => cases value <;> first | rfl | simp [isTable] at h
  | cons key path ih => simp [nest, leaves, leavesIn, ih]

end Tree

end LayeredConfig
