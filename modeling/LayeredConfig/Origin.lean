/-!
# Origins

Where a configuration value, or a problem with one, came from. Origins are ordered: files first, by
the components of their paths, then the inline document, then variables by name.
-/

namespace LayeredConfig

inductive Origin where
  | file (path : String)
  | inline
  | env (name : String)
deriving DecidableEq, Inhabited

/-- A part of a file path. Parts of different kinds are ordered as they are listed. -/
inductive PathComponent where
  | root
  | here
  | parent
  | named (name : String)
deriving DecidableEq

namespace PathComponent

def rank : PathComponent → Nat
  | root => 0
  | here => 1
  | parent => 2
  | named _ => 3

def compare : PathComponent → PathComponent → Ordering
  | named a, named b => Ord.compare a b
  | a, b => Ord.compare a.rank b.rank

/-- The texts between the slashes of a path, the empty ones included. -/
def pieces : List Char → List (List Char)
  | [] => [[]]
  | c :: rest =>
    if c = '/' then [] :: pieces rest
    else match pieces rest with
      | piece :: more => (c :: piece) :: more
      | [] => [[c]]

def ofPiece : List Char → Option PathComponent
  | [] => none
  | ['.'] => none
  | ['.', '.'] => some parent
  | name => some (named (String.ofList name))

/-- The components of a path. Repeated slashes count once, and a dot for the directory itself counts
only where it opens the path. -/
def ofPath (path : String) : List PathComponent :=
  match pieces path.toList with
  | [] => []
  | first :: rest =>
    let opening :=
      if first = [] then (if rest = [] then [] else [root])
      else if first = ['.'] then [here]
      else (ofPiece first).toList
    opening ++ rest.filterMap ofPiece

/-- Component lists are compared at the first place where they differ; a list precedes its
extensions. -/
def compareLists : List PathComponent → List PathComponent → Ordering
  | [], [] => .eq
  | [], _ :: _ => .lt
  | _ :: _, [] => .gt
  | a :: as, b :: bs => (compare a b).then (compareLists as bs)

end PathComponent

namespace Origin

def compare : Origin → Origin → Ordering
  | file a, file b => PathComponent.compareLists (PathComponent.ofPath a) (PathComponent.ofPath b)
  | file _, _ => .lt
  | inline, file _ => .gt
  | inline, inline => .eq
  | inline, env _ => .lt
  | env a, env b => Ord.compare a b
  | env _, _ => .gt

def render : Origin → String
  | file path => "file " ++ path
  | inline => "inline config"
  | env name => "env " ++ name

end Origin

end LayeredConfig
