import LayeredConfig.Origin
import LayeredConfig.Keyed
import LayeredConfig.Text.Utf8

/-!
# Files

A tree of directories and files, and the reading of a file by its path from the root of the tree.
-/

namespace LayeredConfig

inductive ReadError where
  | notFound
  | notADirectory
  | isADirectory
  | nameTooLong
  | interiorNul
  | notText
  /-- A failure of any other kind, in the words of the system. -/
  | other (text : String)
deriving DecidableEq, Inhabited

namespace ReadError

def message : ReadError → String
  | notFound => "No such file or directory (os error 2)"
  | notADirectory => "Not a directory (os error 20)"
  | isADirectory => "Is a directory (os error 21)"
  | nameTooLong => "File name too long (os error 36)"
  | interiorNul => "file name contained an unexpected NUL byte"
  | notText => "stream did not contain valid UTF-8"
  | other text => text

end ReadError

inductive FileTree where
  | file (content : Bytes)
  | directory (entries : List (String × FileTree))
deriving Inhabited

namespace FileTree

def empty : FileTree := .directory []

/-- The entries of a directory; a file has none. -/
def entries : FileTree → List (String × FileTree)
  | .file _ => []
  | .directory entries => entries

/-- Puts a node at a path of names, making directories on the way. A directory that is already there
keeps its entries. -/
def insert (node : FileTree) : List String → FileTree → FileTree
  | [], tree =>
    match node, tree with
    | .directory [], .directory entries => .directory entries
    | _, _ => node
  | name :: names, tree =>
    let below := (Keyed.get? tree.entries name).getD empty
    .directory (Keyed.insert tree.entries name (insert node names below))

/-- The names of a path, without what does not lead down. -/
def names (path : String) : List String :=
  (PathComponent.ofPath path).filterMap fun
    | .named name => some name
    | _ => none

/-- The longest name of one directory entry, in bytes. -/
def maxName : Nat := 255

/-- The longest path, in bytes. -/
def maxPath : Nat := 4095

/-- Follows the pieces of a path from `place`, which lies in the directories `above`, the nearest
first. Above the root there are only directories without known entries. -/
def walk (above : List FileTree) (place : FileTree) : List (List Char) → Except ReadError FileTree
  | [] => .ok place
  | piece :: rest =>
    match place with
    | .file _ => .error .notADirectory
    | .directory entries =>
      if piece = [] ∨ piece = ['.'] then walk above place rest
      else if piece = ['.', '.'] then walk above.tail (above.headD empty) rest
      else
        let name := String.ofList piece
        if maxName < name.utf8ByteSize then .error .nameTooLong
        else
          match Keyed.get? entries name with
          | none => .error .notFound
          | some child => walk (place :: above) child rest

def read (tree : FileTree) (path : String) : Except ReadError Bytes :=
  if path.toList.contains '\x00' then .error .interiorNul
  else if path = "" then .error .notFound
  else if maxPath < path.utf8ByteSize then .error .nameTooLong
  else
    let pieces := PathComponent.pieces path.toList
    let root := if path.toList.head? = some '/' then empty else tree
    match walk [] root pieces with
    | .ok (.file content) => .ok content
    | .ok (.directory _) => .error .isADirectory
    | .error problem => .error problem

end FileTree

end LayeredConfig
