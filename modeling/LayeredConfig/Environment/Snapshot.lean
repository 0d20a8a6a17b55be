import LayeredConfig.Environment
import LayeredConfig.Text.Affix

/-!
# Snapshots

The variables of a family, those whose names begin alike, as one source sees them: taken from the
process or given in advance. A variable that is no text is listed by name only.
-/

namespace LayeredConfig

/-- Variables whose names and values are text, in ascending order of the names. -/
structure Variables where
  bindings : Keyed String String
  ascending : bindings.Ascending
deriving DecidableEq

/-- The variables of a list, in which a later pair replaces an earlier one of the same name. -/
def Variables.ofList (pairs : List (String × String)) : Variables :=
  ⟨Keyed.ofList pairs, Keyed.ascending_ofList pairs⟩

structure VariableSource where
  family : String
  /-- The variables given in advance, in place of those of the process. -/
  given : Option Variables
deriving DecidableEq, Inhabited

namespace VariableSource

def process (family : String) : VariableSource := ⟨family, none⟩

def fixed (family : String) (pairs : List (String × String)) : VariableSource :=
  ⟨family, some (.ofList pairs)⟩

end VariableSource

structure Snapshot where
  /-- The variables of the family, by ascending name. -/
  bindings : Keyed String String
  ascending : bindings.Ascending
  /-- The names of those of which the name or the value is no text, ascending and each once. -/
  unreadable : List String
  once : unreadable.Pairwise (· < ·)
deriving DecidableEq

namespace Snapshot

def readable? (entry : Bytes × Bytes) : Option (String × String) :=
  match Utf8.decode? entry.1, Utf8.decode? entry.2 with
  | some name, some value => some (name, value)
  | _, _ => none

def unreadableName? (entry : Bytes × Bytes) : Option String :=
  match readable? entry with
  | some _ => none
  | none => some ((Utf8.decode? entry.1).getD (Utf8.decodeLossy entry.1))

def ofProcess (family : String) (environment : Environment) : Snapshot :=
  let inFamily (name : String) : Bool := Text.beginsWith name family
  let texts := environment.bindings.filterMap readable?
  let names := environment.bindings.filterMap unreadableName?
  { bindings := Keyed.ofList (texts.filter fun entry => inFamily entry.1)
    ascending := Keyed.ascending_ofList _
    unreadable := Keyed.keys (Keyed.ofList ((names.filter inFamily).map fun name => (name, ())))
    once := Keyed.pairwise_keys (Keyed.ascending_ofList _) }

def ofGiven (family : String) (given : Variables) : Snapshot where
  bindings := given.bindings.filter fun entry => Text.beginsWith entry.1 family
  ascending := given.ascending.filter _
  unreadable := []
  once := .nil

end Snapshot

def VariableSource.snapshot (source : VariableSource) (environment : Environment) : Snapshot :=
  match source.given with
  | some given => Snapshot.ofGiven source.family given
  | none => Snapshot.ofProcess source.family environment

end LayeredConfig
