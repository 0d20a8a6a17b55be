import LayeredConfig.Keyed
import LayeredConfig.Text.Utf8

/-!
# The process environment

Variables with a value each. Names and values are bytes that need not be text.
-/

namespace LayeredConfig

/-- The variables, in ascending order of their names. -/
structure Environment where
  bindings : Keyed Bytes Bytes
  ascending : bindings.Ascending
deriving DecidableEq

namespace Environment

def empty : Environment := ⟨[], Keyed.ascending_nil⟩

instance : Inhabited Environment := ⟨empty⟩

def get? (environment : Environment) (name : Bytes) : Option Bytes :=
  Keyed.get? environment.bindings name

def set (environment : Environment) (name value : Bytes) : Environment :=
  ⟨Keyed.insert environment.bindings name value,
    Keyed.ascending_insert environment.ascending name value⟩

def remove (environment : Environment) (name : Bytes) : Environment :=
  ⟨Keyed.erase environment.bindings name, Keyed.ascending_erase environment.ascending name⟩

def ofList (pairs : List (Bytes × Bytes)) : Environment :=
  ⟨Keyed.ofList pairs, Keyed.ascending_ofList pairs⟩

def namesFrom (environment : Environment) (start : Bytes) : List Bytes :=
  (Keyed.keys environment.bindings).filter fun name => start.isPrefixOf name

theorem get?_set (environment : Environment) (name value other : Bytes) :
    (environment.set name value).get? other =
      if name = other then some value else environment.get? other :=
  Keyed.get?_insert environment.bindings name value other

theorem get?_remove (environment : Environment) (name other : Bytes) :
    (environment.remove name).get? other =
      if name = other then none else environment.get? other :=
  Keyed.get?_erase environment.bindings name other

end Environment

end LayeredConfig
