import LayeredConfig.Environment

/-!
# Guards

Changes to the environment that are taken back later. A guard remembers the value that a variable
had, or that it had none, before the guard changed it, and restores it when it is dropped. Dropping
guards in the reverse order of their making leads back to where they started.
-/

namespace LayeredConfig

/-- What the variable `name` held before it was changed. -/
structure Guard where
  name : Bytes
  former : Option Bytes
deriving DecidableEq

namespace Guard

/-- Sets a variable until the guard is dropped. -/
def set (environment : Environment) (name value : Bytes) : Environment × Guard :=
  (environment.set name value, ⟨name, environment.get? name⟩)

def remove (environment : Environment) (name : Bytes) : Environment × Guard :=
  (environment.remove name, ⟨name, environment.get? name⟩)

def removeAll : Environment → List Bytes → Environment × List Guard
  | environment, [] => (environment, [])
  | environment, name :: names =>
    let (environment, guard) := remove environment name
    let (environment, guards) := removeAll environment names
    (environment, guard :: guards)

def clear (environment : Environment) (start : Bytes) : Environment × List Guard :=
  removeAll environment (environment.namesFrom start)

def drop (environment : Environment) (guard : Guard) : Environment :=
  match guard.former with
  | some value => environment.set guard.name value
  | none => environment.remove guard.name

def dropAll (environment : Environment) (guards : List Guard) : Environment :=
  guards.foldl drop environment

end Guard

/-- An environment with the groups of guards made so far, numbered from zero. A dropped group stays
in its place without guards. -/
structure GuardedEnvironment where
  environment : Environment
  groups : List (List Guard)

namespace GuardedEnvironment

inductive Action where
  | set (name value : Bytes)
  | remove (name : Bytes)
  | clear (start : Bytes)
  | drop (group : Nat)

def start (environment : Environment) : GuardedEnvironment := ⟨environment, []⟩

/-- Each action but a drop makes one group. Dropping a group that is not there does nothing. -/
def act (state : GuardedEnvironment) : Action → GuardedEnvironment
  | .set name value =>
    let (environment, guard) := Guard.set state.environment name value
    ⟨environment, state.groups ++ [[guard]]⟩
  | .remove name =>
    let (environment, guard) := Guard.remove state.environment name
    ⟨environment, state.groups ++ [[guard]]⟩
  | .clear start =>
    let (environment, guards) := Guard.clear state.environment start
    ⟨environment, state.groups ++ [guards]⟩
  | .drop group =>
    ⟨Guard.dropAll state.environment (state.groups[group]?.getD []), state.groups.set group []⟩

end GuardedEnvironment

end LayeredConfig
