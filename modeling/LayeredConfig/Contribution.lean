import LayeredConfig.Document
import LayeredConfig.Environment.Snapshot
import LayeredConfig.FileTree
import LayeredConfig.Log
import LayeredConfig.Violation

/-!
# Contributions

What each source contributes to a resolution: the overlays it writes, the layer that describes it,
the problems it has, and the events it logs. A contribution depends on the source and on the world
it is read in, not on what other sources contribute.
-/

namespace LayeredConfig

structure World where
  read : String → Except ReadError Bytes
  environment : Environment

namespace World

def ofFiles (files : FileTree) (environment : Environment) : World :=
  ⟨files.read, environment⟩

end World

structure FileSource where
  path : String
  /-- A file that is not required is passed over when it is not there. -/
  required : Bool
deriving DecidableEq, Inhabited

namespace FileSource

def mandatory (path : String) : FileSource := ⟨path, true⟩

def optional (path : String) : FileSource := ⟨path, false⟩

end FileSource

/-- One source of configuration. Later ones override earlier ones. -/
inductive Source where
  | file (source : FileSource)
  | environment (source : VariableSource)
deriving DecidableEq

inductive LayerSource where
  | file (path : String)
  | inline
  | environment (family : String)
deriving DecidableEq, Inhabited

inductive Omission where
  | fileNotFound
  | malformed
deriving DecidableEq

def Omission.text : Omission → String
  | fileNotFound => "file not found"
  | malformed => "malformed"

structure Layer where
  source : LayerSource
  keysApplied : Nat
  omission : Option Omission
deriving DecidableEq

/-- A tree that is laid over what earlier sources wrote. -/
structure Overlay extends CanonicalTree where
  origin : Origin
deriving DecidableEq

/-- The overlay of a variable that names a field: its value, and nothing else. -/
def Overlay.ofVariable (name raw : String) (field : Field) : Overlay where
  toCanonicalTree :=
    .nest field.keys (Override.coerce raw field.kind)
      (Tree.canonical_of_leaf (Override.isTable_coerce raw field.kind))
  origin := .env name

@[simp] theorem Overlay.tree_ofVariable (name raw : String) (field : Field) :
    (ofVariable name raw field).tree = .nest field.keys (Override.coerce raw field.kind) := rfl

@[simp] theorem Overlay.origin_ofVariable (name raw : String) (field : Field) :
    (ofVariable name raw field).origin = .env name := rfl

structure Contribution where
  overlays : List Overlay
  layer : Layer
  violations : List Violation
  events : Log

namespace FileSource

inductive Outcome where
  | loaded (document : CanonicalTree)
  /-- The file is optional and not there. -/
  | absent
  | failed (message : String)

def outcome (world : World) (source : FileSource) : Outcome :=
  match world.read source.path with
  | .error problem =>
    if problem = .notFound ∧ source.required = false then .absent
    else .failed ("failed to read: " ++ problem.message)
  | .ok bytes =>
    match Utf8.decode? bytes with
    | none => .failed ("failed to read: " ++ ReadError.notText.message)
    | some contents =>
      match CanonicalTree.ofToml contents with
      | .ok document => .loaded document
      | .error problem => .failed problem.message

def contribution (world : World) (source : FileSource) : Contribution :=
  let reading : Event := .readingFile source.path source.required
  let layer : Layer := ⟨.file source.path, 0, none⟩
  match source.outcome world with
  | .loaded document =>
    { overlays := [⟨document, .file source.path⟩]
      layer := { layer with keysApplied := document.tree.leaves }
      violations := []
      events := [reading, .fileLoaded source.path document.tree.leaves] }
  | .absent =>
    { overlays := []
      layer := { layer with omission := some .fileNotFound }
      violations := []
      events := [reading, .optionalFileMissing source.path] }
  | .failed message =>
    { overlays := []
      layer := { layer with omission := some .malformed }
      violations := [.malformedSource (.file source.path) message]
      events := [reading, .fileFailed source.path] }

end FileSource

namespace VariableSource

/-- The variables that name a field or were meant to, each with its name, its text and its target;
names that are not of the family are left out. -/
def attempts (schema : Schema) (source : VariableSource) (seen : Snapshot) :
    List (String × String × Except Skip Field) :=
  seen.bindings.filterMap fun (name, raw) =>
    (Override.target? schema source.family name).map fun target => (name, raw, target)

def overlay? : String × String × Except Skip Field → Option Overlay
  | (name, raw, .ok field) => some (.ofVariable name raw field)
  | (_, _, .error _) => none

def event : String × String × Except Skip Field → Event
  | (name, _, .ok field) => .variableApplied name field.path
  | (name, _, .error skip) => .variableIgnored name skip

/-- The problems of the variables that are no text but would have been of the family. -/
def unreadable (source : VariableSource) (seen : Snapshot) : List Violation :=
  (seen.unreadable.filter fun name => (Override.segments? source.family name).isSome).map
    fun name => .malformedSource (.env name) "variable is not valid unicode"

/-- Variables are applied in ascending order of their names. -/
def contribution (world : World) (schema : Schema) (source : VariableSource) : Contribution :=
  let seen := source.snapshot world.environment
  let attempts := source.attempts schema seen
  let overlays := attempts.filterMap overlay?
  { overlays := overlays
    layer := ⟨.environment source.family, overlays.length, none⟩
    violations := source.unreadable seen
    events := attempts.map event }

end VariableSource

namespace Source

def contribution (world : World) (schema : Schema) : Source → Contribution
  | file source => source.contribution world
  | environment source => source.contribution world schema

end Source

def Contribution.ofText (contents : String) : Contribution :=
  match CanonicalTree.ofToml contents with
  | .ok document =>
    { overlays := [⟨document, .inline⟩]
      layer := ⟨.inline, document.tree.leaves, none⟩
      violations := []
      events := [] }
  | .error problem =>
    { overlays := []
      layer := ⟨.inline, 0, some .malformed⟩
      violations := [.malformedSource .inline problem.message]
      events := [] }

end LayeredConfig
