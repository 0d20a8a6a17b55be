import LayeredConfig.Contribution
import LayeredConfig.Schema.Violations
import LayeredConfig.Settings.Decode
import LayeredConfig.Settings.Encode
import LayeredConfig.Settings.Invariants

/-!
# Resolution

Sources to settings. The contributions of the sources are added up in order; then the merged tree is
checked against the schema, decoded, and checked for what types cannot say. Problems are collected
and reported together.
-/

namespace LayeredConfig

structure Resolution where
  merged : Tree
  canonical : merged.Canonical
  provenance : Provenance
  layers : List Layer
  violations : List Violation

/-- Settings that passed every check, with where their values came from. -/
structure Resolved where
  settings : Settings
  layers : List Layer
  provenance : Provenance

namespace Resolved

/-- The origin of the value at a dotted path; defaults have none. -/
def origin? (resolved : Resolved) (path : String) : Option Origin :=
  resolved.provenance.get? path

end Resolved

structure Outcome (α : Type) where
  result : Except Report α
  log : Log

namespace Resolution

def start : Resolution where
  merged := .empty
  canonical := by decide
  provenance := .empty
  layers := []
  violations := []

instance : Inhabited Resolution := ⟨start⟩

def overlay (state : Resolution) (layer : Overlay) : Resolution :=
  { state with
    merged := state.merged.overlay layer.tree
    canonical := Tree.canonical_overlay state.canonical layer.canonical
    provenance := state.provenance.overlay layer.origin "" state.merged layer.tree }

def add (state : Resolution) (contribution : Contribution) : Resolution :=
  let written := contribution.overlays.foldl overlay state
  { written with
    layers := state.layers ++ [contribution.layer]
    violations := state.violations ++ contribution.violations }

def apply (world : World) (schema : Schema) (state : Resolution) (sources : List Source) :
    Resolution :=
  sources.foldl (fun state source => state.add (source.contribution world schema)) state

def steps (world : World) (schema : Schema) : Resolution → List Source → List Resolution
  | _, [] => []
  | state, source :: rest =>
    let next := state.add (source.contribution world schema)
    next :: steps world schema next rest

/-- The settings of the merged tree, if nothing is wrong with it or with the sources. -/
def finish (schema : Schema) (state : Resolution) : Outcome Resolved :=
  let violations := state.violations ++ schema.violations state.merged state.provenance
  if violations ≠ [] then ⟨.error ⟨violations⟩, [.failed violations.length]⟩
  else
    match Settings.decode state.merged with
    | .error problem =>
      ⟨.error ⟨[.invalidValue "root" ("failed to decode: " ++ problem.message)]⟩, []⟩
    | .ok settings =>
      if settings.violations ≠ [] then ⟨.error ⟨settings.violations⟩, []⟩
      else
        ⟨.ok ⟨settings, state.layers, state.provenance⟩, [.resolved state.layers.length]⟩

end Resolution

/-- Resolves a list of sources, in which later ones override earlier ones. -/
def resolve (world : World) (sources : List Source) : Outcome Resolved :=
  let schema := Schema.indexer
  let final := (Resolution.start.apply world schema sources).finish schema
  let events := sources.flatMap fun source => (source.contribution world schema).events
  ⟨final.result, .resolving sources.length :: events ++ final.log⟩

def defaultFamily : String := "INDEXER_"

/-- Resolves files that must exist, in order, and then the variables of a family. -/
def load (world : World) (paths : List String) (family : String) : Outcome Resolved :=
  resolve world <|
    paths.map (fun path => .file (.mandatory path)) ++ [.environment (.process family)]

/-- Resolves one document given as text, without overrides. -/
def loadText (contents : String) : Outcome Settings :=
  let contribution := Contribution.ofText contents
  let final := (Resolution.start.add contribution).finish Schema.indexer
  ⟨final.result.map Resolved.settings,
    .resolvingText contents.utf8ByteSize :: contribution.events ++ final.log⟩

end LayeredConfig
