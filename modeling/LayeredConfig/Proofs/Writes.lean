import LayeredConfig.Proofs.SchemaPaths
import LayeredConfig.Proofs.TreeOverlay
import LayeredConfig.Resolution
import Mathlib.Data.List.Induction

/-!
# What a run writes

A run over a list of sources lays trees over each other: the tree of every file that loads, and for
every variable that names a field a tree with nothing but its value. The state that the run reaches
is determined by that list of overlays, as far as the merged tree and the record of origins go.
Every overlay is a table.
-/

namespace LayeredConfig

/-- Files with given texts, and no environment. -/
def World.ofTexts (texts : List (String × String)) : World where
  read path := match Keyed.get? texts path with
    | some text => .ok (Utf8.encode text)
    | none => .error .notFound
  environment := .empty

/-- The tree of a file that loads. -/
def FileSource.writes (world : World) (source : FileSource) : List Overlay :=
  match source.outcome world with
  | .loaded document => [⟨document, .file source.path⟩]
  | _ => []

/-- A tree for each variable that names a field, in the order of the variables. -/
def VariableSource.writes (world : World) (source : VariableSource) : List Overlay :=
  (source.snapshot world.environment).bindings.filterMap fun (name, raw) =>
    match Override.target? Schema.indexer source.family name with
    | some (.ok field) => some (.ofVariable name raw field)
    | _ => none

def Source.writes (world : World) : Source → List Overlay
  | .file source => source.writes world
  | .environment source => source.writes world

/-- Every overlay of a run, in the order in which they are laid over each other. -/
def writes (world : World) (sources : List Source) : List Overlay :=
  sources.flatMap (Source.writes world)

/-- The state that a run reaches before its merged tree is checked. -/
def reached (world : World) (sources : List Source) : Resolution :=
  Resolution.start.apply world Schema.indexer sources

theorem resolve_result (world : World) (sources : List Source) :
    (resolve world sources).result = ((reached world sources).finish Schema.indexer).result := rfl

/-- The state after a list of overlays. -/
def overlaid (layers : List Overlay) : Resolution := layers.foldl Resolution.overlay .start

theorem overlaid_append_singleton (layers : List Overlay) (layer : Overlay) :
    overlaid (layers ++ [layer]) = (overlaid layers).overlay layer := by
  rw [overlaid, List.foldl_append]
  rfl

theorem overlays_contribution (world : World) (source : Source) :
    (source.contribution world Schema.indexer).overlays = source.writes world := by
  cases source with
  | file source =>
    change (source.contribution world).overlays = source.writes world
    unfold FileSource.contribution FileSource.writes
    cases source.outcome world <;> rfl
  | environment source =>
    change (VariableSource.attempts Schema.indexer source _).filterMap VariableSource.overlay? = _
    rw [VariableSource.attempts, List.filterMap_filterMap]
    refine List.filterMap_congr fun binding _ => ?_
    obtain ⟨name, raw⟩ := binding
    cases htarget : Override.target? Schema.indexer source.family name with
    | none => simp [htarget]
    | some target => cases target <;> simp [htarget, VariableSource.overlay?]

theorem merged_foldl_overlay (layers : List Overlay) (state : Resolution) :
    (layers.foldl Resolution.overlay state).merged
      = (layers.map fun layer => layer.tree).foldl Tree.overlay state.merged := by
  induction layers generalizing state with
  | nil => rfl
  | cons layer layers ih => exact ih (state.overlay layer)

theorem foldl_overlay_congr (layers : List Overlay) {state other : Resolution}
    (hmerged : state.merged = other.merged) (hprovenance : state.provenance = other.provenance) :
    (layers.foldl Resolution.overlay state).merged
        = (layers.foldl Resolution.overlay other).merged
      ∧ (layers.foldl Resolution.overlay state).provenance
        = (layers.foldl Resolution.overlay other).provenance := by
  induction layers generalizing state other with
  | nil => exact ⟨hmerged, hprovenance⟩
  | cons layer layers ih =>
    apply ih
    · simp only [Resolution.overlay, hmerged]
    · simp only [Resolution.overlay, hmerged, hprovenance]

theorem reached_append_singleton (world : World) (sources : List Source) (source : Source) :
    reached world (sources ++ [source])
      = (reached world sources).add (source.contribution world Schema.indexer) := by
  rw [reached, Resolution.apply, List.foldl_append]
  rfl

/-- A run reaches the merged tree and the record that its overlays lead to. -/
theorem reached_eq_overlaid (world : World) (sources : List Source) :
    (reached world sources).merged = (overlaid (writes world sources)).merged
      ∧ (reached world sources).provenance = (overlaid (writes world sources)).provenance := by
  induction sources using List.reverseRecOn with
  | nil => exact ⟨rfl, rfl⟩
  | append_singleton sources source ih =>
    have hwrites : writes world (sources ++ [source])
        = writes world sources ++ source.writes world := by simp [writes]
    rw [reached_append_singleton, hwrites, overlaid, List.foldl_append, Resolution.add,
      overlays_contribution]
    exact foldl_overlay_congr _ ih.1 ih.2

/-! ### The overlays are tables -/

theorem target?_mem {schema : Schema} {family name : String} {field : Field}
    (h : Override.target? schema family name = some (.ok field)) : field ∈ schema.fields := by
  unfold Override.target? at h
  obtain ⟨segments, -, hsegments⟩ := Option.map_eq_some_iff.mp h
  cases segments with
  | error skip => simp [Except.bind] at hsegments
  | ok segments =>
    change Override.field schema segments = .ok field at hsegments
    simp only [Override.field, Schema.field?] at hsegments
    split at hsegments
    · rename_i found hfound
      exact Except.ok.inj hsegments ▸ List.mem_of_find?_eq_some hfound
    · split at hsegments <;> simp at hsegments

/-- A file loads if it can be read, is text, and the text is a document. -/
theorem FileSource.outcome_eq_loaded_iff {world : World} {source : FileSource}
    {document : CanonicalTree} : source.outcome world = .loaded document
      ↔ ∃ bytes contents, world.read source.path = .ok bytes
        ∧ Utf8.decode? bytes = some contents ∧ Tree.ofToml contents = .ok document.tree := by
  simp only [← CanonicalTree.ofToml_eq_ok_iff]
  unfold FileSource.outcome
  cases hread : world.read source.path with
  | error problem =>
    by_cases habsent : problem = .notFound ∧ source.required = false <;> simp [habsent]
  | ok bytes =>
    cases hdecode : Utf8.decode? bytes with
    | none => simp [hdecode]
    | some contents => cases hdocument : CanonicalTree.ofToml contents <;> simp [hdecode, hdocument]

theorem FileSource.mem_writes_iff {world : World} {source : FileSource} {layer : Overlay} :
    layer ∈ source.writes world
      ↔ source.outcome world = .loaded layer.toCanonicalTree
        ∧ layer.origin = .file source.path := by
  obtain ⟨document, origin⟩ := layer
  unfold FileSource.writes
  cases source.outcome world with
  | loaded written => simp [eq_comm]
  | absent => simp
  | failed message => simp

/-! ### Variables -/

/-- A value for one field leaves the others alone: it has nothing at their paths, and nothing that
is in the way there. -/
theorem Schema.Separate.nest_of_ne {schema : Schema} (hseparate : schema.Separate)
    {field other : Field} (hfield : field ∈ schema.fields) (hother : other ∈ schema.fields)
    (hne : other ≠ field) {value : Tree} (hleaf : value.isTable = false) :
    (Tree.nest other.keys value).at? field.keys = none
      ∧ ¬ (Tree.nest other.keys value).Blocks field.keys := by
  refine ⟨?_, Tree.not_blocks_nest hleaf fun hinitial =>
    hne (hseparate.eq_of_initial hother hfield hinitial)⟩
  rw [Option.eq_none_iff_forall_ne_some]
  intro node hnode
  have hinitial := Tree.initial_of_at?_nest hleaf hnode
  exact hne (hseparate.eq_of_initial hfield hother hinitial).symm

/-- The overlay of a variable has nodes on the way to its field only. -/
theorem Overlay.initial_of_at?_ofVariable {name raw : String} {field : Field} {keys : List String}
    {node : Tree} (h : (ofVariable name raw field).tree.at? keys = some node) :
    keys <+: field.keys :=
  Tree.initial_of_at?_nest (Override.isTable_coerce raw field.kind) h

/-- The overlay of a variable has no value but that of its field. -/
theorem Overlay.eq_of_at?_ofVariable_leaf {name raw : String} {field : Field} {keys : List String}
    {value : Tree} (h : (ofVariable name raw field).tree.at? keys = some value)
    (hleaf : value.isTable = false) :
    keys = field.keys ∧ value = Override.coerce raw field.kind :=
  Tree.eq_of_at?_nest_leaf (Override.isTable_coerce raw field.kind) h hleaf

namespace VariableSource

theorem mem_writes_iff {world : World} {source : VariableSource} {layer : Overlay} :
    layer ∈ source.writes world
      ↔ ∃ name raw field, (name, raw) ∈ (source.snapshot world.environment).bindings
        ∧ Override.target? Schema.indexer source.family name = some (.ok field)
        ∧ layer = .ofVariable name raw field := by
  rw [VariableSource.writes, List.mem_filterMap]
  constructor
  · rintro ⟨⟨name, raw⟩, hmem, hlayer⟩
    simp only at hlayer
    split at hlayer
    · rename_i field htarget
      exact ⟨name, raw, field, hmem, htarget, (Option.some.inj hlayer).symm⟩
    · simp at hlayer
  · rintro ⟨name, raw, field, hmem, htarget, rfl⟩
    exact ⟨(name, raw), hmem, by simp only [htarget]⟩

/-- Variables that all name fields are all applied. -/
theorem length_writes {world : World} {source : VariableSource}
    (h : ∀ name raw, (name, raw) ∈ (source.snapshot world.environment).bindings →
      ∃ field, Override.target? Schema.indexer source.family name = some (.ok field)) :
    (source.writes world).length = (source.snapshot world.environment).bindings.length := by
  rw [VariableSource.writes, List.length_filterMap_eq_countP, List.countP_eq_length]
  rintro ⟨name, raw⟩ hmem
  obtain ⟨field, htarget⟩ := h name raw hmem
  simp only [htarget, Option.isSome_some]

end VariableSource

/-- An overlay of a run is the tree of a file, or the value of a field by a variable. -/
theorem exists_source_of_mem_writes {world : World} {sources : List Source} {layer : Overlay}
    (h : layer ∈ writes world sources) :
    (∃ file, Source.file file ∈ sources ∧ file.outcome world = .loaded layer.toCanonicalTree
        ∧ layer.origin = .file file.path)
      ∨ ∃ field ∈ Schema.indexer.fields, ∃ name raw, layer = .ofVariable name raw field := by
  obtain ⟨source, hsource, hlayer⟩ := List.mem_flatMap.mp h
  cases source with
  | file source =>
    left
    exact ⟨source, hsource, FileSource.mem_writes_iff.mp hlayer⟩
  | environment source =>
    right
    obtain ⟨name, raw, field, -, htarget, rfl⟩ := VariableSource.mem_writes_iff.mp hlayer
    exact ⟨field, target?_mem htarget, name, raw, rfl⟩

theorem isTable_writes {world : World} {sources : List Source} {layer : Overlay}
    (h : layer ∈ writes world sources) : layer.tree.isTable = true := by
  rcases exists_source_of_mem_writes h with ⟨file, -, houtcome, -⟩ | ⟨field, hfield, name, raw, rfl⟩
  · obtain ⟨bytes, contents, -, -, htree⟩ := FileSource.outcome_eq_loaded_iff.mp houtcome
    exact (Tree.ofToml_canonical htree).1
  · exact Tree.isTable_nest (Schema.indexer_plain field hfield).1 _

end LayeredConfig
