import LayeredConfig.Proofs.PlainTrees

/-!
# The same source twice

A source may write one path several times, so its second pass undoes and redoes what the first one
did. In the end it leaves the same tree: what is at a path after a list of overlays depends on the
last of them that concerns it, and a list followed by itself has the same last one. The record of
origins follows where dotted paths determine nodes, that is, where all keys are plain.
-/

namespace LayeredConfig

open KeyPath Provenance

theorem lastWith_append_twice {α : Type} {sets keeps : α → Prop} (items rest : List α) :
    LastWith sets keeps (items ++ rest ++ rest) ↔ LastWith sets keeps (items ++ rest) := by
  rw [lastWith_append, lastWith_append]
  tauto

/-- What a list of overlays brings or keeps, it brings or keeps just so when it is laid a second
time. -/
theorem foldl_overlay_twice_iff {sets keeps : Overlay → Prop} (holds : Resolution → Prop)
    (hstep : ∀ state layer, holds (state.overlay layer) ↔ sets layer ∨ (holds state ∧ keeps layer))
    (layers : List Overlay) (state : Resolution) :
    holds ((layers ++ layers).foldl Resolution.overlay state)
      ↔ holds (layers.foldl Resolution.overlay state) := by
  rw [List.foldl_append, foldl_overlay_iff holds hstep, foldl_overlay_iff holds hstep]
  tauto

theorem merged_foldl_overlay_twice (layers : List Overlay) (state : Resolution) :
    ((layers ++ layers).foldl Resolution.overlay state).merged
      = (layers.foldl Resolution.overlay state).merged := by
  refine Tree.Alike.eq ⟨fun path value hleaf => ?_, fun path => ?_⟩
    (Resolution.canonical _) (Resolution.canonical _)
  · exact foldl_overlay_twice_iff (fun state => state.merged.at? path = some value)
      (fun state layer => Tree.at?_overlay_eq_leaf_iff layer.canonical state.merged path hleaf)
      layers state
  · exact foldl_overlay_twice_iff
      (fun state => ∃ entries, state.merged.at? path = some (.table entries))
      (fun state layer => Tree.at?_overlay_eq_table_iff layer.canonical state.merged path)
      layers state

theorem overlaid_append (layers rest : List Overlay) :
    overlaid (layers ++ rest) = rest.foldl Resolution.overlay (overlaid layers) :=
  List.foldl_append

/-- Where all keys are plain, the record is determined by the merged tree and by which overlay is
the last one with a node at each path. -/
theorem provenance_overlaid_eq {layers others : List Overlay}
    (hlayers : ∀ layer ∈ layers, layer.tree.isTable = true)
    (hothers : ∀ layer ∈ others, layer.tree.isTable = true)
    (hplain : (overlaid layers).merged.PlainKeys)
    (hmerged : (overlaid layers).merged = (overlaid others).merged)
    (hlast : ∀ sets keeps : Overlay → Prop,
      LastWith sets keeps layers ↔ LastWith sets keeps others) :
    (overlaid layers).provenance = (overlaid others).provenance := by
  have hothersPlain : (overlaid others).merged.PlainKeys := hmerged ▸ hplain
  have hdotted {keys : List String} {node : Tree} (hkeys : keys ≠ [])
      (hnode : (overlaid layers).merged.at? keys = some node) (origin : Origin) :
      (overlaid layers).provenance.get? (dotted keys) = some origin
        ↔ (overlaid others).provenance.get? (dotted keys) = some origin := by
    have hkeysPlain := hplain keys node hnode
    have hanchored := Anchored.of_plain hkeys hkeysPlain
    rw [get?_overlaid hlayers hanchored (hplain.not_stray hkeys hkeysPlain),
      get?_overlaid hothers hanchored (hothersPlain.not_stray hkeys hkeysPlain), hlast, hmerged]
  refine Provenance.eq_of_get? fun path => Option.ext fun origin => ?_
  constructor
  · intro horigin
    obtain ⟨keys, node, hkeys, rfl, hnode⟩ := exists_node_of_get? hlayers hplain horigin
    exact (hdotted hkeys hnode origin).mp horigin
  · intro horigin
    obtain ⟨keys, node, hkeys, rfl, hnode⟩ := exists_node_of_get? hothers hothersPlain horigin
    exact (hdotted hkeys (hmerged ▸ hnode) origin).mpr horigin

theorem provenance_overlaid_twice {layers rest : List Overlay}
    (hlayers : ∀ layer ∈ layers, layer.tree.isTable = true ∧ layer.tree.PlainKeys)
    (hrest : ∀ layer ∈ rest, layer.tree.isTable = true ∧ layer.tree.PlainKeys) :
    (overlaid (layers ++ rest ++ rest)).provenance = (overlaid (layers ++ rest)).provenance := by
  have honce : ∀ layer ∈ layers ++ rest, layer.tree.isTable = true ∧ layer.tree.PlainKeys :=
    List.forall_mem_append.mpr ⟨hlayers, hrest⟩
  have htwice : ∀ layer ∈ layers ++ rest ++ rest, layer.tree.isTable = true
      ∧ layer.tree.PlainKeys := List.forall_mem_append.mpr ⟨honce, hrest⟩
  have hmerged : (overlaid (layers ++ rest ++ rest)).merged
      = (overlaid (layers ++ rest)).merged := by
    rw [List.append_assoc, overlaid_append, overlaid_append]
    exact merged_foldl_overlay_twice rest (overlaid layers)
  have hplain : (overlaid (layers ++ rest ++ rest)).merged.PlainKeys :=
    plainKeys_overlaid fun layer hlayer => (htwice layer hlayer).2
  exact provenance_overlaid_eq (fun layer hlayer => (htwice layer hlayer).1)
    (fun layer hlayer => (honce layer hlayer).1) hplain hmerged
    fun sets keeps => lastWith_append_twice layers rest

/-! ### Sources -/

theorem Source.isTable_writes {world : World} {source : Source} {layer : Overlay}
    (h : layer ∈ source.writes world) : layer.tree.isTable = true := by
  refine @LayeredConfig.isTable_writes world [source] layer ?_
  rwa [LayeredConfig.writes, List.flatMap_singleton]

/-- Variables write at the paths of fields, so only a file can have keys that are not plain. -/
theorem Source.plainKeys_writes {world : World} {source : Source}
    (hfile : ∀ file document, source = .file file → file.outcome world = .loaded document →
      document.tree.PlainKeys) {layer : Overlay} (h : layer ∈ source.writes world) :
    layer.tree.PlainKeys := by
  cases source with
  | file file => exact hfile file layer.toCanonicalTree rfl (FileSource.mem_writes_iff.mp h).1
  | environment source =>
    obtain ⟨name, raw, field, -, htarget, rfl⟩ := VariableSource.mem_writes_iff.mp h
    exact Tree.plainKeys_nest (Override.isTable_coerce raw field.kind)
      (Schema.indexer_plain field (target?_mem htarget)).2

theorem Resolution.add_contribution (world : World) (source : Source) (state : Resolution) :
    (state.add (source.contribution world Schema.indexer)).merged
        = ((source.writes world).foldl Resolution.overlay state).merged
      ∧ (state.add (source.contribution world Schema.indexer)).provenance
        = ((source.writes world).foldl Resolution.overlay state).provenance := by
  rw [Resolution.add, overlays_contribution]
  exact ⟨rfl, rfl⟩

theorem Resolution.add_contribution_twice (world : World) (source : Source) (state : Resolution) :
    let once := state.add (source.contribution world Schema.indexer)
    let twice := once.add (source.contribution world Schema.indexer)
    let layers := source.writes world
    twice.merged = ((layers ++ layers).foldl Resolution.overlay state).merged
      ∧ twice.provenance = ((layers ++ layers).foldl Resolution.overlay state).provenance := by
  intro once twice layers
  obtain ⟨hmerged, hprovenance⟩ := add_contribution world source state
  obtain ⟨htwiceMerged, htwiceProvenance⟩ := add_contribution world source once
  obtain ⟨hcongrMerged, hcongrProvenance⟩ := foldl_overlay_congr layers hmerged hprovenance
  rw [List.foldl_append]
  exact ⟨htwiceMerged.trans hcongrMerged, htwiceProvenance.trans hcongrProvenance⟩

/-- **Listing a source twice in a row is harmless.** Whatever the merged tree and the record of
origins are, applying the source once more right after the first time leaves the merged tree as it
is. The record stays as well if the state was reached by overlays with plain keys and the source
has plain keys, which any source of variables has. -/
theorem applied_twice_eq_once (world : World) (source : Source) (state : Resolution) :
    let once := state.add (source.contribution world Schema.indexer)
    let twice := once.add (source.contribution world Schema.indexer)
    twice.merged = once.merged
      ∧ ∀ layers : List Overlay,
        (∀ layer ∈ layers, layer.tree.isTable = true ∧ layer.tree.PlainKeys) →
        state.merged = (overlaid layers).merged →
        state.provenance = (overlaid layers).provenance →
        (∀ file document, source = .file file → file.outcome world = .loaded document →
          document.tree.PlainKeys) →
        twice.provenance = once.provenance := by
  intro once twice
  obtain ⟨honceMerged, honceRecord⟩ := Resolution.add_contribution world source state
  obtain ⟨htwiceMerged, htwiceRecord⟩ := Resolution.add_contribution_twice world source state
  constructor
  · have hmerged := merged_foldl_overlay_twice (source.writes world) state
    exact htwiceMerged.trans (hmerged.trans honceMerged.symm)
  · intro layers hlayers hmerged hprovenance hfile
    have hrest : ∀ layer ∈ source.writes world,
        layer.tree.isTable = true ∧ layer.tree.PlainKeys := fun layer hlayer =>
      ⟨Source.isTable_writes hlayer, Source.plainKeys_writes hfile hlayer⟩
    -- the record after any further overlays is the one that starts from nothing
    have hrecord (rest : List Overlay) : (rest.foldl Resolution.overlay state).provenance
        = (overlaid (layers ++ rest)).provenance := by
      rw [overlaid_append]
      exact (foldl_overlay_congr rest hmerged hprovenance).2
    have htwice := provenance_overlaid_twice hlayers hrest
    rw [List.append_assoc, ← hrecord, ← hrecord] at htwice
    exact htwiceRecord.trans (htwice.trans honceRecord.symm)

/-- Two spellings of one field, and a file whose number takes the place of a table. -/
theorem applied_twice_eq_once_port :
    let layers : List Overlay := [⟨.nest ["metrics", "port"] (.int 80) trivial, .file "base.toml"⟩]
    let state := overlaid layers
    let world := World.ofTexts [("site.toml", "metrics = 5\n")]
    let site := Source.file (.mandatory "site.toml")
    let spelled := Source.environment
      (.fixed "INDEXER_" [("INDEXER_METRICS__PORT", "9"), ("INDEXER_metrics__PORT", "7")])
    let once source := state.add (source.contribution world Schema.indexer)
    let twice source := (once source).add (source.contribution world Schema.indexer)
    (∀ layer ∈ layers, layer.tree.isTable = true ∧ layer.tree.PlainKeys)
      ∧ (∀ source ∈ [site, spelled],
        (∀ file document, source = .file file → file.outcome world = .loaded document →
          document.tree.PlainKeys)
          ∧ (twice source).merged = (once source).merged
          ∧ (twice source).provenance = (once source).provenance)
      ∧ (once spelled).merged.at? ["metrics", "port"] = some (.int 7)
      ∧ (once site).provenance.origins = [("metrics", .file "site.toml")] := by
  intro layers state world site spelled once twice
  have hlayers : ∀ layer ∈ layers, layer.tree.isTable = true ∧ layer.tree.PlainKeys := by
    rw [List.forall_mem_singleton]
    exact ⟨rfl, Tree.plainKeys_nest rfl (by decide)⟩
  have hsite : (FileSource.mandatory "site.toml").writes world
      = [⟨.nest ["metrics"] (.int 5) trivial, .file "site.toml"⟩] := by
    decide +kernel
  have hplain : ∀ source ∈ [site, spelled], ∀ file document, source = .file file →
      file.outcome world = .loaded document → document.tree.PlainKeys := by
    intro source hsource file document hfile houtcome
    obtain rfl | rfl := List.mem_pair.mp hsource
    · obtain rfl := Source.file.inj hfile
      have hmem : (⟨document, .file "site.toml"⟩ : Overlay) ∈ FileSource.writes world _ :=
        FileSource.mem_writes_iff.mpr ⟨houtcome, rfl⟩
      rw [hsite, List.mem_singleton] at hmem
      obtain rfl := (Overlay.mk.inj hmem).1
      exact Tree.plainKeys_nest rfl (by decide)
    · simp [spelled] at hfile
  refine ⟨hlayers, fun source hsource => ?_, by decide +kernel, by decide +kernel⟩
  obtain ⟨hmerged, hrecord⟩ := applied_twice_eq_once world source state
  exact ⟨hplain source hsource, hmerged, hrecord layers hlayers rfl rfl (hplain source hsource)⟩

end LayeredConfig
