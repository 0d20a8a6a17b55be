import LayeredConfig.Proofs.RecordedOrigins

/-!
# Trees with plain keys

In a tree with plain keys each dotted path is that of one key path at most, so that no node strays
into the record of another. The record of origins that leads to such a tree mirrors it: it has one
entry for every node below the root and no other, namely the origin of the last overlay with a node
there. If the keys of all overlays are plain this holds after each of them.
-/

namespace LayeredConfig

open KeyPath Provenance

/-- The keys on the way to every node are plain. -/
def Tree.PlainKeys (tree : Tree) : Prop :=
  ∀ route node, tree.at? route = some node → ∀ key ∈ route, Plain key

theorem Tree.PlainKeys.not_stray {tree : Tree} (h : tree.PlainKeys) {keys : List String}
    (hkeys : keys ≠ []) (hplain : ∀ key ∈ keys, Plain key) : ¬ tree.Stray keys := by
  rintro ⟨route, node, hnode, hoff, hspelling⟩
  have hroutePlain := h route node hnode
  have hroute : route ≠ [] := by
    rintro rfl
    exact hoff List.nil_prefix
  rcases hspelling with hempty | heq | hbelow
  · exact dotted_ne_empty hroute hroutePlain hempty
  · have hsegments := congrArg segments heq
    rw [segments_dotted hroute hroutePlain, segments_dotted hkeys hplain] at hsegments
    exact hoff (hsegments ▸ List.prefix_refl route)
  · obtain ⟨rest, -, hrest⟩ := isBelow_iff.mp hbelow
    rw [segments_dotted hroute hroutePlain, segments_dotted hkeys hplain] at hrest
    exact hoff ⟨rest, hrest.symm⟩

theorem Tree.plainKeys_nest {keys : List String} {value : Tree} (hleaf : value.isTable = false)
    (hplain : ∀ key ∈ keys, Plain key) : (Tree.nest keys value).PlainKeys :=
  fun _ _ hnode key hkey => hplain key ((Tree.initial_of_at?_nest hleaf hnode).subset hkey)

theorem plainKeys_overlaid {layers : List Overlay}
    (hplain : ∀ layer ∈ layers, layer.tree.PlainKeys) : (overlaid layers).merged.PlainKeys := by
  intro route node hnode
  by_cases hroute : route = []
  · simp [hroute]
  · have hset := ((exists_at?_overlaid_iff hroute).mp ⟨node, hnode⟩).exists_mem
    obtain ⟨layer, hlayer, value, hvalue⟩ := hset
    exact hplain layer hlayer route value hvalue

/-- Records with the same look-ups are the same. -/
theorem Provenance.eq_of_get? {record other : Provenance}
    (h : ∀ path, record.get? path = other.get? path) : record = other := by
  obtain ⟨origins, hascending⟩ := record
  obtain ⟨others, hothers⟩ := other
  rw [Provenance.mk.injEq]
  exact Keyed.eq_of_get? hascending hothers h

theorem mem_keys_iff {record : Provenance} {path : String} :
    path ∈ Keyed.keys record.origins ↔ ∃ origin, record.get? path = some origin := by
  rw [Keyed.mem_keys_iff, Option.ne_none_iff_exists', Provenance.get?]

/-! ### The record of a tree with plain keys -/

section Plain

variable {layers : List Overlay}
  (hlayers : ∀ layer ∈ layers, layer.tree.isTable = true)
  (hplain : (overlaid layers).merged.PlainKeys)

include hlayers hplain

theorem exists_node_of_get? {path : String} {origin : Origin}
    (h : (overlaid layers).provenance.get? path = some origin) :
    ∃ keys node, keys ≠ [] ∧ dotted keys = path
      ∧ (overlaid layers).merged.at? keys = some node := by
  have hpath : path ≠ "" := by
    rintro rfl
    simp [get?_overlaid_root] at h
  rcases exists_node_of_get?_overlaid hlayers hpath h with ⟨keys, node, hnode, rfl⟩ | ⟨node, hnode⟩
  · refine ⟨keys, node, ?_, rfl, hnode⟩
    rintro rfl
    exact hpath rfl
  · -- the key without characters is not plain
    exact absurd rfl (hplain [""] node hnode "" List.mem_cons_self).1

theorem exists_get?_of_node {keys : List String} (hkeys : keys ≠ []) {node : Tree}
    (hnode : (overlaid layers).merged.at? keys = some node) :
    ∃ origin, (overlaid layers).provenance.get? (dotted keys) = some origin
      ∧ LastWith
        (fun layer => (∃ node, layer.tree.at? keys = some node) ∧ layer.origin = origin)
        (fun later => later.tree.at? keys = none) layers := by
  obtain ⟨origin, hlast⟩ := exists_lastWith_node hkeys hnode
  have hkeysPlain := hplain keys node hnode
  have hstray := hplain.not_stray hkeys hkeysPlain
  have hrecorded := get?_overlaid hlayers (.of_plain hkeys hkeysPlain) hstray origin
  exact ⟨origin, hrecorded.mpr ⟨⟨node, hnode⟩, hlast⟩, hlast⟩

end Plain

/-- **The record mirrors the merged tree.** Lay tables with plain keys over each other, with any
origins. After each of them the record has no path twice, and its paths are the dotted paths of the
nodes of the merged tree below the root. A node is recorded with the origin of the last overlay so
far that has a node at its path, and is blamed on that origin, not on one of an ancestor. -/
theorem record_mirrors_merged (layers : List Overlay)
    (hlayers : ∀ layer ∈ layers, layer.tree.isTable = true ∧ layer.tree.PlainKeys) :
    ∀ done, done <+: layers →
      let state := overlaid done
      Keyed.Ascending state.provenance.origins
      ∧ (∀ path, path ∈ Keyed.keys state.provenance.origins
          ↔ ∃ keys node, keys ≠ [] ∧ dotted keys = path ∧ state.merged.at? keys = some node)
      ∧ ∀ keys node, keys ≠ [] → state.merged.at? keys = some node →
        ∃ origin, state.provenance.get? (dotted keys) = some origin
          ∧ state.provenance.originOf (dotted keys) = origin
          ∧ LastWith
            (fun layer => (∃ node, layer.tree.at? keys = some node) ∧ layer.origin = origin)
            (fun later => later.tree.at? keys = none) done := by
  intro done hdone state
  have htables : ∀ layer ∈ done, layer.tree.isTable = true :=
    fun layer hlayer => (hlayers layer (hdone.subset hlayer)).1
  have hplain : state.merged.PlainKeys :=
    plainKeys_overlaid fun layer hlayer => (hlayers layer (hdone.subset hlayer)).2
  refine ⟨state.provenance.ascending, fun path => ?_, fun keys node hkeys hnode => ?_⟩
  · rw [mem_keys_iff]
    constructor
    · rintro ⟨origin, horigin⟩
      exact exists_node_of_get? htables hplain horigin
    · rintro ⟨keys, node, hkeys, rfl, hnode⟩
      obtain ⟨origin, horigin, -⟩ := exists_get?_of_node htables hplain hkeys hnode
      exact ⟨origin, horigin⟩
  · obtain ⟨origin, horigin, hlast⟩ := exists_get?_of_node htables hplain hkeys hnode
    exact ⟨origin, horigin, originOf_eq_of_get? horigin, hlast⟩

/-- A table that gives way to a number and comes back, next to a key that begins like its own. -/
def rebuiltLayers : List Overlay := [
  ⟨.nest ["metrics", "port"] (.int 80) trivial, .file "base.toml"⟩,
  ⟨.nest ["metrics_old"] (.int 1) trivial, .file "old.toml"⟩,
  ⟨.nest ["metrics"] (.int 5) trivial, .file "site.toml"⟩,
  ⟨.nest ["metrics", "host"] (.string "h") trivial, .env "HOST"⟩]

theorem record_mirrors_merged_rebuilt :
    let state := overlaid rebuiltLayers
    (∀ layer ∈ rebuiltLayers, layer.tree.isTable = true ∧ layer.tree.PlainKeys)
    ∧ rebuiltLayers <+: rebuiltLayers
    ∧ ["metrics_old"] ≠ []
    ∧ state.merged.at? ["metrics_old"] = some (.int 1)
    ∧ (∃ origin, state.provenance.get? "metrics_old" = some origin
      ∧ state.provenance.originOf "metrics_old" = origin
      ∧ LastWith
        (fun layer => (∃ node, layer.tree.at? ["metrics_old"] = some node) ∧ layer.origin = origin)
        (fun later => later.tree.at? ["metrics_old"] = none) rebuiltLayers)
    ∧ Keyed.keys state.provenance.origins = ["metrics", "metrics.host", "metrics_old"] := by
  intro state
  have hplain {keys : List String} {value : Tree} (hleaf : value.isTable = false)
      (hkeys : keys ≠ []) (hplain : ∀ key ∈ keys, Plain key) :
      (Tree.nest keys value).isTable = true ∧ (Tree.nest keys value).PlainKeys :=
    ⟨Tree.isTable_nest hkeys value, Tree.plainKeys_nest hleaf hplain⟩
  have hlayers : ∀ layer ∈ rebuiltLayers, layer.tree.isTable = true ∧ layer.tree.PlainKeys := by
    simp only [rebuiltLayers, List.forall_mem_cons]
    exact ⟨hplain rfl (by decide) (by decide), hplain rfl (by decide) (by decide),
      hplain rfl (by decide) (by decide), hplain rfl (by decide) (by decide), by simp⟩
  have hnode : state.merged.at? ["metrics_old"] = some (.int 1) := by decide +kernel
  obtain ⟨-, -, hnodes⟩ :=
    record_mirrors_merged rebuiltLayers hlayers rebuiltLayers (List.prefix_refl _)
  exact ⟨hlayers, List.prefix_refl _, by decide, hnode, hnodes _ _ (by decide) hnode,
    by decide +kernel⟩

end LayeredConfig
