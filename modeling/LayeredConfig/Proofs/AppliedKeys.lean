import LayeredConfig.Proofs.LastWrite
import LayeredConfig.Proofs.OverrideFrame
import Mathlib.Data.Set.Card

/-!
# The number of keys that a layer applies

A layer says how many keys its source applied. For a file this is the number of values that the
merged tree holds from it, whatever was there before. A source of variables counts the variables
that it applied, and as two names can stand for one field, the tree may hold fewer values from it.
-/

namespace LayeredConfig

namespace Tree

/-! ### The values of a tree -/

mutual

/-- The key paths at which the tree has a value other than a table. -/
def leafPaths : Tree → List (List String)
  | .table entries => leafPathsIn entries
  | _ => [[]]
termination_by structural tree => tree

def leafPathsIn : List (String × Tree) → List (List String)
  | [] => []
  | (key, child) :: rest => (leafPaths child).map (key :: ·) ++ leafPathsIn rest
termination_by structural entries => entries

end

theorem leafPathsIn_eq_flatMap (entries : List (String × Tree)) :
    leafPathsIn entries = entries.flatMap fun entry => entry.2.leafPaths.map (entry.1 :: ·) := by
  induction entries with
  | nil => rfl
  | cons entry rest ih => rw [leafPathsIn, ih, List.flatMap_cons]

theorem leafPaths_of_leaf {tree : Tree} (h : tree.isTable = false) : tree.leafPaths = [[]] := by
  cases tree <;> first | rfl | simp [isTable] at h

theorem length_leafPaths (tree : Tree) : tree.leafPaths.length = tree.leaves := by
  induction tree using tableInduction with
  | leaf tree hleaf =>
    rw [leafPaths_of_leaf hleaf]
    exact (leaves_nest [] hleaf).symm
  | table entries ih =>
    rw [leafPaths, leaves]
    induction entries with
    | nil => rfl
    | cons entry rest ihRest =>
      rw [List.forall_mem_cons] at ih
      rw [leafPathsIn, leavesIn, List.length_append, List.length_map, ih.1, ihRest ih.2]

theorem mem_leafPaths_iff {tree : Tree} (hcanonical : tree.Canonical) {keys : List String} :
    keys ∈ tree.leafPaths ↔ ∃ value, value.isTable = false ∧ tree.at? keys = some value := by
  induction tree using tableInduction generalizing keys with
  | leaf tree hleaf =>
    rw [leafPaths_of_leaf hleaf, List.mem_singleton]
    constructor
    · rintro rfl
      exact ⟨tree, hleaf, at?_nil tree⟩
    · rintro ⟨value, -, hvalue⟩
      cases keys with
      | nil => rfl
      | cons key keys => simp [at?_cons_of_leaf hleaf] at hvalue
  | table entries ih =>
    obtain ⟨hascending, hchildren⟩ := canonical_table_iff.mp hcanonical
    rw [leafPaths, leafPathsIn_eq_flatMap, List.mem_flatMap]
    constructor
    · rintro ⟨⟨key, child⟩, hentry, hkeys⟩
      obtain ⟨below, hbelow, rfl⟩ := List.mem_map.mp hkeys
      obtain ⟨value, hleaf, hvalue⟩ := (ih _ hentry (hchildren _ hentry)).mp hbelow
      refine ⟨value, hleaf, ?_⟩
      rw [at?_table_cons, (Keyed.get?_eq_some_iff hascending).mpr hentry]
      exact hvalue
    · rintro ⟨value, hleaf, hvalue⟩
      cases keys with
      | nil =>
        obtain rfl := Option.some.inj hvalue
        cases hleaf
      | cons key below =>
        obtain ⟨child, hchild, hbelow⟩ := Option.bind_eq_some_iff.mp hvalue
        have hentry := Keyed.mem_of_get? hchild
        exact ⟨(key, child), hentry, List.mem_map_of_mem
          ((ih _ hentry (hchildren _ hentry)).mpr ⟨value, hleaf, hbelow⟩)⟩

theorem nodup_leafPaths {tree : Tree} (hcanonical : tree.Canonical) : tree.leafPaths.Nodup := by
  induction tree using tableInduction with
  | leaf tree hleaf =>
    rw [leafPaths_of_leaf hleaf]
    exact List.nodup_singleton []
  | table entries ih =>
    obtain ⟨hascending, hchildren⟩ := canonical_table_iff.mp hcanonical
    rw [leafPaths, leafPathsIn_eq_flatMap, List.nodup_flatMap]
    refine ⟨fun entry hentry => ?_, hascending.imp fun {entry later} hlt => ?_⟩
    · exact (ih entry hentry (hchildren entry hentry)).map (List.cons_injective)
    · -- paths below different keys differ in their first key
      intro keys hkeys hlater
      obtain ⟨below, -, rfl⟩ := List.mem_map.mp hkeys
      obtain ⟨other, -, heq⟩ := List.mem_map.mp hlater
      exact hlt.ne (List.cons.inj heq).1.symm

end Tree

theorem encard_mem_list {α : Type} [DecidableEq α] (items : List α) :
    {item | item ∈ items}.encard = items.dedup.length := by
  rw [← List.card_toFinset, ← Set.encard_coe_eq_coe_finsetCard, List.coe_toFinset]

/-! ### The values that a source sets -/

/-- The key paths at which the merged tree, right after the source, holds a value other than a table
that an overlay of the source was the last to write. -/
def Source.sets (world : World) (state : Resolution) (source : Source) : Set (List String) :=
  {keys | ∃ value, value.isTable = false
    ∧ (state.add (source.contribution world Schema.indexer)).merged.at? keys = some value
    ∧ LastWith (fun layer => layer.tree.at? keys = some value)
      (fun later => later.tree.at? keys = none) (source.writes world)}

/-- A value that an overlay writes stays if no later one writes there or blocks the way. What was in
the state before does not matter. -/
theorem Source.mem_sets_iff {world : World} {state : Resolution} {source : Source}
    {keys : List String} : keys ∈ source.sets world state
      ↔ ∃ value, value.isTable = false
        ∧ LastWith (fun layer => layer.tree.at? keys = some value)
          (fun later => later.tree.at? keys = none ∧ ¬ later.tree.Blocks keys)
          (source.writes world) := by
  refine exists_congr fun value => and_congr_right fun hleaf => ?_
  have hmerged := foldl_overlay_iff (fun state => state.merged.at? keys = some value)
    (fun state layer => Tree.at?_overlay_eq_leaf_iff layer.canonical state.merged keys hleaf)
    (source.writes world) state
  change ((source.contribution world Schema.indexer).overlays.foldl Resolution.overlay
    state).merged.at? keys = some value ∧ _ ↔ _
  rw [overlays_contribution, hmerged]
  constructor
  · rintro ⟨hlast | ⟨-, hkept⟩, hwritten⟩
    · exact hlast
    · obtain ⟨layer, hlayer, hset⟩ := hwritten.exists_mem
      rw [(hkept layer hlayer).1] at hset
      cases hset
  · intro hlast
    exact ⟨Or.inl hlast, hlast.imp (fun _ _ h => h) fun _ _ h => h.1⟩

/-- A file sets every value of its tree. -/
theorem FileSource.encard_sets (world : World) (state : Resolution) (file : FileSource) :
    ((Source.file file).sets world state).encard
      = (file.contribution world).layer.keysApplied := by
  cases houtcome : file.outcome world with
  | loaded document =>
    have hwrites : (Source.file file).writes world = [⟨document, .file file.path⟩] := by
      simp [Source.writes, writes, houtcome]
    have hset : (Source.file file).sets world state = {keys | keys ∈ document.tree.leafPaths} := by
      ext keys
      rw [Source.mem_sets_iff, hwrites, Set.mem_ofPred_eq,
        Tree.mem_leafPaths_iff document.canonical]
      refine exists_congr fun value => and_congr_right fun _ => ?_
      exact (lastWith_append_singleton [] _).trans (by simp [not_lastWith_nil])
    rw [hset, encard_mem_list, List.dedup_eq_self.mpr (Tree.nodup_leafPaths document.canonical),
      Tree.length_leafPaths]
    simp [contribution, houtcome]
  | _ =>
    have hset : (Source.file file).sets world state = ∅ := by
      ext keys
      rw [Source.mem_sets_iff]
      simp [Source.writes, writes, houtcome, not_lastWith_nil]
    rw [hset]
    simp [contribution, houtcome]

namespace VariableSource

theorem mem_named_iff {family : String} {bindings : List (String × String)} {field : Field} :
    field ∈ named family bindings ↔ ∃ name raw, (name, raw) ∈ bindings
      ∧ Override.target? Schema.indexer family name = some (.ok field) := by
  rw [named, List.mem_filterMap]
  constructor
  · rintro ⟨⟨name, raw⟩, hmem, hfield⟩
    simp only at hfield
    split at hfield
    · rename_i other htarget
      obtain rfl := Option.some.inj hfield
      exact ⟨name, raw, hmem, htarget⟩
    · simp at hfield
  · rintro ⟨name, raw, hmem, htarget⟩
    exact ⟨(name, raw), hmem, by simp only [htarget]⟩

theorem keysApplied_eq (world : World) (source : VariableSource) :
    (source.contribution world Schema.indexer).layer.keysApplied
      = (named source.family (source.snapshot world.environment).bindings).length := by
  have hoverlays := overlays_contribution world (.environment source)
  change (source.contribution world Schema.indexer).overlays = source.writes world at hoverlays
  change (source.contribution world Schema.indexer).overlays.length = _
  rw [hoverlays, writes, named, List.length_filterMap_eq_countP, List.length_filterMap_eq_countP]
  refine List.countP_congr fun binding _ => ?_
  obtain ⟨name, raw⟩ := binding
  cases htarget : Override.target? Schema.indexer source.family name with
  | none => simp [htarget]
  | some target => cases target <;> simp [htarget]

/-- The field of another variable is elsewhere: a write there neither reaches this field nor blocks
the way to it. -/
theorem sets_or_keeps {world : World} {source : VariableSource} {field : Field}
    (hfield : field ∈ Schema.indexer.fields) :
    ∀ layer ∈ source.writes world,
      (∃ value, value.isTable = false ∧ layer.tree.at? field.keys = some value)
        ∨ (layer.tree.at? field.keys = none ∧ ¬ layer.tree.Blocks field.keys) := by
  intro layer hlayer
  obtain ⟨name, raw, other, -, htarget, rfl⟩ := mem_writes_iff.mp hlayer
  have hleaf := Override.isTable_coerce raw other.kind
  by_cases heq : other = field
  · exact Or.inl ⟨_, hleaf, heq ▸ Tree.at?_nest _ _⟩
  · exact Or.inr (Schema.indexer_separate.nest_of_ne hfield (target?_mem htarget) heq hleaf)

/-- Variables set the fields that they name. -/
theorem sets_eq (world : World) (state : Resolution) (source : VariableSource) :
    (Source.environment source).sets world state
      = {keys | ∃ field ∈ named source.family (source.snapshot world.environment).bindings,
          field.keys = keys} := by
  ext keys
  rw [Source.mem_sets_iff, Set.mem_ofPred_eq]
  change (∃ value, Tree.isTable value = false ∧ LastWith _ _ (source.writes world)) ↔ _
  constructor
  · rintro ⟨value, hvalueLeaf, hlast⟩
    obtain ⟨layer, hlayer, hvalue⟩ := hlast.exists_mem
    obtain ⟨name, raw, field, hbinding, htarget, rfl⟩ := mem_writes_iff.mp hlayer
    obtain ⟨rfl, -⟩ := Overlay.eq_of_at?_ofVariable_leaf hvalue hvalueLeaf
    exact ⟨field, mem_named_iff.mpr ⟨name, raw, hbinding, htarget⟩, rfl⟩
  · rintro ⟨field, hfield, rfl⟩
    obtain ⟨name, raw, hbinding, htarget⟩ := mem_named_iff.mp hfield
    have hwritten := mem_writes_iff.mpr ⟨name, raw, field, hbinding, htarget, rfl⟩
    have hset : ∃ value, Tree.isTable value = false
        ∧ (Tree.nest field.keys (Override.coerce raw field.kind)).at? field.keys = some value :=
      ⟨_, Override.isTable_coerce raw field.kind, Tree.at?_nest _ _⟩
    obtain ⟨before, layer, after, hsplit, ⟨value, hleaf, hvalue⟩, hkept⟩ :=
      LastWith.of_forall ⟨_, hwritten, hset⟩ (sets_or_keeps (target?_mem htarget))
    exact ⟨value, hleaf, before, layer, after, hsplit, hvalue, hkept⟩

theorem encard_sets (world : World) (state : Resolution) (source : VariableSource) :
    ((Source.environment source).sets world state).encard
      = (named source.family (source.snapshot world.environment).bindings).dedup.length := by
  have hinjective : Set.InjOn Field.keys
      {field | field ∈ named source.family (source.snapshot world.environment).bindings} := by
    intro field hfield other hother hkeys
    obtain ⟨_, _, -, htarget⟩ := mem_named_iff.mp hfield
    obtain ⟨_, _, -, hotherTarget⟩ := mem_named_iff.mp hother
    exact Schema.indexer_separate.eq_of_initial (target?_mem htarget) (target?_mem hotherTarget)
      (hkeys ▸ List.prefix_refl _)
  rw [sets_eq, ← encard_mem_list, ← hinjective.encard_image]
  rfl

end VariableSource

/-- **The number of keys applied.** Right after a file, the merged tree holds as many values that
stem from it as its layer says. Right after a source of variables it holds one for each field that
some variable names, while the layer counts the variables that name one; the numbers agree exactly
if no two variables name the same field. -/
theorem keysApplied_counts (world : World) (state : Resolution) :
    (∀ file : FileSource, ((Source.file file).sets world state).encard
        = (file.contribution world).layer.keysApplied)
      ∧ ∀ source : VariableSource,
        let seen := source.snapshot world.environment
        let fields := VariableSource.named source.family seen.bindings
        let layer := (source.contribution world Schema.indexer).layer
        let set := (Source.environment source).sets world state
        set = {keys | ∃ field ∈ fields, field.keys = keys}
          ∧ set.encard = fields.dedup.length
          ∧ layer.keysApplied = fields.length
          ∧ (set.encard = layer.keysApplied ↔ fields.Nodup) := by
  refine ⟨FileSource.encard_sets world state, fun source => ?_⟩
  intro seen fields layer set
  have hencard : set.encard = fields.dedup.length := source.encard_sets world state
  have happlied : layer.keysApplied = fields.length := source.keysApplied_eq world
  refine ⟨source.sets_eq world state, hencard, happlied, ?_⟩
  rw [hencard, happlied, Nat.cast_inj]
  constructor
  · intro hlength
    exact List.dedup_eq_self.mp ((List.dedup_sublist fields).eq_of_length hlength)
  · intro hnodup
    rw [List.dedup_eq_self.mpr hnodup]

/-- Two names of one field, with one underscore before its keys and with two. -/
def twiceNamed : VariableSource :=
  .fixed "INDEXER_" [("INDEXER_METRICS__PORT", "1"), ("INDEXER__METRICS__PORT", "2")]

/-- Both variables are counted, and the tree holds one value. -/
theorem twice_named_field_counts_twice :
    ¬ ∀ world state source, (Source.sets world state source).encard
      = (source.contribution world Schema.indexer).layer.keysApplied := by
  intro h
  have hcounts := h (.ofTexts []) .start (.environment twiceNamed)
  have happlied : ((Source.environment twiceNamed).contribution (.ofTexts [])
      Schema.indexer).layer.keysApplied = 2 := by
    decide +kernel
  have hfields : (VariableSource.named twiceNamed.family
      (twiceNamed.snapshot (World.ofTexts []).environment).bindings).dedup.length = 1 := by
    decide +kernel
  rw [VariableSource.encard_sets, hfields, happlied] at hcounts
  exact absurd (Nat.cast_inj.mp hcounts) (by decide)

end LayeredConfig
