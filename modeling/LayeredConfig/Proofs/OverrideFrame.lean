import LayeredConfig.Proofs.UnknownKeys
import LayeredConfig.Proofs.Writes

/-!
# What an override leaves alone

A variable that names a field sets it, whatever the tree held there. For the other fields the tree
is as it was, apart from values that stood in the place of a table above the field that is set: they
give way to tables, and the fields below them are no longer blocked but absent. The unknown keys
stay the same. A source applies one variable after the other, and the frames add up.
-/

namespace LayeredConfig

namespace Tree

/-! ### One path -/

section Nest

variable {keys route : List String} {value : Tree} (hleaf : value.isTable = false) (base : Tree)

include hleaf

theorem lookup_overlay_nest_self : (base.overlay (nest keys value)).lookup keys = .found value := by
  have hcanonical := canonical_nest keys (canonical_of_leaf hleaf)
  rw [lookup_eq_found_iff, at?_overlay_of_some hcanonical base (at?_nest keys value),
    elim_overlay_of_leaf _ hleaf]

/-- Off the path of the nest, the tree stays as it was. -/
theorem at?_overlay_nest (hbelow : ¬ keys <+: route) (habove : ¬ route <+: keys) :
    (base.overlay (nest keys value)).at? route = base.at? route := by
  have hcanonical := canonical_nest keys (canonical_of_leaf hleaf)
  refine at?_overlay_of_none hcanonical base ?_ (not_blocks_nest hleaf hbelow)
  rw [Option.eq_none_iff_forall_ne_some]
  exact fun node hnode => habove (initial_of_at?_nest hleaf hnode)

/-- On the path there are tables, so that values other than tables are those of the tree before. -/
theorem at?_of_overlay_nest_leaf {node : Tree} (hnode : node.isTable = false)
    (hbelow : ¬ keys <+: route) (h : (base.overlay (nest keys value)).at? route = some node) :
    ¬ route <+: keys ∧ base.at? route = some node := by
  have habove : ¬ route <+: keys := by
    rintro ⟨rest, rfl⟩
    have hrest : rest ≠ [] := by
      rintro rfl
      exact hbelow (by simp)
    have hcanonical := canonical_nest (route ++ rest) (canonical_of_leaf hleaf)
    rw [at?_overlay_of_some hcanonical base (at?_nest_append route rest value)] at h
    have htable := isTable_elim_overlay (base.at? route) (nest rest value)
    rw [Option.some.inj h, hnode, isTable_nest hrest] at htable
    simp at htable
  exact ⟨habove, at?_overlay_nest hleaf base hbelow habove ▸ h⟩

end Nest

/-- The outcome of a look-up once the fields are written: what blocked them has given way to
tables. -/
def Lookup.released (written : List Field) : Lookup → Lookup
  | .blocked stop value =>
    if ∃ field ∈ written, stop <+: field.keys then .missing else .blocked stop value
  | outcome => outcome

theorem Lookup.released_nil (outcome : Lookup) : outcome.released [] = outcome := by
  cases outcome <;> simp [released]

theorem Lookup.released_append (written more : List Field) (outcome : Lookup) :
    outcome.released (written ++ more) = (outcome.released written).released more := by
  cases outcome with
  | found value => rfl
  | missing => rfl
  | blocked stop value =>
    by_cases h : ∃ field ∈ written, stop <+: field.keys
    · simp [released, or_and_right, exists_or, h]
    · simp [released, or_and_right, exists_or, h]

/-- Writing one field releases the look-up of another one. -/
theorem lookup_overlay_nest {field other : Field} {value : Tree} (hleaf : value.isTable = false)
    (base : Tree) (hbelow : ¬ field.keys <+: other.keys) (habove : ¬ other.keys <+: field.keys) :
    (base.overlay (nest field.keys value)).lookup other.keys
      = (base.lookup other.keys).released [field] := by
  have hstays := at?_overlay_nest hleaf base hbelow habove
  -- a value in the way after the overlay was in the way before, and not above the field
  have hblocks {above below : List String} {key : String} {node : Tree}
      (hkeys : other.keys = above ++ key :: below)
      (hnode : (base.overlay (nest field.keys value)).at? above = some node)
      (hnodeLeaf : node.isTable = false) :
      ¬ above <+: field.keys ∧ base.at? above = some node := by
    refine at?_of_overlay_nest_leaf hleaf base hnodeLeaf (fun hinitial => hbelow ?_) hnode
    exact hinitial.trans ⟨key :: below, hkeys.symm⟩
  cases hlookup : base.lookup other.keys with
  | found node =>
    exact lookup_eq_found_iff.mpr (hstays.trans (lookup_eq_found_iff.mp hlookup))
  | missing =>
    obtain ⟨hnone, hopen⟩ := lookup_eq_missing_iff.mp hlookup
    refine lookup_eq_missing_iff.mpr ⟨hstays.trans hnone, ?_⟩
    rintro ⟨above, key, below, node, hkeys, hnode, hnodeLeaf⟩
    exact hopen ⟨above, key, below, node, hkeys, (hblocks hkeys hnode hnodeLeaf).2, hnodeLeaf⟩
  | blocked stop node =>
    obtain ⟨hinitial, hne, hnode, hnodeLeaf⟩ := lookup_eq_blocked_iff.mp hlookup
    by_cases hreleased : stop <+: field.keys
    · have hmissing : (Lookup.blocked stop node).released [field] = .missing := by
        simp [Lookup.released, hreleased]
      have hnone : base.at? other.keys = none := by
        rw [Option.eq_none_iff_forall_ne_some]
        intro found hfound
        rw [← lookup_eq_found_iff, hlookup] at hfound
        cases hfound
      rw [hmissing]
      refine lookup_eq_missing_iff.mpr ⟨hstays.trans hnone, ?_⟩
      -- nothing else is in the way, since at most one value is
      rintro ⟨above, key, below, further, hkeys, hfurther, hfurtherLeaf⟩
      obtain ⟨hnotAbove, hbefore⟩ := hblocks hkeys hfurther hfurtherLeaf
      obtain rfl := eq_of_leaves_on_the_way hinitial ⟨key :: below, hkeys.symm⟩ hnode hnodeLeaf
        hbefore hfurtherLeaf
      exact hnotAbove hreleased
    · have hblocked : (Lookup.blocked stop node).released [field] = .blocked stop node := by
        simp [Lookup.released, hreleased]
      rw [hblocked]
      refine lookup_eq_blocked_iff.mpr ⟨hinitial, hne, ?_, hnodeLeaf⟩
      exact (at?_overlay_nest hleaf base (fun h => hbelow (h.trans hinitial)) hreleased).trans hnode

end Tree

/-! ### Unknown keys -/

/-- The paths of the unknown keys among some violations, in order. -/
def unknownPaths (violations : List Violation) : List String :=
  violations.filterMap fun
    | .unknownField path _ => some path
    | _ => none

section Unknown

variable {schema : Schema} (hplain : schema.Plain) (hseparate : schema.Separate)

include hplain hseparate

/-- The nodes of a nest are at the beginnings of a field's path, where no key is undeclared. -/
theorem UnknownKey.of_overlay_nest_iff {field : Field} (hfield : field ∈ schema.fields)
    {value : Tree} (hleaf : value.isTable = false) (base : Tree) (found : UnknownKey) :
    found.Of schema (base.overlay (.nest field.keys value)) ↔ found.Of schema base := by
  refine and_congr_right fun htable => and_congr_left fun hundeclared => ?_
  have habove : ¬ found.keys <+: field.keys :=
    hundeclared.not_initial hplain htable field hfield
  have hbelow : ¬ field.keys <+: found.keys := by
    intro hinitial
    rcases List.prefix_concat_iff.mp hinitial with hkeys | htablePrefix
    · exact habove (hkeys ▸ List.prefix_refl _)
    · exact hseparate.not_hasTable hfield htablePrefix htable
  rw [Tree.at?_overlay_nest hleaf base hbelow habove]

theorem unknownPaths_eq (hfields : schema.fields ≠ []) {tree : Tree} (hcanonical : tree.Canonical) :
    ∃ unknown : List UnknownKey, (∀ found, found ∈ unknown ↔ found.Of schema tree)
      ∧ unknown.Pairwise (fun found later => found.keys < later.keys)
      ∧ ∀ record, unknownPaths (schema.violations tree record) = unknown.map UnknownKey.path := by
  obtain ⟨problems, unknown, hreport, -, hunknown, -, hascending⟩ :=
    exists_report hplain hseparate hfields hcanonical
  refine ⟨unknown, hunknown, hascending, fun record => ?_⟩
  have hproblems : unknownPaths (problems.map (Problem.violation record)) = [] := by
    rw [unknownPaths, List.filterMap_map, List.filterMap_eq_nil_iff]
    rintro (_ | _ | _ | _) - <;> rfl
  have hkeys : unknownPaths (unknown.map (UnknownKey.violation record))
      = unknown.map UnknownKey.path := by
    rw [unknownPaths, List.filterMap_map, ← List.filterMap_eq_map]
    rfl
  rw [hreport, unknownPaths, List.filterMap_append]
  exact (congrArg₂ _ hproblems hkeys).trans (List.nil_append _)

theorem unknownPaths_overlay_nest {field : Field} (hfield : field ∈ schema.fields) {value : Tree}
    (hleaf : value.isTable = false) {base : Tree} (hbase : base.Canonical)
    (record later : Provenance) :
    unknownPaths (schema.violations (base.overlay (.nest field.keys value)) later)
      = unknownPaths (schema.violations base record) := by
  have hfields := List.ne_nil_of_mem hfield
  have hafter := Tree.canonical_overlay hbase
    (Tree.canonical_nest field.keys (Tree.canonical_of_leaf hleaf))
  obtain ⟨unknown, hunknown, hascending, hpaths⟩ :=
    unknownPaths_eq hplain hseparate hfields hbase
  obtain ⟨others, hothers, hothersAscending, hothersPaths⟩ :=
    unknownPaths_eq hplain hseparate hfields hafter
  have hsame : others = unknown := by
    refine Keyed.eq_of_ascending_of_mem_iff UnknownKey.keys hothersAscending hascending ?_
    intro found
    rw [hothers, hunknown, found.of_overlay_nest_iff hplain hseparate hfield hleaf]
  rw [hpaths, hothersPaths, hsame]

end Unknown

/-! ### Frames -/

/-- What writing the fields `written` leaves of a tree: the other fields, apart from those that were
blocked above a field that is written, and the unknown keys. -/
structure Frame (written : List Field) (before after : Tree) : Prop where
  lookup : ∀ other ∈ Schema.indexer.fields, other ∉ written →
    after.lookup other.keys = (before.lookup other.keys).released written
  unknown : ∀ record later, unknownPaths (Schema.indexer.violations after later)
    = unknownPaths (Schema.indexer.violations before record)

namespace Frame

theorem refl {tree : Tree} (hcanonical : tree.Canonical) : Frame [] tree tree := by
  refine ⟨fun other _ _ => (Tree.Lookup.released_nil _).symm, fun record later => ?_⟩
  obtain ⟨unknown, -, -, hpaths⟩ := unknownPaths_eq Schema.indexer_plain Schema.indexer_separate
    (by decide) hcanonical
  rw [hpaths, hpaths]

theorem trans {written more : List Field} {before between after : Tree}
    (h : Frame written before between) (hmore : Frame more between after) :
    Frame (written ++ more) before after := by
  constructor
  · intro other hother hnot
    rw [List.mem_append, not_or] at hnot
    rw [hmore.lookup other hother hnot.2, h.lookup other hother hnot.1,
      Tree.Lookup.released_append]
  · exact fun record later => (hmore.unknown record later).trans (h.unknown record record)

/-- One field is written. -/
theorem of_write {field : Field} (hfield : field ∈ Schema.indexer.fields) {value : Tree}
    (hleaf : value.isTable = false) {base : Tree} (hbase : base.Canonical) :
    Frame [field] base (base.overlay (.nest field.keys value)) := by
  constructor
  · intro other hother hnot
    have hseparate := Schema.indexer_separate
    refine Tree.lookup_overlay_nest hleaf base (fun hinitial => hnot ?_) fun hinitial => hnot ?_
    · rw [hseparate.eq_of_initial hfield hother hinitial]
      exact List.mem_singleton_self other
    · rw [hseparate.eq_of_initial hother hfield hinitial]
      exact List.mem_singleton_self field
  · exact unknownPaths_overlay_nest Schema.indexer_plain Schema.indexer_separate hfield hleaf hbase

end Frame

/-! ### Sources of variables -/

namespace VariableSource

/-- The fields that variables name, in the order of the variables. -/
def named (family : String) (bindings : List (String × String)) : List Field :=
  bindings.filterMap fun (name, _) =>
    match Override.target? Schema.indexer family name with
    | some (.ok field) => some field
    | _ => none

/-- What the variables write, as trees. -/
def trees (family : String) (bindings : List (String × String)) : List Tree :=
  bindings.filterMap fun (name, raw) =>
    match Override.target? Schema.indexer family name with
    | some (.ok field) => some (.nest field.keys (Override.coerce raw field.kind))
    | _ => none

theorem map_tree_writes (world : World) (source : VariableSource) :
    ((source.writes world).map fun layer => layer.tree)
      = trees source.family (source.snapshot world.environment).bindings := by
  rw [writes, List.map_filterMap]
  refine List.filterMap_congr fun binding _ => ?_
  obtain ⟨name, raw⟩ := binding
  cases htarget : Override.target? Schema.indexer source.family name with
  | none => simp [htarget]
  | some target => cases target <;> simp [htarget]

theorem merged_add (world : World) (source : VariableSource) (state : Resolution) :
    (state.add (source.contribution world Schema.indexer)).merged
      = (trees source.family (source.snapshot world.environment).bindings).foldl Tree.overlay
        state.merged := by
  have hoverlays := overlays_contribution world (.environment source)
  change (source.contribution world Schema.indexer).overlays = source.writes world at hoverlays
  rw [Resolution.add, hoverlays, ← map_tree_writes]
  exact merged_foldl_overlay _ state

variable {family : String} {base : Tree}

theorem frame_trees (bindings : List (String × String)) (hbase : base.Canonical) :
    Frame (named family bindings) base ((trees family bindings).foldl Tree.overlay base)
      ∧ ((trees family bindings).foldl Tree.overlay base).Canonical := by
  induction bindings generalizing base with
  | nil => exact ⟨Frame.refl hbase, hbase⟩
  | cons binding bindings ih =>
    obtain ⟨name, raw⟩ := binding
    unfold named trees at ih ⊢
    rw [List.filterMap_cons, List.filterMap_cons]
    cases htarget : Override.target? Schema.indexer family name with
    | none => simpa only [htarget] using ih hbase
    | some target =>
      cases target with
      | error skip => simpa only [htarget] using ih hbase
      | ok field =>
        have hleaf := Override.isTable_coerce raw field.kind
        have hwrite := Frame.of_write (target?_mem htarget) hleaf hbase
        have hcanonical := Tree.canonical_overlay hbase
          (Tree.canonical_nest field.keys (Tree.canonical_of_leaf hleaf))
        obtain ⟨hframe, hlast⟩ := ih hcanonical
        simp only [htarget]
        exact ⟨hwrite.trans hframe, hlast⟩

/-- A field has the value of the last variable that names it. -/
theorem lookup_trees {before later : List (String × String)} {name raw : String} {field : Field}
    (htarget : Override.target? Schema.indexer family name = some (.ok field))
    (hlast : field ∉ named family later) (hbase : base.Canonical) :
    ((trees family (before ++ (name, raw) :: later)).foldl Tree.overlay base).lookup field.keys
      = .found (Override.coerce raw field.kind) := by
  have hleaf := Override.isTable_coerce raw field.kind
  have hsplit : trees family (before ++ (name, raw) :: later)
      = trees family before
        ++ .nest field.keys (Override.coerce raw field.kind) :: trees family later := by
    simp [trees, htarget]
  have hbefore : ((trees family before).foldl Tree.overlay base).Canonical :=
    (frame_trees before hbase).2
  have hcanonical := Tree.canonical_overlay hbefore
    (Tree.canonical_nest field.keys (Tree.canonical_of_leaf hleaf))
  rw [hsplit, List.foldl_append, List.foldl_cons,
    (frame_trees later hcanonical).1.lookup field (target?_mem htarget) hlast,
    Tree.lookup_overlay_nest_self hleaf]
  rfl

end VariableSource

/-- **An override takes effect and touches nothing else.** Whatever the merged tree holds, a
variable that names a field sets it to the value it is read as. The look-ups of the other fields
stay, but for those that a value above the field blocked, and so do the unknown keys. The same holds
for all the variables of a source together, where the last variable for a field decides. -/
theorem override_takes_effect (state : Resolution) :
    (∀ (family name raw : String) (field : Field),
      Override.target? Schema.indexer family name = some (.ok field) →
      ∀ layer, VariableSource.overlay? (name, raw, .ok field) = some layer →
        (state.overlay layer).merged.lookup field.keys = .found (Override.coerce raw field.kind)
          ∧ Frame [field] state.merged (state.overlay layer).merged)
    ∧ ∀ (world : World) (source : VariableSource),
      let bindings := (source.snapshot world.environment).bindings
      let after := (state.add (source.contribution world Schema.indexer)).merged
      Frame (VariableSource.named source.family bindings) state.merged after
        ∧ ∀ before name raw later field, bindings = before ++ (name, raw) :: later →
          Override.target? Schema.indexer source.family name = some (.ok field) →
          field ∉ VariableSource.named source.family later →
          after.lookup field.keys = .found (Override.coerce raw field.kind) := by
  constructor
  · intro family name raw field htarget layer hlayer
    obtain rfl := Option.some.inj hlayer
    have hleaf := Override.isTable_coerce raw field.kind
    exact ⟨Tree.lookup_overlay_nest_self hleaf state.merged,
      Frame.of_write (target?_mem htarget) hleaf state.canonical⟩
  · intro world source bindings after
    have hmerged : after = (VariableSource.trees source.family bindings).foldl Tree.overlay
        state.merged := source.merged_add world state
    rw [hmerged]
    refine ⟨(VariableSource.frame_trees bindings state.canonical).1, ?_⟩
    intro before name raw later field hbindings htarget hlast
    rw [hbindings]
    exact VariableSource.lookup_trees htarget hlast state.canonical

/-- A text stands in the place of a table. The variable for one field below it opens the way to the
others, and the number in the place of another table stays in the way. -/
theorem override_takes_effect_below_text :
    let base : Tree := .table [("metrics", .int 5), ("spare", .null),
      ("subgraphs", .string "legacy")]
    let state : Resolution := { Resolution.start with merged := base, canonical := by decide }
    let port : Field := (Field.optional ["metrics", "port"] .integer).atMost 65535
    let source := VariableSource.fixed "INDEXER_"
      [("INDEXER_SUBGRAPHS__ESCROW__QUERY_URL", "http://escrow"), ("INDEXER_SPARE", "1")]
    let world : World := .ofTexts []
    let after := (state.add (source.contribution world Schema.indexer)).merged
    (∀ layer, VariableSource.overlay? ("INDEXER_METRICS__PORT", "80", .ok port) = some layer →
        (state.overlay layer).merged.lookup port.keys = .found (.int 80))
      ∧ after.lookup ["subgraphs", "escrow", "query_url"] = .found (.string "http://escrow")
      ∧ base.lookup ["subgraphs", "network", "query_url"]
        = .blocked ["subgraphs"] (.string "legacy")
      ∧ after.lookup ["subgraphs", "network", "query_url"] = .missing
      ∧ after.lookup port.keys = .blocked ["metrics"] (.int 5)
      ∧ ∀ record, unknownPaths (Schema.indexer.violations after record) = ["spare"] := by
  intro base state port source world after
  obtain ⟨hone, hsources⟩ := override_takes_effect state
  obtain ⟨hframe, hlast⟩ := hsources world source
  have hbindings : (source.snapshot world.environment).bindings
      = [("INDEXER_SPARE", "1"), ("INDEXER_SUBGRAPHS__ESCROW__QUERY_URL", "http://escrow")] := by
    decide +kernel
  have hnamed : VariableSource.named source.family (source.snapshot world.environment).bindings
      = [.mandatory ["subgraphs", "escrow", "query_url"] .string] := by
    decide +kernel
  have hport : Override.target? Schema.indexer "INDEXER_" "INDEXER_METRICS__PORT"
      = some (.ok port) := by
    decide +kernel
  have hurl : Override.target? Schema.indexer "INDEXER_" "INDEXER_SUBGRAPHS__ESCROW__QUERY_URL"
      = some (.ok (.mandatory ["subgraphs", "escrow", "query_url"] .string)) := by
    decide +kernel
  rw [hnamed] at hframe
  refine ⟨?_, ?_, rfl, ?_, ?_, ?_⟩
  · exact fun layer hlayer => (hone _ _ "80" port hport layer hlayer).1
  · exact hlast [_] _ _ [] _ hbindings hurl (by simp [VariableSource.named])
  · exact hframe.lookup (.mandatory ["subgraphs", "network", "query_url"] .string) (by decide)
      (by decide)
  · exact hframe.lookup port (by decide) (by decide)
  · exact hframe.unknown .empty

end LayeredConfig
