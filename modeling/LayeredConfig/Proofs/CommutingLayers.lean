import LayeredConfig.Proofs.RepeatedSources

/-!
# Layers that commute

Two layers that meet at tables only can be laid in either order. At a path where one of them has a
node the other has nothing that would replace or block it, so that each brings what it brings
whether it comes first or last. Which origin is on record for a table that both have depends on the
order; a value other than a table is written by one of them at most.
-/

namespace LayeredConfig

open KeyPath Provenance

/-- Below a table, a value that is no table is not at the root. -/
theorem Tree.ne_nil_of_leaf {tree value : Tree} (htable : tree.isTable = true)
    {path : List String} (hvalue : tree.at? path = some value) (hleaf : value.isTable = false) :
    path ≠ [] := by
  rintro rfl
  rw [at?_nil, Option.some.injEq] at hvalue
  simp [← hvalue, htable] at hleaf

/-- Wherever below the root both trees have a node, both have a table. -/
def Tree.Apart (tree other : Tree) : Prop :=
  ∀ path node otherNode, path ≠ [] → tree.at? path = some node → other.at? path = some otherNode →
    node.isTable = true ∧ otherNode.isTable = true

namespace Tree.Apart

variable {tree other : Tree}

theorem symm (h : tree.Apart other) : other.Apart tree := by
  intro path otherNode node hpath hother hnode
  exact (h path node otherNode hpath hnode hother).symm

/-- Where one tree has a node, the other has no value that is no table above it. -/
theorem not_blocks (h : tree.Apart other) (hother : other.isTable = true) {path : List String}
    {node : Tree} (hnode : tree.at? path = some node) : ¬ other.Blocks path := by
  rintro ⟨above, key, below, value, rfl, hvalue, hleaf⟩
  obtain ⟨entries, htable⟩ := isTable_of_at?_append_cons hnode
  have hvalueTable := (h above _ value (ne_nil_of_leaf hother hvalue hleaf) htable hvalue).2
  simp [hleaf] at hvalueTable

/-- Where one tree has a value that is no table, the other has nothing. -/
theorem at?_eq_none_of_leaf (h : tree.Apart other) {path : List String} (hpath : path ≠ [])
    {value : Tree} (hvalue : tree.at? path = some value) (hleaf : value.isTable = false) :
    other.at? path = none := by
  rw [Option.eq_none_iff_forall_ne_some]
  intro node hnode
  have htable := (h path value node hpath hvalue hnode).1
  simp [hleaf] at htable

end Tree.Apart

/-- Values at paths that branch are apart: up to the branch both trees have tables, and no further
node in common. -/
theorem Tree.apart_nest {keys others : List String} {value other : Tree}
    (hvalue : value.isTable = false) (hother : other.isTable = false)
    (hbelow : ¬ keys <+: others) (habove : ¬ others <+: keys) :
    (nest keys value).Apart (.nest others other) := by
  have htable {keys path : List String} {value node : Tree} (hinitial : path <+: keys)
      (hne : path ≠ keys) (hnode : (nest keys value).at? path = some node) :
      node.isTable = true := by
    obtain ⟨rest, rfl⟩ := hinitial
    rw [at?_nest_append, Option.some.injEq] at hnode
    rw [← hnode]
    exact isTable_nest (by simpa using hne) value
  intro path node otherNode _ hnode hotherNode
  have hkeys := initial_of_at?_nest hvalue hnode
  have hothers := initial_of_at?_nest hother hotherNode
  refine ⟨htable hkeys ?_ hnode, htable hothers ?_ hotherNode⟩
  · rintro rfl
    exact hbelow hothers
  · rintro rfl
    exact habove hkeys

/-! ### Two overlays in either order -/

section Pair

variable {sets keeps : Overlay → Prop} {first second : Overlay}
  (hfirst : sets first → keeps second) (hsecond : sets second → keeps first)

include hfirst hsecond

/-- If each overlay keeps what the other one sets, then the last one that sets is the same one in
either order. -/
theorem lastWith_pair_comm (layers : List Overlay) :
    LastWith sets keeps (layers ++ [first, second])
      ↔ LastWith sets keeps (layers ++ [second, first]) := by
  have hsplit (one two : Overlay) : layers ++ [one, two] = layers ++ [one] ++ [two] := by simp
  simp only [hsplit, lastWith_append_singleton]
  tauto

/-- What each overlay sets or keeps, and keeps where the other one sets, holds after both of them
in either order. -/
theorem overlay_pair_comm (holds : Resolution → Prop)
    (hstep : ∀ state layer, holds (state.overlay layer) ↔ sets layer ∨ (holds state ∧ keeps layer))
    (state : Resolution) :
    holds ((state.overlay first).overlay second)
      ↔ holds ((state.overlay second).overlay first) := by
  rw [hstep, hstep, hstep, hstep]
  tauto

end Pair

section Apart

variable {first second : Overlay} (hfirst : first.tree.isTable = true)
  (hsecond : second.tree.isTable = true) (hapart : first.tree.Apart second.tree)

section

include hapart

/-- A value that is no table has been written by one of the two at most: if both had a node there,
the second one would have put its table there. -/
theorem at?_eq_none_or_of_leaf {state : Resolution} {keys : List String} (hkeys : keys ≠ [])
    {value : Tree} (hleaf : value.isTable = false)
    (hvalue : ((state.overlay first).overlay second).merged.at? keys = some value) :
    first.tree.at? keys = none ∨ second.tree.at? keys = none := by
  cases hfirstNode : first.tree.at? keys with
  | none => exact Or.inl rfl
  | some node =>
    cases hsecondNode : second.tree.at? keys with
    | none => exact Or.inr rfl
    | some later =>
      have htable := (hapart keys node later hkeys hfirstNode hsecondNode).2
      have hmerged :=
        Tree.at?_overlay_of_some second.canonical (state.overlay first).merged hsecondNode
      have hmergedTable :=
        Tree.isTable_elim_overlay ((state.overlay first).merged.at? keys) later
      rw [← Option.some.inj (hvalue.symm.trans hmerged), hleaf, htable] at hmergedTable
      simp at hmergedTable

end

include hfirst hsecond hapart

theorem merged_overlay_comm (state : Resolution) :
    ((state.overlay first).overlay second).merged
      = ((state.overlay second).overlay first).merged := by
  refine Tree.Alike.eq ⟨fun path value hleaf => ?_, fun path => ?_⟩
    (Resolution.canonical _) (Resolution.canonical _)
  · have hkeeps {one two : Overlay} (hone : one.tree.isTable = true)
        (htwo : two.tree.isTable = true) (h : one.tree.Apart two.tree)
        (hvalue : one.tree.at? path = some value) :
        two.tree.at? path = none ∧ ¬ two.tree.Blocks path :=
      ⟨h.at?_eq_none_of_leaf (Tree.ne_nil_of_leaf hone hvalue hleaf) hvalue hleaf,
        h.not_blocks htwo hvalue⟩
    exact overlay_pair_comm (hkeeps hfirst hsecond hapart) (hkeeps hsecond hfirst hapart.symm)
      (fun state => state.merged.at? path = some value)
      (fun state layer => Tree.at?_overlay_eq_leaf_iff layer.canonical state.merged path hleaf)
      state
  · have hkeeps {one two : Overlay} (htwo : two.tree.isTable = true)
        (h : one.tree.Apart two.tree)
        (htable : ∃ entries, one.tree.at? path = some (.table entries)) :
        (∀ value, two.tree.at? path = some value → value.isTable = true)
          ∧ ¬ two.tree.Blocks path := by
      obtain ⟨entries, hentries⟩ := htable
      refine ⟨fun value hvalue => ?_, h.not_blocks htwo hentries⟩
      by_cases hpath : path = []
      · subst hpath
        rw [Tree.at?_nil, Option.some.injEq] at hvalue
        exact hvalue ▸ htwo
      · exact (h path _ value hpath hentries hvalue).2
    exact overlay_pair_comm (hkeeps hsecond hapart) (hkeeps hfirst hapart.symm)
      (fun state => ∃ entries, state.merged.at? path = some (.table entries))
      (fun state layer => Tree.at?_overlay_eq_table_iff layer.canonical state.merged path) state

end Apart

/-! ### The record -/

section SameTree

variable {layers others : List Overlay}

theorem keys_origins_subset
    (hlayers : ∀ layer ∈ layers, layer.tree.isTable = true)
    (hothers : ∀ layer ∈ others, layer.tree.isTable = true)
    (hplain : (overlaid layers).merged.PlainKeys)
    (hmerged : (overlaid layers).merged = (overlaid others).merged) :
    Keyed.keys (overlaid layers).provenance.origins
      ⊆ Keyed.keys (overlaid others).provenance.origins := by
  intro path hpath
  obtain ⟨origin, horigin⟩ := mem_keys_iff.mp hpath
  obtain ⟨keys, node, hkeys, rfl, hnode⟩ := exists_node_of_get? hlayers hplain horigin
  obtain ⟨other, hother, -⟩ :=
    exists_get?_of_node hothers (hmerged ▸ hplain) hkeys (hmerged ▸ hnode)
  exact mem_keys_iff.mpr ⟨other, hother⟩

/-- Records of the same tree, if its keys are plain, have the same paths. -/
theorem keys_origins_eq
    (hlayers : ∀ layer ∈ layers, layer.tree.isTable = true)
    (hothers : ∀ layer ∈ others, layer.tree.isTable = true)
    (hplain : (overlaid layers).merged.PlainKeys)
    (hmerged : (overlaid layers).merged = (overlaid others).merged) :
    Keyed.keys (overlaid layers).provenance.origins
      = Keyed.keys (overlaid others).provenance.origins := by
  have hforth := keys_origins_subset hlayers hothers hplain hmerged
  have hback := keys_origins_subset hothers hlayers (hmerged ▸ hplain) hmerged.symm
  exact Keyed.eq_of_ascending_of_mem_iff id (Keyed.pairwise_keys (Provenance.ascending _))
    (Keyed.pairwise_keys (Provenance.ascending _)) fun path =>
      ⟨fun hpath => hforth hpath, fun hpath => hback hpath⟩

end SameTree

/-- Where at most one of two layers has a node, the order of the two makes no difference to the
origin on record. -/
theorem exists_get?_of_node_pair {layers : List Overlay} {first second : Overlay}
    (hlayers : ∀ layer ∈ layers ++ [first, second], layer.tree.isTable = true)
    (hothers : ∀ layer ∈ layers ++ [second, first], layer.tree.isTable = true)
    (hplain : (overlaid (layers ++ [first, second])).merged.PlainKeys)
    (hmerged : (overlaid (layers ++ [first, second])).merged
      = (overlaid (layers ++ [second, first])).merged)
    {keys : List String} (hkeys : keys ≠ []) {node : Tree}
    (hnode : (overlaid (layers ++ [first, second])).merged.at? keys = some node)
    (honce : first.tree.at? keys = none ∨ second.tree.at? keys = none) :
    ∃ origin, (overlaid (layers ++ [first, second])).provenance.get? (dotted keys) = some origin
      ∧ (overlaid (layers ++ [second, first])).provenance.get? (dotted keys) = some origin := by
  have hkeysPlain := hplain keys node hnode
  obtain ⟨origin, horigin, hlast⟩ := exists_get?_of_node hlayers hplain hkeys hnode
  refine ⟨origin, horigin, ?_⟩
  rw [get?_overlaid hothers (Anchored.of_plain hkeys hkeysPlain)
    ((hmerged ▸ hplain).not_stray hkeys hkeysPlain)]
  refine ⟨⟨node, hmerged ▸ hnode⟩, ?_⟩
  refine (lastWith_pair_comm ?_ ?_ layers).mp hlast
  · rintro ⟨⟨written, hwritten⟩, -⟩
    exact honce.resolve_left (by simp [hwritten])
  · rintro ⟨⟨written, hwritten⟩, -⟩
    exact honce.resolve_right (by simp [hwritten])

/-- **Layers that meet at tables only commute.** Whatever the tree below them is, two layers that
both have a node at tables only lead to the same tree in either order. If the tree below them was
built by overlays and all keys are plain, then the records have the same paths in either order, and
the same origin for every value that is no table. -/
theorem apart_layers_commute (first second : Overlay)
    (hfirst : first.tree.isTable = true) (hsecond : second.tree.isTable = true)
    (hapart : first.tree.Apart second.tree) :
    (∀ state : Resolution,
      ((state.overlay first).overlay second).merged
        = ((state.overlay second).overlay first).merged)
    ∧ ∀ layers : List Overlay,
      (∀ layer ∈ layers, layer.tree.isTable = true ∧ layer.tree.PlainKeys) →
      first.tree.PlainKeys → second.tree.PlainKeys →
      let one := ((overlaid layers).overlay first).overlay second
      let other := ((overlaid layers).overlay second).overlay first
      Keyed.keys one.provenance.origins = Keyed.keys other.provenance.origins
        ∧ ∀ keys value, value.isTable = false → one.merged.at? keys = some value →
          ∃ origin, one.provenance.get? (dotted keys) = some origin
            ∧ other.provenance.get? (dotted keys) = some origin := by
  refine ⟨merged_overlay_comm hfirst hsecond hapart, ?_⟩
  intro layers hlayers hfirstPlain hsecondPlain one other
  have hone : overlaid (layers ++ [first, second]) = one := by
    rw [overlaid_append]
    rfl
  have hother : overlaid (layers ++ [second, first]) = other := by
    rw [overlaid_append]
    rfl
  have htables : ∀ layer ∈ layers ++ [first, second], layer.tree.isTable = true := by
    simp only [List.forall_mem_append, List.forall_mem_cons]
    exact ⟨fun layer hlayer => (hlayers layer hlayer).1, hfirst, hsecond, by simp⟩
  have hothers : ∀ layer ∈ layers ++ [second, first], layer.tree.isTable = true := by
    have hperm := (List.Perm.swap first second []).append_left layers
    exact fun layer hlayer => htables layer (hperm.subset hlayer)
  have hmerged : (overlaid (layers ++ [first, second])).merged
      = (overlaid (layers ++ [second, first])).merged := by
    rw [hone, hother]
    exact merged_overlay_comm hfirst hsecond hapart (overlaid layers)
  have hplain : (overlaid (layers ++ [first, second])).merged.PlainKeys := by
    refine plainKeys_overlaid ?_
    simp only [List.forall_mem_append, List.forall_mem_cons]
    exact ⟨fun layer hlayer => (hlayers layer hlayer).2, hfirstPlain, hsecondPlain, by simp⟩
  refine ⟨hone ▸ hother ▸ keys_origins_eq htables hothers hplain hmerged, ?_⟩
  intro keys value hleaf hvalue
  have hroot := isTable_overlaid htables
  have hkeys := Tree.ne_nil_of_leaf hroot (hone ▸ hvalue) hleaf
  have honce := at?_eq_none_or_of_leaf hapart hkeys hleaf hvalue
  rw [← hone] at hvalue ⊢
  rw [← hother]
  exact exists_get?_of_node_pair htables hothers hplain hmerged hkeys hvalue honce

/-- A number stands where the two layers have a table each, so that the first of them replaces it
and the second is merged. -/
theorem apart_layers_commute_over_number :
    let layers : List Overlay := [⟨.nest ["metrics"] (.int 5) trivial, .file "base.toml"⟩]
    let first : Overlay := ⟨.nest ["metrics", "port"] (.int 80) trivial, .env "PORT"⟩
    let second : Overlay := ⟨.nest ["metrics", "host"] (.string "h") trivial, .file "site.toml"⟩
    let one := ((overlaid layers).overlay first).overlay second
    let other := ((overlaid layers).overlay second).overlay first
    first.tree.isTable = true ∧ second.tree.isTable = true
      ∧ first.tree.Apart second.tree
      ∧ (∀ layer ∈ layers, layer.tree.isTable = true ∧ layer.tree.PlainKeys)
      ∧ (first.tree.PlainKeys ∧ second.tree.PlainKeys)
      ∧ one.merged = other.merged
      ∧ Keyed.keys one.provenance.origins = Keyed.keys other.provenance.origins
      ∧ one.merged.at? ["metrics", "port"] = some (.int 80)
      ∧ (∃ origin, one.provenance.get? "metrics.port" = some origin
        ∧ other.provenance.get? "metrics.port" = some origin)
      ∧ one.provenance.get? "metrics" ≠ other.provenance.get? "metrics" := by
  intro layers first second one other
  have hapart : first.tree.Apart second.tree :=
    Tree.apart_nest rfl rfl (by decide) (by decide)
  have hlayers : ∀ layer ∈ layers, layer.tree.isTable = true ∧ layer.tree.PlainKeys := by
    rw [List.forall_mem_singleton]
    exact ⟨rfl, Tree.plainKeys_nest rfl (by decide)⟩
  have hplain : first.tree.PlainKeys ∧ second.tree.PlainKeys :=
    ⟨Tree.plainKeys_nest rfl (by decide), Tree.plainKeys_nest rfl (by decide)⟩
  obtain ⟨hmerged, hrecords⟩ := apart_layers_commute first second rfl rfl hapart
  obtain ⟨hkeys, horigins⟩ := hrecords layers hlayers hplain.1 hplain.2
  have hport : one.merged.at? ["metrics", "port"] = some (.int 80) := by decide +kernel
  exact ⟨rfl, rfl, hapart, hlayers, hplain, hmerged (overlaid layers), hkeys, hport,
    horigins ["metrics", "port"] _ rfl hport, by decide +kernel⟩

end LayeredConfig
