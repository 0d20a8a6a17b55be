import LayeredConfig.Proofs.LastWrite
import LayeredConfig.Proofs.MarkEffects

/-!
# The recorded origins of nodes

The record goes by dotted paths, and keys with dots or without characters make nodes elsewhere share
a path with a node that plain keys lead to. Such strays can overwrite or forget what is recorded for
that path. They do no lasting harm: a stray goes only when a value other than a table takes the
place of a table above it, which then stands above the node as well, so that the path loses its
entry and the node together. In a tree without strays the record is therefore exact, whatever was
there before.
-/

namespace LayeredConfig

open KeyPath Provenance

theorem provenance_overlay (state : Resolution) (layer : Overlay) :
    (state.overlay layer).provenance
      = (marks "" (some state.merged) layer.tree).foldl (Mark.apply layer.origin)
          state.provenance :=
  overlay_eq_foldl layer.origin "" state.merged state.provenance layer.tree

/-- A node off the way to `keys` whose dotted path is that of the way's end, or of something above
it. -/
def Tree.Stray (tree : Tree) (keys : List String) : Prop :=
  ∃ route node, tree.at? route = some node ∧ ¬ route <+: keys
    ∧ (dotted route = "" ∨ dotted route = dotted keys
      ∨ isBelow (dotted keys) (dotted route) = true)

theorem Tree.not_stray_of_overlay {base layer : Tree} {keys : List String}
    (hcanonical : layer.Canonical) (h : ¬ (base.overlay layer).Stray keys) :
    ¬ layer.Stray keys := by
  rintro ⟨route, node, hnode, hroute⟩
  obtain ⟨merged, hmerged⟩ := exists_at?_overlay hcanonical base hnode
  exact h ⟨route, merged, hmerged, hroute⟩

theorem mem_marks_overlay {state : Resolution} {layer : Overlay} {mark : Mark} :
    mark ∈ marks "" (some state.merged) layer.tree
      ↔ ∃ route node, layer.tree.at? route = some node
        ∧ mark = ⟨dotted route, replaces (state.merged.at? route) node⟩ :=
  mem_marks layer.canonical

/-- An overlay disturbs the record of `keys` if a node of it off the way there has a mark that
concerns the dotted path. -/
def Overlay.Disturbs (layer : Overlay) (state : Resolution) (keys : List String) : Prop :=
  ∃ route node, layer.tree.at? route = some node ∧ ¬ route <+: keys
    ∧ Mark.Concerns ⟨dotted route, replaces (state.merged.at? route) node⟩ (dotted keys)

/-- A node of the overlay on the way to `keys` takes the place of what was there. -/
def Overlay.Cuts (layer : Overlay) (state : Resolution) (keys : List String) : Prop :=
  ∃ route node, route <+: keys ∧ layer.tree.at? route = some node
    ∧ replaces (state.merged.at? route) node = true

section Step

variable {state : Resolution} {layer : Overlay} {keys : List String}

theorem Overlay.not_disturbs_of_not_stray (hstray : ¬ layer.tree.Stray keys) :
    ¬ layer.Disturbs state keys := by
  rintro ⟨route, node, hnode, hoff, heq | ⟨-, hbelow⟩⟩
  · exact hstray ⟨route, node, hnode, hoff, Or.inr (Or.inl heq)⟩
  · exact hstray ⟨route, node, hnode, hoff, Or.inr (Or.inr hbelow)⟩

theorem initial_of_concerns (hcalm : ¬ layer.Disturbs state keys) {route : List String}
    {node : Tree} (hnode : layer.tree.at? route = some node)
    (h : Mark.Concerns ⟨dotted route, replaces (state.merged.at? route) node⟩ (dotted keys)) :
    route <+: keys := by
  by_contra hoff
  exact hcalm ⟨route, node, hnode, hoff, h⟩

/-- A layer with a node at `keys` gives that node its origin, unless it disturbs the record. -/
theorem get?_overlay_of_node (hkeys : Anchored keys) (hcalm : ¬ layer.Disturbs state keys)
    {node : Tree} (hnode : layer.tree.at? keys = some node) :
    (state.overlay layer).provenance.get? (dotted keys) = some layer.origin := by
  obtain ⟨before, after, hmarks, hafter⟩ :=
    @marks_eq_append_cons "" (some state.merged) _ _ layer.canonical _ hnode
  rw [provenance_overlay, hmarks]
  refine get?_foldl_of_last hkeys.dotted_ne_empty fun later hlater hconcerns => ?_
  obtain ⟨route, other, hne, hother, rfl, hforgets⟩ := hafter later hlater
  have hinitial := initial_of_concerns hcalm hother hconcerns
  rcases hconcerns with heq | ⟨hreplaces, -⟩
  · exact hne (hkeys.eq_of_dotted_eq hinitial heq)
  · exact hforgets hreplaces hinitial

/-- A node that takes the place of another one on the way to `keys`, from a layer that has nothing
there, leaves no record. -/
theorem get?_overlay_of_replaced (hkeys : Anchored keys) (hcalm : ¬ layer.Disturbs state keys)
    (hnone : layer.tree.at? keys = none) {route : List String} {node : Tree}
    (hinitial : route <+: keys) (hroute : route ≠ [])
    (hnode : layer.tree.at? route = some node)
    (hreplaces : replaces (state.merged.at? route) node = true) :
    (state.overlay layer).provenance.get? (dotted keys) = none := by
  rw [provenance_overlay, Option.eq_none_iff_forall_ne_some]
  intro origin horigin
  rcases get?_foldl_eq_some hkeys.dotted_ne_empty horigin with
    ⟨-, mark, hmark, hpath⟩ | ⟨-, hsilent⟩
  · obtain ⟨other, value, hvalue, rfl⟩ := mem_marks_overlay.mp hmark
    have hother := initial_of_concerns hcalm hvalue (Or.inl hpath)
    rw [hkeys.eq_of_dotted_eq hother hpath, hnone] at hvalue
    simp at hvalue
  · have hmem := (@mem_marks_overlay state layer _).mpr ⟨route, node, hnode, rfl⟩
    have hne : route ≠ keys := by
      rintro rfl
      simp [hnone] at hnode
    exact hsilent _ hmem
      (Or.inr ⟨hreplaces, hkeys.isBelow_of_initial hinitial hroute hne⟩)

/-- A node that takes the place of another one on the way to `keys`, from a layer that has nothing
there, leaves nothing there. -/
theorem at?_overlay_of_replaced (hnone : layer.tree.at? keys = none) {route : List String}
    {node : Tree} (hinitial : route <+: keys) (hnode : layer.tree.at? route = some node)
    (hreplaces : replaces (state.merged.at? route) node = true) :
    (state.overlay layer).merged.at? keys = none := by
  change (state.merged.overlay layer.tree).at? keys = none
  obtain ⟨rest, rfl⟩ := hinitial
  cases rest with
  | nil =>
    rw [List.append_nil, hnode] at hnone
    simp at hnone
  | cons key rest =>
    by_cases hblocks : layer.tree.Blocks (route ++ key :: rest)
    · exact Tree.at?_overlay_of_blocks layer.canonical _ hblocks
    · -- the layer has a table on the way, so what it replaced was none
      rw [Tree.at?_overlay_of_none layer.canonical _ hnone hblocks]
      have htable : node.isTable = true := by
        by_contra hleaf
        exact hblocks ⟨route, key, rest, node, rfl, hnode, by simpa using hleaf⟩
      cases hold : state.merged.at? route with
      | none => simp [replaces, hold] at hreplaces
      | some old =>
        have hleaf : old.isTable = false := by simpa [replaces, hold, htable] using hreplaces
        exact Tree.at?_eq_none_of_blocks ⟨route, key, rest, old, rfl, hold, hleaf⟩

/-- A layer with nothing at `keys` that replaces nothing on the way there leaves the record. -/
theorem get?_overlay_of_not_cuts (hkeys : Anchored keys)
    (hcalm : ¬ layer.Disturbs state keys) (hnone : layer.tree.at? keys = none)
    (hcuts : ¬ layer.Cuts state keys) :
    (state.overlay layer).provenance.get? (dotted keys) = state.provenance.get? (dotted keys) := by
  rw [provenance_overlay]
  apply get?_foldl_of_not_concerns
  intro mark hmark hconcerns
  obtain ⟨route, node, hnode, rfl⟩ := mem_marks_overlay.mp hmark
  have hinitial := initial_of_concerns hcalm hnode hconcerns
  rcases hconcerns with heq | ⟨hreplaces, -⟩
  · rw [hkeys.eq_of_dotted_eq hinitial heq, hnone] at hnode
    simp at hnode
  · exact hcuts ⟨route, node, hinitial, hnode, hreplaces⟩

theorem at?_overlay_of_not_cuts (hnone : layer.tree.at? keys = none)
    (hcuts : ¬ layer.Cuts state keys) :
    (state.overlay layer).merged.at? keys = state.merged.at? keys := by
  change (state.merged.overlay layer.tree).at? keys = state.merged.at? keys
  by_cases hblocks : layer.tree.Blocks keys
  · -- what blocks the path was laid over nothing, so the path led nowhere before either
    rw [Tree.at?_overlay_of_blocks layer.canonical _ hblocks]
    obtain ⟨route, key, rest, node, rfl, hnode, hleaf⟩ := hblocks
    have hold : state.merged.at? route = none := by
      cases hold : state.merged.at? route with
      | none => rfl
      | some old =>
        refine absurd ⟨route, node, List.prefix_append _ _, hnode, ?_⟩ hcuts
        simp [replaces, hold, hleaf]
    rw [Tree.at?_append, hold]
    rfl
  · exact Tree.at?_overlay_of_none layer.canonical _ hnone hblocks

/-- A layer with nothing at `keys` either cuts off the node there together with its record or leaves
both, unless it disturbs the record. -/
theorem get?_overlay_of_none (hbase : state.merged.isTable = true)
    (hlayer : layer.tree.isTable = true) (hkeys : Anchored keys)
    (hcalm : ¬ layer.Disturbs state keys) (hnone : layer.tree.at? keys = none) :
    ((state.overlay layer).provenance.get? (dotted keys) = none
        ∧ (state.overlay layer).merged.at? keys = none)
      ∨ ((state.overlay layer).provenance.get? (dotted keys)
          = state.provenance.get? (dotted keys)
        ∧ (state.overlay layer).merged.at? keys = state.merged.at? keys) := by
  by_cases hcuts : layer.Cuts state keys
  · left
    obtain ⟨route, node, hinitial, hnode, hreplaces⟩ := hcuts
    have hroute : route ≠ [] := by
      rintro rfl
      obtain rfl : layer.tree = node := by simpa using hnode
      simp [replaces, hbase, hlayer] at hreplaces
    exact ⟨get?_overlay_of_replaced hkeys hcalm hnone hinitial hroute hnode
      hreplaces, at?_overlay_of_replaced hnone hinitial hnode hreplaces⟩
  · right
    exact ⟨get?_overlay_of_not_cuts hkeys hcalm hnone hcuts,
      at?_overlay_of_not_cuts hnone hcuts⟩

/-- A stray goes only together with the node at `keys` and its record. -/
theorem get?_overlay_of_stray (hlayer : layer.tree.isTable = true) (hkeys : Anchored keys)
    (hold : state.merged.Stray keys) (hgone : ¬ (state.overlay layer).merged.Stray keys) :
    (state.overlay layer).provenance.get? (dotted keys) = none
      ∧ (state.overlay layer).merged.at? keys = none ∧ layer.tree.at? keys = none := by
  change ¬ (state.merged.overlay layer.tree).Stray keys at hgone
  obtain ⟨route, stray, hstray, hinitial, hspelling⟩ := hold
  have hnone : (state.merged.overlay layer.tree).at? route = none := by
    cases hafter : (state.merged.overlay layer.tree).at? route with
    | none => rfl
    | some node => exact absurd ⟨route, node, hafter, hinitial, hspelling⟩ hgone
  obtain ⟨above, key, below, leaf, rfl, hleaf, htable⟩ :=
    Tree.blocks_of_at?_overlay_eq_none layer.canonical hstray hnone
  have habove : above ≠ [] := by
    rintro rfl
    obtain rfl : layer.tree = leaf := by simpa using hleaf
    simp [hlayer] at htable
  obtain ⟨merged, hmerged⟩ := Tree.exists_at?_overlay layer.canonical state.merged hleaf
  -- the value above the stray is left in the tree, so it is no stray itself
  have hstays : ∀ hspells : dotted above = "" ∨ isBelow (dotted keys) (dotted above) = true,
      above <+: keys := by
    intro hspells
    by_contra hoff
    exact hgone ⟨above, merged, hmerged, hoff, hspells.imp_right Or.inr⟩
  have hnotEmpty : dotted above ≠ "" := fun hempty =>
    (hkeys.of_initial (hstays (Or.inl hempty)) habove).dotted_ne_empty hempty
  have hunder := isBelow_dotted_append hnotEmpty key below
  have hbelow : isBelow (dotted keys) (dotted above) = true := by
    rcases hspelling with hempty | heq | hbelow
    · rw [hempty, not_isBelow_empty] at hunder
      simp at hunder
    · exact heq ▸ hunder
    · exact isBelow_trans hbelow hunder
  have hon := hstays (Or.inr hbelow)
  have hblocks : layer.tree.Blocks keys := by
    obtain ⟨rest, rfl⟩ := hon
    cases rest with
    | nil =>
      rw [List.append_nil, not_isBelow_self] at hbelow
      simp at hbelow
    | cons next rest => exact ⟨above, next, rest, leaf, rfl, hleaf, htable⟩
  have hlayerNone := Tree.at?_eq_none_of_blocks hblocks
  have hcalm : ¬ layer.Disturbs state keys :=
    Overlay.not_disturbs_of_not_stray (Tree.not_stray_of_overlay layer.canonical hgone)
  have hreplaces : replaces (state.merged.at? above) leaf = true := by
    obtain ⟨under, hunderTable⟩ := Tree.isTable_of_at?_append_cons hstray
    simp [replaces, hunderTable, htable]
  exact ⟨get?_overlay_of_replaced hkeys hcalm hlayerNone hon habove hleaf
    hreplaces, Tree.at?_overlay_of_blocks layer.canonical _ hblocks, hlayerNone⟩

/-- An overlay that leaves the record of a node's path leaves the node too, unless the key without
characters is in use at the root. -/
theorem exists_node_of_silent (hlayer : layer.tree.isTable = true) {route : List String}
    {old : Tree} (hnode : state.merged.at? route = some old)
    (hsilent : ∀ mark ∈ marks "" (some state.merged) layer.tree,
      ¬ mark.Concerns (dotted route)) :
    (∃ node, (state.overlay layer).merged.at? route = some node)
      ∨ ∃ node, (state.overlay layer).merged.at? [""] = some node := by
  change (∃ node, (state.merged.overlay layer.tree).at? route = some node)
    ∨ ∃ node, (state.merged.overlay layer.tree).at? [""] = some node
  cases hafter : (state.merged.overlay layer.tree).at? route with
  | some node => exact Or.inl ⟨node, rfl⟩
  | none =>
    right
    obtain ⟨above, key, below, leaf, rfl, hleaf, htable⟩ :=
      Tree.blocks_of_at?_overlay_eq_none layer.canonical hnode hafter
    obtain ⟨under, hunder⟩ := Tree.isTable_of_at?_append_cons hnode
    -- its mark would have forgotten the path, were it recorded under a path of its own
    have hempty : dotted above = "" := by
      by_contra hne
      have hreplaces : replaces (state.merged.at? above) leaf = true := by
        simp [replaces, hunder, htable]
      exact hsilent _ (mem_marks_overlay.mpr ⟨above, leaf, hleaf, rfl⟩)
        (Or.inr ⟨hreplaces, isBelow_dotted_append hne key below⟩)
    cases above with
    | nil =>
      obtain rfl : layer.tree = leaf := by simpa using hleaf
      simp [hlayer] at htable
    | cons first above =>
      obtain rfl := head_eq_empty_of_dotted hempty
      obtain ⟨merged, hmerged⟩ := Tree.exists_at?_overlay layer.canonical state.merged hleaf
      rw [← List.singleton_append, Tree.at?_append] at hmerged
      obtain ⟨node, hfirst, -⟩ := Option.bind_eq_some_iff.mp hmerged
      exact ⟨node, hfirst⟩

/-- Only the root is above a key at the root, so no overlay takes that key away. -/
theorem exists_at?_overlay_root_key (hlayer : layer.tree.isTable = true) {key : String}
    {old : Tree} (hnode : state.merged.at? [key] = some old) :
    ∃ node, (state.overlay layer).merged.at? [key] = some node := by
  change ∃ node, (state.merged.overlay layer.tree).at? [key] = some node
  cases hafter : (state.merged.overlay layer.tree).at? [key] with
  | some node => exact ⟨node, rfl⟩
  | none =>
    obtain ⟨above, next, below, leaf, heq, hleaf, htable⟩ :=
      Tree.blocks_of_at?_overlay_eq_none layer.canonical hnode hafter
    cases above with
    | nil =>
      obtain rfl : layer.tree = leaf := by simpa using hleaf
      simp [hlayer] at htable
    | cons first above => simp at heq

end Step

/-- In a run that ends without strays a path has an origin on record if and only if its node is in
the merged tree, and the origin is that of the last overlay with a node there. -/
theorem get?_overlaid {layers : List Overlay}
    (hlayers : ∀ layer ∈ layers, layer.tree.isTable = true)
    {keys : List String} (hkeys : Anchored keys)
    (hstray : ¬ (overlaid layers).merged.Stray keys) (origin : Origin) :
    (overlaid layers).provenance.get? (dotted keys) = some origin
      ↔ (∃ node, (overlaid layers).merged.at? keys = some node)
        ∧ LastWith
          (fun layer => (∃ node, layer.tree.at? keys = some node) ∧ layer.origin = origin)
          (fun later => later.tree.at? keys = none) layers := by
  induction layers using List.reverseRecOn with
  | nil =>
    obtain ⟨key, keys, rfl, -⟩ := hkeys
    exact iff_of_false (by simp [overlaid, Resolution.start, Provenance.empty, Provenance.get?])
      fun h => not_lastWith_nil h.2
  | append_singleton layers layer ih =>
    rw [List.forall_mem_append, List.forall_mem_singleton] at hlayers
    obtain ⟨hbefore, hlayer⟩ := hlayers
    have hbase := isTable_overlaid hbefore
    rw [overlaid_append_singleton] at hstray ⊢
    rw [lastWith_append_singleton]
    by_cases hold : (overlaid layers).merged.Stray keys
    · obtain ⟨hforgotten, hgone, hnone⟩ :=
        get?_overlay_of_stray hlayer hkeys hold hstray
      simp [hforgotten, hgone]
    · have hcalm : ¬ layer.Disturbs (overlaid layers) keys :=
        Overlay.not_disturbs_of_not_stray (Tree.not_stray_of_overlay layer.canonical hstray)
      cases hnode : layer.tree.at? keys with
      | some node =>
        obtain ⟨merged, hmerged⟩ :=
          Tree.exists_at?_overlay layer.canonical (overlaid layers).merged hnode
        rw [get?_overlay_of_node hkeys hcalm hnode]
        simp [Resolution.overlay, hmerged]
      | none =>
        rcases get?_overlay_of_none hbase hlayer hkeys hcalm hnode with
          ⟨hforgotten, hgone⟩ | ⟨hkept, hsame⟩
        · simp [hforgotten, hgone]
        · rw [hkept, hsame, ih hbefore hold]
          simp

/-- Whatever is on record is the path of some node, unless the key without characters is in use at
the root: what is recorded below that key is not forgotten with it. -/
theorem exists_node_of_get?_overlaid {layers : List Overlay}
    (hlayers : ∀ layer ∈ layers, layer.tree.isTable = true)
    {path : String} (hpath : path ≠ "") {origin : Origin}
    (h : (overlaid layers).provenance.get? path = some origin) :
    (∃ route node, (overlaid layers).merged.at? route = some node ∧ dotted route = path)
      ∨ ∃ node, (overlaid layers).merged.at? [""] = some node := by
  induction layers using List.reverseRecOn generalizing origin with
  | nil => simp [overlaid, Resolution.start, Provenance.empty, Provenance.get?] at h
  | append_singleton layers layer ih =>
    rw [List.forall_mem_append, List.forall_mem_singleton] at hlayers
    obtain ⟨hbefore, hlayer⟩ := hlayers
    rw [overlaid_append_singleton] at h ⊢
    rw [provenance_overlay] at h
    rcases get?_foldl_eq_some hpath h with ⟨-, mark, hmark, hspelling⟩ | ⟨hold, hsilent⟩
    · obtain ⟨route, node, hnode, rfl⟩ := mem_marks_overlay.mp hmark
      obtain ⟨merged, hmerged⟩ :=
        Tree.exists_at?_overlay layer.canonical (overlaid layers).merged hnode
      exact Or.inl ⟨route, merged, hmerged, hspelling⟩
    · rcases ih hbefore hold with ⟨route, old, hnode, rfl⟩ | ⟨old, hnode⟩
      · refine (exists_node_of_silent hlayer hnode hsilent).imp_left ?_
        rintro ⟨node, hafter⟩
        exact ⟨route, node, hafter, rfl⟩
      · exact Or.inr (exists_at?_overlay_root_key hlayer hnode)

theorem get?_overlaid_root (layers : List Overlay) :
    (overlaid layers).provenance.get? "" = none := by
  induction layers using List.reverseRecOn with
  | nil => rfl
  | append_singleton layers layer ih =>
    rw [overlaid_append_singleton, provenance_overlay]
    exact get?_foldl_root ih

/-- Whatever is on record is the origin of some overlay. -/
theorem exists_layer_of_get?_overlaid {layers : List Overlay} {path : String} {origin : Origin}
    (h : (overlaid layers).provenance.get? path = some origin) :
    ∃ layer ∈ layers, layer.origin = origin := by
  have hpath : path ≠ "" := by
    rintro rfl
    simp [get?_overlaid_root] at h
  induction layers using List.reverseRecOn with
  | nil => simp [overlaid, Resolution.start, Provenance.empty, Provenance.get?] at h
  | append_singleton layers layer ih =>
    rw [overlaid_append_singleton, provenance_overlay] at h
    rcases get?_foldl_eq_some hpath h with ⟨rfl, -⟩ | ⟨hold, -⟩
    · exact ⟨layer, by simp, rfl⟩
    · obtain ⟨other, hother, horigin⟩ := ih hold
      exact ⟨other, List.mem_append_left _ hother, horigin⟩

/-- The inline document is to blame where nothing is on record, and otherwise some overlay is. -/
theorem originOf_overlaid (layers : List Overlay) (path : String) :
    (overlaid layers).provenance.originOf path = .inline
      ∨ ∃ layer ∈ layers, layer.origin = (overlaid layers).provenance.originOf path := by
  rw [originOf]
  cases hfound : (ancestors path).findSome? (overlaid layers).provenance.get? with
  | none => exact Or.inl rfl
  | some origin =>
    obtain ⟨above, -, horigin⟩ := List.exists_of_findSome?_eq_some hfound
    exact Or.inr (exists_layer_of_get?_overlaid horigin)

end LayeredConfig
