import LayeredConfig.Proofs.Writes

/-!
# The last write wins

A value of the merged tree is the one that the last overlay with a node at its path has there,
provided that no overlay after it put a value that is no table further up. A table needs less: it
stays through later overlays that have nothing at its path, and merges with those that have a table.
Both follow from what one overlay does to one path, by induction over the list of overlays.
-/

namespace LayeredConfig

/-- Some item of the list `sets`, and every later one `keeps`. -/
def LastWith {α : Type} (sets keeps : α → Prop) (items : List α) : Prop :=
  ∃ before item after, items = before ++ item :: after ∧ sets item ∧ ∀ later ∈ after, keeps later

section LastWith

variable {α : Type} {sets keeps : α → Prop}

theorem not_lastWith_nil : ¬ LastWith sets keeps [] := by
  rintro ⟨before, item, after, hsplit, -⟩
  simp at hsplit

theorem lastWith_append_singleton (items : List α) (item : α) :
    LastWith sets keeps (items ++ [item])
      ↔ sets item ∨ (LastWith sets keeps items ∧ keeps item) := by
  constructor
  · rintro ⟨before, setter, after, hsplit, hsets, hkeeps⟩
    cases after using List.reverseRecOn with
    | nil =>
      obtain ⟨-, hlast⟩ := List.append_inj' hsplit rfl
      obtain rfl := List.singleton_inj.mp hlast
      exact Or.inl hsets
    | append_singleton after last =>
      rw [← List.cons_append, ← List.append_assoc] at hsplit
      obtain ⟨rfl, hlast⟩ := List.append_inj' hsplit rfl
      obtain rfl := List.singleton_inj.mp hlast
      obtain ⟨hafter, hitem⟩ := List.forall_mem_append.mp hkeeps
      exact Or.inr ⟨⟨before, setter, after, rfl, hsets, hafter⟩, hitem item List.mem_cons_self⟩
  · rintro (hsets | ⟨⟨before, setter, after, rfl, hsets, hkeeps⟩, hlast⟩)
    · exact ⟨items, item, [], rfl, hsets, by simp⟩
    · refine ⟨before, setter, after ++ [item], by simp, hsets, ?_⟩
      rw [List.forall_mem_append, List.forall_mem_singleton]
      exact ⟨hkeeps, hlast⟩

theorem lastWith_append (items rest : List α) :
    LastWith sets keeps (items ++ rest)
      ↔ LastWith sets keeps rest ∨ (LastWith sets keeps items ∧ ∀ item ∈ rest, keeps item) := by
  induction rest using List.reverseRecOn with
  | nil => simp [not_lastWith_nil]
  | append_singleton rest item ih =>
    rw [← List.append_assoc, lastWith_append_singleton, lastWith_append_singleton, ih,
      List.forall_mem_append, List.forall_mem_singleton]
    tauto

theorem LastWith.of_append {items rest : List α} (h : LastWith sets keeps (items ++ rest))
    {item : α} (hitem : item ∈ rest) (hbreaks : ¬ keeps item) : LastWith sets keeps rest := by
  rcases (lastWith_append items rest).mp h with hrest | ⟨-, hkeeps⟩
  · exact hrest
  · exact absurd (hkeeps item hitem) hbreaks

/-- If each item sets or keeps, and some do set, then one of these comes last. -/
theorem LastWith.of_forall {items : List α} (h : ∃ item ∈ items, sets item)
    (hall : ∀ item ∈ items, sets item ∨ keeps item) : LastWith sets keeps items := by
  induction items using List.reverseRecOn with
  | nil => simp at h
  | append_singleton items item ih =>
    rw [lastWith_append_singleton]
    by_cases hset : sets item
    · exact Or.inl hset
    · have hkeep := (hall item (by simp)).resolve_left hset
      refine Or.inr ⟨ih ?_ fun other hother => hall other (List.mem_append_left _ hother), hkeep⟩
      obtain ⟨other, hother, hotherSet⟩ := h
      rcases List.mem_append.mp hother with hmem | hmem
      · exact ⟨other, hmem, hotherSet⟩
      · exact absurd (List.mem_singleton.mp hmem ▸ hotherSet) hset

/-- Two last items are the same one, if neither would be kept. -/
theorem LastWith.and {others : α → Prop} {items : List α} (h : LastWith sets keeps items)
    (hothers : LastWith others keeps items) (hsets : ∀ item, sets item → ¬ keeps item)
    (hothersSets : ∀ item, others item → ¬ keeps item) :
    LastWith (fun item => sets item ∧ others item) keeps items := by
  induction items using List.reverseRecOn with
  | nil => exact absurd h not_lastWith_nil
  | append_singleton items item ih =>
    rw [lastWith_append_singleton] at h hothers ⊢
    rcases h with hset | ⟨h, hkeep⟩
    · exact Or.inl ⟨hset, hothers.resolve_right fun hother => hsets item hset hother.2⟩
    · have hother := hothers.resolve_left fun hother => hothersSets item hother hkeep
      exact Or.inr ⟨ih h hother.1, hkeep⟩

theorem LastWith.exists_mem {items : List α} (h : LastWith sets keeps items) :
    ∃ item ∈ items, sets item := by
  obtain ⟨before, item, after, rfl, hsets, -⟩ := h
  exact ⟨item, by simp, hsets⟩

theorem LastWith.imp {others keepsToo : α → Prop} {items : List α} (h : LastWith sets keeps items)
    (hsets : ∀ item ∈ items, sets item → others item)
    (hkeeps : ∀ item ∈ items, keeps item → keepsToo item) : LastWith others keepsToo items := by
  obtain ⟨before, item, after, rfl, hset, hkept⟩ := h
  have hafter {later : α} (hlater : later ∈ after) : later ∈ before ++ item :: after :=
    List.mem_append_right _ (List.mem_cons_of_mem _ hlater)
  exact ⟨before, item, after, rfl, hsets item (by simp) hset,
    fun later hlater => hkeeps later (hafter hlater) (hkept later hlater)⟩

/-- Of a list that is put together from groups, the last item that sets is in the last group with
one that sets and is kept within its group. -/
theorem lastWith_flatMap {β : Type} (groups : List β) (f : β → List α) :
    LastWith sets keeps (groups.flatMap f)
      ↔ LastWith (fun group => LastWith sets keeps (f group))
          (fun later => ∀ item ∈ f later, keeps item) groups := by
  induction groups using List.reverseRecOn with
  | nil => exact iff_of_false not_lastWith_nil not_lastWith_nil
  | append_singleton groups group ih =>
    rw [List.flatMap_append, List.flatMap_singleton, lastWith_append, lastWith_append_singleton, ih]

end LastWith

/-- What holds exactly when the last overlay brings it, or it held before and the overlay keeps it,
holds after a list of overlays exactly when one brings it and all later ones keep it, or it held
before and all of them keep it. -/
theorem foldl_overlay_iff {sets keeps : Overlay → Prop} (holds : Resolution → Prop)
    (hstep : ∀ state layer, holds (state.overlay layer) ↔ sets layer ∨ (holds state ∧ keeps layer))
    (layers : List Overlay) (state : Resolution) :
    holds (layers.foldl Resolution.overlay state)
      ↔ LastWith sets keeps layers ∨ (holds state ∧ ∀ layer ∈ layers, keeps layer) := by
  induction layers using List.reverseRecOn with
  | nil => simp [not_lastWith_nil]
  | append_singleton layers layer ih =>
    rw [List.foldl_append, List.foldl_cons, List.foldl_nil, hstep, lastWith_append_singleton, ih,
      List.forall_mem_append, List.forall_mem_singleton]
    tauto

theorem overlaid_iff_lastWith {sets keeps : Overlay → Prop} (holds : Resolution → Prop)
    (hstart : ¬ holds .start)
    (hstep : ∀ state layer, holds (state.overlay layer) ↔ sets layer ∨ (holds state ∧ keeps layer))
    {layers : List Overlay} :
    holds (overlaid layers) ↔ LastWith sets keeps layers := by
  rw [overlaid, foldl_overlay_iff holds hstep]
  simp [hstart]

namespace Tree

/-- Where an overlay has nothing, a node stays if no value of the overlay is in its way. -/
theorem at?_overlay_eq_some_iff_of_none {layer : Tree} (hcanonical : layer.Canonical) (base : Tree)
    {path : List String} (hnode : layer.at? path = none) (value : Tree) :
    (base.overlay layer).at? path = some value
      ↔ base.at? path = some value ∧ ¬ layer.Blocks path := by
  by_cases hblocks : layer.Blocks path
  · simp [at?_overlay_of_blocks hcanonical base hblocks, hblocks]
  · simp [at?_overlay_of_none hcanonical base hnode hblocks, hblocks]

theorem at?_overlay_eq_leaf_iff {layer value : Tree} (hcanonical : layer.Canonical) (base : Tree)
    (path : List String) (hleaf : value.isTable = false) :
    (base.overlay layer).at? path = some value ↔ layer.at? path = some value
      ∨ (base.at? path = some value ∧ layer.at? path = none ∧ ¬ layer.Blocks path) := by
  cases hnode : layer.at? path with
  | none => simp [at?_overlay_eq_some_iff_of_none hcanonical base hnode]
  | some node =>
    rw [at?_overlay_of_some hcanonical base hnode]
    cases htable : node.isTable with
    | false => simp [elim_overlay_of_leaf _ htable]
    | true =>
      -- a table, merged into whatever was there, is a table and not the value
      have hne (other : Tree) (hother : other.isTable = true) : other ≠ value := by
        rintro rfl
        simp [hleaf] at hother
      have hmerged := isTable_elim_overlay (base.at? path) node
      simp [hne node htable, hne _ (hmerged.trans htable)]

/-- An overlay leaves a node at a path if it has one there, or if there was one and it puts no value
other than a table above it. -/
theorem exists_at?_overlay_iff {layer : Tree} (hcanonical : layer.Canonical) (base : Tree)
    (path : List String) :
    (∃ node, (base.overlay layer).at? path = some node)
      ↔ (∃ node, layer.at? path = some node)
        ∨ ((∃ node, base.at? path = some node) ∧ ¬ layer.Blocks path) := by
  cases hnode : layer.at? path with
  | some node => simp [at?_overlay_of_some hcanonical base hnode]
  | none => simp [at?_overlay_eq_some_iff_of_none hcanonical base hnode]

theorem at?_overlay_eq_table_iff {layer : Tree} (hcanonical : layer.Canonical) (base : Tree)
    (path : List String) :
    (∃ entries, (base.overlay layer).at? path = some (.table entries))
      ↔ (∃ entries, layer.at? path = some (.table entries))
        ∨ ((∃ entries, base.at? path = some (.table entries))
          ∧ (∀ value, layer.at? path = some value → value.isTable = true)
          ∧ ¬ layer.Blocks path) := by
  cases hnode : layer.at? path with
  | none => simp [at?_overlay_eq_some_iff_of_none hcanonical base hnode]
  | some node =>
    have hmerged := isTable_elim_overlay (base.at? path) node
    rw [at?_overlay_of_some hcanonical base hnode]
    cases htable : node.isTable with
    | false =>
      have hne : ∀ entries, node ≠ .table entries := by
        rintro entries rfl
        simp [isTable] at htable
      simp [elim_overlay_of_leaf _ htable, hne, htable]
    | true =>
      obtain ⟨entries, rfl⟩ := isTable_iff.mp htable
      obtain ⟨merged, heq⟩ := isTable_iff.mp (hmerged.trans htable)
      exact iff_of_true ⟨merged, congrArg some heq⟩ (Or.inl ⟨entries, rfl⟩)

end Tree

theorem isTable_overlaid {layers : List Overlay} (h : ∀ layer ∈ layers, layer.tree.isTable = true) :
    (overlaid layers).merged.isTable = true := by
  induction layers using List.reverseRecOn with
  | nil => rfl
  | append_singleton layers layer _ =>
    rw [overlaid_append_singleton]
    exact (Tree.isTable_overlay _ layer.tree).trans (h layer (by simp))

theorem at?_start_eq_none {path : List String} (hpath : path ≠ []) :
    Resolution.start.merged.at? path = none := by
  obtain ⟨key, keys, rfl⟩ := List.exists_cons_of_ne_nil hpath
  rfl

theorem at?_overlaid_eq_leaf_iff {layers : List Overlay} {path : List String} {value : Tree}
    (hleaf : value.isTable = false) :
    (overlaid layers).merged.at? path = some value
      ↔ LastWith (fun layer => layer.tree.at? path = some value)
          (fun later => later.tree.at? path = none ∧ ¬ later.tree.Blocks path) layers := by
  apply overlaid_iff_lastWith (fun state => state.merged.at? path = some value)
  · cases path with
    | nil =>
      rintro heq
      obtain rfl := Option.some.inj heq
      simp [Resolution.start, Tree.empty, Tree.isTable] at hleaf
    | cons key path => simp [Resolution.start, Tree.empty, Tree.at?_table_cons]
  · intro state layer
    exact Tree.at?_overlay_eq_leaf_iff layer.canonical state.merged path hleaf

theorem exists_at?_overlaid_iff {layers : List Overlay} {path : List String} (hpath : path ≠ []) :
    (∃ node, (overlaid layers).merged.at? path = some node)
      ↔ LastWith (fun layer => ∃ node, layer.tree.at? path = some node)
          (fun later => ¬ later.tree.Blocks path) layers := by
  apply overlaid_iff_lastWith (fun state => ∃ node, state.merged.at? path = some node)
  · simp [at?_start_eq_none hpath]
  · intro state layer
    exact Tree.exists_at?_overlay_iff layer.canonical state.merged path

/-- A node of the merged tree stems from the last overlay with a node at its path. -/
theorem exists_lastWith_node {layers : List Overlay} {keys : List String} (hkeys : keys ≠ [])
    {node : Tree} (hnode : (overlaid layers).merged.at? keys = some node) :
    ∃ origin, LastWith (fun layer => (∃ node, layer.tree.at? keys = some node)
        ∧ layer.origin = origin)
      (fun later => later.tree.at? keys = none) layers := by
  have hset := ((exists_at?_overlaid_iff hkeys).mp ⟨node, hnode⟩).exists_mem
  have hlast : LastWith (fun layer : Overlay => ∃ node, layer.tree.at? keys = some node)
      (fun later => later.tree.at? keys = none) layers := by
    refine LastWith.of_forall hset fun layer _ => ?_
    cases hlayer : layer.tree.at? keys with
    | some node => exact Or.inl ⟨node, rfl⟩
    | none => exact Or.inr rfl
  obtain ⟨before, layer, after, hsplit, hlayer, hafter⟩ := hlast
  exact ⟨layer.origin, before, layer, after, hsplit, ⟨hlayer, rfl⟩, hafter⟩

theorem isTable_reached (world : World) (sources : List Source) :
    (reached world sources).merged.isTable = true := by
  rw [(reached_eq_overlaid world sources).1]
  exact isTable_overlaid fun _ hlayer => isTable_writes hlayer

/-- **Last write wins.** The merged tree of a run is a table. A value other than a table is at a
path of it if and only if some overlay has that value there, and no later one has a node there or a
value other than a table above it. A table is at a path if and only if some overlay has a table
there, and no later one has a value other than a table there or above it. Variables are laid over
each other in ascending order of their names. -/
theorem merged_at?_iff_lastWrite (world : World) (sources : List Source) (path : List String)
    (hpath : path ≠ []) :
    (reached world sources).merged.isTable = true
    ∧ (∀ value : Tree, value.isTable = false →
        ((reached world sources).merged.at? path = some value
          ↔ LastWith (fun layer => layer.tree.at? path = some value)
              (fun later => later.tree.at? path = none ∧ ¬ later.tree.Blocks path)
              (writes world sources)))
    ∧ ((∃ entries, (reached world sources).merged.at? path = some (.table entries))
        ↔ LastWith (fun layer => ∃ entries, layer.tree.at? path = some (.table entries))
            (fun later => (∀ value, later.tree.at? path = some value → value.isTable = true)
              ∧ ¬ later.tree.Blocks path)
            (writes world sources))
    ∧ (∀ source, Source.environment source ∈ sources →
        Keyed.Ascending (source.snapshot world.environment).bindings) := by
  refine ⟨isTable_reached world sources, ?_⟩
  rw [(reached_eq_overlaid world sources).1]
  refine ⟨?_, ?_, fun source _ => (source.snapshot world.environment).ascending⟩
  · intro value hleaf
    exact at?_overlaid_eq_leaf_iff hleaf
  · apply overlaid_iff_lastWith
      (fun state => ∃ entries, state.merged.at? path = some (.table entries))
    · simp [at?_start_eq_none hpath]
    · intro state layer
      exact Tree.at?_overlay_eq_table_iff layer.canonical state.merged path

theorem merged_at?_iff_lastWrite_port :
    let world := World.ofTexts [("base.toml", "[metrics]\nport = 1\n"),
      ("site.toml", "metrics = 2\n"), ("late.toml", "[tap]\n")]
    let sources : List Source := [.file (.mandatory "base.toml"), .file (.mandatory "site.toml"),
      .environment (.fixed "INDEXER_" [("INDEXER_METRICS__PORT", "9")]),
      .file (.mandatory "late.toml"), .file (.optional "absent.toml")]
    ["metrics", "port"] ≠ []
      ∧ (reached world sources).merged.at? ["metrics", "port"] = some (.int 9) := by
  intro world sources
  have hwrites : writes world sources
      = [⟨.nest ["metrics", "port"] (.int 1) trivial, .file "base.toml"⟩,
        ⟨.nest ["metrics"] (.int 2) trivial, .file "site.toml"⟩,
        ⟨.nest ["metrics", "port"] (.int 9) trivial, .env "INDEXER_METRICS__PORT"⟩,
        ⟨.nest ["tap"] (.table []) ⟨.nil, trivial⟩, .file "late.toml"⟩] := by
    decide +kernel
  have hlate : ¬ (Tree.nest ["tap"] (.table [])).Blocks ["metrics", "port"] := by
    simp [Tree.nest, Tree.blocks_table_cons, Keyed.get?_cons]
  have hpath : ["metrics", "port"] ≠ [] := by decide
  have hport := (merged_at?_iff_lastWrite world sources ["metrics", "port"] hpath).2.1
    (.int 9) rfl
  refine ⟨hpath, hport.mpr ⟨[_, _], _, [_], hwrites, rfl, fun later hlater => ?_⟩⟩
  obtain rfl := List.mem_singleton.mp hlater
  exact ⟨rfl, hlate⟩

end LayeredConfig
