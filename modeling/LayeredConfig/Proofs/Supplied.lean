import LayeredConfig.Proofs.ExactOrigins

/-!
# Fields that are supplied

A source supplies a field if it is a file that loads and has a value there, or if one of its
variables names the field. A later file cuts the field off if it has a value where the field needs a
table; another file may then put an empty table back, and nothing is reported. In a successful
resolution a field is set exactly if some source supplies it and no later one cuts it off. Then it
has the value and the origin of the last overlay that writes it, and otherwise its default.
-/

namespace LayeredConfig

/-- The source has a value for the field. -/
def Source.Supplies (world : World) (field : Field) : Source → Prop
  | .file source => ∃ document value, source.outcome world = .loaded document
      ∧ document.tree.at? field.keys = some value ∧ value.isTable = false
  | .environment source => ∃ name raw, (name, raw) ∈ (source.snapshot world.environment).bindings
      ∧ Override.target? Schema.indexer source.family name = some (.ok field)

/-- The source is a file with a value other than a table above the field. -/
def Source.CutsOff (world : World) (field : Field) : Source → Prop
  | .file source => ∃ document, source.outcome world = .loaded document
      ∧ document.tree.Blocks field.keys
  | .environment _ => False

def Overlay.Sets (field : Field) (layer : Overlay) : Prop :=
  ∃ value, layer.tree.at? field.keys = some value ∧ value.isTable = false

/-! ### What one source writes -/

namespace Source

variable {world : World} {field : Field}

theorem supplies_iff (hfield : field ∈ Schema.indexer.fields) {source : Source} :
    source.Supplies world field ↔ ∃ layer ∈ source.writes world, layer.Sets field := by
  cases source with
  | file source =>
    constructor
    · rintro ⟨document, value, houtcome, hvalue, hleaf⟩
      exact ⟨⟨document, .file source.path⟩, FileSource.mem_writes_iff.mpr ⟨houtcome, rfl⟩, value,
        hvalue, hleaf⟩
    · rintro ⟨layer, hlayer, value, hvalue, hleaf⟩
      exact ⟨layer.toCanonicalTree, value, (FileSource.mem_writes_iff.mp hlayer).1, hvalue, hleaf⟩
  | environment source =>
    constructor
    · rintro ⟨name, raw, hmem, htarget⟩
      refine ⟨_, VariableSource.mem_writes_iff.mpr ⟨name, raw, field, hmem, htarget, rfl⟩, ?_⟩
      exact ⟨_, Tree.at?_nest _ _, Override.isTable_coerce raw field.kind⟩
    · rintro ⟨layer, hlayer, value, hvalue, hleaf⟩
      obtain ⟨name, raw, other, hmem, htarget, rfl⟩ := VariableSource.mem_writes_iff.mp hlayer
      have hinitial := Overlay.initial_of_at?_ofVariable hvalue
      obtain rfl :=
        Schema.indexer_separate.eq_of_initial hfield (target?_mem htarget) hinitial
      exact ⟨name, raw, hmem, htarget⟩

theorem cutsOff_iff (hfield : field ∈ Schema.indexer.fields) {source : Source} :
    source.CutsOff world field
      ↔ ∃ layer ∈ source.writes world, layer.tree.Blocks field.keys := by
  cases source with
  | file source =>
    constructor
    · rintro ⟨document, houtcome, hblocks⟩
      exact ⟨⟨document, .file source.path⟩, FileSource.mem_writes_iff.mpr ⟨houtcome, rfl⟩, hblocks⟩
    · rintro ⟨layer, hlayer, hblocks⟩
      exact ⟨layer.toCanonicalTree, (FileSource.mem_writes_iff.mp hlayer).1, hblocks⟩
  | environment source =>
    refine iff_of_false id ?_
    rintro ⟨layer, hlayer, hblocks⟩
    obtain ⟨name, raw, other, hmem, htarget, rfl⟩ := VariableSource.mem_writes_iff.mp hlayer
    by_cases heq : other = field
    · have hnone := Tree.at?_eq_none_of_blocks hblocks
      simp [heq, Tree.at?_nest] at hnone
    · have hleaf := Override.isTable_coerce raw other.kind
      exact (Schema.indexer_separate.nest_of_ne hfield (target?_mem htarget) heq hleaf).2 hblocks

theorem Supplies.not_cutsOff {source : Source} (h : source.Supplies world field) :
    ¬ source.CutsOff world field := by
  cases source with
  | file source =>
    obtain ⟨document, value, houtcome, hvalue, -⟩ := h
    rintro ⟨other, hother, hblocks⟩
    obtain rfl := FileSource.Outcome.loaded.inj (houtcome.symm.trans hother)
    simp [Tree.at?_eq_none_of_blocks hblocks] at hvalue
  | environment source => exact id

theorem lastWith_writes_iff (hfield : field ∈ Schema.indexer.fields) (source : Source) :
    LastWith (Overlay.Sets field) (fun later => ¬ later.tree.Blocks field.keys)
        (source.writes world)
      ↔ source.Supplies world field := by
  constructor
  · exact fun h => (supplies_iff hfield).mpr h.exists_mem
  · intro h
    -- one file writes one tree, and no variable cuts anything off
    refine LastWith.of_forall ((supplies_iff hfield).mp h) fun layer hlayer => Or.inr ?_
    exact fun hblocks => h.not_cutsOff ((cutsOff_iff hfield).mpr ⟨layer, hlayer, hblocks⟩)

end Source

/-- What is supplied and not cut off later is a matter of the sources or of their overlays alike. -/
theorem lastWith_writes_iff_supplies {world : World} {field : Field}
    (hfield : field ∈ Schema.indexer.fields) (sources : List Source) :
    LastWith (Overlay.Sets field) (fun later => ¬ later.tree.Blocks field.keys)
        (writes world sources)
      ↔ LastWith (Source.Supplies world field) (fun later => ¬ later.CutsOff world field)
          sources := by
  have hkeeps (source : Source) :
      (∀ layer ∈ source.writes world, ¬ layer.tree.Blocks field.keys)
        ↔ ¬ source.CutsOff world field := by
    simp [Source.cutsOff_iff hfield]
  rw [writes, lastWith_flatMap]
  simp only [Source.lastWith_writes_iff hfield, hkeeps]

/-! ### What a run sets -/

section Resolved

variable {world : World} {sources : List Source} {resolved : Resolved}
  (h : (resolve world sources).result = .ok resolved)

include h

theorem isTable_of_field {field : Field} (hfield : field ∈ Schema.indexer.fields) {value : Tree}
    (hvalue : (reached world sources).merged.at? field.keys = some value) :
    value.isTable = false :=
  (((conforms_of_resolve_eq_ok h).met field hfield).taken value hvalue).isTable

/-- A field is set exactly if some source supplies it and no later one cuts it off. -/
theorem exists_at?_field_iff {field : Field} (hfield : field ∈ Schema.indexer.fields) :
    (∃ value, (reached world sources).merged.at? field.keys = some value)
      ↔ LastWith (Source.Supplies world field) (fun later => ¬ later.CutsOff world field)
          sources := by
  have hmerged := (reached_eq_overlaid world sources).1
  rw [← lastWith_writes_iff_supplies hfield]
  constructor
  · rintro ⟨value, hvalue⟩
    have hleaf := isTable_of_field h hfield hvalue
    rw [hmerged, at?_overlaid_eq_leaf_iff hleaf] at hvalue
    exact hvalue.imp (fun layer _ hset => ⟨value, hset, hleaf⟩) fun layer _ hkeeps => hkeeps.2
  · intro hlast
    rw [hmerged, exists_at?_overlaid_iff (Schema.indexer_plain field hfield).1]
    exact hlast.imp (fun layer _ ⟨value, hvalue, _⟩ => ⟨value, hvalue⟩) fun layer _ => id

/-- The last overlay with a node at a field that is set has its value and its origin. -/
theorem lastWith_value_and_origin {field : Field} (hfield : field ∈ Schema.indexer.fields)
    {value : Tree} (hvalue : (reached world sources).merged.at? field.keys = some value)
    {origin : Origin} (horigin : resolved.origin? field.path = some origin) :
    LastWith (fun layer => layer.tree.at? field.keys = some value ∧ layer.origin = origin)
      (fun later => later.tree.at? field.keys = none) (writes world sources) := by
  obtain ⟨hkeys, hplain⟩ := Schema.indexer_plain field hfield
  have hsetter : LastWith (fun layer => layer.tree.at? field.keys = some value)
      (fun later => later.tree.at? field.keys = none) (writes world sources) := by
    have hleaf := isTable_of_field h hfield hvalue
    rw [(reached_eq_overlaid world sources).1, at?_overlaid_eq_leaf_iff hleaf] at hvalue
    exact hvalue.imp (fun layer _ => id) fun layer _ => And.left
  have hwriter := ((origin?_dotted_iff h hkeys hplain origin).mp horigin).2
  refine (hsetter.and hwriter ?_ ?_).imp (fun layer _ hboth => ⟨hboth.1, hboth.2.2⟩)
    fun layer _ => id
  · intro layer hset hnone
    simp [hset] at hnone
  · rintro layer ⟨⟨node, hnode⟩, -⟩ hnone
    simp [hnode] at hnone

/-- What no source supplies, or a later one cuts off, has its default and no origin. -/
theorem default_of_not_supplied {field : Field} (hfield : field ∈ Schema.indexer.fields)
    (hunset : ¬ LastWith (Source.Supplies world field) (fun later => ¬ later.CutsOff world field)
      sources) :
    (reached world sources).merged.at? field.keys = none
      ∧ resolved.origin? field.path = none
      ∧ resolved.settings.toTree.at? field.keys = Settings.defaults.at? field.keys := by
  obtain ⟨hkeys, hplain⟩ := Schema.indexer_plain field hfield
  have hnone : (reached world sources).merged.at? field.keys = none := by
    rw [Option.eq_none_iff_forall_ne_some]
    exact fun value hvalue => hunset ((exists_at?_field_iff h hfield).mp ⟨value, hvalue⟩)
  refine ⟨hnone, ?_, ?_⟩
  · rw [Option.eq_none_iff_forall_ne_some]
    intro origin horigin
    obtain ⟨⟨node, hnode⟩, -⟩ := (origin?_dotted_iff h hkeys hplain origin).mp horigin
    simp [hnone] at hnode
  · simp [at?_toTree_of_resolve_eq_ok h hfield, hnone]

end Resolved

/-- **No silent default.** If a resolution succeeds, a field that a source supplies and that no
later source cuts off is set in the merged tree and has an origin. Its setting is the value of the
last overlay with a node there, whose origin is the recorded one, and not the default. -/
theorem supplied_field_is_set (world : World) (sources : List Source) (resolved : Resolved)
    (h : (resolve world sources).result = .ok resolved) (field : Field)
    (hfield : field ∈ Schema.indexer.fields)
    (hsupplied : LastWith (Source.Supplies world field) (fun later => ¬ later.CutsOff world field)
      sources) :
    ∃ value origin, (reached world sources).merged.at? field.keys = some value
      ∧ resolved.origin? field.path = some origin
      ∧ resolved.settings.toTree.at? field.keys = some (field.kind.typed value)
      ∧ LastWith (fun layer => layer.tree.at? field.keys = some value ∧ layer.origin = origin)
          (fun later => later.tree.at? field.keys = none) (writes world sources) := by
  have hkeys := (Schema.indexer_plain field hfield).1
  obtain ⟨value, hvalue⟩ := (exists_at?_field_iff h hfield).mpr hsupplied
  obtain ⟨origin, horigin⟩ := exists_origin?_of_node h hkeys hvalue
  refine ⟨value, origin, hvalue, horigin, ?_, lastWith_value_and_origin h hfield hvalue horigin⟩
  rw [at?_toTree_of_resolve_eq_ok h hfield, hvalue, Option.map_some, Option.some_or]

/-- A port, a number in the place of its table, and the table again. -/
def cutOffWorld : World :=
  .ofTexts [("base.toml", "[metrics]\nport = 80\n"), ("site.toml", "metrics = 5\n"),
    ("late.toml", "[metrics]\n")]

def portField : Field := (Field.optional ["metrics", "port"] .integer).atMost 65535

theorem supplies_port : (Source.file (.mandatory "base.toml")).Supplies cutOffWorld portField := by
  have hwrites : (⟨.nest ["metrics", "port"] (.int 80) trivial, .file "base.toml"⟩ : Overlay)
      ∈ (FileSource.mandatory "base.toml").writes cutOffWorld := by
    decide +kernel
  exact ⟨_, .int 80, (FileSource.mem_writes_iff.mp hwrites).1, rfl, rfl⟩

/-- An empty table cuts nothing off. -/
theorem supplied_field_is_set_port :
    let sources : List Source := [.file (.mandatory "base.toml"), .file (.mandatory "late.toml"),
      .environment (.fixed "INDEXER_" requiredVariables)]
    ∃ resolved, (resolve cutOffWorld sources).result = .ok resolved
      ∧ portField ∈ Schema.indexer.fields
      ∧ LastWith (Source.Supplies cutOffWorld portField)
          (fun later => ¬ later.CutsOff cutOffWorld portField) sources
      ∧ resolved.origin? portField.path = some (.file "base.toml")
      ∧ ∃ value, (reached cutOffWorld sources).merged.at? portField.keys = some value
        ∧ resolved.settings.toTree.at? portField.keys = some (portField.kind.typed value) := by
  intro sources
  have hread : (resolve cutOffWorld sources).result.toOption.map (fun resolved =>
      resolved.origin? portField.path) = some (some (.file "base.toml")) := by
    decide +kernel
  obtain ⟨resolved, hresult, hbase⟩ := exists_ok_of_map_toOption hread
  have hfield : portField ∈ Schema.indexer.fields := by decide
  have hlate : (FileSource.mandatory "late.toml").writes cutOffWorld
      = [⟨.nest ["metrics"] .empty (by decide), .file "late.toml"⟩] := by
    decide +kernel
  have hopen : ¬ (Tree.nest ["metrics"] .empty).Blocks portField.keys := by
    simp [portField, Field.optional, Field.atMost, Tree.nest, Tree.empty, Tree.blocks_table_cons,
      Keyed.get?_cons]
  have hsupplied : LastWith (Source.Supplies cutOffWorld portField)
      (fun later => ¬ later.CutsOff cutOffWorld portField) sources := by
    refine ⟨[], _, [_, _], rfl, supplies_port, ?_⟩
    rw [List.forall_mem_cons, List.forall_mem_singleton]
    constructor
    · rw [Source.cutsOff_iff hfield]
      change ¬ ∃ layer ∈ (FileSource.mandatory "late.toml").writes cutOffWorld, _
      simpa [hlate, CanonicalTree.nest] using hopen
    · exact id
  obtain ⟨value, origin, hvalue, horigin, hsetting, -⟩ :=
    supplied_field_is_set cutOffWorld sources resolved hresult portField hfield hsupplied
  obtain rfl := Option.some.inj (horigin.symm.trans hbase)
  exact ⟨resolved, hresult, hfield, hsupplied, horigin, value, hvalue, hsetting⟩

/-- A port that is cut off is lost without a report, although a source supplies it. -/
theorem cut_off_port_is_default :
    let sources : List Source := [.file (.mandatory "base.toml"), .file (.mandatory "site.toml"),
      .file (.mandatory "late.toml"), .environment (.fixed "INDEXER_" requiredVariables)]
    ∃ resolved, (resolve cutOffWorld sources).result = .ok resolved
      ∧ portField ∈ Schema.indexer.fields
      ∧ (∃ source ∈ sources, source.Supplies cutOffWorld portField)
      ∧ (reached cutOffWorld sources).merged.at? portField.keys = none
      ∧ resolved.origin? portField.path = none
      ∧ resolved.settings.metrics.port = 7300 := by
  intro sources
  have hread : (resolve cutOffWorld sources).result.toOption.map (fun resolved =>
      (resolved.origin? portField.path, resolved.settings.metrics.port)) = some (none, 7300) := by
    decide +kernel
  obtain ⟨resolved, hresult, hsettings⟩ := exists_ok_of_map_toOption hread
  obtain ⟨horigin, hport⟩ := Prod.mk.inj hsettings
  have hfield : portField ∈ Schema.indexer.fields := by decide
  have hnone : (reached cutOffWorld sources).merged.at? portField.keys = none := by
    rw [Option.eq_none_iff_forall_ne_some]
    intro value hvalue
    -- every node of a merged tree that conforms has an origin
    obtain ⟨origin, hsome⟩ := exists_origin?_of_node hresult (by decide) hvalue
    exact Option.some_ne_none origin (hsome.symm.trans horigin)
  exact ⟨resolved, hresult, hfield, ⟨_, List.mem_cons_self, supplies_port⟩, hnone, horigin, hport⟩

end LayeredConfig
