import LayeredConfig.Proofs.ExactOrigins
import LayeredConfig.Proofs.FieldVariables
import LayeredConfig.Proofs.Reports
import LayeredConfig.Proofs.SettingsTrees

/-!
# Settings through variables

Settings that are written out as variables, one for every field that is not null, come back as they
were. Each variable lays one value over the others at the path of its field; no field lies below
another one, so that nothing is overwritten, whatever the order of the names. The merged tree then
has the values of the settings at the fields that are supplied, and nothing else.
-/

namespace LayeredConfig

open KeyPath

/-- The field is supplied: the settings have a value for it that is not null. -/
def Settings.Supplies (settings : Settings) (field : Field) (value : Tree) : Prop :=
  field ∈ Schema.indexer.fields ∧ settings.toTree.at? field.keys = some value ∧ value ≠ .null

/-- One variable for each field that is not null. -/
def Settings.variables (settings : Settings) (family separator decimal : String) :
    List (String × String) :=
  Schema.indexer.fields.filterMap fun field =>
    ((settings.toTree.at? field.keys).bind (Tree.variableText? decimal)).map fun raw =>
      (field.variableName family separator, raw)

/-- What the variable of a field lays over the others. -/
def Field.overlay (family separator : String) (field : Field) (value : Tree)
    (hleaf : value.isTable = false) : Overlay :=
  ⟨.nest field.keys value (Tree.canonical_of_leaf hleaf),
    .env (field.variableName family separator)⟩

namespace Settings.Supplies

variable {settings : Settings} {field : Field} {value : Tree}

theorem holds (h : settings.Supplies field value) :
    field.Takes value ∧ field.kind.typed value = value := by
  obtain ⟨hfield, hvalue, hnull⟩ := h
  obtain ⟨other, hother, hholds⟩ := settings.holds_fields field hfield
  obtain rfl := Option.some.inj (hvalue.symm.trans hother)
  exact hholds.resolve_right fun h => hnull h.1

theorem isTable (h : settings.Supplies field value) : value.isTable = false :=
  h.holds.1.isTable

theorem unique {other : Tree} (h : settings.Supplies field value)
    (hother : settings.Supplies field other) : value = other :=
  Option.some.inj (h.2.1.symm.trans hother.2.1)

end Settings.Supplies

/-! ### The tree of the supplied fields -/

/-- There is one overlay for each field that is supplied. -/
def Settings.WrittenBy (settings : Settings) (family separator : String) (layers : List Overlay) :
    Prop :=
  ∀ layer, layer ∈ layers
    ↔ ∃ (field : Field) (value : Tree) (h : settings.Supplies field value),
      layer = field.overlay family separator value h.isTable

section Written

variable {settings : Settings} {family separator : String} {layers : List Overlay}
  (h : settings.WrittenBy family separator layers)

include h

theorem sets_or_keeps_of_written {field : Field} {value : Tree}
    (hsupplies : settings.Supplies field value) {layer : Overlay} (hlayer : layer ∈ layers) :
    (layer.tree.at? field.keys = some value
        ∧ layer.origin = .env (field.variableName family separator))
      ∨ (layer.tree.at? field.keys = none ∧ ¬ layer.tree.Blocks field.keys) := by
  obtain ⟨other, otherValue, hother, rfl⟩ := (h layer).mp hlayer
  by_cases heq : other = field
  · subst heq
    left
    rw [hsupplies.unique hother]
    exact ⟨Tree.at?_nest _ _, rfl⟩
  · -- no field lies on the way to another one
    exact Or.inr (Schema.indexer_separate.nest_of_ne hsupplies.1 hother.1 heq hother.isTable)

theorem exists_layer_of_supplies {field : Field} {value : Tree}
    (hsupplies : settings.Supplies field value) :
    ∃ layer ∈ layers, layer.tree.at? field.keys = some value
      ∧ layer.origin = .env (field.variableName family separator) :=
  ⟨field.overlay family separator value hsupplies.isTable, (h _).mpr ⟨field, value, hsupplies, rfl⟩,
    Tree.at?_nest _ _, rfl⟩

theorem at?_of_supplies {field : Field} {value : Tree} (hsupplies : settings.Supplies field value) :
    (overlaid layers).merged.at? field.keys = some value := by
  rw [at?_overlaid_eq_leaf_iff hsupplies.isTable]
  obtain ⟨layer, hlayer, hvalue, -⟩ := exists_layer_of_supplies h hsupplies
  exact LastWith.of_forall ⟨layer, hlayer, hvalue⟩ fun other hother =>
    (sets_or_keeps_of_written h hsupplies hother).imp_left And.left

theorem supplies_of_leaf {path : List String} {value : Tree} (hleaf : value.isTable = false)
    (hvalue : (overlaid layers).merged.at? path = some value) :
    ∃ field, settings.Supplies field value ∧ path = field.keys := by
  obtain ⟨layer, hlayer, hset⟩ :=
    ((at?_overlaid_eq_leaf_iff hleaf).mp hvalue).exists_mem
  obtain ⟨field, other, hsupplies, rfl⟩ := (h layer).mp hlayer
  obtain ⟨rfl, rfl⟩ := Tree.eq_of_at?_nest_leaf hsupplies.isTable hset hleaf
  exact ⟨field, hsupplies, rfl⟩

theorem supplies_of_node {path : List String} (hpath : path ≠ []) {node : Tree}
    (hnode : (overlaid layers).merged.at? path = some node) :
    ∃ field value, settings.Supplies field value ∧ path <+: field.keys := by
  obtain ⟨layer, hlayer, value, hvalue⟩ :=
    ((exists_at?_overlaid_iff hpath).mp ⟨node, hnode⟩).exists_mem
  obtain ⟨field, supplied, hsupplies, rfl⟩ := (h layer).mp hlayer
  exact ⟨field, supplied, hsupplies, Tree.initial_of_at?_nest hsupplies.isTable hvalue⟩

theorem at?_of_null {field : Field} (hfield : field ∈ Schema.indexer.fields)
    (hnull : settings.toTree.at? field.keys = some .null) :
    (overlaid layers).merged.at? field.keys = none := by
  rw [Option.eq_none_iff_forall_ne_some]
  intro node hnode
  obtain ⟨other, value, hsupplies, hinitial⟩ :=
    supplies_of_node h (Schema.indexer_plain field hfield).1 hnode
  obtain rfl := Schema.indexer_separate.eq_of_initial hfield hsupplies.1 hinitial
  exact hsupplies.2.2 (Option.some.inj (hsupplies.2.1.symm.trans hnull))

theorem conforms_of_written : Conforms Schema.indexer.fields (overlaid layers).merged := by
  constructor
  · intro field hfield
    obtain ⟨value, hvalue, hholds⟩ := settings.holds_fields field hfield
    -- only supplied fields have values, and none of them lies above this one
    have hopen : ¬ (overlaid layers).merged.Blocks field.keys := by
      rintro ⟨above, key, below, leaf, hkeys, hleaf, htable⟩
      obtain ⟨other, hsupplies, rfl⟩ := supplies_of_leaf h htable hleaf
      have hinitial : other.keys <+: field.keys := ⟨key :: below, hkeys.symm⟩
      obtain rfl := Schema.indexer_separate.eq_of_initial hsupplies.1 hfield hinitial
      simp at hkeys
    by_cases hnull : value = .null
    · subst hnull
      have hnone := at?_of_null h hfield hvalue
      exact ⟨hopen, by simp [hnone], fun _ => hholds.null.1⟩
    · have hsupplies : settings.Supplies field value := ⟨hfield, hvalue, hnull⟩
      have hsome := at?_of_supplies h hsupplies
      refine ⟨hopen, fun other hother => ?_, by simp [hsome]⟩
      obtain rfl := Option.some.inj (hsome.symm.trans hother)
      exact hsupplies.holds.1
  · intro route node hnode
    by_cases hroute : route = []
    · subst hroute
      exact ⟨.mandatory ["indexer", "indexer_address"] .string, by decide, Or.inl List.nil_prefix⟩
    · obtain ⟨field, value, hsupplies, hinitial⟩ := supplies_of_node h hroute hnode
      exact ⟨field, hsupplies.1, Or.inl hinitial⟩

theorem settled_of_written {field : Field} (hfield : field ∈ Schema.indexer.fields) :
    (((overlaid layers).merged.at? field.keys).map field.kind.typed).or
        (Settings.defaults.at? field.keys) = settings.toTree.at? field.keys := by
  obtain ⟨value, hvalue, hholds⟩ := settings.holds_fields field hfield
  by_cases hnull : value = .null
  · -- a text that is absent is absent by default
    subst hnull
    have hdefault := (hholds.null).2
    rw [at?_of_null h hfield hvalue, hvalue, hdefault, Option.map_none, Option.none_or]
  · have hsupplies : settings.Supplies field value := ⟨hfield, hvalue, hnull⟩
    rw [at?_of_supplies h hsupplies, Option.map_some, hsupplies.holds.2, hvalue, Option.some_or]

end Written

theorem origin?_of_written {settings : Settings} {family separator : String} {world : World}
    {sources : List Source} {resolved : Resolved}
    (hresult : (resolve world sources).result = .ok resolved)
    (h : settings.WrittenBy family separator (writes world sources))
    {field : Field} (hfield : field ∈ Schema.indexer.fields) :
    resolved.origin? field.path
      = if settings.toTree.at? field.keys = some .null then none
        else some (.env (field.variableName family separator)) := by
  obtain ⟨hkeys, hplain⟩ := Schema.indexer_plain field hfield
  have hmerged := (reached_eq_overlaid world sources).1
  rw [Field.path]
  split
  next hnull =>
    rw [Option.eq_none_iff_forall_ne_some]
    intro origin horigin
    obtain ⟨⟨node, hnode⟩, -⟩ := (origin?_dotted_iff hresult hkeys hplain origin).mp horigin
    rw [hmerged, at?_of_null h hfield hnull] at hnode
    exact Option.some_ne_none node hnode.symm
  next hsome =>
    obtain ⟨value, hvalue, -⟩ := settings.holds_fields field hfield
    have hsupplies : settings.Supplies field value :=
      ⟨hfield, hvalue, fun hnull => hsome (hnull ▸ hvalue)⟩
    rw [origin?_dotted_iff hresult hkeys hplain]
    refine ⟨⟨value, hmerged ▸ at?_of_supplies h hsupplies⟩, ?_⟩
    obtain ⟨layer, hlayer, hset, horigin⟩ := exists_layer_of_supplies h hsupplies
    refine LastWith.of_forall ⟨layer, hlayer, ⟨value, hset⟩, horigin⟩ fun other hother => ?_
    rcases sets_or_keeps_of_written h hsupplies hother with ⟨hset, horigin⟩ | ⟨hnone, -⟩
    · exact Or.inl ⟨⟨value, hset⟩, horigin⟩
    · exact Or.inr hnone

/-! ### The variables and what they write -/

section Variables

variable {settings : Settings} {family separator decimal : String}

theorem mem_variables_iff {name raw : String} :
    (name, raw) ∈ settings.variables family separator decimal
      ↔ ∃ field value, settings.Supplies field value ∧ value.variableText? decimal = some raw
        ∧ name = field.variableName family separator := by
  rw [Settings.variables, List.mem_filterMap]
  constructor
  · rintro ⟨field, hfield, hpair⟩
    obtain ⟨text, htext, heq⟩ := Option.map_eq_some_iff.mp hpair
    obtain ⟨rfl, rfl⟩ := Prod.mk.inj heq
    obtain ⟨value, hvalue, hvalueText⟩ := Option.bind_eq_some_iff.mp htext
    refine ⟨field, value, ⟨hfield, hvalue, ?_⟩, hvalueText, rfl⟩
    rintro rfl
    simp [Tree.variableText?] at hvalueText
  · rintro ⟨field, value, ⟨hfield, hvalue, -⟩, htext, rfl⟩
    exact ⟨field, hfield, by simp [hvalue, htext]⟩

theorem exists_variableText {field : Field} {value : Tree}
    (hsupplies : settings.Supplies field value) :
    ∃ raw, value.variableText? decimal = some raw := by
  obtain ⟨⟨haccepts, -⟩, -⟩ := hsupplies.holds
  cases hkind : field.kind <;> cases value <;>
    simp [hkind, Kind.accepts, Tree.variableText?] at haccepts ⊢

/-- The one field for a number with a point. -/
theorem eq_of_supplies_float {field : Field} {x : Float}
    (hsupplies : settings.Supplies field (.float x)) :
    x = settings.tap.maxAmountWillingToLoseGrt := by
  have honly : ∀ field ∈ Schema.indexer.fields, field.kind = .float →
      field = .optional ["tap", "max_amount_willing_to_lose_grt"] .float := by decide
  have hkind : field.kind = .float := by
    obtain ⟨⟨haccepts, -⟩, -⟩ := hsupplies.holds
    cases hkind : field.kind <;> simp [hkind, Kind.accepts] at haccepts ⊢
  have hvalue := hsupplies.2.1
  rw [honly field hsupplies.1 hkind] at hvalue
  exact (Tree.float.inj (Option.some.inj hvalue)).symm

theorem coerce_of_supplies
    (hdecimal : Decimal.float? decimal = some settings.tap.maxAmountWillingToLoseGrt)
    (hfinite : Decimal.finite settings.tap.maxAmountWillingToLoseGrt = true)
    {field : Field} {value : Tree} {raw : String} (hsupplies : settings.Supplies field value)
    (htext : value.variableText? decimal = some raw) : Override.coerce raw field.kind = value := by
  obtain ⟨⟨haccepts, -⟩, htyped⟩ := hsupplies.holds
  refine Override.coerce_variableText haccepts htyped (fun x hx => ?_) htext
  subst hx
  rw [hdecimal, eq_of_supplies_float hsupplies, Option.filter_some, if_pos hfinite]

section Names

variable (hseparates : Separates family separator)

include hseparates

theorem variableName_injective {field other : Field} (hfield : field ∈ Schema.indexer.fields)
    (hother : other ∈ Schema.indexer.fields)
    (h : field.variableName family separator = other.variableName family separator) :
    field = other := by
  have htarget := Override.target?_variableName hseparates hfield
  rw [h, Override.target?_variableName hseparates hother] at htarget
  simpa using htarget.symm

theorem nodup_names : ((settings.variables family separator decimal).map Prod.fst).Nodup := by
  have hnames : Schema.indexer.fields.Pairwise fun field other =>
      field.variableName family separator ≠ other.variableName family separator :=
    Schema.indexer_separate.nodup.imp_of_mem fun hfield hother hne heq =>
      hne (variableName_injective hseparates hfield hother heq)
  rw [List.Nodup, List.pairwise_map]
  refine List.Pairwise.filterMap _ ?_ hnames
  intro field other hne pair hpair otherPair hotherPair
  obtain ⟨raw, -, rfl⟩ := Option.map_eq_some_iff.mp hpair
  obtain ⟨otherRaw, -, rfl⟩ := Option.map_eq_some_iff.mp hotherPair
  exact hne

variable {pairs : List (String × String)}
  (hpairs : pairs.Perm (settings.variables family separator decimal))

include hpairs

/-- A source of these variables sees each of them. -/
theorem perm_bindings (world : World) :
    ((VariableSource.fixed family pairs).snapshot world.environment).bindings.Perm pairs := by
  have hnodup : (pairs.map Prod.fst).Nodup := (hpairs.map _).nodup_iff.mpr (nodup_names hseparates)
  have hperm := Keyed.perm_ofList hnodup
  have hall : ∀ entry ∈ Keyed.ofList pairs, Text.beginsWith entry.1 family = true := by
    rintro ⟨name, raw⟩ hentry
    obtain ⟨field, value, -, -, rfl⟩ :=
      mem_variables_iff.mp (hpairs.mem_iff.mp (hperm.mem_iff.mp hentry))
    rw [Text.beginsWith, List.isPrefixOf_iff_prefix, Field.variableName, String.toList_append,
      String.toList_append, List.append_assoc]
    exact List.prefix_append _ _
  change ((Keyed.ofList pairs).filter fun entry => Text.beginsWith entry.1 family).Perm pairs
  rwa [List.filter_eq_self.mpr hall]

variable (hdecimal : Decimal.float? decimal = some settings.tap.maxAmountWillingToLoseGrt)
  (hfinite : Decimal.finite settings.tap.maxAmountWillingToLoseGrt = true)

include hdecimal hfinite

/-- Each variable leads to its field, and to the value that is supplied for it. -/
theorem supplies_of_mem {name raw : String} (hmem : (name, raw) ∈ pairs) :
    ∃ field value, settings.Supplies field value ∧ name = field.variableName family separator
      ∧ Override.target? Schema.indexer family name = some (.ok field)
      ∧ Override.coerce raw field.kind = value := by
  obtain ⟨field, value, hsupplies, htext, rfl⟩ := mem_variables_iff.mp (hpairs.mem_iff.mp hmem)
  exact ⟨field, value, hsupplies, rfl, Override.target?_variableName hseparates hsupplies.1,
    coerce_of_supplies hdecimal hfinite hsupplies htext⟩

theorem writtenBy_writes (world : World) :
    settings.WrittenBy family separator (writes world [.environment (.fixed family pairs)]) := by
  have hbindings := perm_bindings hseparates hpairs world
  have hsupplied {name raw : String} (hmem : (name, raw) ∈ pairs) :=
    supplies_of_mem hseparates hpairs hdecimal hfinite hmem
  intro layer
  rw [writes, List.flatMap_singleton, Source.writes, VariableSource.mem_writes_iff]
  constructor
  · rintro ⟨name, raw, field, hmem, htarget, rfl⟩
    obtain ⟨other, value, hsupplies, rfl, hother, rfl⟩ := hsupplied (hbindings.mem_iff.mp hmem)
    obtain rfl := Except.ok.inj (Option.some.inj (htarget.symm.trans hother))
    exact ⟨field, _, hsupplies, rfl⟩
  · rintro ⟨field, value, hsupplies, rfl⟩
    obtain ⟨raw, htext⟩ := exists_variableText hsupplies
    have hmem : (field.variableName family separator, raw) ∈ pairs :=
      hpairs.mem_iff.mpr (mem_variables_iff.mpr ⟨field, value, hsupplies, htext, rfl⟩)
    obtain ⟨other, otherValue, hother, hname, htarget, hcoerce⟩ := hsupplied hmem
    -- the name stands for this field only, and settings have one value for it
    obtain rfl := variableName_injective hseparates hsupplies.1 hother.1 hname
    obtain rfl := hsupplies.unique hother
    exact ⟨_, raw, field, hbindings.mem_iff.mpr hmem, htarget, by subst hcoerce; rfl⟩

theorem length_writes (world : World) :
    (writes world [.environment (.fixed family pairs)]).length = pairs.length := by
  have hbindings := perm_bindings hseparates hpairs world
  rw [writes, List.flatMap_singleton, ← hbindings.length_eq]
  apply VariableSource.length_writes
  intro name raw hmem
  obtain ⟨field, value, -, -, htarget, -⟩ :=
    supplies_of_mem hseparates hpairs hdecimal hfinite (hbindings.mem_iff.mp hmem)
  exact ⟨field, htarget⟩

end Names

end Variables

/-- **Settings come back from their variables.** Take settings that break no invariant, and a text
that reads as their limit, which has to be finite. A run over nothing but the variables for these
settings, in any family and with any of the separators, ends with the same settings. It has applied
every variable, and each field that is supplied has the origin of its variable, the others none. -/
theorem settings_roundtrip_variables (world : World) (family separator decimal : String)
    (settings : Settings) (pairs : List (String × String)) (hvalid : settings.violations = [])
    (hfinite : Decimal.finite settings.tap.maxAmountWillingToLoseGrt = true)
    (hdecimal : Decimal.float? decimal = some settings.tap.maxAmountWillingToLoseGrt)
    (hseparates : Separates family separator)
    (hpairs : pairs.Perm (settings.variables family separator decimal)) :
    ∃ resolved, (resolve world [.environment (.fixed family pairs)]).result = .ok resolved
      ∧ resolved.settings = settings
      ∧ resolved.layers = [⟨.environment family, pairs.length, none⟩]
      ∧ ∀ field ∈ Schema.indexer.fields, resolved.origin? field.path
        = if settings.toTree.at? field.keys = some .null then none
          else some (.env (field.variableName family separator)) := by
  have hwritten := writtenBy_writes hseparates hpairs hdecimal hfinite world
  have hlength := length_writes hseparates hpairs hdecimal hfinite world
  generalize hsources : [Source.environment (.fixed family pairs)] = sources at hwritten hlength ⊢
  obtain ⟨hmerged, -⟩ := reached_eq_overlaid world sources
  have hschema : Schema.indexer.violations (reached world sources).merged
      (reached world sources).provenance = [] := by
    rw [indexer_violations_eq_nil_iff _ (reached world sources).canonical, hmerged]
    exact conforms_of_written hwritten
  have hnothing : (reached world sources).violations
      ++ Schema.indexer.violations (reached world sources).merged
        (reached world sources).provenance = [] := by
    rw [hschema, List.append_nil, violations_reached, ← hsources]
    rfl
  obtain ⟨decoded, hdecode, hfields⟩ :=
    exists_decode_of_violations_eq_nil (reached world sources).canonical hschema
  obtain rfl : decoded = settings := by
    refine Settings.eq_of_fields fun field hfield => ?_
    rw [hfields field hfield, hmerged]
    exact settled_of_written hwritten hfield
  have hresult := finish_of_decode hnothing hdecode
  rw [if_pos hvalid] at hresult
  rw [← resolve_result] at hresult
  refine ⟨_, hresult, rfl, ?_, fun field hfield => origin?_of_written hresult hwritten hfield⟩
  rw [layers_reached, ← hsources, List.map_singleton, ← hlength, ← hsources, writes,
    List.flatMap_singleton, ← overlays_contribution]
  rfl

/-- Settings with the greatest integers there are, and with some of the optional texts. -/
def fullSettings : Settings where
  indexer := { indexerAddress := "0x1", operatorMnemonic := "" }
  database := { postgresUrl := "postgres://db" }
  graphNode := { queryUrl := "http://node/q", statusUrl := "https://node/s" }
  metrics := { port := 65535 }
  subgraphs :=
    { network := { queryUrl := "http://net", deploymentId := some "Qm=__1" }
      escrow := { queryUrl := "http://escrow", deploymentId := "Qm2" } }
  blockchain := { chainId := 18446744073709551615, receiptsVerifierAddress := "0x2" }
  service := { serveEscrowSubgraph := true, serveAuthToken := some "true" }
  tap := { maxAmountWillingToLoseGrt := -0.5 }

/-- The names need not be in order, nor the number be written in the shortest way. -/
theorem settings_roundtrip_variables_full :
    let pairs := (fullSettings.variables "INDEXER_" "" "-5.0E-1").reverse
    fullSettings.violations = []
      ∧ Decimal.finite fullSettings.tap.maxAmountWillingToLoseGrt = true
      ∧ Decimal.float? "-5.0E-1" = some fullSettings.tap.maxAmountWillingToLoseGrt
      ∧ Separates "INDEXER_" ""
      ∧ pairs.Perm (fullSettings.variables "INDEXER_" "" "-5.0E-1")
      ∧ ("INDEXER_TAP__MAX_AMOUNT_WILLING_TO_LOSE_GRT", "-5.0E-1") ∈ pairs
      ∧ ∃ resolved,
        (resolve (.ofTexts []) [.environment (.fixed "INDEXER_" pairs)]).result = .ok resolved
          ∧ resolved.settings = fullSettings
          ∧ resolved.layers = [⟨.environment "INDEXER_", 21, none⟩]
          ∧ resolved.origin? "blockchain.chain_id" = some (.env "INDEXER_BLOCKCHAIN__CHAIN_ID")
          ∧ resolved.origin? "service.free_query_auth_token" = none := by
  intro pairs
  have hvalid : fullSettings.violations = [] := by decide +kernel
  have hfinite : Decimal.finite fullSettings.tap.maxAmountWillingToLoseGrt = true := by
    decide +kernel
  have hdecimal : Decimal.float? "-5.0E-1" = some fullSettings.tap.maxAmountWillingToLoseGrt := by
    decide +kernel
  have hseparates : Separates "INDEXER_" "" := Or.inr (Or.inr ⟨rfl, rfl⟩)
  have hpairs : pairs.Perm (fullSettings.variables "INDEXER_" "" "-5.0E-1") := List.reverse_perm _
  have hgiven : ("INDEXER_TAP__MAX_AMOUNT_WILLING_TO_LOSE_GRT", "-5.0E-1") ∈ pairs := by
    decide +kernel
  have hlength : pairs.length = 21 := by decide +kernel
  obtain ⟨resolved, hresult, hsettings, hlayers, horigins⟩ :=
    settings_roundtrip_variables (.ofTexts []) "INDEXER_" "" "-5.0E-1" fullSettings pairs hvalid
      hfinite hdecimal hseparates hpairs
  have hchain := horigins (.mandatory ["blockchain", "chain_id"] .integer) (by decide)
  have htoken := horigins (.optional ["service", "free_query_auth_token"] .string) (by decide)
  rw [hlength] at hlayers
  exact ⟨hvalid, hfinite, hdecimal, hseparates, hpairs, hgiven, resolved, hresult, hsettings,
    hlayers, hchain, htoken⟩

end LayeredConfig
