import LayeredConfig.Proofs.PlainTrees
import LayeredConfig.Proofs.Reports
import LayeredConfig.Proofs.SettingsAgreement

/-!
# The origins of a successful resolution

A tree that passes the schema has plain keys only, so it holds no strays, whatever earlier layers
held. Its record of origins is therefore exact.
-/

namespace LayeredConfig

open KeyPath

theorem Conforms.plainKeys {schema : Schema} (hschema : schema.Plain) {tree : Tree}
    (hconforms : Conforms schema.fields tree) : tree.PlainKeys := by
  intro route node hnode
  obtain ⟨field, hfield, hinitial | ⟨rest, rfl⟩⟩ := hconforms.declared route node hnode
  · exact fun key hkey => (hschema field hfield).2 key (hinitial.subset hkey)
  · cases rest with
    | nil =>
      rw [List.append_nil]
      exact (hschema field hfield).2
    | cons key rest =>
      -- a field takes no table, so nothing is below it
      obtain ⟨entries, hentries⟩ := Tree.isTable_of_at?_append_cons hnode
      have hleaf := ((hconforms.met field hfield).taken _ hentries).isTable
      simp [Tree.isTable] at hleaf

section Resolved

variable {world : World} {sources : List Source} {resolved : Resolved}
  (h : (resolve world sources).result = .ok resolved)

include h

theorem resolve_eq_ok :
    Schema.indexer.violations (reached world sources).merged (reached world sources).provenance = []
      ∧ Settings.decode (reached world sources).merged = .ok resolved.settings
      ∧ resolved.provenance = (reached world sources).provenance
      ∧ resolved.layers = (reached world sources).layers :=
  finish_eq_ok (resolve_result world sources ▸ h)

theorem conforms_of_resolve_eq_ok :
    Conforms Schema.indexer.fields (reached world sources).merged :=
  (indexer_violations_eq_nil_iff _ (reached world sources).canonical).mp (resolve_eq_ok h).1

theorem plainKeys_of_resolve_eq_ok : (reached world sources).merged.PlainKeys :=
  (conforms_of_resolve_eq_ok h).plainKeys Schema.indexer_plain

theorem plain_of_node {keys : List String} {node : Tree}
    (hnode : (reached world sources).merged.at? keys = some node) : ∀ key ∈ keys, Plain key :=
  plainKeys_of_resolve_eq_ok h keys node hnode

theorem origin?_eq_get?_overlaid (path : String) :
    resolved.origin? path = (overlaid (writes world sources)).provenance.get? path := by
  rw [Resolved.origin?, (resolve_eq_ok h).2.2.1, (reached_eq_overlaid world sources).2]

/-- The recorded origins are those of the last overlays, on the paths that plain keys have. -/
theorem origin?_dotted_iff {keys : List String} (hkeys : keys ≠ [])
    (hplain : ∀ key ∈ keys, Plain key) (origin : Origin) :
    resolved.origin? (dotted keys) = some origin
      ↔ (∃ node, (reached world sources).merged.at? keys = some node)
        ∧ LastWith
          (fun layer => (∃ node, layer.tree.at? keys = some node) ∧ layer.origin = origin)
          (fun later => later.tree.at? keys = none) (writes world sources) := by
  have hstray := (plainKeys_of_resolve_eq_ok h).not_stray hkeys hplain
  rw [(reached_eq_overlaid world sources).1] at hstray ⊢
  rw [origin?_eq_get?_overlaid h]
  exact get?_overlaid (fun layer => isTable_writes) (.of_plain hkeys hplain) hstray origin

theorem exists_node_of_origin? {path : String} {origin : Origin}
    (horigin : resolved.origin? path = some origin) :
    ∃ keys node, keys ≠ [] ∧ dotted keys = path
      ∧ (reached world sources).merged.at? keys = some node := by
  have hplain := plainKeys_of_resolve_eq_ok h
  rw [(reached_eq_overlaid world sources).1] at hplain ⊢
  rw [origin?_eq_get?_overlaid h] at horigin
  exact exists_node_of_get? (fun layer => isTable_writes) hplain horigin

theorem exists_origin?_of_node {keys : List String} (hkeys : keys ≠ []) {node : Tree}
    (hnode : (reached world sources).merged.at? keys = some node) :
    ∃ origin, resolved.origin? (dotted keys) = some origin := by
  have hplain := plainKeys_of_resolve_eq_ok h
  rw [(reached_eq_overlaid world sources).1] at hplain hnode
  obtain ⟨origin, horigin, -⟩ :=
    exists_get?_of_node (fun layer => isTable_writes) hplain hkeys hnode
  exact ⟨origin, (origin?_eq_get?_overlaid h _).trans horigin⟩

theorem at?_toTree_of_resolve_eq_ok {field : Field} (hfield : field ∈ Schema.indexer.fields) :
    resolved.settings.toTree.at? field.keys
      = (((reached world sources).merged.at? field.keys).map field.kind.typed).or
        (Settings.defaults.at? field.keys) := by
  obtain ⟨hnothing, hdecode, -⟩ := resolve_eq_ok h
  obtain ⟨settings, hsettings, hfields⟩ :=
    exists_decode_of_violations_eq_nil (reached world sources).canonical hnothing
  obtain rfl := Except.ok.inj (hdecode.symm.trans hsettings)
  exact hfields field hfield

end Resolved

/-- **The origins of a successful resolution are exact.** A path has an origin if and only if it is
the dotted path of a node of the merged tree below the root, and then it is the origin of the last
overlay that has a node at the segments of the path. A field has none exactly if the merged tree
does not set it and its setting is the default. -/
theorem origin?_eq_some_iff_lastWrite (world : World) (sources : List Source) (resolved : Resolved)
    (h : (resolve world sources).result = .ok resolved) :
    (∀ path origin, resolved.origin? path = some origin
      ↔ (∃ keys node, keys ≠ [] ∧ dotted keys = path
          ∧ (reached world sources).merged.at? keys = some node)
        ∧ LastWith
          (fun layer => (∃ node, layer.tree.at? (segments path) = some node)
            ∧ layer.origin = origin)
          (fun later => later.tree.at? (segments path) = none) (writes world sources))
    ∧ ∀ field ∈ Schema.indexer.fields, (resolved.origin? field.path = none
        ↔ (reached world sources).merged.at? field.keys = none
          ∧ resolved.settings.toTree.at? field.keys = Settings.defaults.at? field.keys) := by
  constructor
  · intro path origin
    constructor
    · intro horigin
      obtain ⟨keys, node, hkeys, rfl, hnode⟩ := exists_node_of_origin? h horigin
      have hplain := plain_of_node h hnode
      rw [segments_dotted hkeys hplain]
      exact ⟨⟨keys, node, hkeys, rfl, hnode⟩,
        ((origin?_dotted_iff h hkeys hplain origin).mp horigin).2⟩
    · rintro ⟨⟨keys, node, hkeys, rfl, hnode⟩, hlast⟩
      have hplain := plain_of_node h hnode
      rw [segments_dotted hkeys hplain] at hlast
      exact (origin?_dotted_iff h hkeys hplain origin).mpr ⟨⟨node, hnode⟩, hlast⟩
  · intro field hfield
    obtain ⟨hkeys, hplain⟩ := Schema.indexer_plain field hfield
    have hvalue := at?_toTree_of_resolve_eq_ok h hfield
    rw [Field.path]
    cases hnode : (reached world sources).merged.at? field.keys with
    | none =>
      rw [hnode] at hvalue
      refine iff_of_true ?_ ⟨rfl, by simpa using hvalue⟩
      rw [Option.eq_none_iff_forall_ne_some]
      intro origin horigin
      obtain ⟨⟨node, hsome⟩, -⟩ := (origin?_dotted_iff h hkeys hplain origin).mp horigin
      simp [hnode] at hsome
    | some node =>
      obtain ⟨origin, horigin⟩ := exists_origin?_of_node h hkeys hnode
      simp [horigin]

/-- Variables that set what is required and nothing else. -/
def requiredVariables : List (String × String) := [
  ("INDEXER_BLOCKCHAIN__CHAIN_ID", "1"),
  ("INDEXER_BLOCKCHAIN__RECEIPTS_VERIFIER_ADDRESS", "0x2"),
  ("INDEXER_DATABASE__POSTGRES_URL", "postgres://db"),
  ("INDEXER_GRAPH_NODE__QUERY_URL", "http://node/q"),
  ("INDEXER_GRAPH_NODE__STATUS_URL", "http://node/s"),
  ("INDEXER_INDEXER__INDEXER_ADDRESS", "0x1"),
  ("INDEXER_INDEXER__OPERATOR_MNEMONIC", "words"),
  ("INDEXER_SUBGRAPHS__ESCROW__DEPLOYMENT_ID", "Qm"),
  ("INDEXER_SUBGRAPHS__ESCROW__QUERY_URL", "http://escrow"),
  ("INDEXER_SUBGRAPHS__NETWORK__QUERY_URL", "http://net")]

def replacedWorld : World :=
  .ofTexts [("base.toml", "[metrics]\n\"x.y\" = 1\n"), ("site.toml", "metrics = 5\n"),
    ("late.toml", "[metrics]\nport = 80\n")]

def replacedSources : List Source := [
  .file (.mandatory "base.toml"),
  .file (.mandatory "site.toml"),
  .environment (.fixed "INDEXER_" requiredVariables),
  .file (.mandatory "late.toml")]

theorem exists_ok_of_map_toOption {ε α β : Type} {result : Except ε α} {f : α → β} {value : β}
    (h : result.toOption.map f = some value) : ∃ a, result = .ok a ∧ f a = value := by
  cases result with
  | error problem => simp [Except.toOption] at h
  | ok a => exact ⟨a, rfl, Option.some.inj h⟩

/-- A key with a dot went with the table that held it. -/
theorem origin?_eq_some_iff_lastWrite_replaced :
    ∃ resolved, (resolve replacedWorld replacedSources).result = .ok resolved
      ∧ resolved.origin? "metrics.port" = some (.file "late.toml")
      ∧ LastWith
        (fun layer => (∃ node, layer.tree.at? (segments "metrics.port") = some node)
          ∧ layer.origin = .file "late.toml")
        (fun later => later.tree.at? (segments "metrics.port") = none)
        (writes replacedWorld replacedSources)
      ∧ resolved.origin? "metrics.x.y" = none
      ∧ resolved.settings.toTree.at? ["service", "url_prefix"] = some (.string "/") := by
  have hread : (resolve replacedWorld replacedSources).result.toOption.map (fun resolved =>
      (resolved.origin? "metrics.port", resolved.origin? "metrics.x.y",
        resolved.origin? "service.url_prefix")) = some (some (.file "late.toml"), none, none) := by
    decide +kernel
  obtain ⟨resolved, hresult, horigins⟩ := exists_ok_of_map_toOption hread
  obtain ⟨hport, hrest⟩ := Prod.mk.inj horigins
  obtain ⟨hgone, hunset⟩ := Prod.mk.inj hrest
  obtain ⟨hexact, hdefaults⟩ :=
    origin?_eq_some_iff_lastWrite replacedWorld replacedSources resolved hresult
  have hlast := ((hexact "metrics.port" _).mp hport).2
  have hdefault := hdefaults (.optional ["service", "url_prefix"] .string) (by decide)
  exact ⟨resolved, hresult, hport, hlast, hgone, (hdefault.mp hunset).2⟩

end LayeredConfig
