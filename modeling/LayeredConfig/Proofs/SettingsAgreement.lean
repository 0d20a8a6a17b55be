import LayeredConfig.Proofs.LastWrite
import LayeredConfig.Proofs.Values

/-!
# The schema and the settings agree

The schema lists fields with their key paths; the settings are nested groups with decoders of their
own. Each decoder agrees with the part of the schema that it reads, group by group up to the
settings as a whole, so that whatever passes the schema can be decoded, and whatever can be decoded
passes it.
-/

namespace LayeredConfig

open Decode

/-- What stands in the fields that a tree does not set. -/
def Settings.defaults : Tree :=
  .table [
    ("metrics", .table [("port", .int 7300)]),
    ("service", .table [
      ("free_query_auth_token", .null),
      ("host_and_port", .string "0.0.0.0:7600"),
      ("serve_auth_token", .null),
      ("serve_escrow_subgraph", .bool false),
      ("serve_network_subgraph", .bool false),
      ("url_prefix", .string "/")]),
    ("subgraphs", .table [
      ("escrow", .table [("query_auth_token", .null), ("syncing_interval_secs", .int 60)]),
      ("network", .table [
        ("deployment_id", .null),
        ("query_auth_token", .null),
        ("recently_closed_allocation_buffer_secs", .int 3600),
        ("syncing_interval_secs", .int 60)])]),
    ("tap", .table [("max_amount_willing_to_lose_grt", .float 20.0)])]

namespace IdentitySettings

def slots : List Slot := [
  .required "indexer_address" string .string [⟨[], .string, true, none⟩],
  .required "operator_mnemonic" string .string [⟨[], .string, true, none⟩]]

theorem assembles :
    Assembles (fun tree => (decode tree).map Settings.identityTree) group slots where
  members := rfl
  complete tree given hread hvalues := by
    simp only [exists_map_eq_ok, decode, exists_bind_eq_ok, exists_pure_eq_ok, hread]
    simpa [slots, exists_map_eq_ok] using hvalues
  sound tree out hview := by
    simp only [decode, map_eq_ok, bind_eq_ok, pure_eq_ok] at hview
    obtain ⟨_, ⟨given, hread, address, haddress, mnemonic, hmnemonic, rfl⟩, rfl⟩ := hview
    refine ⟨given, hread, ?_⟩
    simp [slots, haddress, hmnemonic, Except.map]
    exact ⟨rfl, rfl⟩

theorem agrees :
    Agrees (fun tree => (decode tree).map Settings.identityTree) (groupFields slots)
      (Settings.defaults.at? ["indexer"]) := by
  refine Agrees.of_slots assembles (by decide) ?_
  simp only [slots, List.forall_mem_cons, List.not_mem_nil]
  exact ⟨.required agrees_string (by decide),
    .required agrees_string (by decide),
    by simp⟩

end IdentitySettings

namespace DatabaseSettings

def slots : List Slot := [
  .required "postgres_url" string .string [⟨[], .string, true, none⟩]]

theorem assembles :
    Assembles (fun tree => (decode tree).map Settings.databaseTree) group slots where
  members := rfl
  complete tree given hread hvalues := by
    simp only [exists_map_eq_ok, decode, exists_bind_eq_ok, exists_pure_eq_ok, hread]
    simpa [slots, exists_map_eq_ok] using hvalues
  sound tree out hview := by
    simp only [decode, map_eq_ok, bind_eq_ok, pure_eq_ok] at hview
    obtain ⟨_, ⟨given, hread, url, hurl, rfl⟩, rfl⟩ := hview
    refine ⟨given, hread, ?_⟩
    simp [slots, hurl, Except.map]
    rfl

theorem agrees :
    Agrees (fun tree => (decode tree).map Settings.databaseTree) (groupFields slots)
      (Settings.defaults.at? ["database"]) := by
  refine Agrees.of_slots assembles (by decide) ?_
  simp only [slots, List.forall_mem_cons, List.not_mem_nil]
  exact ⟨.required agrees_string (by decide),
    by simp⟩

end DatabaseSettings

namespace GraphNodeSettings

def slots : List Slot := [
  .required "query_url" string .string [⟨[], .string, true, none⟩],
  .required "status_url" string .string [⟨[], .string, true, none⟩]]

theorem assembles :
    Assembles (fun tree => (decode tree).map Settings.graphNodeTree) group slots where
  members := rfl
  complete tree given hread hvalues := by
    simp only [exists_map_eq_ok, decode, exists_bind_eq_ok, exists_pure_eq_ok, hread]
    simpa [slots, exists_map_eq_ok] using hvalues
  sound tree out hview := by
    simp only [decode, map_eq_ok, bind_eq_ok, pure_eq_ok] at hview
    obtain ⟨_, ⟨given, hread, query, hquery, status, hstatus, rfl⟩, rfl⟩ := hview
    refine ⟨given, hread, ?_⟩
    simp [slots, hquery, hstatus, Except.map]
    exact ⟨rfl, rfl⟩

theorem agrees :
    Agrees (fun tree => (decode tree).map Settings.graphNodeTree) (groupFields slots)
      (Settings.defaults.at? ["graph_node"]) := by
  refine Agrees.of_slots assembles (by decide) ?_
  simp only [slots, List.forall_mem_cons, List.not_mem_nil]
  exact ⟨.required agrees_string (by decide),
    .required agrees_string (by decide),
    by simp⟩

end GraphNodeSettings

namespace MetricsSettings

def slots : List Slot := [
  .withDefault "port" word16 Encode.word16 7300 [⟨[], .integer, false, some 65535⟩]]

theorem assembles :
    Assembles (fun tree => (decode tree).map Settings.metricsTree) group slots where
  members := rfl
  complete tree given hread hvalues := by
    simp only [exists_map_eq_ok, decode, exists_bind_eq_ok, exists_pure_eq_ok, hread]
    simpa [slots, exists_map_eq_ok] using hvalues
  sound tree out hview := by
    simp only [decode, map_eq_ok, bind_eq_ok, pure_eq_ok] at hview
    obtain ⟨_, ⟨given, hread, port, hport, rfl⟩, rfl⟩ := hview
    refine ⟨given, hread, ?_⟩
    simp [slots, hport, Except.map]
    rfl

theorem agrees :
    Agrees (fun tree => (decode tree).map Settings.metricsTree) (groupFields slots)
      (Settings.defaults.at? ["metrics"]) := by
  refine Agrees.of_slots assembles (by decide) ?_
  simp only [slots, List.forall_mem_cons, List.not_mem_nil]
  exact ⟨.withDefault agrees_word16 (by decide) rfl,
    by simp⟩

end MetricsSettings

namespace NetworkSubgraphSettings

def slots : List Slot := [
  .required "query_url" string .string [⟨[], .string, true, none⟩],
  .withDefault "query_auth_token" (nullable string) Encode.nullable none
    [⟨[], .string, false, none⟩],
  .withDefault "deployment_id" (nullable string) Encode.nullable none [⟨[], .string, false, none⟩],
  .withDefault "syncing_interval_secs" word64 Encode.word64 60 [⟨[], .integer, false, none⟩],
  .withDefault "recently_closed_allocation_buffer_secs" word64 Encode.word64 3600
    [⟨[], .integer, false, none⟩]]

theorem assembles :
    Assembles (fun tree => (decode tree).map Settings.networkTree) group slots where
  members := rfl
  complete tree given hread hvalues := by
    simp only [exists_map_eq_ok, decode, exists_bind_eq_ok, exists_pure_eq_ok, hread]
    simpa [slots, exists_map_eq_ok, Given.optional] using hvalues
  sound tree out hview := by
    simp only [decode, map_eq_ok, bind_eq_ok, pure_eq_ok, Given.optional] at hview
    obtain ⟨_, ⟨given, hread, url, hurl, token, htoken, id, hid, interval, hinterval, buffer,
      hbuffer, rfl⟩, rfl⟩ := hview
    refine ⟨given, hread, ?_⟩
    simp [slots, hurl, htoken, hid, hinterval, hbuffer, Except.map]
    exact ⟨rfl, rfl, rfl, rfl, rfl⟩

theorem agrees :
    Agrees (fun tree => (decode tree).map Settings.networkTree) (groupFields slots)
      (Settings.defaults.at? ["subgraphs", "network"]) := by
  refine Agrees.of_slots assembles (by decide) ?_
  simp only [slots, List.forall_mem_cons, List.not_mem_nil]
  exact ⟨.required agrees_string (by decide),
    .withDefault agrees_nullable_string (by decide) rfl,
    .withDefault agrees_nullable_string (by decide) rfl,
    .withDefault agrees_word64 (by decide) rfl,
    .withDefault agrees_word64 (by decide) rfl,
    by simp⟩

end NetworkSubgraphSettings

namespace EscrowSubgraphSettings

def slots : List Slot := [
  .required "query_url" string .string [⟨[], .string, true, none⟩],
  .withDefault "query_auth_token" (nullable string) Encode.nullable none
    [⟨[], .string, false, none⟩],
  .required "deployment_id" string .string [⟨[], .string, true, none⟩],
  .withDefault "syncing_interval_secs" word64 Encode.word64 60 [⟨[], .integer, false, none⟩]]

theorem assembles :
    Assembles (fun tree => (decode tree).map Settings.escrowTree) group slots where
  members := rfl
  complete tree given hread hvalues := by
    simp only [exists_map_eq_ok, decode, exists_bind_eq_ok, exists_pure_eq_ok, hread]
    simpa [slots, exists_map_eq_ok, Given.optional] using hvalues
  sound tree out hview := by
    simp only [decode, map_eq_ok, bind_eq_ok, pure_eq_ok, Given.optional] at hview
    obtain ⟨_, ⟨given, hread, url, hurl, token, htoken, id, hid, interval, hinterval, rfl⟩, rfl⟩ :=
      hview
    refine ⟨given, hread, ?_⟩
    simp [slots, hurl, htoken, hid, hinterval, Except.map]
    exact ⟨rfl, rfl, rfl, rfl⟩

theorem agrees :
    Agrees (fun tree => (decode tree).map Settings.escrowTree) (groupFields slots)
      (Settings.defaults.at? ["subgraphs", "escrow"]) := by
  refine Agrees.of_slots assembles (by decide) ?_
  simp only [slots, List.forall_mem_cons, List.not_mem_nil]
  exact ⟨.required agrees_string (by decide),
    .withDefault agrees_nullable_string (by decide) rfl,
    .required agrees_string (by decide),
    .withDefault agrees_word64 (by decide) rfl,
    by simp⟩

end EscrowSubgraphSettings

namespace SubgraphSettings

def slots : List Slot := [
  .required "network" NetworkSubgraphSettings.decode Settings.networkTree
    (groupFields NetworkSubgraphSettings.slots),
  .required "escrow" EscrowSubgraphSettings.decode Settings.escrowTree
    (groupFields EscrowSubgraphSettings.slots)]

theorem assembles :
    Assembles (fun tree => (decode tree).map Settings.subgraphsTree) group slots where
  members := rfl
  complete tree given hread hvalues := by
    simp only [exists_map_eq_ok, decode, exists_bind_eq_ok, exists_pure_eq_ok, hread]
    simpa [slots, exists_map_eq_ok] using hvalues
  sound tree out hview := by
    simp only [decode, map_eq_ok, bind_eq_ok, pure_eq_ok] at hview
    obtain ⟨_, ⟨given, hread, network, hnetwork, escrow, hescrow, rfl⟩, rfl⟩ := hview
    refine ⟨given, hread, ?_⟩
    simp [slots, hnetwork, hescrow, Except.map]
    exact ⟨rfl, rfl⟩

theorem agrees :
    Agrees (fun tree => (decode tree).map Settings.subgraphsTree) (groupFields slots)
      (Settings.defaults.at? ["subgraphs"]) := by
  refine Agrees.of_slots assembles (by decide) ?_
  simp only [slots, List.forall_mem_cons, List.not_mem_nil]
  exact ⟨.required NetworkSubgraphSettings.agrees (by decide),
    .required EscrowSubgraphSettings.agrees (by decide),
    by simp⟩

end SubgraphSettings

namespace BlockchainSettings

def slots : List Slot := [
  .required "chain_id" word64 Encode.word64 [⟨[], .integer, true, none⟩],
  .required "receipts_verifier_address" string .string [⟨[], .string, true, none⟩]]

theorem assembles :
    Assembles (fun tree => (decode tree).map Settings.blockchainTree) group slots where
  members := rfl
  complete tree given hread hvalues := by
    simp only [exists_map_eq_ok, decode, exists_bind_eq_ok, exists_pure_eq_ok, hread]
    simpa [slots, exists_map_eq_ok] using hvalues
  sound tree out hview := by
    simp only [decode, map_eq_ok, bind_eq_ok, pure_eq_ok] at hview
    obtain ⟨_, ⟨given, hread, chain, hchain, verifier, hverifier, rfl⟩, rfl⟩ := hview
    refine ⟨given, hread, ?_⟩
    simp [slots, hchain, hverifier, Except.map]
    exact ⟨rfl, rfl⟩

theorem agrees :
    Agrees (fun tree => (decode tree).map Settings.blockchainTree) (groupFields slots)
      (Settings.defaults.at? ["blockchain"]) := by
  refine Agrees.of_slots assembles (by decide) ?_
  simp only [slots, List.forall_mem_cons, List.not_mem_nil]
  exact ⟨.required agrees_word64 (by decide),
    .required agrees_string (by decide),
    by simp⟩

end BlockchainSettings

namespace ServiceSettings

def slots : List Slot := [
  .withDefault "host_and_port" string .string "0.0.0.0:7600" [⟨[], .string, false, none⟩],
  .withDefault "url_prefix" string .string "/" [⟨[], .string, false, none⟩],
  .withDefault "serve_network_subgraph" bool .bool false [⟨[], .bool, false, none⟩],
  .withDefault "serve_escrow_subgraph" bool .bool false [⟨[], .bool, false, none⟩],
  .withDefault "serve_auth_token" (nullable string) Encode.nullable none
    [⟨[], .string, false, none⟩],
  .withDefault "free_query_auth_token" (nullable string) Encode.nullable none
    [⟨[], .string, false, none⟩]]

theorem assembles :
    Assembles (fun tree => (decode tree).map Settings.serviceTree) group slots where
  members := rfl
  complete tree given hread hvalues := by
    simp only [exists_map_eq_ok, decode, exists_bind_eq_ok, exists_pure_eq_ok, hread]
    simpa [slots, exists_map_eq_ok, Given.optional] using hvalues
  sound tree out hview := by
    simp only [decode, map_eq_ok, bind_eq_ok, pure_eq_ok, Given.optional] at hview
    obtain ⟨_, ⟨given, hread, host, hhost, url, hurl, network, hnetwork, escrow, hescrow, token,
      htoken, free, hfree, rfl⟩, rfl⟩ := hview
    refine ⟨given, hread, ?_⟩
    simp [slots, hhost, hurl, hnetwork, hescrow, htoken, hfree, Except.map]
    exact ⟨rfl, rfl, rfl, rfl, rfl, rfl⟩

theorem agrees :
    Agrees (fun tree => (decode tree).map Settings.serviceTree) (groupFields slots)
      (Settings.defaults.at? ["service"]) := by
  refine Agrees.of_slots assembles (by decide) ?_
  simp only [slots, List.forall_mem_cons, List.not_mem_nil]
  exact ⟨.withDefault agrees_string (by decide) rfl,
    .withDefault agrees_string (by decide) rfl,
    .withDefault agrees_bool (by decide) rfl,
    .withDefault agrees_bool (by decide) rfl,
    .withDefault agrees_nullable_string (by decide) rfl,
    .withDefault agrees_nullable_string (by decide) rfl,
    by simp⟩

end ServiceSettings

namespace TapSettings

def slots : List Slot := [
  .withDefault "max_amount_willing_to_lose_grt" float .float 20.0 [⟨[], .float, false, none⟩]]

theorem assembles :
    Assembles (fun tree => (decode tree).map Settings.tapTree) group slots where
  members := rfl
  complete tree given hread hvalues := by
    simp only [exists_map_eq_ok, decode, exists_bind_eq_ok, exists_pure_eq_ok, hread]
    simpa [slots, exists_map_eq_ok] using hvalues
  sound tree out hview := by
    simp only [decode, map_eq_ok, bind_eq_ok, pure_eq_ok] at hview
    obtain ⟨_, ⟨given, hread, limit, hlimit, rfl⟩, rfl⟩ := hview
    refine ⟨given, hread, ?_⟩
    simp [slots, hlimit, Except.map]
    rfl

theorem agrees :
    Agrees (fun tree => (decode tree).map Settings.tapTree) (groupFields slots)
      (Settings.defaults.at? ["tap"]) := by
  refine Agrees.of_slots assembles (by decide) ?_
  simp only [slots, List.forall_mem_cons, List.not_mem_nil]
  exact ⟨.withDefault agrees_float (by decide) rfl,
    by simp⟩

end TapSettings

namespace Settings

def slots : List Slot := [
  .required "indexer" IdentitySettings.decode identityTree (groupFields IdentitySettings.slots),
  .required "database" DatabaseSettings.decode databaseTree (groupFields DatabaseSettings.slots),
  .required "graph_node" GraphNodeSettings.decode graphNodeTree
    (groupFields GraphNodeSettings.slots),
  .withDefault "metrics" MetricsSettings.decode metricsTree {} (groupFields MetricsSettings.slots),
  .required "subgraphs" SubgraphSettings.decode subgraphsTree (groupFields SubgraphSettings.slots),
  .required "blockchain" BlockchainSettings.decode blockchainTree
    (groupFields BlockchainSettings.slots),
  .withDefault "service" ServiceSettings.decode serviceTree {} (groupFields ServiceSettings.slots),
  .withDefault "tap" TapSettings.decode tapTree {} (groupFields TapSettings.slots)]

theorem assembles :
    Assembles (fun tree => (decode tree).map toTree) group slots where
  members := rfl
  complete tree given hread hvalues := by
    simp only [exists_map_eq_ok, decode, exists_bind_eq_ok, exists_pure_eq_ok, hread]
    simpa [slots, exists_map_eq_ok] using hvalues
  sound tree out hview := by
    simp only [decode, map_eq_ok, bind_eq_ok, pure_eq_ok] at hview
    obtain ⟨_, ⟨given, hread, identity, hidentity, database, hdatabase, graphNode, hgraphNode,
      metrics, hmetrics, subgraphs, hsubgraphs, blockchain, hblockchain, service, hservice, tap,
      htap, rfl⟩, rfl⟩ := hview
    refine ⟨given, hread, ?_⟩
    simp [slots, hidentity, hdatabase, hgraphNode, hmetrics, hsubgraphs, hblockchain, hservice,
      htap, Except.map]
    exact ⟨rfl, rfl, rfl, rfl, rfl, rfl, rfl, rfl⟩

theorem agrees :
    Agrees (fun tree => (decode tree).map toTree) (groupFields slots)
      (some Settings.defaults) := by
  refine Agrees.of_slots assembles (by decide) ?_
  simp only [slots, List.forall_mem_cons, List.not_mem_nil]
  exact ⟨.required IdentitySettings.agrees (by decide),
    .required DatabaseSettings.agrees (by decide),
    .required GraphNodeSettings.agrees (by decide),
    .withDefault MetricsSettings.agrees (by decide) rfl,
    .required SubgraphSettings.agrees (by decide),
    .required BlockchainSettings.agrees (by decide),
    .withDefault ServiceSettings.agrees (by decide) rfl,
    .withDefault TapSettings.agrees (by decide) rfl,
    by simp⟩

end Settings

theorem Settings.groupFields_slots : groupFields Settings.slots = Schema.indexer.fields := by decide

theorem indexer_violations_eq_nil_iff (record : Provenance) {tree : Tree}
    (hcanonical : tree.Canonical) :
    Schema.indexer.violations tree record = [] ↔ Conforms Schema.indexer.fields tree :=
  violations_eq_nil_iff Schema.indexer_plain Schema.indexer_separate (by decide) record hcanonical

theorem exists_decode_of_violations_eq_nil {tree : Tree} (hcanonical : tree.Canonical)
    {record : Provenance} (h : Schema.indexer.violations tree record = []) :
    ∃ settings, Settings.decode tree = .ok settings
      ∧ ∀ field ∈ Schema.indexer.fields, settings.toTree.at? field.keys
        = ((tree.at? field.keys).map field.kind.typed).or (Settings.defaults.at? field.keys) := by
  have hagrees := Settings.groupFields_slots ▸ Settings.agrees
  have hconforms := (indexer_violations_eq_nil_iff record hcanonical).mp h
  obtain ⟨out, hout, hfields⟩ := hagrees.complete tree hcanonical hconforms
  obtain ⟨settings, hdecode, rfl⟩ := map_eq_ok.mp hout
  exact ⟨settings, hdecode, hfields⟩

/-- **The schema and the settings agree.** Take a tree whose root is a table. If the schema finds
nothing wrong with it, then it decodes, and every field has the value that the tree has at its path,
or its default where the tree has none. If it decodes, and has no array in the place of a table and
no null in the place of a value, then the schema finds nothing wrong with it. A run whose sources
and tree are in order therefore never ends at the decoder. -/
theorem schema_agrees_with_settings (merged : CanonicalTree)
    (htable : merged.tree.isTable = true) :
    (∀ record, Schema.indexer.violations merged.tree record = [] →
      ∃ settings, Settings.decode merged.tree = .ok settings
        ∧ ∀ field ∈ Schema.indexer.fields, settings.toTree.at? field.keys
          = ((merged.tree.at? field.keys).map field.kind.typed).or
              (Settings.defaults.at? field.keys))
    ∧ (∀ record settings,
      (∀ field ∈ Schema.indexer.fields, ∀ above key below, above ≠ [] →
        field.keys = above ++ key :: below → ∀ items, merged.tree.at? above ≠ some (.array items)) →
      (∀ field ∈ Schema.indexer.fields, merged.tree.at? field.keys ≠ some .null) →
      Settings.decode merged.tree = .ok settings →
        Schema.indexer.violations merged.tree record = [])
    ∧ ∀ state : Resolution, state.merged = merged.tree →
      state.violations ++ Schema.indexer.violations merged.tree state.provenance = [] →
      ∃ settings, Settings.decode merged.tree = .ok settings
        ∧ (state.finish Schema.indexer).result
          = if settings.violations ≠ [] then .error ⟨settings.violations⟩
            else .ok ⟨settings, state.layers, state.provenance⟩ := by
  refine ⟨fun record hnothing => exists_decode_of_violations_eq_nil merged.canonical hnothing,
    fun record settings harrays hnulls hdecode => ?_, fun state hmerged hnothing => ?_⟩
  · have hclean : Clean Schema.indexer.fields merged.tree := by
      refine ⟨hnulls, fun field hfield above key below hkeys items hitems => ?_⟩
      cases above with
      | nil =>
        have hroot : merged.tree = .array items := by simpa using hitems
        simp [hroot, Tree.isTable] at htable
      | cons first above =>
        exact harrays field hfield (first :: above) key below (by simp) hkeys items hitems
    have hview : (Settings.decode merged.tree).map Settings.toTree = .ok settings.toTree := by
      rw [hdecode]
      rfl
    have hagrees := Settings.groupFields_slots ▸ Settings.agrees
    exact (indexer_violations_eq_nil_iff record merged.canonical).mpr
      (hagrees.sound merged.tree _ merged.canonical hclean hview)
  · obtain ⟨hsources, hschema⟩ := List.append_eq_nil_iff.mp hnothing
    obtain ⟨settings, hdecode, -⟩ := exists_decode_of_violations_eq_nil merged.canonical hschema
    refine ⟨settings, hdecode, ?_⟩
    rw [← hmerged] at hnothing hdecode
    unfold Resolution.finish
    simp only [hnothing, hdecode]
    by_cases hviolations : settings.violations = [] <;> simp [hviolations]

/-- Overlays that set what is required and nothing else. -/
def requiredLayers : List Overlay :=
  (Schema.indexer.fields.filter Field.required).map fun field =>
    ⟨.nest field.keys (if field.kind = .integer then .int 1 else .string "x")
      (by split <;> trivial), .inline⟩

theorem schema_agrees_with_settings_required :
    let tree := (overlaid requiredLayers).merged
    tree.isTable = true ∧ Schema.indexer.violations tree .empty = []
      ∧ ∃ settings, Settings.decode tree = .ok settings
        ∧ settings.toTree.at? ["blockchain", "chain_id"] = some (.int 1)
        ∧ settings.toTree.at? ["metrics", "port"] = some (.int 7300) := by
  intro tree
  have htable : tree.isTable = true := by decide +kernel
  have hnothing : Schema.indexer.violations tree .empty = [] := by decide +kernel
  have hchain : tree.at? ["blockchain", "chain_id"] = some (.int 1) := by decide +kernel
  have hport : tree.at? ["metrics", "port"] = none := by decide +kernel
  obtain ⟨settings, hdecode, hfields⟩ :=
    (schema_agrees_with_settings ⟨tree, (overlaid requiredLayers).canonical⟩ htable).1 .empty
      hnothing
  refine ⟨htable, hnothing, settings, hdecode, ?_, ?_⟩
  · have hfield := hfields (.mandatory ["blockchain", "chain_id"] .integer) (by decide)
    simpa [Field.mandatory, hchain, Kind.typed] using hfield
  · have hfield := hfields ((Field.optional ["metrics", "port"] .integer).atMost 65535) (by decide)
    simpa [Field.optional, Field.atMost, hport, Settings.defaults, Tree.at?_table_cons,
      Keyed.get?_cons] using hfield

end LayeredConfig
