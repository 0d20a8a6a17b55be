import LayeredConfig.Decimal.Shortest
import LayeredConfig.Settings
import LayeredConfig.Tree

/-!
# Encoding settings

Settings to trees. Every member is written, an absent one as null, and the keys of each table
ascend.
-/

namespace LayeredConfig

namespace Encode

def word16 (n : UInt16) : Tree := .int n.toNat

def word64 (n : UInt64) : Tree := .int n.toNat

def nullable : Option String → Tree
  | some text => .string text
  | none => .null

end Encode

open Encode

namespace Settings

def identityTree (settings : IdentitySettings) : Tree :=
  .table [
    ("indexer_address", .string settings.indexerAddress),
    ("operator_mnemonic", .string settings.operatorMnemonic)]

def databaseTree (settings : DatabaseSettings) : Tree :=
  .table [("postgres_url", .string settings.postgresUrl)]

def graphNodeTree (settings : GraphNodeSettings) : Tree :=
  .table [("query_url", .string settings.queryUrl), ("status_url", .string settings.statusUrl)]

def metricsTree (settings : MetricsSettings) : Tree :=
  .table [("port", word16 settings.port)]

def networkTree (settings : NetworkSubgraphSettings) : Tree :=
  .table [
    ("deployment_id", nullable settings.deploymentId),
    ("query_auth_token", nullable settings.queryAuthToken),
    ("query_url", .string settings.queryUrl),
    ("recently_closed_allocation_buffer_secs",
      word64 settings.recentlyClosedAllocationBufferSecs),
    ("syncing_interval_secs", word64 settings.syncingIntervalSecs)]

def escrowTree (settings : EscrowSubgraphSettings) : Tree :=
  .table [
    ("deployment_id", .string settings.deploymentId),
    ("query_auth_token", nullable settings.queryAuthToken),
    ("query_url", .string settings.queryUrl),
    ("syncing_interval_secs", word64 settings.syncingIntervalSecs)]

def subgraphsTree (settings : SubgraphSettings) : Tree :=
  .table [("escrow", escrowTree settings.escrow), ("network", networkTree settings.network)]

def blockchainTree (settings : BlockchainSettings) : Tree :=
  .table [
    ("chain_id", word64 settings.chainId),
    ("receipts_verifier_address", .string settings.receiptsVerifierAddress)]

def serviceTree (settings : ServiceSettings) : Tree :=
  .table [
    ("free_query_auth_token", nullable settings.freeQueryAuthToken),
    ("host_and_port", .string settings.hostAndPort),
    ("serve_auth_token", nullable settings.serveAuthToken),
    ("serve_escrow_subgraph", .bool settings.serveEscrowSubgraph),
    ("serve_network_subgraph", .bool settings.serveNetworkSubgraph),
    ("url_prefix", .string settings.urlPrefix)]

def tapTree (settings : TapSettings) : Tree :=
  .table [("max_amount_willing_to_lose_grt", .float settings.maxAmountWillingToLoseGrt)]

/-- The tree that decodes to these settings. -/
def toTree (settings : Settings) : Tree :=
  .table [
    ("blockchain", blockchainTree settings.blockchain),
    ("database", databaseTree settings.database),
    ("graph_node", graphNodeTree settings.graphNode),
    ("indexer", identityTree settings.indexer),
    ("metrics", metricsTree settings.metrics),
    ("service", serviceTree settings.service),
    ("subgraphs", subgraphsTree settings.subgraphs),
    ("tap", tapTree settings.tap)]

/-- The settings as they are written out as data, which has a null in the place of a number that is
not finite. -/
def serialize (settings : Settings) : Tree :=
  if Decimal.finite settings.tap.maxAmountWillingToLoseGrt = true then settings.toTree
  else settings.toTree.overlay (.nest ["tap", "max_amount_willing_to_lose_grt"] .null)

end Settings

end LayeredConfig
