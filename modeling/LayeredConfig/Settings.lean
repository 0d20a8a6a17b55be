/-!
# Settings

The typed configuration of the indexer service, with the defaults of what need not be set.
-/

namespace LayeredConfig

structure IdentitySettings where
  indexerAddress : String
  operatorMnemonic : String
deriving DecidableEq, Inhabited

structure DatabaseSettings where
  postgresUrl : String
deriving DecidableEq, Inhabited

/-- The endpoints of the node that serves queries. -/
structure GraphNodeSettings where
  queryUrl : String
  statusUrl : String
deriving DecidableEq, Inhabited

structure MetricsSettings where
  port : UInt16 := 7300
deriving DecidableEq, Inhabited

structure NetworkSubgraphSettings where
  queryUrl : String
  queryAuthToken : Option String := none
  deploymentId : Option String := none
  syncingIntervalSecs : UInt64 := 60
  recentlyClosedAllocationBufferSecs : UInt64 := 3600
deriving DecidableEq, Inhabited

structure EscrowSubgraphSettings where
  queryUrl : String
  queryAuthToken : Option String := none
  deploymentId : String
  syncingIntervalSecs : UInt64 := 60
deriving DecidableEq, Inhabited

structure SubgraphSettings where
  network : NetworkSubgraphSettings
  escrow : EscrowSubgraphSettings
deriving DecidableEq, Inhabited

structure BlockchainSettings where
  chainId : UInt64
  receiptsVerifierAddress : String
deriving DecidableEq, Inhabited

structure ServiceSettings where
  hostAndPort : String := "0.0.0.0:7600"
  urlPrefix : String := "/"
  serveNetworkSubgraph : Bool := false
  serveEscrowSubgraph : Bool := false
  serveAuthToken : Option String := none
  freeQueryAuthToken : Option String := none
deriving DecidableEq, Inhabited

/-- Limits on the aggregation of receipts. -/
structure TapSettings where
  maxAmountWillingToLoseGrt : Float := 20.0
deriving DecidableEq, Inhabited

structure Settings where
  indexer : IdentitySettings
  database : DatabaseSettings
  graphNode : GraphNodeSettings
  metrics : MetricsSettings := {}
  subgraphs : SubgraphSettings
  blockchain : BlockchainSettings
  service : ServiceSettings := {}
  tap : TapSettings := {}
deriving DecidableEq, Inhabited

end LayeredConfig
