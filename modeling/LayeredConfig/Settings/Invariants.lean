import LayeredConfig.Settings
import LayeredConfig.SocketAddress
import LayeredConfig.Text.Affix
import LayeredConfig.Violation

/-!
# Invariants of settings

What usable settings satisfy beyond having values of the right types: the service listens on a
socket address below an absolute path, the query endpoints are web addresses, and the subgraphs are
synced at intervals longer than nothing.
-/

namespace LayeredConfig

inductive Defect where
  | notASocketAddress
  | notAbsolute
  | notAWebAddress
  | zeroInterval
deriving DecidableEq

namespace Defect

def message : Defect → String
  | notASocketAddress => "not a socket address: invalid socket address syntax"
  | notAbsolute => "must start with `/`"
  | notAWebAddress => "must be an http:// or https:// URL"
  | zeroInterval => "must be greater than zero"

end Defect

def isWebAddress (text : String) : Bool :=
  Text.beginsWith text "http://" || Text.beginsWith text "https://"

namespace Settings

/-- The conditions in the order in which they are checked, each with the path of its setting. -/
def conditions (settings : Settings) : List (String × Bool × Defect) :=
  [("service.host_and_port", SocketAddress.valid settings.service.hostAndPort, .notASocketAddress),
    ("service.url_prefix", Text.beginsWith settings.service.urlPrefix "/", .notAbsolute),
    ("graph_node.query_url", isWebAddress settings.graphNode.queryUrl, .notAWebAddress),
    ("graph_node.status_url", isWebAddress settings.graphNode.statusUrl, .notAWebAddress),
    ("subgraphs.network.query_url", isWebAddress settings.subgraphs.network.queryUrl,
      .notAWebAddress),
    ("subgraphs.escrow.query_url", isWebAddress settings.subgraphs.escrow.queryUrl,
      .notAWebAddress),
    ("subgraphs.network.syncing_interval_secs",
      settings.subgraphs.network.syncingIntervalSecs ≠ 0, .zeroInterval),
    ("subgraphs.escrow.syncing_interval_secs",
      settings.subgraphs.escrow.syncingIntervalSecs ≠ 0, .zeroInterval)]

def violations (settings : Settings) : List Violation :=
  settings.conditions.filterMap fun (path, holds, defect) =>
    if holds then none else some (.invalidValue path defect.message)

end Settings

end LayeredConfig
