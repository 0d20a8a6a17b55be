import LayeredConfig.Decimal.Layout
import LayeredConfig.Settings
import LayeredConfig.Text.Quoted
import LayeredConfig.Tree

/-!
# Decoding settings

Trees to settings. A group of settings is read from a table by the names of its members, or from an
array by their positions. Decoding stops at the first problem: first those of the members given, in
the order in which the tree has them, then the first required member that is absent.
-/

namespace LayeredConfig

inductive DecodeError where
  | unknownMember (name : String) (declared : List String)
  | missingMember (name : String)
  /-- An array ends before the position of a member that has no default. -/
  | tooFew (position : Nat) (group : String) (members : Nat)
  | tooMany (length : Nat)
  | wrongType (found : Tree) (expected : String)
  | outOfRange (found : Int) (expected : String)

namespace DecodeError

/-- A value as a decoding problem names it. -/
def unexpected : Tree → String
  | .null => "null"
  | .bool flag => "boolean `" ++ toString flag ++ "`"
  | .int n => "integer `" ++ toString n ++ "`"
  | .float x => "floating point `" ++ Decimal.Layout.compact.text x ++ "`"
  | .string text => "string " ++ Text.quoted text
  | .array _ => "sequence"
  | .table _ => "map"

/-- The declared names: one alone, two joined by a word, more as a list. -/
def alternatives (names : List String) : String :=
  match names.map fun name => "`" ++ name ++ "`" with
  | [] => "there are no fields"
  | [one] => "expected " ++ one
  | [one, other] => "expected " ++ one ++ " or " ++ other
  | many => "expected one of " ++ String.intercalate ", " many

def message : DecodeError → String
  | unknownMember name declared => "unknown field `" ++ name ++ "`, " ++ alternatives declared
  | missingMember name => "missing field `" ++ name ++ "`"
  | tooFew position group members =>
    "invalid length " ++ toString position ++ ", expected struct " ++ group ++ " with "
      ++ toString members ++ (if members = 1 then " element" else " elements")
  | tooMany length => "invalid length " ++ toString length ++ ", expected fewer elements in array"
  | wrongType found expected => "invalid type: " ++ unexpected found ++ ", expected " ++ expected
  | outOfRange found expected =>
    "invalid value: integer `" ++ toString found ++ "`, expected " ++ expected

end DecodeError

abbrev Decoded (α : Type) := Except DecodeError α

namespace Decode

def string : Tree → Decoded String
  | .string text => .ok text
  | other => .error (.wrongType other "a string")

def bool : Tree → Decoded Bool
  | .bool flag => .ok flag
  | other => .error (.wrongType other "a boolean")

/-- A natural number below `2 ^ bits`. -/
def natural (bits : Nat) : Tree → Decoded Nat
  | .int n =>
    if 0 ≤ n ∧ n < Nat.pow 2 bits then .ok n.toNat
    else .error (.outOfRange n ("u" ++ toString bits))
  | other => .error (.wrongType other ("u" ++ toString bits))

def word16 (tree : Tree) : Decoded UInt16 := (natural 16 tree).map UInt16.ofNat

def word64 (tree : Tree) : Decoded UInt64 := (natural 64 tree).map UInt64.ofNat

/-- A float, or an integer rounded to one. -/
def float : Tree → Decoded Float
  | .float x => .ok x
  | .int n => .ok (Float.ofInt n)
  | other => .error (.wrongType other "f64")

def nullable {α : Type} (decode : Tree → Decoded α) : Tree → Decoded (Option α)
  | .null => .ok none
  | tree => (decode tree).map some

/-- A declared member of a group: its name and what, if anything, is wrong with a value for it. -/
structure Member where
  name : String
  problem? : Tree → Option DecodeError

def member {α : Type} (name : String) (decode : Tree → Decoded α) : Member where
  name := name
  problem? tree := match decode tree with
    | .ok _ => none
    | .error problem => some problem

structure GroupShape where
  name : String
  members : List Member

/-- The values of the members given, and the problem that the absence of another one would be. -/
structure Given where
  values : List (String × Tree)
  absence : String → DecodeError

/-- The first problem of the entries of a table, in the order of its keys. -/
def GroupShape.entryProblem? (group : GroupShape) : List (String × Tree) → Option DecodeError
  | [] => none
  | (name, tree) :: rest =>
    match group.members.find? fun m => decide (m.name = name) with
    | none => some (.unknownMember name (group.members.map Member.name))
    | some m => (m.problem? tree).orElse fun _ => group.entryProblem? rest

/-- Takes a table or an array apart, and makes sure that every member given can be decoded. -/
def GroupShape.read (group : GroupShape) : Tree → Decoded Given
  | .table entries =>
    match group.entryProblem? entries with
    | some problem => .error problem
    | none => .ok ⟨entries, .missingMember⟩
  | .array items =>
    let names := group.members.map Member.name
    let entries := names.zip items
    match group.entryProblem? entries with
    | some problem => .error problem
    | none =>
      if group.members.length < items.length then .error (.tooMany items.length)
      else .ok ⟨entries, fun name => .tooFew (names.idxOf name) group.name names.length⟩
  | other => .error (.wrongType other ("struct " ++ group.name))

def Given.required {α : Type} (given : Given) (name : String) (decode : Tree → Decoded α) :
    Decoded α :=
  match Keyed.get? given.values name with
  | some tree => decode tree
  | none => .error (given.absence name)

def Given.withDefault {α : Type} (given : Given) (name : String) (decode : Tree → Decoded α)
    (default : α) : Decoded α :=
  match Keyed.get? given.values name with
  | some tree => decode tree
  | none => .ok default

def Given.optional {α : Type} (given : Given) (name : String) (decode : Tree → Decoded α) :
    Decoded (Option α) :=
  given.withDefault name (nullable decode) none

end Decode

open Decode

namespace IdentitySettings

def group : GroupShape :=
  ⟨"IndexerIdentity", [member "indexer_address" string, member "operator_mnemonic" string]⟩

def decode (tree : Tree) : Decoded IdentitySettings := do
  let given ← group.read tree
  return {
    indexerAddress := ← given.required "indexer_address" string
    operatorMnemonic := ← given.required "operator_mnemonic" string }

end IdentitySettings

namespace DatabaseSettings

def group : GroupShape := ⟨"DatabaseConfig", [member "postgres_url" string]⟩

def decode (tree : Tree) : Decoded DatabaseSettings := do
  let given ← group.read tree
  return { postgresUrl := ← given.required "postgres_url" string }

end DatabaseSettings

namespace GraphNodeSettings

def group : GroupShape :=
  ⟨"GraphNodeConfig", [member "query_url" string, member "status_url" string]⟩

def decode (tree : Tree) : Decoded GraphNodeSettings := do
  let given ← group.read tree
  return {
    queryUrl := ← given.required "query_url" string
    statusUrl := ← given.required "status_url" string }

end GraphNodeSettings

namespace MetricsSettings

def group : GroupShape := ⟨"MetricsConfig", [member "port" word16]⟩

def decode (tree : Tree) : Decoded MetricsSettings := do
  let default : MetricsSettings := {}
  let given ← group.read tree
  return { port := ← given.withDefault "port" word16 default.port }

end MetricsSettings

namespace NetworkSubgraphSettings

def group : GroupShape where
  name := "NetworkSubgraphConfig"
  members := [
    member "query_url" string,
    member "query_auth_token" (nullable string),
    member "deployment_id" (nullable string),
    member "syncing_interval_secs" word64,
    member "recently_closed_allocation_buffer_secs" word64]

def decode (tree : Tree) : Decoded NetworkSubgraphSettings := do
  let given ← group.read tree
  return {
    queryUrl := ← given.required "query_url" string
    queryAuthToken := ← given.optional "query_auth_token" string
    deploymentId := ← given.optional "deployment_id" string
    syncingIntervalSecs := ← given.withDefault "syncing_interval_secs" word64 60
    recentlyClosedAllocationBufferSecs :=
      ← given.withDefault "recently_closed_allocation_buffer_secs" word64 3600 }

end NetworkSubgraphSettings

namespace EscrowSubgraphSettings

def group : GroupShape where
  name := "EscrowSubgraphConfig"
  members := [
    member "query_url" string,
    member "query_auth_token" (nullable string),
    member "deployment_id" string,
    member "syncing_interval_secs" word64]

def decode (tree : Tree) : Decoded EscrowSubgraphSettings := do
  let given ← group.read tree
  return {
    queryUrl := ← given.required "query_url" string
    queryAuthToken := ← given.optional "query_auth_token" string
    deploymentId := ← given.required "deployment_id" string
    syncingIntervalSecs := ← given.withDefault "syncing_interval_secs" word64 60 }

end EscrowSubgraphSettings

namespace SubgraphSettings

def group : GroupShape where
  name := "SubgraphsConfig"
  members := [
    member "network" NetworkSubgraphSettings.decode,
    member "escrow" EscrowSubgraphSettings.decode]

def decode (tree : Tree) : Decoded SubgraphSettings := do
  let given ← group.read tree
  return {
    network := ← given.required "network" NetworkSubgraphSettings.decode
    escrow := ← given.required "escrow" EscrowSubgraphSettings.decode }

end SubgraphSettings

namespace BlockchainSettings

def group : GroupShape :=
  ⟨"BlockchainConfig", [member "chain_id" word64, member "receipts_verifier_address" string]⟩

def decode (tree : Tree) : Decoded BlockchainSettings := do
  let given ← group.read tree
  return {
    chainId := ← given.required "chain_id" word64
    receiptsVerifierAddress := ← given.required "receipts_verifier_address" string }

end BlockchainSettings

namespace ServiceSettings

def group : GroupShape where
  name := "ServiceConfig"
  members := [
    member "host_and_port" string,
    member "url_prefix" string,
    member "serve_network_subgraph" bool,
    member "serve_escrow_subgraph" bool,
    member "serve_auth_token" (nullable string),
    member "free_query_auth_token" (nullable string)]

def decode (tree : Tree) : Decoded ServiceSettings := do
  let default : ServiceSettings := {}
  let given ← group.read tree
  return {
    hostAndPort := ← given.withDefault "host_and_port" string default.hostAndPort
    urlPrefix := ← given.withDefault "url_prefix" string default.urlPrefix
    serveNetworkSubgraph := ← given.withDefault "serve_network_subgraph" bool false
    serveEscrowSubgraph := ← given.withDefault "serve_escrow_subgraph" bool false
    serveAuthToken := ← given.optional "serve_auth_token" string
    freeQueryAuthToken := ← given.optional "free_query_auth_token" string }

end ServiceSettings

namespace TapSettings

def group : GroupShape := ⟨"TapConfig", [member "max_amount_willing_to_lose_grt" float]⟩

def decode (tree : Tree) : Decoded TapSettings := do
  let default : TapSettings := {}
  let given ← group.read tree
  let limit ← given.withDefault "max_amount_willing_to_lose_grt" float
    default.maxAmountWillingToLoseGrt
  return { maxAmountWillingToLoseGrt := limit }

end TapSettings

namespace Settings

def group : GroupShape where
  name := "IndexerConfig"
  members := [
    member "indexer" IdentitySettings.decode,
    member "database" DatabaseSettings.decode,
    member "graph_node" GraphNodeSettings.decode,
    member "metrics" MetricsSettings.decode,
    member "subgraphs" SubgraphSettings.decode,
    member "blockchain" BlockchainSettings.decode,
    member "service" ServiceSettings.decode,
    member "tap" TapSettings.decode]

/-- The settings that a tree holds, with defaults for what it does not set. -/
def decode (tree : Tree) : Decoded Settings := do
  let given ← group.read tree
  return {
    indexer := ← given.required "indexer" IdentitySettings.decode
    database := ← given.required "database" DatabaseSettings.decode
    graphNode := ← given.required "graph_node" GraphNodeSettings.decode
    metrics := ← given.withDefault "metrics" MetricsSettings.decode {}
    subgraphs := ← given.required "subgraphs" SubgraphSettings.decode
    blockchain := ← given.required "blockchain" BlockchainSettings.decode
    service := ← given.withDefault "service" ServiceSettings.decode {}
    tap := ← given.withDefault "tap" TapSettings.decode {} }

end Settings

end LayeredConfig
