import LayeredConfig.KeyPath
import LayeredConfig.Tree

/-!
# The schema

The fields that a configuration consists of, each with its key path, the kind of value it takes,
whether it must be set and, for integers, its greatest value. Tables are implied: `metrics` is one
because `metrics.port` is a field. No key of a field holds a dot, and no field lies below another.
-/

namespace LayeredConfig

inductive Kind where
  | string
  | bool
  | integer
  | float
deriving DecidableEq, Inhabited

namespace Kind

def name : Kind → String
  | string => "string"
  | bool => "bool"
  | integer => "integer"
  | float => "float"

/-- Integers are natural numbers of 64 bits. Where a float is due, any number will do. -/
def accepts : Kind → Tree → Bool
  | string, .string _ => true
  | bool, .bool _ => true
  | integer, .int n => decide (0 ≤ n ∧ n < UInt64.size)
  | float, .int _ => true
  | float, .float _ => true
  | _, _ => false

end Kind

structure Field where
  keys : List String
  kind : Kind
  required : Bool
  /-- The greatest value of an integer field. -/
  max : Option Nat
deriving DecidableEq, Inhabited

namespace Field

def path (field : Field) : String := KeyPath.dotted field.keys

def mandatory (keys : List String) (kind : Kind) : Field := ⟨keys, kind, true, none⟩

def optional (keys : List String) (kind : Kind) : Field := ⟨keys, kind, false, none⟩

def atMost (field : Field) (max : Nat) : Field := { field with max := some max }

end Field

structure Schema where
  fields : List Field
deriving DecidableEq, Inhabited

namespace Schema

def indexer : Schema where
  fields := [
    .mandatory ["indexer", "indexer_address"] .string,
    .mandatory ["indexer", "operator_mnemonic"] .string,
    .mandatory ["database", "postgres_url"] .string,
    .mandatory ["graph_node", "query_url"] .string,
    .mandatory ["graph_node", "status_url"] .string,
    (Field.optional ["metrics", "port"] .integer).atMost 65535,
    .mandatory ["subgraphs", "network", "query_url"] .string,
    .optional ["subgraphs", "network", "query_auth_token"] .string,
    .optional ["subgraphs", "network", "deployment_id"] .string,
    .optional ["subgraphs", "network", "syncing_interval_secs"] .integer,
    .optional ["subgraphs", "network", "recently_closed_allocation_buffer_secs"] .integer,
    .mandatory ["subgraphs", "escrow", "query_url"] .string,
    .optional ["subgraphs", "escrow", "query_auth_token"] .string,
    .mandatory ["subgraphs", "escrow", "deployment_id"] .string,
    .optional ["subgraphs", "escrow", "syncing_interval_secs"] .integer,
    .mandatory ["blockchain", "chain_id"] .integer,
    .mandatory ["blockchain", "receipts_verifier_address"] .string,
    .optional ["service", "host_and_port"] .string,
    .optional ["service", "url_prefix"] .string,
    .optional ["service", "serve_network_subgraph"] .bool,
    .optional ["service", "serve_escrow_subgraph"] .bool,
    .optional ["service", "serve_auth_token"] .string,
    .optional ["service", "free_query_auth_token"] .string,
    .optional ["tap", "max_amount_willing_to_lose_grt"] .float]

def field? (schema : Schema) (path : String) : Option Field :=
  schema.fields.find? fun field => decide (field.path = path)

/-- A dotted path names a table if some field lies below it. -/
def isTable (schema : Schema) (path : String) : Bool :=
  schema.fields.any fun field => KeyPath.isBelow field.path path

end Schema

end LayeredConfig
