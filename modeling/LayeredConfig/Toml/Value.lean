import LayeredConfig.Decimal.Shortest
import LayeredConfig.Toml.DateTime
import LayeredConfig.Tree

/-!
# TOML values

The values of a TOML document, and the configuration tree that each becomes. Trees have no dates
and no numbers that are not finite: a date becomes a table of one reserved key, an infinity or a
NaN becomes null.
-/

namespace LayeredConfig.Toml

inductive Scalar where
  | string (text : String)
  | integer (number : Int)
  | float (number : Float)
  | boolean (flag : Bool)
  | dateTime (moment : DateTime)
deriving Inhabited

inductive Value where
  | string (text : String)
  | integer (number : Int)
  | float (number : Float)
  | boolean (flag : Bool)
  | dateTime (moment : DateTime)
  | array (items : List Value)
  | table (entries : List (String × Value))
deriving Inhabited

def Scalar.toValue : Scalar → Value
  | string text => .string text
  | integer number => .integer number
  | float number => .float number
  | boolean flag => .boolean flag
  | dateTime moment => .dateTime moment

namespace Value

def isTable : Value → Bool
  | table _ => true
  | _ => false

def at? : Value → List String → Option Value
  | value, [] => some value
  | table entries, key :: path => (Keyed.get? entries key).bind fun child => child.at? path
  | _, _ :: _ => none

/-- The key under which a date stands in a tree. -/
def dateTimeKey : String := "$__toml_private_datetime"

mutual

def toTree : Value → Tree
  | string text => .string text
  | integer number => .int number
  | float number => if Decimal.finite number then .float number else .null
  | boolean flag => .bool flag
  | dateTime moment => .table [(dateTimeKey, .string moment.text)]
  | array items => .array (toTrees items)
  | table entries => .table (toEntries entries)
termination_by structural value => value

def toTrees : List Value → List Tree
  | [] => []
  | item :: rest => toTree item :: toTrees rest
termination_by structural items => items

def toEntries : List (String × Value) → List (String × Tree)
  | [] => []
  | (key, value) :: rest => (key, toTree value) :: toEntries rest
termination_by structural entries => entries

end

end Value

end LayeredConfig.Toml
