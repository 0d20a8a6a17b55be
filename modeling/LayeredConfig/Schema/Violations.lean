import LayeredConfig.Decimal.Layout
import LayeredConfig.Provenance
import LayeredConfig.Schema
import LayeredConfig.Text.Quoted
import LayeredConfig.Violation

/-!
# Violations of the schema

The pass over a merged tree: first every field in declaration order, then every key that the schema
does not declare, in the order of the keys. A value that stands where a table is due is reported
once, for the first field below it, and hides the other fields below it.
-/

namespace LayeredConfig

/-- A value as a mismatch report names it. Scalars are shown, arrays and tables are not. -/
def Tree.describe : Tree → String
  | .null => "null"
  | .bool flag => if flag then "bool true" else "bool false"
  | .int n => "integer " ++ toString n
  | .float x => "float " ++ Decimal.Layout.compact.text x
  | .string text => "string " ++ Text.quoted text
  | .array _ => "array"
  | .table _ => "table"

namespace Field

def valueViolations (field : Field) (record : Provenance) (value : Tree) : List Violation :=
  if field.kind.accepts value then
    match field.max, value with
    | some max, .int n =>
      if (max : Int) < n then
        [.invalidValue field.path (toString n ++ " exceeds maximum of " ++ toString max)]
      else []
    | _, _ => []
  else [.typeMismatch field.path field.kind.name value.describe (record.originOf field.path)]

def absenceViolations (field : Field) : List Violation :=
  if field.required then [.missingRequiredField field.path] else []

end Field

namespace Schema

/-- The violations of the fields, given the key paths at which a value in place of a table is
already reported. -/
def fieldViolations (tree : Tree) (record : Provenance) :
    List (List String) → List Field → List Violation
  | _, [] => []
  | reported, field :: rest =>
    match tree.lookup field.keys with
    | .found value =>
      field.valueViolations record value ++ fieldViolations tree record reported rest
    | .missing => field.absenceViolations ++ fieldViolations tree record reported rest
    | .blocked keys value =>
      if keys ∈ reported then fieldViolations tree record reported rest
      else
        let path := KeyPath.dotted keys
        .typeMismatch path "table" value.describe (record.originOf path)
          :: fieldViolations tree record (keys :: reported) rest

mutual

/-- The undeclared keys below the node at `path`. Only tables have keys. -/
def unknownBelow (schema : Schema) (record : Provenance) (path : String) : Tree → List Violation
  | .table entries => unknownAmong schema record path entries
  | _ => []
termination_by structural tree => tree

/-- The undeclared keys among the entries of the table at `path`. A key with a dot is never
declared, and is shown in quotes so that it cannot be taken for a path. -/
def unknownAmong (schema : Schema) (record : Provenance) (path : String) :
    List (String × Tree) → List Violation
  | [] => []
  | (key, value) :: rest =>
    let below := KeyPath.join path key
    let here : List Violation :=
      if key.toList.contains '.' then
        [.unknownField (KeyPath.join path (Text.quoted key)) (record.originOf below)]
      else if (schema.field? below).isSome then []
      else if schema.isTable below then unknownBelow schema record below value
      else [.unknownField below (record.originOf below)]
    here ++ unknownAmong schema record path rest
termination_by structural entries => entries

end

def violations (schema : Schema) (tree : Tree) (record : Provenance) : List Violation :=
  fieldViolations tree record [] schema.fields ++ unknownBelow schema record "" tree

end Schema

end LayeredConfig
