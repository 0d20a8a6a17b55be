import LayeredConfig.Decimal.Reading
import LayeredConfig.Schema
import LayeredConfig.Text.Affix

/-!
# Overrides by variables

How a variable of a family names a field and gives it a value. The name is the family's beginning,
an optional separator, and the keys in any case, joined by two underscores. The value is read as
the kind of the field says; one that cannot be read so stays a text.
-/

namespace LayeredConfig

/-- Why a variable of the family is not applied. -/
inductive Skip where
  | emptyName
  | emptySegment
  | table (path : String)
  | unknown (path : String)
deriving DecidableEq

namespace Override

/-- The pieces between double underscores, which are found from the left. -/
def splitAtSeparators : List Char → List (List Char)
  | [] => [[]]
  | '_' :: '_' :: rest => [] :: splitAtSeparators rest
  | c :: rest =>
    match splitAtSeparators rest with
    | piece :: more => (c :: piece) :: more
    | [] => [[c]]

/-- What the name holds after the family's beginning and the separator, which may be two
underscores or one, or missing if the beginning ends with one. Other names are not of the
family. -/
def suffix? (family name : List Char) : Option (List Char) :=
  match Text.after? family name with
  | none => none
  | some ('_' :: '_' :: rest) => some rest
  | some ('_' :: rest) => some rest
  | some [] => some []
  | some rest => if family.getLast? = some '_' then some rest else none

def segments? (family name : String) : Option (Except Skip (List String)) :=
  (suffix? family.toList name.toList).map fun suffix =>
    if suffix = [] then .error .emptyName
    else
      let pieces := (splitAtSeparators suffix).map Text.lowerCase
      if [] ∈ pieces then .error .emptySegment else .ok (pieces.map String.ofList)

def field (schema : Schema) (segments : List String) : Except Skip Field :=
  let path := String.intercalate "." segments
  match schema.field? path with
  | some field => .ok field
  | none => if schema.isTable path then .error (.table path) else .error (.unknown path)

/-- The field that a name of the family stands for, or why it stands for none. -/
def target? (schema : Schema) (family name : String) : Option (Except Skip Field) :=
  (segments? family name).map fun segments => segments.bind (field schema)

/-- The value that a text has as the given kind, if it has one. Integers are plain digits. -/
def reading? (raw : String) : Kind → Option Tree
  | .string => none
  | .bool =>
    let lower := Text.lowerCase raw.toList
    if lower = "true".toList then some (.bool true)
    else if lower = "false".toList then some (.bool false)
    else none
  | .integer =>
    let digits := raw.toList
    if digits ≠ [] ∧ digits.all Text.isDigit then
      let n := Text.natOfDigits 10 digits
      if n < UInt64.size then some (.int n) else none
    else none
  | .float => ((Decimal.float? raw).filter Decimal.finite).map Tree.float

def coerce (raw : String) (kind : Kind) : Tree :=
  (reading? raw kind).getD (.string raw)

theorem isTable_coerce (raw : String) (kind : Kind) :
    (coerce raw kind).isTable = false := by
  unfold coerce
  cases hreading : reading? raw kind with
  | none => rfl
  | some value =>
    cases kind with
    | string => simp [reading?] at hreading
    | bool =>
      simp only [reading?] at hreading
      split at hreading
      · obtain rfl := Option.some.inj hreading
        rfl
      · split at hreading
        · obtain rfl := Option.some.inj hreading
          rfl
        · simp at hreading
    | integer =>
      simp only [reading?] at hreading
      split at hreading
      · split at hreading
        · obtain rfl := Option.some.inj hreading
          rfl
        · simp at hreading
      · simp at hreading
    | float =>
      obtain ⟨number, -, rfl⟩ := Option.map_eq_some_iff.mp hreading
      rfl

end Override

end LayeredConfig
