import LayeredConfig.Environment.Override
import LayeredConfig.Proofs.Groups

/-!
# The variables of fields

The name by which a variable stands for a field, and the text by which it gives the field a value.
Both are read back as what they were written for: the name leads to the field in every family, with
any of the separators, and the text is coerced to the value.
-/

namespace LayeredConfig

namespace Field

/-- The path of the field as variables spell it: in upper case, with two underscores for a dot. -/
def spelling (field : Field) : List Char :=
  field.path.toList.flatMap fun c => if c = '.' then ['_', '_'] else [c.toUpper]

/-- The name of the variable for the field. -/
def variableName (family separator : String) (field : Field) : String :=
  family ++ separator ++ String.ofList field.spelling

end Field

/-- What can stand between the beginning of a family and the spelling of a field. -/
def Separates (family separator : String) : Prop :=
  separator = "__" ∨ separator = "_" ∨ (separator = "" ∧ family.toList.getLast? = some '_')

/-- The text by which a variable gives a value. Numbers with a point can be written in many ways, so
the text for them is given. A null is not given at all. -/
def Tree.variableText? (decimal : String) : Tree → Option String
  | .string text => some text
  | .bool flag => some (if flag then "true" else "false")
  | .int n => some (toString n)
  | .float _ => some decimal
  | .null | .array _ | .table _ => none

/-! ### Letters and digits -/

namespace Text

/-- What a character is in lower case is no letter in upper case. It is the character itself, or the
letter that the character is in upper case. -/
theorem toLower_eq_iff (c letter : Char) :
    c.toLower = letter ↔ letter.isUpper = false ∧ (c = letter ∨ c = letter.toUpper) := by
  delta Char.toLower Char.toUpper Char.isUpper
  simp only [Char.ext_iff, ← UInt32.toNat_inj, decide_eq_false_iff_not, ge_iff_le,
    UInt32.le_iff_toNat_le, apply_dite Char.val, apply_dite UInt32.toNat, UInt32.toNat_add,
    UInt32.toNat_sub]
  -- Each of the two characters is within its range of letters or not.
  split <;> split <;> simp_all <;> omega

theorem isDigit_eq (c : Char) : isDigit c = c.isDigit := by
  simp [isDigit, Char.isDigit, Char.le_def]

theorem isDigit_of_mem_toDigits {n : Nat} {c : Char} (h : c ∈ Nat.toDigits 10 n) :
    isDigit c = true := by
  rw [isDigit_eq]
  exact Nat.isDigit_of_mem_toDigits (by decide) (by decide) h

end Text

namespace Override

/-! ### Names -/

theorem after?_append (start rest : List Char) : Text.after? start (start ++ rest) = some rest := by
  induction start with
  | nil => rfl
  | cons c start ih => simpa [Text.after?] using ih

theorem suffix?_append {family separator : String} (h : Separates family separator)
    {first : Char} (hfirst : first ≠ '_') (rest : List Char) :
    suffix? family.toList (family.toList ++ (separator.toList ++ first :: rest))
      = some (first :: rest) := by
  rcases h with rfl | rfl | ⟨rfl, hlast⟩
  · simp [suffix?, after?_append]
  · simp [suffix?, after?_append, hfirst]
  · simp [suffix?, after?_append, hfirst, hlast]

/-- No field has underscores where the spelling of its path would be taken apart wrongly. -/
theorem indexer_spelling : ∀ field ∈ Schema.indexer.fields,
    (field.spelling ≠ [] ∧ field.spelling.head? ≠ some '_')
      ∧ (splitAtSeparators field.spelling).map Text.lowerCase = field.keys.map String.toList
      ∧ Schema.indexer.field? field.path = some field := by
  decide +kernel

section Names

variable {family separator : String} (h : Separates family separator) {field : Field}
  (hfield : field ∈ Schema.indexer.fields)

include h hfield

theorem suffix?_variableName :
    suffix? family.toList (field.variableName family separator).toList = some field.spelling := by
  obtain ⟨⟨hne, hhead⟩, -⟩ := indexer_spelling field hfield
  obtain ⟨first, rest, hspelling⟩ := List.exists_cons_of_ne_nil hne
  have hfirst : first ≠ '_' := by simpa [hspelling] using hhead
  rw [Field.variableName, hspelling, String.toList_append, String.toList_append,
    String.toList_ofList, List.append_assoc, suffix?_append h hfirst]

theorem segments?_variableName :
    segments? family (field.variableName family separator) = some (.ok field.keys) := by
  obtain ⟨⟨hne, -⟩, hpieces, -⟩ := indexer_spelling field hfield
  have hkeys : [] ∉ field.keys.map String.toList := by
    rintro hmem
    obtain ⟨key, hkey, hempty⟩ := List.mem_map.mp hmem
    exact ((Schema.indexer_plain field hfield).2 key hkey).1 (by simpa using hempty)
  have hback : (field.keys.map String.toList).map String.ofList = field.keys := by simp
  rw [segments?, suffix?_variableName h hfield, Option.map_some, if_neg hne]
  simp only [hpieces, if_neg hkeys, hback]

/-- The name of a field's variable leads to the field. -/
theorem target?_variableName :
    target? Schema.indexer family (field.variableName family separator) = some (.ok field) := by
  obtain ⟨-, -, hfound⟩ := indexer_spelling field hfield
  have hpath : String.intercalate "." field.keys = field.path := by
    rw [← Schema.segments_path Schema.indexer_plain hfield, KeyPath.intercalate_segments]
  rw [target?, segments?_variableName h hfield, Option.map_some]
  change some (Override.field Schema.indexer field.keys) = some (.ok field)
  simp only [Override.field, hpath, hfound]

end Names

/-! ### Values -/

theorem coerce_toString {n : Nat} (h : n < UInt64.size) :
    coerce (toString (n : Int)) .integer = .int n := by
  have hdigits : (toString (n : Int)).toList = Nat.toDigits 10 n := by
    change (toString n).toList = _
    exact String.toList_ofList
  have hall : (Nat.toDigits 10 n).all Text.isDigit = true :=
    List.all_eq_true.mpr fun c => Text.isDigit_of_mem_toDigits
  simp only [coerce, reading?, hdigits,
    Text.natOfDigits_toDigits (show 1 < 10 by decide) (by decide)]
  rw [if_pos ⟨Nat.toDigits_ne_nil, hall⟩, if_pos h, Option.getD_some]

/-- A value of a kind is read back from its text, if the text for a number with a point is one. -/
theorem coerce_variableText {kind : Kind} {value : Tree} {decimal raw : String}
    (haccepts : kind.accepts value = true) (htyped : kind.typed value = value)
    (hdecimal : ∀ x, value = .float x → (Decimal.float? decimal).filter Decimal.finite = some x)
    (htext : value.variableText? decimal = some raw) : coerce raw kind = value := by
  cases kind with
  | string =>
    cases value <;> simp [Kind.accepts] at haccepts
    obtain rfl := Option.some.inj htext
    rfl
  | bool =>
    cases value <;> simp [Kind.accepts] at haccepts
    rename_i flag
    obtain rfl := Option.some.inj htext
    cases flag <;> decide +kernel
  | integer =>
    cases value <;> simp only [Kind.accepts, decide_eq_true_eq, Bool.false_eq_true] at haccepts
    rename_i n
    obtain rfl := Option.some.inj htext
    obtain ⟨n, rfl⟩ := Int.eq_ofNat_of_zero_le haccepts.1
    exact coerce_toString (Int.ofNat_lt.mp haccepts.2)
  | float =>
    cases value <;> simp [Kind.accepts, Kind.typed] at haccepts htyped
    rename_i x
    obtain rfl := Option.some.inj htext
    rw [coerce, reading?, hdecimal x rfl]
    rfl

end Override

end LayeredConfig
