import LayeredConfig.Proofs.Segments
import LayeredConfig.Schema
import Mathlib.Data.List.Pairwise

/-!
# Paths of a schema

A schema knows its fields and tables by dotted paths. As the keys of its fields are plain, each of
these paths stands for one key path, and a path is that of a table if and only if a field lies
further down. No field lies at or below another, so that no path is both.
-/

namespace LayeredConfig

namespace Schema

/-- The keys of every field are plain, and there are some. -/
def Plain (schema : Schema) : Prop :=
  ∀ field ∈ schema.fields, field.keys ≠ [] ∧ ∀ key ∈ field.keys, KeyPath.Plain key

/-- No field lies at or below another one. -/
def Separate (schema : Schema) : Prop :=
  schema.fields.Pairwise fun field other =>
    ¬ field.keys <+: other.keys ∧ ¬ other.keys <+: field.keys

/-- The key path leads to the root or to a table of the schema: some field lies below. -/
def HasTable (schema : Schema) (keys : List String) : Prop :=
  ∃ field ∈ schema.fields, keys <+: field.keys ∧ keys ≠ field.keys

instance (schema : Schema) (keys : List String) : Decidable (schema.HasTable keys) :=
  inferInstanceAs (Decidable (∃ field ∈ schema.fields, _))

theorem indexer_plain : indexer.Plain := by
  unfold Plain
  decide

theorem indexer_separate : indexer.Separate := by
  unfold Separate
  decide +kernel

theorem HasTable.of_initial {schema : Schema} {keys above : List String} (h : schema.HasTable keys)
    (hinitial : above <+: keys) : schema.HasTable above := by
  obtain ⟨field, hfield, hkeys, hne⟩ := h
  refine ⟨field, hfield, hinitial.trans hkeys, ?_⟩
  rintro rfl
  exact hne (hkeys.eq_of_length (le_antisymm hkeys.length_le hinitial.length_le))

theorem HasTable.plain {schema : Schema} (hplain : schema.Plain) {keys : List String}
    (h : schema.HasTable keys) : ∀ key ∈ keys, KeyPath.Plain key := by
  obtain ⟨field, hfield, hkeys, -⟩ := h
  exact fun key hkey => (hplain field hfield).2 key (hkeys.subset hkey)

section Separate

variable {schema : Schema} (hseparate : schema.Separate)

include hseparate

theorem Separate.eq_of_initial {field other : Field} (hfield : field ∈ schema.fields)
    (hother : other ∈ schema.fields) (hinitial : field.keys <+: other.keys) : field = other := by
  by_contra hne
  have hsymmetric : Std.Symm fun field other : Field =>
      ¬ field.keys <+: other.keys ∧ ¬ other.keys <+: field.keys := ⟨fun _ _ h => ⟨h.2, h.1⟩⟩
  exact (hseparate.forall hfield hother hne).1 hinitial

theorem Separate.nodup : schema.fields.Nodup := by
  refine hseparate.imp fun {field other} h heq => h.1 ?_
  rw [heq]

/-- Nothing below a field is a table of the schema, nor is the field. -/
theorem Separate.not_hasTable {field : Field} (hfield : field ∈ schema.fields) {keys : List String}
    (hinitial : field.keys <+: keys) : ¬ schema.HasTable keys := by
  rintro ⟨other, hother, hkeys, hne⟩
  obtain rfl := hseparate.eq_of_initial hfield hother (hinitial.trans hkeys)
  exact hne (hkeys.eq_of_length (le_antisymm hkeys.length_le hinitial.length_le))

end Separate

section Plain

variable {schema : Schema} (hplain : schema.Plain)

include hplain

theorem segments_path {field : Field} (h : field ∈ schema.fields) :
    KeyPath.segments field.path = field.keys :=
  KeyPath.segments_dotted (hplain field h).1 (hplain field h).2

theorem isSome_field?_iff (path : String) :
    (schema.field? path).isSome = true
      ↔ ∃ field ∈ schema.fields, field.keys = KeyPath.segments path := by
  rw [field?, List.find?_isSome]
  refine exists_congr fun field => and_congr_right fun hmem => ?_
  rw [decide_eq_true_iff, ← segments_path hplain hmem]
  exact KeyPath.segments_injective.eq_iff.symm

theorem isTable_iff_hasTable (path : String) :
    schema.isTable path = true ↔ schema.HasTable (KeyPath.segments path) := by
  rw [isTable, List.any_eq_true]
  refine exists_congr fun field => and_congr_right fun hmem => ?_
  rw [KeyPath.isBelow_iff, segments_path hplain hmem]
  constructor
  · rintro ⟨rest, hrest, hkeys⟩
    exact ⟨⟨rest, hkeys.symm⟩, by simpa [hkeys] using hrest⟩
  · rintro ⟨⟨rest, hkeys⟩, hne⟩
    refine ⟨rest, ?_, hkeys.symm⟩
    rintro rfl
    exact hne (by simpa using hkeys)

end Plain

end Schema

end LayeredConfig
