import LayeredConfig.Proofs.UnknownKeys

/-!
# Conformance to a schema

A tree conforms to a list of fields if every field is met and every node is on the way to a field or
below one. The pass over a tree reports nothing if and only if the tree conforms: a field that is
not met is a problem of the tree, and the first node off every way is an unknown key.
-/

namespace LayeredConfig

/-- A value that a field takes: one of its kind, and within its bound. -/
def Field.Takes (field : Field) (value : Tree) : Prop :=
  field.kind.accepts value = true
    ∧ ∀ max n, field.max = some max → value = .int n → n ≤ (max : Int)

theorem Field.Takes.isTable {field : Field} {value : Tree} (h : field.Takes value) :
    value.isTable = false := by
  have haccepts := h.1
  cases hkind : field.kind <;> cases value <;>
    simp [hkind, Kind.accepts, Tree.isTable] at haccepts ⊢

/-- What a field asks of a tree. -/
structure Field.Met (field : Field) (tree : Tree) : Prop where
  reachable : ¬ tree.Blocks field.keys
  taken : ∀ value, tree.at? field.keys = some value → field.Takes value
  optional : tree.at? field.keys = none → field.required = false

/-- The key path is on the way to a field, or goes on below one. -/
def Declared (fields : List Field) (route : List String) : Prop :=
  ∃ field ∈ fields, route <+: field.keys ∨ field.keys <+: route

structure Conforms (fields : List Field) (tree : Tree) : Prop where
  met : ∀ field ∈ fields, field.Met tree
  declared : ∀ route node, tree.at? route = some node → Declared fields route

section Conforms

variable {schema : Schema} {tree : Tree}

theorem Field.met_of_no_problem {field : Field} (hfield : field ∈ schema.fields)
    (h : ∀ problem : Problem, ¬ problem.Of schema tree) : field.Met tree := by
  have hopen : ¬ tree.Blocks field.keys := by
    rintro ⟨above, key, below, value, hkeys, hvalue, hleaf⟩
    have htable : schema.HasTable above :=
      ⟨field, hfield, ⟨key :: below, hkeys.symm⟩, by simp [hkeys]⟩
    exact h (.notATable above value) ⟨htable, hvalue, hleaf⟩
  refine ⟨hopen, fun value hvalue => ?_, fun hnone => ?_⟩
  · have haccepts : field.kind.accepts value = true := by
      by_contra hrejects
      exact h (.mistyped field value) ⟨hfield, hvalue, by simpa using hrejects⟩
    refine ⟨haccepts, fun max n hmax heq => ?_⟩
    subst heq
    by_contra hlt
    exact h (.excessive field n max) ⟨hfield, hvalue, haccepts, hmax, by omega⟩
  · by_contra hrequired
    exact h (.absent field) ⟨hfield, by simpa using hrequired, hnone, hopen⟩

theorem forall_met_iff :
    (∀ field ∈ schema.fields, field.Met tree) ↔ ∀ problem : Problem, ¬ problem.Of schema tree := by
  refine ⟨fun hmet problem hof => ?_, fun h field hfield => Field.met_of_no_problem hfield h⟩
  cases problem with
  | absent field =>
    obtain ⟨hfield, hrequired, hnone, -⟩ := hof
    simp [(hmet field hfield).optional hnone] at hrequired
  | notATable keys value =>
    obtain ⟨⟨field, hfield, ⟨rest, hkeys⟩, hne⟩, hvalue, hleaf⟩ := hof
    cases rest with
    | nil => exact hne (by simpa using hkeys)
    | cons key rest =>
      exact (hmet field hfield).reachable ⟨keys, key, rest, value, hkeys.symm, hvalue, hleaf⟩
  | mistyped field value =>
    obtain ⟨hfield, hvalue, hrejects⟩ := hof
    simp [((hmet field hfield).taken value hvalue).1] at hrejects
  | excessive field number max =>
    obtain ⟨hfield, hvalue, -, hmax, hlt⟩ := hof
    have hle := ((hmet field hfield).taken _ hvalue).2 max number hmax rfl
    omega

variable (hplain : schema.Plain) (hseparate : schema.Separate)

include hplain

theorem declared_of_no_unknown (hfields : schema.fields ≠ [])
    (h : ∀ unknown : UnknownKey, ¬ unknown.Of schema tree) {route : List String} {node : Tree}
    (hnode : tree.at? route = some node) : Declared schema.fields route := by
  induction route using List.reverseRecOn generalizing node with
  | nil =>
    obtain ⟨first, hfirst⟩ := List.exists_mem_of_ne_nil _ hfields
    exact ⟨first, hfirst, Or.inl List.nil_prefix⟩
  | append_singleton above key ih =>
    obtain ⟨entries, htable⟩ := Tree.isTable_of_at?_append_cons hnode
    obtain ⟨field, hfield, hon | hbelow⟩ := ih htable
    · -- what holds the key is a field, below which nothing needs declaring, or a table
      by_cases hends : above = field.keys
      · exact ⟨field, hfield, Or.inr (hends ▸ List.prefix_append above [key])⟩
      · have hhas : schema.HasTable above := ⟨field, hfield, hon, hends⟩
        have hdeclared : ¬ schema.Undeclared above key :=
          fun hundeclared => h ⟨above, key⟩ ⟨hhas, ⟨node, hnode⟩, hundeclared⟩
        obtain ⟨other, hother, hinitial⟩ :=
          Schema.exists_initial_of_not_undeclared hplain hhas hdeclared
        exact ⟨other, hother, Or.inl hinitial⟩
    · exact ⟨field, hfield, Or.inr (hbelow.trans (List.prefix_append above [key]))⟩

include hseparate

theorem UnknownKey.Of.not_declared {unknown : UnknownKey} (h : unknown.Of schema tree) :
    ¬ Declared schema.fields unknown.keys := by
  obtain ⟨htable, -, hundeclared⟩ := h
  have hnone := hundeclared.not_initial hplain htable
  rintro ⟨field, hfield, hon | hbelow⟩
  · exact hnone field hfield hon
  · rcases List.prefix_concat_iff.mp hbelow with hends | habove
    · exact hnone field hfield (hends ▸ List.prefix_refl _)
    · exact hseparate.not_hasTable hfield habove htable

/-- The pass over a tree reports nothing if and only if the tree conforms to the schema. -/
theorem violations_eq_nil_iff (hfields : schema.fields ≠ []) (record : Provenance)
    (hcanonical : tree.Canonical) :
    schema.violations tree record = [] ↔ Conforms schema.fields tree := by
  obtain ⟨problems, unknown, hreport, hproblems, hunknown, -⟩ :=
    exists_report hplain hseparate hfields hcanonical
  rw [hreport, List.append_eq_nil_iff, List.map_eq_nil_iff, List.map_eq_nil_iff,
    List.eq_nil_iff_forall_not_mem, List.eq_nil_iff_forall_not_mem]
  simp only [hproblems, hunknown]
  rw [← forall_met_iff]
  constructor
  · rintro ⟨hmet, hnothing⟩
    exact ⟨hmet, fun route node => declared_of_no_unknown hplain hfields hnothing⟩
  · rintro ⟨hmet, hdeclared⟩
    refine ⟨hmet, fun found hof => hof.not_declared hplain hseparate ?_⟩
    obtain ⟨node, hnode⟩ := hof.2.1
    exact hdeclared _ node hnode

end Conforms

end LayeredConfig
