import LayeredConfig.Proofs.Problems

/-!
# The unknown keys

The keys that stand in a table of the schema, or at the root, and are not declared there. The pass
walks down the tables of the schema and reports exactly these keys, in the order of their key paths.
Together with the problems of the fields they are all that the pass reports.
-/

namespace LayeredConfig

/-- The name of a key does not take it to a field or a table of the schema. A key with a dot is
never taken for a path. -/
def Schema.Undeclared (schema : Schema) (table : List String) (key : String) : Prop :=
  '.' ∈ key.toList ∨ (schema.field? (KeyPath.dotted (table ++ [key])) = none
    ∧ schema.isTable (KeyPath.dotted (table ++ [key])) = false)

instance (schema : Schema) (table : List String) (key : String) :
    Decidable (schema.Undeclared table key) := inferInstanceAs (Decidable (_ ∨ _ ∧ _))

/-- A key of a table of the schema, or of the root. -/
structure UnknownKey where
  table : List String
  key : String

namespace UnknownKey

def keys (unknown : UnknownKey) : List String := unknown.table ++ [unknown.key]

/-- The path that is reported. A key with a dot is quoted in it. -/
def path (unknown : UnknownKey) : String :=
  if '.' ∈ unknown.key.toList then
    KeyPath.join (KeyPath.dotted unknown.table) (Text.quoted unknown.key)
  else KeyPath.dotted unknown.keys

def violation (record : Provenance) (unknown : UnknownKey) : Violation :=
  .unknownField unknown.path (record.originOf (KeyPath.dotted unknown.keys))

/-- The key is unknown, in the node `tree` at the path `above`. -/
def Below (schema : Schema) (above : List String) (tree : Tree) (unknown : UnknownKey) : Prop :=
  ∃ inner, unknown.table = above ++ inner
    ∧ (∃ node, tree.at? (inner ++ [unknown.key]) = some node)
    ∧ schema.HasTable unknown.table ∧ schema.Undeclared unknown.table unknown.key

/-- The tree has the key, in a table of the schema or at the root, and the schema does not declare
it. All steps to the key are tables of the tree, since it has a node there. -/
def Of (schema : Schema) (tree : Tree) (unknown : UnknownKey) : Prop :=
  schema.HasTable unknown.table ∧ (∃ node, tree.at? unknown.keys = some node)
    ∧ schema.Undeclared unknown.table unknown.key

theorem below_root_iff {schema : Schema} {tree : Tree} {unknown : UnknownKey} :
    unknown.Below schema [] tree ↔ unknown.Of schema tree := by
  constructor
  · rintro ⟨inner, hinner, hnode, htable, hundeclared⟩
    rw [List.nil_append] at hinner
    exact ⟨htable, by rwa [keys, hinner], hundeclared⟩
  · rintro ⟨htable, hnode, hundeclared⟩
    exact ⟨unknown.table, rfl, hnode, htable, hundeclared⟩

end UnknownKey

section Undeclared

variable {schema : Schema} (hplain : schema.Plain) {above : List String} {key : String}

include hplain

theorem Schema.Undeclared.not_initial (htable : schema.HasTable above)
    (h : schema.Undeclared above key) :
    ∀ field ∈ schema.fields, ¬ above ++ [key] <+: field.keys := by
  intro field hfield hinitial
  -- the key is one of a field, and these have no dots
  have hdot : '.' ∉ key.toList :=
    ((hplain field hfield).2 key (hinitial.subset (by simp))).2
  obtain ⟨hnotField, hnotTable⟩ := h.resolve_left hdot
  have hsegments := KeyPath.segments_dotted_concat (htable.plain hplain) hdot
  by_cases hkeys : above ++ [key] = field.keys
  · have hsome := (isSome_field?_iff hplain (KeyPath.dotted (above ++ [key]))).mpr
      ⟨field, hfield, by rw [hsegments, hkeys]⟩
    simp [hnotField] at hsome
  · have htrue := (isTable_iff_hasTable hplain (KeyPath.dotted (above ++ [key]))).mpr
      ⟨field, hfield, by rwa [hsegments], by rwa [hsegments]⟩
    simp [hnotTable] at htrue

theorem Schema.exists_initial_of_not_undeclared (htable : schema.HasTable above)
    (h : ¬ schema.Undeclared above key) :
    ∃ field ∈ schema.fields, above ++ [key] <+: field.keys := by
  obtain ⟨hdot, hdeclared⟩ := not_or.mp h
  have hsegments := KeyPath.segments_dotted_concat (htable.plain hplain) hdot
  by_cases hisTable : schema.isTable (KeyPath.dotted (above ++ [key])) = true
  · rw [isTable_iff_hasTable hplain, hsegments] at hisTable
    exact hisTable.imp fun field hfield => ⟨hfield.1, hfield.2.1⟩
  · have hsome : (schema.field? (KeyPath.dotted (above ++ [key]))).isSome = true := by
      rw [Option.isSome_iff_ne_none]
      exact fun hnone => hdeclared ⟨hnone, by simpa using hisTable⟩
    obtain ⟨field, hfield, hkeys⟩ := (isSome_field?_iff hplain _).mp hsome
    exact ⟨field, hfield, by rw [hkeys, hsegments]⟩

theorem Schema.not_hasTable_of_undeclared (htable : schema.HasTable above)
    (h : schema.Undeclared above key) (inner : List String) :
    ¬ schema.HasTable (above ++ key :: inner) := by
  rintro ⟨field, hfield, hinitial, -⟩
  refine h.not_initial hplain htable field hfield (List.IsPrefix.trans ?_ hinitial)
  exact ⟨inner, by simp⟩

end Undeclared

/-- The unknown keys below a node at `above`, in the order in which the pass reports them. -/
structure UnknownKeys (schema : Schema) (above : List String) (tree : Tree)
    (unknown : List UnknownKey) : Prop where
  mem_iff : ∀ found, found ∈ unknown ↔ found.Below schema above tree
  ascending : unknown.Pairwise fun found later => found.keys < later.keys
  reported : ∀ record, schema.unknownBelow record (KeyPath.dotted above) tree
    = unknown.map (UnknownKey.violation record)

namespace UnknownKeys

open Schema

variable {schema : Schema} {above : List String}

theorem of_leaf {tree : Tree} (hleaf : tree.isTable = false) :
    UnknownKeys schema above tree [] := by
  refine ⟨fun found => ?_, List.Pairwise.nil, fun record => ?_⟩
  · refine iff_of_false (by simp) ?_
    rintro ⟨inner, -, ⟨node, hnode⟩, -⟩
    cases inner <;> simp [Tree.at?_cons_of_leaf hleaf] at hnode
  · cases tree <;> first | rfl | simp [Tree.isTable] at hleaf

theorem of_empty : UnknownKeys schema above (.table []) [] := by
  refine ⟨fun found => ?_, List.Pairwise.nil, fun record => rfl⟩
  refine iff_of_false (by simp) ?_
  rintro ⟨inner, -, ⟨node, hnode⟩, -⟩
  cases inner <;> simp [Tree.at?_table_cons] at hnode

theorem unknownAmong_cons (record : Provenance) (path : String) (entry : String × Tree)
    (rest : List (String × Tree)) :
    schema.unknownAmong record path (entry :: rest)
      = schema.unknownAmong record path [entry] ++ schema.unknownAmong record path rest := by
  obtain ⟨key, child⟩ := entry
  simp [unknownAmong]

theorem exists_entry_of_below {entries : List (String × Tree)} {found : UnknownKey}
    (h : found.Below schema above (.table entries)) :
    ∃ entry ∈ entries, ∃ rest, found.keys = above ++ entry.1 :: rest := by
  obtain ⟨inner, hinner, ⟨node, hnode⟩, -⟩ := h
  obtain ⟨key, path, hpath⟩ := List.exists_cons_of_ne_nil (l := inner ++ [found.key]) (by simp)
  rw [hpath, Tree.at?_table_cons] at hnode
  obtain ⟨child, hchild, -⟩ := Option.bind_eq_some_iff.mp hnode
  refine ⟨_, Keyed.mem_of_get? hchild, path, ?_⟩
  rw [UnknownKey.keys, hinner, List.append_assoc, hpath]

theorem at?_table_cons_iff {entry : String × Tree} {rest : List (String × Tree)}
    (hascending : Keyed.Ascending (entry :: rest)) {path : List String} (hpath : path ≠ [])
    {node : Tree} :
    (Tree.table (entry :: rest)).at? path = some node
      ↔ (Tree.table [entry]).at? path = some node ∨ (Tree.table rest).at? path = some node := by
  obtain ⟨key, path, rfl⟩ := List.exists_cons_of_ne_nil hpath
  obtain ⟨first, child⟩ := entry
  simp only [Tree.at?_table_cons, Keyed.get?_cons, Keyed.get?_nil]
  by_cases hkey : first = key
  · subst hkey
    have habsent : Keyed.get? rest first = none :=
      Keyed.get?_eq_none_iff.mpr fun later hlater =>
        (ne_of_lt ((List.pairwise_cons.mp hascending).1 later hlater)).symm
    simp [habsent]
  · simp [hkey]

/-- The unknown keys below a table are those below its entries, one entry after the other. -/
theorem cons {entry : String × Tree} {rest : List (String × Tree)}
    (hascending : Keyed.Ascending (entry :: rest)) {first others : List UnknownKey}
    (hfirst : UnknownKeys schema above (.table [entry]) first)
    (hothers : UnknownKeys schema above (.table rest) others) :
    UnknownKeys schema above (.table (entry :: rest)) (first ++ others) := by
  constructor
  · intro found
    rw [List.mem_append, hfirst.mem_iff, hothers.mem_iff, UnknownKey.Below, UnknownKey.Below,
      UnknownKey.Below, ← exists_or]
    refine exists_congr fun inner => ?_
    rw [← and_or_left, ← or_and_right, ← exists_or]
    refine and_congr_right fun _ => and_congr_left fun _ => exists_congr fun node => ?_
    exact (at?_table_cons_iff hascending (by simp)).symm
  · -- the key paths first differ at the keys of the entries, which ascend
    refine List.pairwise_append.mpr ⟨hfirst.ascending, hothers.ascending, ?_⟩
    intro found hfound later hlater
    obtain ⟨_, hentry, path, hpath⟩ := exists_entry_of_below ((hfirst.mem_iff found).mp hfound)
    obtain ⟨other, hother, laterPath, hlaterPath⟩ :=
      exists_entry_of_below ((hothers.mem_iff later).mp hlater)
    obtain rfl := List.mem_singleton.mp hentry
    have hlt := (List.pairwise_cons.mp hascending).1 other hother
    rw [hpath, hlaterPath]
    exact List.append_left_lt (List.cons_lt_cons_iff.mpr (Or.inl hlt))
  · intro record
    change schema.unknownAmong record _ (entry :: rest) = _
    rw [unknownAmong_cons, List.map_append, ← hfirst.reported, ← hothers.reported]
    rfl

/-! ### One entry -/

section Entry

variable {key : String} {child : Tree}

theorem below_entry_iff {found : UnknownKey} :
    found.Below schema above (.table [(key, child)])
      ↔ (found = ⟨above, key⟩ ∧ schema.HasTable above ∧ schema.Undeclared above key)
        ∨ found.Below schema (above ++ [key]) child := by
  obtain ⟨table, name⟩ := found
  constructor
  · rintro ⟨inner, hinner, ⟨node, hnode⟩, htable, hundeclared⟩
    simp only at hinner hnode htable hundeclared
    subst hinner
    cases inner with
    | nil =>
      left
      rw [List.append_nil] at htable hundeclared ⊢
      rw [List.nil_append, Tree.at?_table_cons, Keyed.get?_cons] at hnode
      obtain rfl : key = name := by
        by_contra hne
        simp [hne] at hnode
      exact ⟨rfl, htable, hundeclared⟩
    | cons next inner =>
      right
      rw [List.cons_append, Tree.at?_table_cons, Keyed.get?_cons] at hnode
      obtain rfl : key = next := by
        by_contra hne
        simp [hne] at hnode
      exact ⟨inner, by simp, ⟨node, by simpa using hnode⟩, htable, hundeclared⟩
  · rintro (⟨heq, htable, hundeclared⟩ | ⟨inner, hinner, ⟨node, hnode⟩, htable, hundeclared⟩)
    · obtain ⟨rfl, rfl⟩ := UnknownKey.mk.inj heq
      refine ⟨[], by simp, ⟨child, ?_⟩, htable, hundeclared⟩
      simp [Tree.at?_table_cons, Keyed.get?_cons]
    · refine ⟨key :: inner, by simpa using hinner, ⟨node, ?_⟩, htable, hundeclared⟩
      simpa [Tree.at?_table_cons, Keyed.get?_cons] using hnode

theorem dotted_concat (key : String) :
    KeyPath.join (KeyPath.dotted above) key = KeyPath.dotted (above ++ [key]) := by
  simp [KeyPath.dotted]

variable (hplain : schema.Plain) (htable : schema.HasTable above)

include hplain htable

/-- An undeclared key is reported, and nothing below it. -/
theorem of_undeclared (h : schema.Undeclared above key) :
    UnknownKeys schema above (.table [(key, child)]) [⟨above, key⟩] := by
  refine ⟨fun found => ?_, List.pairwise_singleton _ _, fun record => ?_⟩
  · have hnothing : ¬ found.Below schema (above ++ [key]) child := by
      rintro ⟨inner, hinner, -, hinnerTable, -⟩
      rw [hinner, List.append_assoc, List.singleton_append] at hinnerTable
      exact not_hasTable_of_undeclared hplain htable h inner hinnerTable
    rw [List.mem_singleton, below_entry_iff, or_iff_left hnothing]
    simp [htable, h]
  · change schema.unknownAmong record _ [(key, child)] = _
    by_cases hdot : '.' ∈ key.toList
    · simp [unknownAmong, hdot, dotted_concat, UnknownKey.violation, UnknownKey.path,
        UnknownKey.keys]
    · obtain ⟨hfield, hnotTable⟩ := h.resolve_left hdot
      simp [unknownAmong, hdot, dotted_concat, UnknownKey.violation, UnknownKey.path,
        UnknownKey.keys, hfield, hnotTable]

theorem isTable_dotted_concat_iff (hdot : '.' ∉ key.toList) :
    schema.isTable (KeyPath.dotted (above ++ [key])) = true ↔ schema.HasTable (above ++ [key]) := by
  rw [isTable_iff_hasTable hplain, KeyPath.segments_dotted_concat (htable.plain hplain) hdot]

variable (h : ¬ schema.Undeclared above key)

include h

/-- A key that is declared as a table is not reported; keys below it may be. -/
theorem of_table (hseparate : schema.Separate) (hkey : schema.HasTable (above ++ [key]))
    {unknown : List UnknownKey} (hchild : UnknownKeys schema (above ++ [key]) child unknown) :
    UnknownKeys schema above (.table [(key, child)]) unknown := by
  have hdot : '.' ∉ key.toList := fun hdot => h (Or.inl hdot)
  refine ⟨fun found => ?_, hchild.ascending, fun record => ?_⟩
  · rw [hchild.mem_iff, below_entry_iff, or_iff_right fun hhere => h hhere.2.2]
  · have hnotField : (schema.field? (KeyPath.dotted (above ++ [key]))).isSome = false := by
      rw [Bool.eq_false_iff, Ne, isSome_field?_iff hplain,
        KeyPath.segments_dotted_concat (htable.plain hplain) hdot]
      rintro ⟨field, hfield, hkeys⟩
      exact hseparate.not_hasTable hfield (hkeys ▸ List.prefix_refl _) hkey
    have hisTable := (isTable_dotted_concat_iff hplain htable hdot).mpr hkey
    change schema.unknownAmong record _ [(key, child)] = _
    simp [unknownAmong, hdot, dotted_concat, hnotField, hisTable, ← hchild.reported]

/-- A key that is declared as a field is not reported, and what is below it is the field's own. -/
theorem of_field (hkey : ¬ schema.HasTable (above ++ [key])) :
    UnknownKeys schema above (.table [(key, child)]) [] := by
  have hdot : '.' ∉ key.toList := fun hdot => h (Or.inl hdot)
  refine ⟨fun found => ?_, List.Pairwise.nil, fun record => ?_⟩
  · have hnothing : ¬ found.Below schema (above ++ [key]) child := by
      rintro ⟨inner, hinner, -, hinnerTable, -⟩
      exact hkey (hinnerTable.of_initial ⟨inner, hinner.symm⟩)
    rw [below_entry_iff, or_iff_left hnothing]
    simp [h]
  · have hnotTable : schema.isTable (KeyPath.dotted (above ++ [key])) = false := by
      rw [Bool.eq_false_iff, Ne, isTable_dotted_concat_iff hplain htable hdot]
      exact hkey
    have hfield : (schema.field? (KeyPath.dotted (above ++ [key]))).isSome = true := by
      rw [Option.isSome_iff_ne_none]
      exact fun hnone => h (Or.inr ⟨hnone, hnotTable⟩)
    change schema.unknownAmong record _ [(key, child)] = _
    simp [unknownAmong, hdot, dotted_concat, hfield]

end Entry

/-- The pass below a table of the schema reports exactly the unknown keys there, in the order of
their key paths. -/
theorem exists_of_canonical (hplain : schema.Plain) (hseparate : schema.Separate)
    (htable : schema.HasTable above) {tree : Tree} (hcanonical : tree.Canonical) :
    ∃ unknown, UnknownKeys schema above tree unknown := by
  induction tree using Tree.tableInduction generalizing above with
  | leaf tree hleaf => exact ⟨[], of_leaf hleaf⟩
  | table entries ih =>
    obtain ⟨hascending, hentries⟩ := Tree.canonical_table_iff.mp hcanonical
    clear hcanonical
    -- the pass takes the entries one by one, and goes on below those that are tables of the schema
    induction entries with
    | nil => exact ⟨[], of_empty⟩
    | cons entry rest ihRest =>
      obtain ⟨ihChild, ihOthers⟩ := List.forall_mem_cons.mp ih
      obtain ⟨hchild, hothers⟩ := List.forall_mem_cons.mp hentries
      obtain ⟨others, hrest⟩ := ihRest ihOthers (List.pairwise_cons.mp hascending).2 hothers
      have hfirst : ∃ first, UnknownKeys schema above (.table [entry]) first := by
        by_cases hundeclared : schema.Undeclared above entry.1
        · exact ⟨_, of_undeclared hplain htable hundeclared⟩
        · by_cases hkey : schema.HasTable (above ++ [entry.1])
          · obtain ⟨unknown, hunknown⟩ := ihChild hkey hchild
            exact ⟨unknown, of_table hplain htable hundeclared hseparate hkey hunknown⟩
          · exact ⟨[], of_field hplain htable hundeclared hkey⟩
      obtain ⟨first, hfirst⟩ := hfirst
      exact ⟨first ++ others, hfirst.cons hascending hrest⟩

end UnknownKeys

/-- All that the pass reports: the problems of the fields, and then the unknown keys. -/
theorem exists_report {schema : Schema} (hplain : schema.Plain) (hseparate : schema.Separate)
    (hfields : schema.fields ≠ []) {tree : Tree} (hcanonical : tree.Canonical) :
    ∃ (problems : List Problem) (unknown : List UnknownKey),
      (∀ record, schema.violations tree record
        = problems.map (Problem.violation record) ++ unknown.map (UnknownKey.violation record))
      ∧ (∀ problem, problem ∈ problems ↔ problem.Of schema tree)
      ∧ (∀ found, found ∈ unknown ↔ found.Of schema tree)
      ∧ problems.Pairwise (fun problem later => problem.rank schema < later.rank schema)
      ∧ unknown.Pairwise (fun found later => found.keys < later.keys) := by
  have hroot : schema.HasTable [] := by
    obtain ⟨field, hfield⟩ := List.exists_mem_of_ne_nil _ hfields
    exact ⟨field, hfield, List.nil_prefix, (hplain field hfield).1.symm⟩
  obtain ⟨problems, hproblems, hranks, hpass⟩ := exists_problems hseparate tree
  obtain ⟨unknown, hunknown⟩ :=
    UnknownKeys.exists_of_canonical hplain hseparate hroot hcanonical
  refine ⟨problems, unknown, fun record => ?_, hproblems, fun found => ?_, hranks,
    hunknown.ascending⟩
  · rw [Schema.violations, hpass, ← hunknown.reported]
    rfl
  · rw [hunknown.mem_iff, UnknownKey.below_root_iff]

theorem mem_violations_iff {schema : Schema} (hplain : schema.Plain) (hseparate : schema.Separate)
    (hfields : schema.fields ≠ []) {tree : Tree} (hcanonical : tree.Canonical)
    {record : Provenance} {violation : Violation} :
    violation ∈ schema.violations tree record
      ↔ (∃ problem : Problem, problem.Of schema tree ∧ problem.violation record = violation)
        ∨ ∃ unknown : UnknownKey, unknown.Of schema tree
          ∧ unknown.violation record = violation := by
  obtain ⟨problems, unknown, hreport, hproblems, hunknown, -⟩ :=
    exists_report hplain hseparate hfields hcanonical
  rw [hreport, List.mem_append, List.mem_map, List.mem_map]
  simp only [hproblems, hunknown]

/-- **The schema pass reports exactly the problems of the tree.** First come the problems of the
fields, in the order of the first field that each is about or that lies below it; then the unknown
keys, in the order of their key paths. The record of origins adds the origins and nothing else. -/
theorem violations_eq_problems (merged : CanonicalTree) :
    ∃ (problems : List Problem) (unknown : List UnknownKey),
      (∀ record, Schema.indexer.violations merged.tree record
        = problems.map (Problem.violation record) ++ unknown.map (UnknownKey.violation record))
      ∧ (∀ problem, problem ∈ problems ↔ problem.Of Schema.indexer merged.tree)
      ∧ (∀ found, found ∈ unknown ↔ found.Of Schema.indexer merged.tree)
      ∧ problems.Pairwise
        (fun problem later => problem.rank Schema.indexer < later.rank Schema.indexer)
      ∧ unknown.Pairwise (fun found later => found.keys < later.keys) :=
  exists_report Schema.indexer_plain Schema.indexer_separate (by decide) merged.canonical

/-- A tree with a text in the place of a table, too great a port, an unknown table, a key with a dot
and one without characters. -/
def brokenTree : CanonicalTree where
  tree := .table [
    ("", .int 1),
    ("metrics", .table [("a.b", .null), ("port", .int 70000)]),
    ("service", .table [("cache", .table [("size", .int 1)]), ("url_prefix", .null)]),
    ("subgraphs", .string "legacy")]
  canonical := by decide

/-- The keys below an unknown table are not reported with it. -/
theorem violations_eq_problems_broken :
    ∃ (problems : List Problem) (unknown : List UnknownKey),
      Schema.indexer.violations brokenTree.tree .empty
        = problems.map (Problem.violation .empty) ++ unknown.map (UnknownKey.violation .empty)
      ∧ .notATable ["subgraphs"] (.string "legacy") ∈ problems
      ∧ .excessive ((Field.optional ["metrics", "port"] .integer).atMost 65535) 70000 65535
        ∈ problems
      ∧ ⟨[], ""⟩ ∈ unknown ∧ ⟨["metrics"], "a.b"⟩ ∈ unknown
      ∧ ⟨["service"], "cache"⟩ ∈ unknown ∧ ⟨["service", "cache"], "size"⟩ ∉ unknown := by
  obtain ⟨problems, unknown, hreport, hproblems, hunknown, -⟩ :=
    violations_eq_problems brokenTree
  refine ⟨problems, unknown, hreport .empty, ?_, ?_, ?_, ?_, ?_, ?_⟩
  · exact (hproblems _).mpr ⟨by decide, rfl, rfl⟩
  · exact (hproblems _).mpr ⟨by decide, rfl, by decide, rfl, by decide⟩
  · exact (hunknown _).mpr ⟨by decide, ⟨_, rfl⟩, by decide⟩
  · exact (hunknown _).mpr ⟨by decide, ⟨_, rfl⟩, by decide⟩
  · exact (hunknown _).mpr ⟨by decide, ⟨_, rfl⟩, by decide⟩
  · rw [hunknown]
    exact fun h => absurd h.1 (by decide)

end LayeredConfig
