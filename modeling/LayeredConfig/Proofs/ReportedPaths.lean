import LayeredConfig.Proofs.QuotedText
import LayeredConfig.Proofs.UnknownKeys

/-!
# The paths of reports

A report names a place by a path, and the path tells the place: no two reports of one pass have the
same one. A path that is made from plain keys has them as its segments. A key with a dot is shown in
quotes, and as no key of the schema holds a quote, its first segment tells where it begins. Where a
value is of the wrong type, the pass reports nothing further down.
-/

namespace LayeredConfig

open KeyPath

/-- No key of a field holds a quote. -/
def Schema.Unquoted (schema : Schema) : Prop :=
  ∀ field ∈ schema.fields, ∀ key ∈ field.keys, '"' ∉ key.toList

theorem Schema.indexer_unquoted : Schema.indexer.Unquoted := by
  unfold Schema.Unquoted
  decide

/-- The key path leads to a field of the schema, or to the root or a table. -/
def Schema.Leads (schema : Schema) (keys : List String) : Prop :=
  ∃ field ∈ schema.fields, keys <+: field.keys

theorem Schema.HasTable.leads {schema : Schema} {keys : List String} (h : schema.HasTable keys) :
    schema.Leads keys :=
  h.imp fun _ hfield => ⟨hfield.1, hfield.2.1⟩

/-! ### How an unknown key is shown -/

/-- A quoted text is one segment for each part of the text between dots, and the first one begins
with the quote. -/
theorem exists_segments_quoted (text : String) :
    ∃ first rest, segments (Text.quoted text) = first :: rest ∧ '"' ∈ first.toList := by
  obtain ⟨piece, pieces, hpieces⟩ := List.exists_cons_of_ne_nil
    (List.splitOn_ne_nil '.' (text.toList.flatMap Text.escape ++ ['"']))
  refine ⟨String.ofList ('"' :: piece), pieces.map String.ofList, ?_, by simp⟩
  rw [segments, Text.quoted, String.toList_ofList, List.cons_append,
    List.splitOn_cons_eq_if_modifyHead, hpieces]
  rfl

theorem two_le_length_segments {path : String} (h : '.' ∈ path.toList) :
    2 ≤ (segments path).length := by
  obtain ⟨before, after, hsplit⟩ := List.append_of_mem h
  have hpath : path = String.ofList before ++ "." ++ String.ofList after := by
    rw [← String.toList_inj, hsplit]
    simp
  have hbefore := List.length_pos_iff.mpr (segments_ne_nil (String.ofList before))
  have hafter := List.length_pos_iff.mpr (segments_ne_nil (String.ofList after))
  rw [hpath, segments_append_dot, List.length_append]
  omega

theorem dot_mem_quoted {text : String} (h : '.' ∈ text.toList) :
    '.' ∈ (Text.quoted text).toList := by
  have hescape : '.' ∈ text.toList.flatMap Text.escape :=
    List.mem_flatMap.mpr ⟨'.', h, by decide⟩
  simp [Text.quoted, hescape]

/-- The segments by which a key is shown below its table. -/
def shownKey (key : String) : List String :=
  if '.' ∈ key.toList then segments (Text.quoted key) else [key]

theorem shownKey_ne_nil (key : String) : shownKey key ≠ [] := by
  unfold shownKey
  split
  · exact segments_ne_nil _
  · simp

theorem shownKey_injective : Function.Injective shownKey := by
  intro key other h
  unfold shownKey at h
  split at h
  · rename_i hdot
    have hlength := two_le_length_segments (dot_mem_quoted hdot)
    split at h
    · exact Text.quoted_injective (segments_injective h)
    · simp [h] at hlength
  · split at h
    · rename_i hdot
      have hlength := two_le_length_segments (dot_mem_quoted hdot)
      simp [← h] at hlength
    · simpa using h

namespace UnknownKey

def shown (unknown : UnknownKey) : List String := unknown.table ++ shownKey unknown.key

variable {schema : Schema} {tree : Tree} {unknown other : UnknownKey}

theorem segments_path (hplain : schema.Plain) (htable : schema.HasTable unknown.table) :
    segments unknown.path = unknown.shown := by
  have hkeys := htable.plain hplain
  unfold path shown shownKey
  split
  · by_cases hroot : unknown.table = []
    · simp [hroot, dotted, join_empty]
    · rw [segments_join (dotted_ne_empty hroot hkeys), segments_dotted hroot hkeys]
  · rename_i hdot
    exact segments_dotted_concat hkeys hdot

/-- What leads along the shown path of an unknown key to a place of the schema ends at the table
of the key, or before. -/
theorem initial_of_shown (hplain : schema.Plain) (hunquoted : schema.Unquoted)
    (h : unknown.Of schema tree) {keys : List String} (hkeys : schema.Leads keys)
    (hinitial : keys <+: unknown.shown) : keys <+: unknown.table := by
  obtain ⟨htable, -, hundeclared⟩ := h
  obtain ⟨field, hfield, hbelow⟩ := hkeys
  refine (List.prefix_or_prefix_of_prefix hinitial (List.prefix_append _ _)).elim id ?_
  rintro ⟨rest, rfl⟩
  cases rest with
  | nil => simp
  | cons next rest =>
    exfalso
    have hnext : next :: rest <+: shownKey unknown.key :=
      (List.prefix_append_right_inj _).mp hinitial
    unfold shownKey at hnext
    split at hnext
    · obtain ⟨first, pieces, hsegments, hquote⟩ := exists_segments_quoted unknown.key
      rw [hsegments] at hnext
      obtain ⟨rfl, -⟩ := List.cons_prefix_cons.mp hnext
      exact hunquoted field hfield next (hbelow.subset (by simp)) hquote
    · obtain ⟨rfl, -⟩ := List.cons_prefix_cons.mp hnext
      refine hundeclared.not_initial hplain htable field hfield (List.IsPrefix.trans ?_ hbelow)
      exact ⟨rest, by simp⟩

theorem eq_of_shown (hplain : schema.Plain) (hunquoted : schema.Unquoted)
    (h : unknown.Of schema tree) (hother : other.Of schema tree)
    (hshown : unknown.shown = other.shown) : unknown = other := by
  have hleft : unknown.table <+: other.table :=
    initial_of_shown hplain hunquoted hother h.1.leads (hshown ▸ List.prefix_append _ _)
  have hright : other.table <+: unknown.table :=
    initial_of_shown hplain hunquoted h hother.1.leads (hshown ▸ List.prefix_append _ _)
  obtain ⟨table, key⟩ := unknown
  obtain ⟨otherTable, otherKey⟩ := other
  obtain rfl : table = otherTable :=
    hleft.eq_of_length (le_antisymm hleft.length_le hright.length_le)
  exact congrArg _ (shownKey_injective (List.append_cancel_left hshown))

/-- No place of the schema is shown like an unknown key. -/
theorem shown_ne_of_leads (hplain : schema.Plain) (hunquoted : schema.Unquoted)
    (h : unknown.Of schema tree) {keys : List String} (hkeys : schema.Leads keys) :
    keys ≠ unknown.shown := by
  rintro rfl
  have hinitial := initial_of_shown hplain hunquoted h hkeys (List.prefix_refl _)
  have hlength := hinitial.length_le
  have hpositive := List.length_pos_iff.mpr (shownKey_ne_nil unknown.key)
  rw [shown, List.length_append] at hlength
  omega

end UnknownKey

/-! ### Problems of fields -/

namespace Problem

variable {schema : Schema} {tree : Tree} {problem : Problem}

theorem Of.leads (h : problem.Of schema tree) : schema.Leads problem.keys := by
  cases problem with
  | notATable keys value => exact h.1.leads
  | _ => exact ⟨_, h.1, List.prefix_refl _⟩

/-- A problem is not about anything that is blocked: either a value is there, or the way is open. -/
theorem Of.not_blocks (h : problem.Of schema tree) : ¬ tree.Blocks problem.keys := by
  have hvalue {keys : List String} {value : Tree} (hnode : tree.at? keys = some value) :
      ¬ tree.Blocks keys := by
    intro hblocks
    simp [Tree.at?_eq_none_of_blocks hblocks] at hnode
  cases problem with
  | absent field => exact h.2.2.2
  | _ => exact hvalue h.2.1

theorem Of.keys_ne_nil (hplain : schema.Plain) (hroot : tree.isTable = true)
    (h : problem.Of schema tree) : problem.keys ≠ [] := by
  cases problem with
  | notATable keys value =>
    rintro rfl
    obtain ⟨-, hvalue, hleaf⟩ := h
    rw [Tree.at?_nil, Option.some.injEq] at hvalue
    simp [← hvalue, hroot] at hleaf
  | _ => exact (hplain _ h.1).1

theorem path?_violation (record : Provenance) (problem : Problem) :
    (problem.violation record).path? = some (dotted problem.keys) := by
  cases problem <;> rfl

theorem Of.segments_keys (hplain : schema.Plain) (hroot : tree.isTable = true)
    (h : problem.Of schema tree) : segments (dotted problem.keys) = problem.keys := by
  obtain ⟨field, hfield, hinitial⟩ := h.leads
  exact segments_dotted (h.keys_ne_nil hplain hroot) fun key hkey =>
    (hplain field hfield).2 key (hinitial.subset hkey)

/-- Nothing is reported below a value of the wrong type: either it is no table, or a field has it
and nothing of the schema lies further down. -/
theorem Of.not_below_mismatch (hseparate : schema.Separate) {record : Provenance}
    {path expected found : String} {origin : Origin} (h : problem.Of schema tree)
    (hmismatch : problem.violation record = .typeMismatch path expected found origin)
    {other : Problem} (hother : other.Of schema tree) (hinitial : problem.keys <+: other.keys) :
    problem.keys = other.keys := by
  by_contra hne
  cases problem with
  | notATable keys value =>
    exact hother.not_blocks (Tree.blocks_of_initial h.2.1 h.2.2 hinitial hne)
  | mistyped field value =>
    obtain ⟨below, hbelow, hotherInitial⟩ := hother.leads
    obtain rfl := hseparate.eq_of_initial h.1 hbelow (hinitial.trans hotherInitial)
    exact hne (hinitial.eq_of_length (le_antisymm hinitial.length_le hotherInitial.length_le))
  | absent field => cases hmismatch
  | excessive field number max => cases hmismatch

end Problem

theorem UnknownKey.Of.not_below_mismatch {schema : Schema} (hseparate : schema.Separate)
    {tree : Tree} {unknown : UnknownKey} (h : unknown.Of schema tree) {problem : Problem}
    (hproblem : problem.Of schema tree) {record : Provenance} {path expected found : String}
    {origin : Origin}
    (hmismatch : problem.violation record = .typeMismatch path expected found origin) :
    ¬ problem.keys <+: unknown.table := by
  intro hinitial
  cases problem with
  | notATable keys value =>
    obtain ⟨-, ⟨node, hnode⟩, -⟩ := h
    have hkeys : keys <+: unknown.keys := hinitial.trans (List.prefix_append _ _)
    have hne : keys ≠ unknown.keys := by
      rintro rfl
      have hlength : unknown.keys.length ≤ unknown.table.length := hinitial.length_le
      simp [UnknownKey.keys] at hlength
    have hblocks := Tree.blocks_of_initial hproblem.2.1 hproblem.2.2 hkeys hne
    simp [Tree.at?_eq_none_of_blocks hblocks] at hnode
  | mistyped field value => exact hseparate.not_hasTable hproblem.1 hinitial h.1
  | absent field => cases hmismatch
  | excessive field number max => cases hmismatch

/-! ### The whole pass -/

section Pass

variable {schema : Schema} (hplain : schema.Plain) {tree : Tree}

include hplain

theorem lookup_of_leaf (hleaf : tree.isTable = false) {field : Field}
    (hfield : field ∈ schema.fields) : tree.lookup field.keys = .blocked [] tree :=
  Tree.lookup_eq_blocked_iff.mpr
    ⟨List.nil_prefix, (hplain field hfield).1.symm, Tree.at?_nil tree, hleaf⟩

/-- A root that is no table is reported for the first field, and hides all others. -/
theorem violations_of_leaf (hfields : schema.fields ≠ []) (hleaf : tree.isTable = false)
    (record : Provenance) : schema.violations tree record
      = [.typeMismatch "" "table" tree.describe (record.originOf "")] := by
  have hrest : ∀ rest, (∀ field ∈ rest, field ∈ schema.fields) →
      Schema.fieldViolations tree record [[]] rest = [] := by
    intro rest
    induction rest with
    | nil => exact fun _ => rfl
    | cons field rest ih =>
      intro hmem
      obtain ⟨hfield, hmem⟩ := List.forall_mem_cons.mp hmem
      simp [Schema.fieldViolations, lookup_of_leaf hplain hleaf hfield, ih hmem]
  have hunknown : schema.unknownBelow record "" tree = [] := by
    cases tree <;> first | rfl | simp [Tree.isTable] at hleaf
  obtain ⟨first, rest, hsplit⟩ := List.exists_cons_of_ne_nil hfields
  have hfirst : first ∈ schema.fields := by simp [hsplit]
  rw [Schema.violations, hunknown, hsplit, Schema.fieldViolations,
    lookup_of_leaf hplain hleaf hfirst]
  simp [hrest rest fun field hfield => by simp [hsplit, hfield], dotted]

variable (hseparate : schema.Separate) (hfields : schema.fields ≠ [])
  (hcanonical : tree.Canonical) (hroot : tree.isTable = true)

include hseparate hfields hcanonical hroot

/-- A mismatch of the report is due to a problem, whose keys are the segments of its path. -/
theorem exists_problem_of_mismatch {record : Provenance} {path expected found : String}
    {origin : Origin}
    (h : .typeMismatch path expected found origin ∈ schema.violations tree record) :
    ∃ problem : Problem, problem.Of schema tree
      ∧ problem.violation record = .typeMismatch path expected found origin
      ∧ segments path = problem.keys := by
  rw [mem_violations_iff hplain hseparate hfields hcanonical] at h
  rcases h with ⟨problem, hproblem, hmismatch⟩ | ⟨unknown, -, hunknown⟩
  · have hpath := problem.path?_violation record
    rw [hmismatch] at hpath
    obtain rfl := Option.some.inj hpath
    exact ⟨problem, hproblem, hmismatch, hproblem.segments_keys hplain hroot⟩
  · cases hunknown

/-- A table where a table is due is no mismatch. -/
theorem not_mismatch_of_table {keys : List String} (hkeys : keys ≠ [])
    (htable : schema.HasTable keys) {node : Tree} (hnode : tree.at? keys = some node)
    (hisTable : node.isTable = true) (record : Provenance) (expected found : String)
    (origin : Origin) :
    .typeMismatch (dotted keys) expected found origin ∉ schema.violations tree record := by
  intro h
  obtain ⟨problem, hproblem, hmismatch, hsame⟩ :=
    exists_problem_of_mismatch hplain hseparate hfields hcanonical hroot h
  rw [segments_dotted hkeys (htable.plain hplain)] at hsame
  cases problem with
  | notATable other found =>
    obtain ⟨-, hother, hleaf⟩ := hproblem
    obtain rfl : keys = other := hsame
    obtain rfl := Option.some.inj (hother.symm.trans hnode)
    simp [hisTable] at hleaf
  | mistyped field found =>
    obtain rfl : keys = field.keys := hsame
    exact hseparate.not_hasTable hproblem.1 (List.prefix_refl _) htable
  | absent field => cases hmismatch
  | excessive field number max => cases hmismatch

variable (hunquoted : schema.Unquoted)

include hunquoted

theorem nodup_paths (record : Provenance) :
    ((schema.violations tree record).map Violation.path?).Nodup := by
  obtain ⟨problems, unknown, hreport, hproblems, hunknown, hranks, hascending⟩ :=
    exists_report hplain hseparate hfields hcanonical
  have hsegments : ((schema.violations tree record).map Violation.path?).map (Option.map segments)
      = (problems.map Problem.keys ++ unknown.map UnknownKey.shown).map some := by
    rw [hreport, List.map_append, List.map_append, List.map_append]
    simp only [List.map_map]
    refine congrArg₂ _ (List.map_congr_left fun problem hproblem => ?_)
      (List.map_congr_left fun found hfound => ?_)
    · have hof := (hproblems problem).mp hproblem
      simp [Problem.path?_violation, hof.segments_keys hplain hroot]
    · exact congrArg some (UnknownKey.segments_path hplain ((hunknown found).mp hfound).1)
  refine List.Nodup.of_map (Option.map segments) ?_
  rw [hsegments]
  refine List.Nodup.map (Option.some_injective _) (List.nodup_append.mpr ⟨?_, ?_, ?_⟩)
  · refine List.pairwise_map.mpr (hranks.imp fun {problem later} hrank heq => ?_)
    simp [Problem.rank, heq] at hrank
  · refine List.pairwise_map.mpr (hascending.imp_of_mem ?_)
    intro found later hfound hlater hlt heq
    rw [UnknownKey.eq_of_shown hplain hunquoted ((hunknown found).mp hfound)
      ((hunknown later).mp hlater) heq] at hlt
    exact lt_irrefl _ hlt
  · intro keys hkeys shown hshown
    obtain ⟨problem, hproblem, rfl⟩ := List.mem_map.mp hkeys
    obtain ⟨found, hfound, rfl⟩ := List.mem_map.mp hshown
    exact UnknownKey.shown_ne_of_leads hplain hunquoted ((hunknown found).mp hfound)
      ((hproblems problem).mp hproblem).leads

theorem not_isBelow_of_mismatch {record : Provenance} {path expected found : String}
    {origin : Origin} (h : .typeMismatch path expected found origin ∈ schema.violations tree record)
    {other : Violation} (hother : other ∈ schema.violations tree record) {below : String}
    (hpath : other.path? = some below) : isBelow below path = false := by
  obtain ⟨problem, hproblem, hmismatch, hkeys⟩ :=
    exists_problem_of_mismatch hplain hseparate hfields hcanonical hroot h
  rw [mem_violations_iff hplain hseparate hfields hcanonical] at hother
  rw [Bool.eq_false_iff]
  intro hbelow
  obtain ⟨rest, hrest, hsegments⟩ := isBelow_iff.mp hbelow
  rw [hkeys] at hsegments
  rcases hother with ⟨later, hlater, rfl⟩ | ⟨unknown, hunknown, rfl⟩
  · rw [Problem.path?_violation] at hpath
    obtain rfl := Option.some.inj hpath
    rw [hlater.segments_keys hplain hroot] at hsegments
    have hsame := hproblem.not_below_mismatch hseparate hmismatch hlater ⟨rest, hsegments.symm⟩
    rw [hsame] at hsegments
    exact hrest (List.append_right_eq_self.mp hsegments.symm)
  · obtain rfl := Option.some.inj hpath
    rw [UnknownKey.segments_path hplain hunknown.1] at hsegments
    exact hunknown.not_below_mismatch hseparate hproblem hmismatch
      (UnknownKey.initial_of_shown hplain hunquoted hunknown hproblem.leads
        ⟨rest, hsegments.symm⟩)

end Pass

/-- **Each problem is reported once, and at its top.** Whatever the tree and the record of origins
are, no two violations of the schema pass have the same path, and no path goes on from that of a
type mismatch. If the root is no table then this is all there is to report. -/
theorem reported_once_at_top (merged : CanonicalTree) (record : Provenance) :
    let violations := Schema.indexer.violations merged.tree record
    (violations.map Violation.path?).Nodup
      ∧ (∀ path expected found origin, .typeMismatch path expected found origin ∈ violations →
          ∀ other ∈ violations, ∀ below, other.path? = some below →
            ¬ (path ++ ".").toList <+: below.toList)
      ∧ (merged.tree.isTable = false →
          violations = [.typeMismatch "" "table" merged.tree.describe (record.originOf "")]) := by
  intro violations
  have hplain := Schema.indexer_plain
  have hseparate := Schema.indexer_separate
  have hunquoted := Schema.indexer_unquoted
  have hfields : Schema.indexer.fields ≠ [] := by decide
  have hcanonical := merged.canonical
  have hleaf := fun hleaf : merged.tree.isTable = false =>
    violations_of_leaf hplain hfields hleaf record
  cases hroot : merged.tree.isTable with
  | true =>
    refine ⟨nodup_paths hplain hseparate hfields hcanonical hroot hunquoted record, ?_, by simp⟩
    intro path expected found origin hmismatch other hother below hpath hinitial
    have hbelow := not_isBelow_of_mismatch hplain hseparate hfields hcanonical hroot hunquoted
      hmismatch hother hpath
    rw [isBelow, List.isPrefixOf_iff_prefix.mpr hinitial] at hbelow
    cases hbelow
  | false =>
    have hall : violations = _ := hleaf hroot
    rw [hall]
    refine ⟨by simp, ?_, fun _ => rfl⟩
    intro path expected found origin hmismatch other hother below hpath
    rw [List.mem_singleton] at hmismatch hother
    obtain ⟨rfl, -⟩ := Violation.typeMismatch.inj hmismatch
    subst hother
    obtain rfl := Option.some.inj hpath
    simp

/-- Keys with dots and a quote, next to the places of the schema that they read like, and a text in
the place of a table. -/
theorem reported_once_at_top_quoted :
    let tree := Tree.table [
      ("metrics", .table [("a\"b.c", .null), ("port", .string "80")]),
      ("metrics.port", .int 1),
      ("subgraphs", .string "legacy")]
    let violations := Schema.indexer.violations tree .empty
    (violations.map Violation.path?).Nodup
      ∧ [some "metrics.port", some "\"metrics.port\"", some "metrics.\"a\\\"b.c\""]
        ⊆ violations.map Violation.path?
      ∧ .typeMismatch "subgraphs" "table" "string \"legacy\"" .inline ∈ violations
      ∧ (∀ other ∈ violations, ∀ below, other.path? = some below →
        ¬ ("subgraphs" ++ ".").toList <+: below.toList)
      ∧ Tree.null.isTable = false
      ∧ Schema.indexer.violations .null .empty = [.typeMismatch "" "table" "null" .inline] := by
  intro tree violations
  obtain ⟨hnodup, htop, -⟩ := reported_once_at_top ⟨tree, by decide⟩ .empty
  have hmismatch : .typeMismatch "subgraphs" "table" "string \"legacy\"" .inline ∈ violations := by
    decide +kernel
  exact ⟨hnodup, by decide +kernel, hmismatch, htop _ _ _ _ hmismatch, rfl,
    (reported_once_at_top ⟨.null, trivial⟩ .empty).2.2 rfl⟩

end LayeredConfig
