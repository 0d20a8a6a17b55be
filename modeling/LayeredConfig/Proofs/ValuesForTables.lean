import LayeredConfig.Proofs.ExactOrigins
import LayeredConfig.Proofs.ReportedPaths

/-!
# Values in the place of tables

A document that gives a table of the schema another value is never accepted. The value is reported
as a mismatch at the path of the table, unless it is a date. A date has become a table of one
reserved key by then, which stands where a table is due, so that the key is reported in its place.
-/

namespace LayeredConfig

open KeyPath

namespace Toml.Value

def isDate : Value → Bool
  | dateTime _ => true
  | _ => false

theorem isTable_of_isDate {value : Value} (h : value.isDate = true) : value.isTable = false := by
  cases value <;> first | rfl | cases h

theorem isTable_toTree (value : Value) :
    value.toTree.isTable = (value.isTable || value.isDate) := by
  cases value with
  | float number =>
    change (if Decimal.finite number then Tree.float number else Tree.null).isTable = false
    split <;> rfl
  | _ => rfl

theorem toEntries_eq_map (entries : List (String × Value)) :
    toEntries entries = entries.map fun entry => (entry.1, entry.2.toTree) := by
  induction entries with
  | nil => rfl
  | cons entry rest ih => rw [toEntries, ih, List.map_cons]

/-- What a document has at a path, its tree has there. -/
theorem at?_toTree {document value : Value} {keys : List String}
    (h : document.at? keys = some value) : document.toTree.at? keys = some value.toTree := by
  induction keys generalizing document with
  | nil =>
    have hself : document.at? [] = some document := by cases document <;> rfl
    rw [hself, Option.some.injEq] at h
    rw [Tree.at?_nil, h]
  | cons key keys ih =>
    cases document with
    | table entries =>
      obtain ⟨child, hchild, hvalue⟩ := Option.bind_eq_some_iff.mp h
      rw [toTree, toEntries_eq_map, Tree.at?_table_cons, Keyed.get?_map, hchild]
      exact ih hvalue
    | _ => cases h

end Toml.Value

/-! ### The state of one document -/

/-- What a resolution holds after one inline document. -/
def inlined (document : CanonicalTree) : Resolution := overlaid [⟨document, .inline⟩]

theorem originOf_inlined (document : CanonicalTree) (path : String) :
    (inlined document).provenance.originOf path = .inline := by
  rcases originOf_overlaid [⟨document, .inline⟩] path with hinline | ⟨layer, hlayer, horigin⟩
  · exact hinline
  · rw [inlined, ← horigin, List.mem_singleton.mp hlayer]

theorem at?_inlined {document : CanonicalTree} {keys : List String} (hkeys : keys ≠ [])
    {node : Tree} (hnode : document.tree.at? keys = some node) :
    (inlined document).merged.at? keys = some node := by
  change (Resolution.start.merged.overlay document.tree).at? keys = some node
  rw [Tree.at?_overlay_of_some document.canonical _ hnode, at?_start_eq_none hkeys]
  rfl

theorem mem_violations_inlined_iff (document : CanonicalTree) (violation : Violation) :
    violation
        ∈ Schema.indexer.violations (inlined document).merged (inlined document).provenance
      ↔ (∃ problem : Problem, problem.Of Schema.indexer (inlined document).merged
          ∧ problem.violation (inlined document).provenance = violation)
        ∨ ∃ unknown : UnknownKey, unknown.Of Schema.indexer (inlined document).merged
          ∧ unknown.violation (inlined document).provenance = violation :=
  mem_violations_iff Schema.indexer_plain Schema.indexer_separate (by decide)
    (inlined document).canonical

section Document

variable {contents : String} {document : CanonicalTree}
  (h : CanonicalTree.ofToml contents = .ok document)

include h

theorem isTable_inlined : (inlined document).merged.isTable = true := by
  have htable := (Tree.ofToml_canonical (CanonicalTree.ofToml_eq_ok_iff.mp h)).1
  exact isTable_overlaid fun layer hlayer => List.mem_singleton.mp hlayer ▸ htable

theorem add_ofText :
    let state := Resolution.start.add (.ofText contents)
    state.merged = (inlined document).merged ∧ state.provenance = (inlined document).provenance
      ∧ state.violations = [] := by
  simp only [Contribution.ofText, h]
  exact ⟨rfl, rfl, rfl⟩

/-- A document that something is wrong with fails to load, and just that is reported. -/
theorem loadText_reports_iff {wrong : Violation} (hwrong : wrong ∈
      Schema.indexer.violations (inlined document).merged (inlined document).provenance)
    (violation : Violation) : (loadText contents).Reports violation ↔ violation ∈
      Schema.indexer.violations (inlined document).merged (inlined document).provenance := by
  obtain ⟨hmerged, hprovenance, hviolations⟩ := add_ofText h
  have hfinish : ((Resolution.start.add (.ofText contents)).finish Schema.indexer).result
      = .error ⟨Schema.indexer.violations (inlined document).merged
        (inlined document).provenance⟩ := by
    rw [finish_of_violations, hmerged, hprovenance, hviolations, List.nil_append]
    rw [hmerged, hprovenance, hviolations, List.nil_append]
    exact List.ne_nil_of_mem hwrong
  have hresult : (loadText contents).result
      = .error ⟨Schema.indexer.violations (inlined document).merged
        (inlined document).provenance⟩ := by
    rw [loadText, hfinish]
    rfl
  rw [Outcome.Reports, hresult]
  simp

end Document

/-! ### Values where tables are due -/

theorem Schema.indexer_undeclared_dateTimeKey {table : List String}
    (htable : Schema.indexer.HasTable table) :
    Schema.indexer.Undeclared table Toml.Value.dateTimeKey := by
  by_contra hdeclared
  obtain ⟨field, hfield, hinitial⟩ :=
    Schema.exists_initial_of_not_undeclared Schema.indexer_plain htable hdeclared
  have hnone : ∀ field ∈ Schema.indexer.fields, Toml.Value.dateTimeKey ∉ field.keys := by decide
  exact hnone field hfield (hinitial.subset (by simp))

section Placed

variable {contents : String} {document value : Toml.Value} {keys : List String}
  (hparse : Toml.parse contents = .ok document) (htable : Schema.indexer.HasTable keys)
  (hvalue : document.at? keys = some value) (hleaf : value.isTable = false)

include hparse hvalue hleaf

/-- The root of a document is a table, so the value is further down. -/
theorem at?_inlined_of_leaf :
    keys ≠ [] ∧ ∃ read, CanonicalTree.ofToml contents = .ok read
      ∧ (inlined read).merged.at? keys = some value.toTree := by
  have htree : Tree.ofToml contents = .ok document.toTree := by
    rw [Tree.ofToml, hparse]
    rfl
  obtain ⟨read, hread, hsame⟩ := CanonicalTree.exists_of_ofToml htree
  have hkeys : keys ≠ [] := by
    rintro rfl
    obtain ⟨root, entries, -, rfl⟩ := Toml.parse_isTable hparse
    obtain rfl := Option.some.inj hvalue
    cases hleaf
  exact ⟨hkeys, read, hread, at?_inlined hkeys (hsame ▸ Toml.Value.at?_toTree hvalue)⟩

include htable

/-- Any value but a date is reported at the path of the table. -/
theorem reports_mismatch_of_not_date (hdate : value.isDate = false) :
    (loadText contents).Reports
      (.typeMismatch (dotted keys) "table" value.toTree.describe .inline) := by
  obtain ⟨-, read, hread, hnode⟩ := at?_inlined_of_leaf hparse hvalue hleaf
  have hplaced : (Problem.notATable keys value.toTree).Of Schema.indexer
      (inlined read).merged := by
    refine ⟨htable, hnode, ?_⟩
    rw [Toml.Value.isTable_toTree, hleaf, hdate]
    rfl
  have hmem := (mem_violations_inlined_iff read _).mpr (Or.inl ⟨_, hplaced, rfl⟩)
  have hreports := (loadText_reports_iff hread hmem _).mpr hmem
  rwa [Problem.violation, originOf_inlined] at hreports

/-- A date is reported by the key that its table has, and not as a mismatch. -/
theorem reports_unknown_of_date (hdate : value.isDate = true) :
    (loadText contents).Reports
        (.unknownField (dotted (keys ++ [Toml.Value.dateTimeKey])) .inline)
      ∧ ∀ expected found origin,
        ¬ (loadText contents).Reports (.typeMismatch (dotted keys) expected found origin) := by
  obtain ⟨hkeys, read, hread, hnode⟩ := at?_inlined_of_leaf hparse hvalue hleaf
  obtain ⟨moment, rfl⟩ : ∃ moment, value = .dateTime moment := by
    cases value with
    | dateTime moment => exact ⟨moment, rfl⟩
    | _ => cases hdate
  have hkey : (UnknownKey.mk keys Toml.Value.dateTimeKey).Of Schema.indexer
      (inlined read).merged := by
    refine ⟨htable, ⟨.string moment.text, ?_⟩, Schema.indexer_undeclared_dateTimeKey htable⟩
    rw [UnknownKey.keys, Tree.at?_append, hnode]
    exact Tree.at?_nest [Toml.Value.dateTimeKey] _
  have hmem := (mem_violations_inlined_iff read _).mpr (Or.inr ⟨_, hkey, rfl⟩)
  constructor
  · have hpath : (UnknownKey.mk keys Toml.Value.dateTimeKey).path
        = dotted (keys ++ [Toml.Value.dateTimeKey]) :=
      if_neg (show '.' ∉ Toml.Value.dateTimeKey.toList by decide)
    have hreports := (loadText_reports_iff hread hmem _).mpr hmem
    rwa [UnknownKey.violation, originOf_inlined, hpath] at hreports
  · intro expected found origin hreports
    -- a date is a table by now
    exact not_mismatch_of_table Schema.indexer_plain Schema.indexer_separate (by decide)
      (inlined read).canonical (isTable_inlined hread) hkeys htable hnode rfl _ _ _ _
      ((loadText_reports_iff hread hmem _).mp hreports)

end Placed

/-- **A value in the place of a table is reported.** If a document gives a table of the schema a
value that is no table, then it fails to load. A text, a number, a flag or an array is reported as a
mismatch at the path of the table. A date is not: the report has no mismatch at that path, but names
the reserved key below it as unknown. -/
theorem value_for_table_reported (contents : String) (document value : Toml.Value)
    (keys : List String) (hparse : Toml.parse contents = .ok document)
    (htable : Schema.indexer.HasTable keys) (hvalue : document.at? keys = some value)
    (hleaf : value.isTable = false) :
    (value.isDate = false → (loadText contents).Reports
        (.typeMismatch (dotted keys) "table" value.toTree.describe .inline))
      ∧ (value.isDate = true → (loadText contents).Reports
          (.unknownField (dotted (keys ++ [Toml.Value.dateTimeKey])) .inline)
        ∧ ∀ expected found origin,
          ¬ (loadText contents).Reports (.typeMismatch (dotted keys) expected found origin)) :=
  ⟨reports_mismatch_of_not_date hparse htable hvalue hleaf,
    reports_unknown_of_date hparse htable hvalue hleaf⟩

/-- A date and a list in the place of tables. -/
theorem value_for_table_reported_date :
    let contents := "metrics = 1979-05-27\nsubgraphs = [1]\n"
    ∃ document date list, Toml.parse contents = .ok document
      ∧ Schema.indexer.HasTable ["metrics"] ∧ Schema.indexer.HasTable ["subgraphs"]
      ∧ document.at? ["metrics"] = some date ∧ date.isTable = false
      ∧ document.at? ["subgraphs"] = some list ∧ list.isTable = false
      ∧ (loadText contents).Reports
        (.unknownField "metrics.$__toml_private_datetime" .inline)
      ∧ (loadText contents).Reports
        (.typeMismatch "subgraphs" "table" list.toTree.describe .inline) := by
  intro contents
  have hread : (Toml.parse contents).toOption.map (fun document =>
      ((document.at? ["metrics"]).map Toml.Value.isDate,
        (document.at? ["subgraphs"]).map fun list => (list.isTable, list.isDate)))
      = some (some true, some (false, false)) := by
    decide +kernel
  obtain ⟨document, hparse, hvalues⟩ := exists_ok_of_map_toOption hread
  obtain ⟨hdate, hlist⟩ := Prod.mk.inj hvalues
  obtain ⟨date, hdateAt, hisDate⟩ := Option.map_eq_some_iff.mp hdate
  obtain ⟨list, hlistAt, hlistKind⟩ := Option.map_eq_some_iff.mp hlist
  obtain ⟨hlistLeaf, hnotDate⟩ := Prod.mk.inj hlistKind
  have hdateLeaf := Toml.Value.isTable_of_isDate hisDate
  have hmetrics : Schema.indexer.HasTable ["metrics"] := by decide
  have hsubgraphs : Schema.indexer.HasTable ["subgraphs"] := by decide
  refine ⟨document, date, list, hparse, hmetrics, hsubgraphs, hdateAt, hdateLeaf, hlistAt,
    hlistLeaf, ?_, ?_⟩
  · exact ((value_for_table_reported contents document date ["metrics"] hparse hmetrics hdateAt
      hdateLeaf).2 hisDate).1
  · exact (value_for_table_reported contents document list ["subgraphs"] hparse hsubgraphs hlistAt
      hlistLeaf).1 hnotDate

/-- A date in the place of a table is no mismatch to the report. -/
theorem date_for_table_not_mismatch :
    let contents := "metrics = 1979-05-27\n"
    let keys := ["metrics"]
    ∃ document value, Toml.parse contents = .ok document
      ∧ Schema.indexer.HasTable keys ∧ document.at? keys = some value ∧ value.isTable = false
      ∧ ¬ ∃ found origin,
        (loadText contents).Reports (.typeMismatch (dotted keys) "table" found origin) := by
  intro contents keys
  have hread : (Toml.parse contents).toOption.map (fun document =>
      (document.at? keys).map Toml.Value.isDate) = some (some true) := by
    decide +kernel
  obtain ⟨document, hparse, hvalue⟩ := exists_ok_of_map_toOption hread
  obtain ⟨date, hdateAt, hisDate⟩ := Option.map_eq_some_iff.mp hvalue
  have hleaf := Toml.Value.isTable_of_isDate hisDate
  have hmetrics : Schema.indexer.HasTable keys := by decide
  refine ⟨document, date, hparse, hmetrics, hdateAt, hleaf, ?_⟩
  rintro ⟨found, origin, hreports⟩
  exact (reports_unknown_of_date hparse hmetrics hdateAt hleaf hisDate).2 _ _ _ hreports

end LayeredConfig
