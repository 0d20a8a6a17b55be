import LayeredConfig.Proofs.Blame
import LayeredConfig.Proofs.Reports

/-!
# Which source an unknown key blames

Variables write fields and nothing else, so an unknown key stems from a file: the last one whose
tree has a node there. It blames that file as long as its record is undisturbed. Another overlay can
disturb the record through a node that is written like the key, and then takes the blame, even if it
comes from a variable. The key without characters at the root has no record at all.
-/

namespace LayeredConfig

open KeyPath Provenance

/-- An unknown key that a run reports is one of the merged tree, and blames what the record says of
its path. -/
theorem unknown_of_reports {world : World} {sources : List Source} {path : String} {origin : Origin}
    (hreports : (resolve world sources).Reports (.unknownField path origin)) :
    ∃ unknown : UnknownKey, unknown.Of Schema.indexer (reached world sources).merged
      ∧ path = unknown.path
      ∧ origin = (reached world sources).provenance.originOf (dotted unknown.keys) := by
  rcases problem_or_unknown_of_reports hreports (by simp) (by simp) with
    ⟨problem, -, hproblem⟩ | ⟨unknown, hof, hunknown⟩
  · cases problem <;> simp [Problem.violation] at hproblem
  · obtain ⟨rfl, rfl⟩ := Violation.unknownField.inj hunknown
    exact ⟨unknown, hof, rfl, rfl⟩

namespace UnknownKey

variable {schema : Schema} {tree : Tree} {unknown : UnknownKey}

theorem keys_ne_nil (unknown : UnknownKey) : unknown.keys ≠ [] := by
  simp [keys]

/-- Only at the root can an unknown key be written like the root. -/
theorem Of.anchored (hplain : schema.Plain) (h : unknown.Of schema tree)
    (hne : unknown.keys ≠ [""]) : Anchored unknown.keys := by
  obtain ⟨htable, -, -⟩ := h
  obtain ⟨table, key⟩ := unknown
  cases table with
  | nil =>
    refine ⟨key, [], rfl, ?_⟩
    rintro rfl
    exact hne rfl
  | cons first table =>
    exact ⟨first, table ++ [key], rfl, (htable.plain hplain first List.mem_cons_self).1⟩

/-- An overlay with a node at an unknown key is the tree of a file. -/
theorem Of.exists_file (h : unknown.Of Schema.indexer tree) {world : World}
    {sources : List Source} {layer : Overlay} (hlayer : layer ∈ writes world sources) {node : Tree}
    (hnode : layer.tree.at? unknown.keys = some node) :
    ∃ file, Source.file file ∈ sources ∧ file.outcome world = .loaded layer.toCanonicalTree
      ∧ layer.origin = .file file.path := by
  refine (exists_source_of_mem_writes hlayer).resolve_right ?_
  rintro ⟨field, hfield, name, raw, rfl⟩
  have hinitial := Overlay.initial_of_at?_ofVariable hnode
  exact h.2.2.not_initial Schema.indexer_plain h.1 field hfield hinitial

end UnknownKey

theorem originOf_root (layers : List Overlay) :
    (overlaid layers).provenance.originOf "" = .inline := by
  have halone : ancestors "" = [""] := rfl
  simp [originOf, halone, get?_overlaid_root]

/-- **Which source an unknown key blames.** An unknown key stems from a file, the last one to have a
node there. It blames that file, if neither the file's overlay nor a later one disturbs the record
of the key; if a later one does, it blames one of the later overlays, which may be that of a
variable. The key without characters at the root always blames the inline document, as does any
other path whose record went with something written like the root. -/
theorem unknownField_origin_eq_lastSpeaker (world : World) (sources : List Source) (path : String)
    (origin : Origin) (h : (resolve world sources).Reports (.unknownField path origin)) :
    ∃ unknown : UnknownKey, unknown.Of Schema.indexer (reached world sources).merged
      ∧ path = unknown.path
      ∧ LastWith
        (fun stage => stage.Speaks (dotted unknown.keys)
          ∧ Blamed (dotted unknown.keys) stage.layer.origin origin)
        (fun later => ¬ later.Speaks (dotted unknown.keys)) (stages (writes world sources))
      ∧ (unknown.keys = [""] → origin = .inline)
      ∧ ∃ before stage after file, stages (writes world sources) = before ++ stage :: after
        ∧ Source.file file ∈ sources ∧ file.outcome world = .loaded stage.layer.toCanonicalTree
        ∧ (∃ node, stage.layer.tree.at? unknown.keys = some node)
        ∧ (∀ later ∈ after, later.layer.tree.at? unknown.keys = none)
        ∧ (unknown.keys ≠ [""] →
          (∀ other ∈ stage :: after, ¬ other.Disturbs unknown.keys) → origin = .file file.path)
        ∧ ((∃ later ∈ after, later.Disturbs unknown.keys) →
          ∃ later ∈ after, Blamed (dotted unknown.keys) later.layer.origin origin) := by
  obtain ⟨unknown, hof, hpath, horigin⟩ := unknown_of_reports h
  obtain ⟨hmerged, hrecord⟩ := reached_eq_overlaid world sources
  have hlayers := fun layer (hlayer : layer ∈ writes world sources) => isTable_writes hlayer
  obtain ⟨node, hnode⟩ := hof.2.1
  rw [hmerged] at hnode
  rw [hrecord] at horigin
  obtain ⟨before, stage, after, hsplit, ⟨value, hvalue⟩, hunset, hrecorded⟩ :=
    exists_last_node_stage hlayers unknown.keys_ne_nil hnode
  have hmem : ∀ other ∈ stage :: after, other ∈ stages (writes world sources) := by
    intro other hother
    rw [hsplit]
    exact List.mem_append_right _ hother
  have hstage := hmem stage List.mem_cons_self
  obtain ⟨file, hfile, houtcome, hfileOrigin⟩ :=
    hof.exists_file (layer_mem_of_mem_stages hstage) hvalue
  have hlast := lastWith_originOf ⟨stage, hstage, Stage.speaks_of_node hvalue⟩
  rw [← horigin] at hlast
  refine ⟨unknown, hof, hpath, hlast, fun hroot => ?_, before, stage, after, file, hsplit, hfile,
    houtcome, ⟨value, hvalue⟩, hunset, fun hne hcalm => ?_,
    fun ⟨disturber, hdisturber, hdisturbs⟩ => ?_⟩
  · have hempty : dotted unknown.keys = "" := by rw [hroot]; rfl
    rw [horigin, hempty, originOf_root]
  · rw [horigin, ← hfileOrigin]
    exact originOf_eq_of_get? (hrecorded (hof.anchored Schema.indexer_plain hne) hcalm)
  · -- the last overlay that speaks is the disturbing one or comes after it
    rw [hsplit, ← List.singleton_append, ← List.append_assoc] at hlast
    obtain ⟨speaker, hafter, -, hblamed⟩ :=
      (hlast.of_append hdisturber (not_not.mpr hdisturbs.speaks)).exists_mem
    exact ⟨speaker, hafter, hblamed⟩

def unknownWorld : World :=
  .ofTexts [("base.toml", "\"\" = 1\n\"metrics.port\" = 2\n[tap]\nlimit = 3\n")]

def variableOverUnknown : List Source :=
  [.file (.mandatory "base.toml"),
    .environment (.fixed "INDEXER_" [("INDEXER_METRICS__PORT", "9")])]

/-- A key whose path nothing else shares blames its file. -/
theorem unknownField_origin_eq_lastSpeaker_file :
    (resolve unknownWorld variableOverUnknown).Reports
        (.unknownField "tap.limit" (.file "base.toml"))
      ∧ ∃ unknown : UnknownKey,
        unknown.Of Schema.indexer (reached unknownWorld variableOverUnknown).merged
        ∧ "tap.limit" = unknown.path
        ∧ LastWith
          (fun stage => stage.Speaks (dotted unknown.keys)
            ∧ Blamed (dotted unknown.keys) stage.layer.origin (.file "base.toml"))
          (fun later => ¬ later.Speaks (dotted unknown.keys))
          (stages (writes unknownWorld variableOverUnknown)) := by
  have hreports : (resolve unknownWorld variableOverUnknown).Reports
      (.unknownField "tap.limit" (.file "base.toml")) := by
    decide +kernel
  obtain ⟨unknown, hof, hpath, hlast, -⟩ := unknownField_origin_eq_lastSpeaker unknownWorld
    variableOverUnknown "tap.limit" (.file "base.toml") hreports
  exact ⟨hreports, unknown, hof, hpath, hlast⟩

/-- Only the file holds the two keys. A variable takes the blame for the quoted one, which reads
like the path of its field, and the one without characters is blamed on a document that is not
there. -/
theorem unknown_keys_blamed_on_no_file :
    writes unknownWorld variableOverUnknown
        = [⟨⟨.table [("", .int 1), ("metrics.port", .int 2),
              ("tap", .table [("limit", .int 3)])], by decide⟩, .file "base.toml"⟩,
          ⟨.nest ["metrics", "port"] (.int 9) trivial, .env "INDEXER_METRICS__PORT"⟩]
      ∧ (resolve unknownWorld variableOverUnknown).Reports
        (.unknownField "\"metrics.port\"" (.env "INDEXER_METRICS__PORT"))
      ∧ (resolve unknownWorld variableOverUnknown).Reports (.unknownField "" .inline)
      ∧ ¬ ∀ path origin, (resolve unknownWorld variableOverUnknown).Reports
          (.unknownField path origin) → ∃ file, origin = .file file := by
  have hempty : (resolve unknownWorld variableOverUnknown).Reports (.unknownField "" .inline) := by
    decide +kernel
  refine ⟨by decide +kernel, by decide +kernel, hempty, fun h => ?_⟩
  obtain ⟨file, hfile⟩ := h "" .inline hempty
  simp at hfile

end LayeredConfig
