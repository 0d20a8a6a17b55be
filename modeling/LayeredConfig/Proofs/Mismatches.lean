import LayeredConfig.Proofs.Blame
import LayeredConfig.Proofs.Reports

/-!
# Which source a mismatch blames

A mismatch is about a node of the merged tree, at a field or on the way to one. It should blame the
last overlay that has a node there, and does so unless the record of that node has been disturbed:
by then another overlay speaks for the path, one that may have nothing there at all.
-/

namespace LayeredConfig

open KeyPath Provenance

/-- A mismatch that a run reports is about a node of the merged tree that plain keys lead to. -/
theorem mismatch_of_reports {world : World} {sources : List Source}
    {path expected found : String} {origin : Origin}
    (hreports : (resolve world sources).Reports (.typeMismatch path expected found origin)) :
    ∃ keys node, keys ≠ [] ∧ (∀ key ∈ keys, Plain key) ∧ path = dotted keys
      ∧ (reached world sources).merged.at? keys = some node ∧ found = node.describe
      ∧ origin = (reached world sources).provenance.originOf path := by
  rcases problem_or_unknown_of_reports hreports (by simp) (by simp) with
    ⟨problem, hof, hproblem⟩ | ⟨unknown, -, hunknown⟩
  · cases problem with
    | notATable keys value =>
      obtain ⟨htable, hvalue, hleaf⟩ := hof
      obtain ⟨rfl, -, rfl, rfl⟩ := Violation.typeMismatch.inj hproblem
      refine ⟨keys, value, ?_, htable.plain Schema.indexer_plain, rfl, hvalue, rfl, rfl⟩
      -- a merged tree is a table, so the value is not at the root
      rintro rfl
      obtain rfl := Option.some.inj hvalue
      simp [isTable_reached world sources] at hleaf
    | mistyped field value =>
      obtain ⟨hfield, hvalue, -⟩ := hof
      obtain ⟨rfl, -, rfl, rfl⟩ := Violation.typeMismatch.inj hproblem
      obtain ⟨hkeys, hplain⟩ := Schema.indexer_plain field hfield
      exact ⟨field.keys, value, hkeys, hplain, rfl, hvalue, rfl, rfl⟩
    | _ => simp [Problem.violation] at hproblem
  · simp [UnknownKey.violation] at hunknown

/-- **Which source a mismatch blames.** A mismatch is about a node of the merged tree. It blames the
last overlay that speaks for the path. That is the last overlay with a node there, if neither it nor
a later one disturbs the record of the node, and a later one with nothing there, if some later one
disturbs it. -/
theorem typeMismatch_origin_eq_lastSpeaker (world : World) (sources : List Source)
    (path expected found : String) (origin : Origin)
    (h : (resolve world sources).Reports (.typeMismatch path expected found origin)) :
    (∃ node, (reached world sources).merged.at? (segments path) = some node
        ∧ found = node.describe)
    ∧ (∀ other, origin = other
        ↔ LastWith (fun stage => stage.Speaks path ∧ stage.layer.origin = other)
            (fun later => ¬ later.Speaks path) (stages (writes world sources)))
    ∧ ∃ before stage after, stages (writes world sources) = before ++ stage :: after
      ∧ (∃ node, stage.layer.tree.at? (segments path) = some node)
      ∧ (∀ later ∈ after, later.layer.tree.at? (segments path) = none)
      ∧ ((∀ other ∈ stage :: after, ¬ other.Disturbs (segments path)) →
        origin = stage.layer.origin)
      ∧ ((∃ later ∈ after, later.Disturbs (segments path)) →
        ∃ later ∈ after, origin = later.layer.origin) := by
  obtain ⟨keys, node, hkeys, hplain, rfl, hnode, hfound, horigin⟩ := mismatch_of_reports h
  obtain ⟨hmerged, hrecord⟩ := reached_eq_overlaid world sources
  have hlayers := fun layer (hlayer : layer ∈ writes world sources) => isTable_writes hlayer
  rw [hmerged] at hnode
  rw [hrecord] at horigin
  rw [segments_dotted hkeys hplain, hmerged]
  obtain ⟨before, stage, after, hsplit, hset, hunset, hrecorded⟩ :=
    exists_last_stage hlayers hkeys hplain hnode
  have hmem : ∀ other ∈ stage :: after, other ∈ stages (writes world sources) := by
    intro other hother
    rw [hsplit]
    exact List.mem_append_right _ hother
  have hspoken : ∃ other ∈ stages (writes world sources), other.Speaks (dotted keys) := by
    obtain ⟨value, hvalue⟩ := hset
    exact ⟨stage, hmem stage List.mem_cons_self, Stage.speaks_of_node hvalue⟩
  have hlast : ∀ other, origin = other
      ↔ LastWith (fun stage => stage.Speaks (dotted keys) ∧ stage.layer.origin = other)
          (fun later => ¬ later.Speaks (dotted keys)) (stages (writes world sources)) := by
    intro other
    rw [← originOf_overlaid_iff (empty_not_mem_ancestors hkeys hplain) other, horigin]
    exact (and_iff_right hspoken).symm
  refine ⟨⟨node, hnode, hfound⟩, hlast, before, stage, after, hsplit, hset, hunset,
    fun hcalm => ?_, fun ⟨disturber, hdisturber, hdisturbs⟩ => ?_⟩
  · rw [horigin]
    exact originOf_eq_of_get? (hrecorded hcalm)
  · -- the last overlay that speaks is the disturbing one or comes after it
    have hspeaker := (hlast origin).mp rfl
    rw [hsplit, ← List.singleton_append, ← List.append_assoc] at hspeaker
    obtain ⟨speaker, hafter, -, hblamed⟩ :=
      (hspeaker.of_append hdisturber (not_not.mpr hdisturbs.speaks)).exists_mem
    exact ⟨speaker, hafter, hblamed.symm⟩

def mismatchWorld : World :=
  .ofTexts [("base.toml", "[metrics]\nport = \"x\"\n"), ("site.toml", "[metrics]\n"),
    ("quoted.toml", "\"metrics.port\" = 1\n")]

def tableOverMismatch : List Source :=
  [.file (.mandatory "base.toml"), .file (.mandatory "site.toml")]

def quotedOverMismatch : List Source :=
  [.file (.mandatory "base.toml"), .file (.mandatory "quoted.toml")]

/-- A later table around the value takes nothing from the source of the value. -/
theorem typeMismatch_origin_eq_lastSpeaker_table :
    (resolve mismatchWorld tableOverMismatch).Reports
        (.typeMismatch "metrics.port" "integer" "string \"x\"" (.file "base.toml"))
      ∧ LastWith (fun stage => stage.Speaks "metrics.port" ∧ stage.layer.origin = .file "base.toml")
        (fun later => ¬ later.Speaks "metrics.port")
        (stages (writes mismatchWorld tableOverMismatch)) := by
  have hreports : (resolve mismatchWorld tableOverMismatch).Reports
      (.typeMismatch "metrics.port" "integer" "string \"x\"" (.file "base.toml")) := by
    decide +kernel
  have hblame :=
    typeMismatch_origin_eq_lastSpeaker mismatchWorld tableOverMismatch _ _ _ _ hreports
  exact ⟨hreports, (hblame.2.1 (.file "base.toml")).mp rfl⟩

/-- A quoted key that reads like the path of the port takes the blame for the port's value, although
the other file is the last with a node there. -/
theorem quoted_key_takes_blame :
    (resolve mismatchWorld quotedOverMismatch).Reports
        (.typeMismatch "metrics.port" "integer" "string \"x\"" (.file "quoted.toml"))
      ∧ ¬ LastWith
        (fun layer => (∃ node, layer.tree.at? (segments "metrics.port") = some node)
          ∧ layer.origin = .file "quoted.toml")
        (fun later => later.tree.at? (segments "metrics.port") = none)
        (writes mismatchWorld quotedOverMismatch) := by
  refine ⟨by decide +kernel, ?_⟩
  have hwrites : writes mismatchWorld quotedOverMismatch
      = ([] ++ [⟨.nest ["metrics", "port"] (.string "x") trivial, .file "base.toml"⟩])
        ++ [⟨.nest ["metrics.port"] (.int 1) trivial, .file "quoted.toml"⟩] := by
    decide +kernel
  have hsegments : segments "metrics.port" = ["metrics", "port"] := by decide +kernel
  rw [hwrites, hsegments, lastWith_append_singleton, lastWith_append_singleton]
  simp [not_lastWith_nil, CanonicalTree.nest, Tree.nest, Tree.at?_table_cons, Keyed.get?_cons]

end LayeredConfig
