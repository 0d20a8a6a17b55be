import LayeredConfig.Proofs.Reports

/-!
# A document as text and as a file

A document that is given as text and the same document in a file are taken in by different paths.
They lead to the same merged tree, and to the same problems apart from where these are said to come
from. Whether a resolution succeeds, and with which settings, depends on no more than that.
-/

namespace LayeredConfig

/-- The violation without its origin. -/
def Violation.anonymous : Violation → Violation
  | typeMismatch path expected found _ => .typeMismatch path expected found .inline
  | malformedSource _ message => .malformedSource .inline message
  | unknownField path _ => .unknownField path .inline
  | violation => violation

theorem anonymous_violations {tree : Tree} (hcanonical : tree.Canonical)
    (record other : Provenance) :
    (Schema.indexer.violations tree record).map Violation.anonymous
      = (Schema.indexer.violations tree other).map Violation.anonymous := by
  obtain ⟨problems, unknown, hreport, -⟩ :=
    exists_report Schema.indexer_plain Schema.indexer_separate (by decide) hcanonical
  have hproblem (problem : Problem) :
      (problem.violation record).anonymous = (problem.violation other).anonymous := by
    cases problem <;> rfl
  -- the same findings for every record, so that only their origins can differ
  rw [hreport record, hreport other, List.map_append, List.map_append]
  simp only [List.map_map]
  exact congrArg₂ _ (List.map_congr_left fun problem _ => hproblem problem) rfl

/-- The contributions lay the same trees over others and have the same problems, but for origins. -/
structure Contribution.Alike (contribution other : Contribution) : Prop where
  trees : (contribution.overlays.map fun layer => layer.tree)
    = other.overlays.map fun layer => layer.tree
  violations : contribution.violations.map Violation.anonymous
    = other.violations.map Violation.anonymous

structure Resolution.Alike (state other : Resolution) : Prop where
  merged : state.merged = other.merged
  violations : state.violations.map Violation.anonymous
    = other.violations.map Violation.anonymous

theorem Resolution.Alike.refl (state : Resolution) : state.Alike state := ⟨rfl, rfl⟩

theorem Resolution.Alike.add {state other : Resolution} (h : state.Alike other)
    {contribution otherContribution : Contribution}
    (hcontribution : contribution.Alike otherContribution) :
    (state.add contribution).Alike (other.add otherContribution) where
  merged := by
    change (contribution.overlays.foldl Resolution.overlay state).merged
      = (otherContribution.overlays.foldl Resolution.overlay other).merged
    rw [merged_foldl_overlay, merged_foldl_overlay, hcontribution.trees, h.merged]
  violations := by
    change (state.violations ++ contribution.violations).map Violation.anonymous
      = (other.violations ++ otherContribution.violations).map Violation.anonymous
    rw [List.map_append, List.map_append, h.violations, hcontribution.violations]

/-- Both succeed with the same settings, or both fail and list the same problems in the same order,
but for origins. -/
def SameOutcome (result other : Except Report Settings) : Prop :=
  (∃ settings, result = .ok settings ∧ other = .ok settings)
    ∨ ∃ report otherReport, result = .error report ∧ other = .error otherReport
      ∧ report.violations.map Violation.anonymous
        = otherReport.violations.map Violation.anonymous

theorem Resolution.Alike.finish {state other : Resolution} (h : state.Alike other) :
    SameOutcome ((state.finish Schema.indexer).result.map Resolved.settings)
      ((other.finish Schema.indexer).result.map Resolved.settings) := by
  have hlisted : (state.violations
        ++ Schema.indexer.violations state.merged state.provenance).map Violation.anonymous
      = (other.violations
        ++ Schema.indexer.violations other.merged other.provenance).map Violation.anonymous := by
    rw [List.map_append, List.map_append, h.violations, ← h.merged,
      anonymous_violations state.canonical state.provenance other.provenance]
  by_cases hnothing :
      state.violations ++ Schema.indexer.violations state.merged state.provenance = []
  · -- nothing is listed on either side, and from here on the merged tree alone decides
    have hothers :
        other.violations ++ Schema.indexer.violations other.merged other.provenance = [] := by
      rwa [hnothing, List.map_nil, eq_comm, List.map_eq_nil_iff] at hlisted
    cases hdecode : Settings.decode state.merged with
    | error problem =>
      have hother := h.merged ▸ hdecode
      rw [finish_of_undecodable hnothing hdecode, finish_of_undecodable hothers hother]
      exact Or.inr ⟨_, _, rfl, rfl, rfl⟩
    | ok settings =>
      have hother := h.merged ▸ hdecode
      rw [finish_of_decode hnothing hdecode, finish_of_decode hothers hother]
      by_cases hvalid : settings.violations = []
      · rw [if_pos hvalid, if_pos hvalid]
        exact Or.inl ⟨settings, rfl, rfl⟩
      · rw [if_neg hvalid, if_neg hvalid]
        exact Or.inr ⟨_, _, rfl, rfl, rfl⟩
  · have hothers :
        other.violations ++ Schema.indexer.violations other.merged other.provenance ≠ [] := by
      intro hnil
      rw [hnil, List.map_nil, List.map_eq_nil_iff] at hlisted
      exact hnothing hlisted
    rw [finish_of_violations hnothing, finish_of_violations hothers]
    exact Or.inr ⟨_, _, rfl, rfl, hlisted⟩

/-! ### The two paths -/

/-- A document contributes the same as text and as the contents of a file. -/
theorem Contribution.alike_of_read {world : World} (source : FileSource) {contents : String}
    (hread : world.read source.path = .ok (Utf8.encode contents)) :
    (Contribution.ofText contents).Alike (source.contribution world) := by
  unfold Contribution.ofText FileSource.contribution
  cases hdocument : CanonicalTree.ofToml contents with
  | ok document =>
    have houtcome : source.outcome world = .loaded document := by
      simp [FileSource.outcome, hread, Utf8.decode?_encode, hdocument]
    rw [houtcome]
    exact ⟨rfl, rfl⟩
  | error problem =>
    have houtcome : source.outcome world = .failed problem.message := by
      simp [FileSource.outcome, hread, Utf8.decode?_encode, hdocument]
    rw [houtcome]
    exact ⟨rfl, rfl⟩

/-- **Text and file agree.** A resolution of one required file whose bytes are those of a text, and
a resolution of the text itself, either both succeed, with the same settings, or both fail, with the
same violations in the same order, apart from their origins. -/
theorem loadText_same_as_file (world : World) (path contents : String)
    (hread : world.read path = .ok (Utf8.encode contents)) :
    SameOutcome (loadText contents).result
      ((resolve world [.file (.mandatory path)]).result.map Resolved.settings) := by
  have hstates : (Resolution.start.add (Contribution.ofText contents)).Alike
      (reached world [.file (.mandatory path)]) :=
    (Resolution.Alike.refl .start).add (Contribution.alike_of_read (.mandatory path) hread)
  rw [resolve_result]
  exact hstates.finish

/-- What is wrong with this document is said to be wrong inline, or else in the file. -/
theorem loadText_same_as_file_broken :
    let contents := "[metrics]\nport = \"x\"\n[extra]\n"
    let world := World.ofTexts [("a.toml", contents)]
    world.read "a.toml" = .ok (Utf8.encode contents)
      ∧ (loadText contents).Reports (.unknownField "extra" .inline)
      ∧ (resolve world [.file (.mandatory "a.toml")]).Reports
        (.unknownField "extra" (.file "a.toml"))
      ∧ SameOutcome (loadText contents).result
        ((resolve world [.file (.mandatory "a.toml")]).result.map Resolved.settings) := by
  intro contents world
  have hread : world.read "a.toml" = .ok (Utf8.encode contents) := rfl
  exact ⟨hread, by decide +kernel, by decide +kernel,
    loadText_same_as_file world "a.toml" contents hread⟩

end LayeredConfig
