import LayeredConfig.Proofs.LastWrite
import LayeredConfig.Proofs.UnknownKeys

/-!
# How runs end

A run that ends well has settings that break no invariant, from a merged tree that nothing is wrong
with. It fails in one of three ways. There may be violations, those of the sources in their order
and then those of the schema; or the merged tree cannot be decoded; or the settings break an
invariant. The report holds nothing else, so that each violation of it can be traced to where it
comes from.
-/

namespace LayeredConfig

/-- The run fails, and the violation is in its report. -/
def Outcome.Reports {α : Type} (outcome : Outcome α) (violation : Violation) : Prop :=
  ∃ report, outcome.result = .error report ∧ violation ∈ report.violations

instance {α : Type} (outcome : Outcome α) (violation : Violation) :
    Decidable (outcome.Reports violation) :=
  match h : outcome.result with
  | .error report => decidable_of_iff (violation ∈ report.violations)
      ⟨fun hmem => ⟨report, h, hmem⟩,
        fun ⟨_, hother, hmem⟩ => Except.error.inj (h.symm.trans hother) ▸ hmem⟩
  | .ok _ => isFalse fun ⟨_, hother, _⟩ => nomatch h.symm.trans hother

/-! ### Layers and violations of the sources -/

/-- Every source adds one layer, whatever it holds. -/
theorem layers_reached (world : World) (sources : List Source) :
    (reached world sources).layers
      = sources.map fun source => (source.contribution world Schema.indexer).layer := by
  induction sources using List.reverseRecOn with
  | nil => rfl
  | append_singleton sources source ih =>
    rw [reached_append_singleton, List.map_append, ← ih]
    rfl

theorem violations_reached (world : World) (sources : List Source) :
    (reached world sources).violations
      = sources.flatMap fun source => (source.contribution world Schema.indexer).violations := by
  induction sources using List.reverseRecOn with
  | nil => rfl
  | append_singleton sources source ih =>
    rw [reached_append_singleton, List.flatMap_append, ← ih, List.flatMap_singleton]
    rfl

/-- A source is reported for a file that failed, or for a variable that is no text. -/
theorem malformed_of_mem_contribution {world : World} {source : Source} {violation : Violation}
    (h : violation ∈ (source.contribution world Schema.indexer).violations) :
    (∃ file message, source = .file file ∧ file.outcome world = .failed message
        ∧ violation = .malformedSource (.file file.path) message)
      ∨ ∃ vars name, source = .environment vars
        ∧ name ∈ (vars.snapshot world.environment).unreadable
        ∧ violation = .malformedSource (.env name) "variable is not valid unicode" := by
  cases source with
  | file source =>
    left
    change violation ∈ (source.contribution world).violations at h
    unfold FileSource.contribution at h
    cases houtcome : source.outcome world with
    | failed message =>
      rw [houtcome] at h
      exact ⟨source, message, rfl, houtcome, List.mem_singleton.mp h⟩
    | _ => simp [houtcome] at h
  | environment source =>
    right
    obtain ⟨name, hname, rfl⟩ := List.mem_map.mp h
    exact ⟨source, name, rfl, (List.mem_filter.mp hname).1, rfl⟩

/-! ### How a run ends -/

section Finish

variable {schema : Schema} {state : Resolution}

theorem finish_of_violations
    (h : state.violations ++ schema.violations state.merged state.provenance ≠ []) :
    (state.finish schema).result
      = .error ⟨state.violations ++ schema.violations state.merged state.provenance⟩ := by
  rw [Resolution.finish]
  simp only [if_pos h]

theorem finish_reports_of_mem {violation : Violation}
    (h : violation ∈ schema.violations state.merged state.provenance) :
    (state.finish schema).Reports violation :=
  ⟨_, finish_of_violations (List.append_ne_nil_of_right_ne_nil _ (List.ne_nil_of_mem h)),
    List.mem_append_right _ h⟩

theorem finish_of_undecodable {problem : DecodeError}
    (hviolations : state.violations ++ schema.violations state.merged state.provenance = [])
    (hdecode : Settings.decode state.merged = .error problem) :
    (state.finish schema).result
      = .error ⟨[.invalidValue "root" ("failed to decode: " ++ problem.message)]⟩ := by
  simp [Resolution.finish, hviolations, hdecode]

/-- A state that nothing is wrong with ends with its settings, or with what is wrong with them. -/
theorem finish_of_decode {settings : Settings}
    (hviolations : state.violations ++ schema.violations state.merged state.provenance = [])
    (hdecode : Settings.decode state.merged = .ok settings) :
    (state.finish schema).result
      = if settings.violations = [] then .ok ⟨settings, state.layers, state.provenance⟩
        else .error ⟨settings.violations⟩ := by
  by_cases hvalid : settings.violations = [] <;>
    simp [Resolution.finish, hviolations, hdecode, hvalid]

theorem finish_eq_ok {resolved : Resolved} (h : (state.finish schema).result = .ok resolved) :
    schema.violations state.merged state.provenance = []
      ∧ Settings.decode state.merged = .ok resolved.settings
      ∧ resolved.provenance = state.provenance ∧ resolved.layers = state.layers := by
  by_cases hviolations : state.violations ++ schema.violations state.merged state.provenance = []
  · cases hdecode : Settings.decode state.merged with
    | error problem => simp [finish_of_undecodable hviolations hdecode] at h
    | ok settings =>
      rw [finish_of_decode hviolations hdecode] at h
      split at h
      · obtain rfl := Except.ok.inj h
        exact ⟨(List.append_eq_nil_iff.mp hviolations).2, rfl, rfl, rfl⟩
      · simp at h
  · simp [finish_of_violations hviolations] at h

theorem finish_eq_error {report : Report} (h : (state.finish schema).result = .error report) :
    (state.violations ++ schema.violations state.merged state.provenance ≠ []
        ∧ report.violations
          = state.violations ++ schema.violations state.merged state.provenance)
      ∨ (state.violations ++ schema.violations state.merged state.provenance = []
        ∧ ((∃ problem, Settings.decode state.merged = .error problem
            ∧ report.violations
              = [.invalidValue "root" ("failed to decode: " ++ problem.message)])
          ∨ ∃ settings, Settings.decode state.merged = .ok settings ∧ settings.violations ≠ []
            ∧ report.violations = settings.violations)) := by
  by_cases hviolations : state.violations ++ schema.violations state.merged state.provenance = []
  · right
    refine ⟨hviolations, ?_⟩
    cases hdecode : Settings.decode state.merged with
    | error problem =>
      rw [finish_of_undecodable hviolations hdecode] at h
      obtain rfl := Except.error.inj h
      exact Or.inl ⟨problem, rfl, rfl⟩
    | ok settings =>
      rw [finish_of_decode hviolations hdecode] at h
      split at h
      · simp at h
      next hinvalid =>
        obtain rfl := Except.error.inj h
        exact Or.inr ⟨settings, rfl, hinvalid, rfl⟩
  · left
    rw [finish_of_violations hviolations] at h
    obtain rfl := Except.error.inj h
    exact ⟨hviolations, rfl⟩

end Finish

theorem invalid_of_mem_settings {settings : Settings} {violation : Violation}
    (h : violation ∈ settings.violations) :
    ∃ path reason, violation = .invalidValue path reason := by
  obtain ⟨⟨path, holds, defect⟩, -, hcondition⟩ := List.mem_filterMap.mp h
  cases holds with
  | true => simp at hcondition
  | false => exact ⟨_, _, (Option.some.inj hcondition).symm⟩

/-- What a run reports is a problem or an unknown key of the merged tree, unless it is a malformed
source or an invalid value. -/
theorem problem_or_unknown_of_reports {world : World} {sources : List Source}
    {violation : Violation} (h : (resolve world sources).Reports violation)
    (hsource : ∀ origin message, violation ≠ .malformedSource origin message)
    (hvalue : ∀ path reason, violation ≠ .invalidValue path reason) :
    (∃ problem : Problem, problem.Of Schema.indexer (reached world sources).merged
        ∧ problem.violation (reached world sources).provenance = violation)
      ∨ ∃ unknown : UnknownKey, unknown.Of Schema.indexer (reached world sources).merged
        ∧ unknown.violation (reached world sources).provenance = violation := by
  obtain ⟨report, hresult, hmem⟩ := h
  rw [resolve_result] at hresult
  rcases finish_eq_error hresult with
    ⟨-, hreport⟩ | ⟨-, ⟨problem, -, hreport⟩ | ⟨settings, -, -, hreport⟩⟩
  · rw [hreport, List.mem_append, violations_reached, List.mem_flatMap] at hmem
    rcases hmem with ⟨source, -, hmem⟩ | hmem
    · rcases malformed_of_mem_contribution hmem with ⟨_, _, -, -, rfl⟩ | ⟨_, _, -, -, rfl⟩ <;>
        exact absurd rfl (hsource _ _)
    · exact (mem_violations_iff Schema.indexer_plain Schema.indexer_separate (by decide)
        (reached world sources).canonical).mp hmem
  · rw [hreport] at hmem
    exact absurd (List.mem_singleton.mp hmem) (hvalue _ _)
  · obtain ⟨path, reason, rfl⟩ := invalid_of_mem_settings (hreport ▸ hmem)
    exact absurd rfl (hvalue path reason)

end LayeredConfig
