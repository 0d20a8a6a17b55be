import LayeredConfig.Proofs.LogsAndValues
import LayeredConfig.Proofs.LossyDecoding
import LayeredConfig.Proofs.Spellings

/-!
# What becomes of every variable

No variable of a family goes missing. The snapshot has each variable whose name begins like the
family's, by its text if it is one and else by name, under the name that lossy decoding gives it.
Of those, the source reports each name that is of the family and no text, and applies or ignores
each variable of the family in the order of the names. The others leave no trace.
-/

namespace LayeredConfig

/-! ### The snapshot of the process -/

namespace Snapshot

/-- A variable of which the name or the value is no text goes by its lossy name. -/
theorem unreadableName?_eq_some_iff {entry : Bytes × Bytes} {name : String} :
    unreadableName? entry = some name
      ↔ Utf8.decodeLossy entry.1 = name
        ∧ (Utf8.decode? entry.1 = none ∨ Utf8.decode? entry.2 = none) := by
  unfold unreadableName? readable?
  cases hname : Utf8.decode? entry.1 with
  | none => simp
  | some text =>
    rw [Utf8.decodeLossy_of_decode? hname]
    cases Utf8.decode? entry.2 <;> simp

/-- Names that decode alike are the same bytes. -/
theorem nodup_readable (environment : Environment) :
    ((environment.bindings.filterMap readable?).map Prod.fst).Nodup := by
  rw [List.nodup_iff_pairwise_ne, List.pairwise_map, List.pairwise_filterMap]
  refine environment.ascending.imp fun {entry later} hlt => ?_
  rintro ⟨name, raw⟩ hentry ⟨other, otherRaw⟩ hlater rfl
  have hname := Utf8.decode?_eq_some_iff.mp (readable?_eq_some_iff.mp hentry).1
  have hother := Utf8.decode?_eq_some_iff.mp (readable?_eq_some_iff.mp hlater).1
  rw [hname, hother] at hlt
  exact List.lt_irrefl _ hlt

theorem mem_bindings_ofProcess_iff {environment : Environment} {family name raw : String} :
    (name, raw) ∈ (ofProcess family environment).bindings
      ↔ Text.beginsWith name family = true ∧ ∃ entry ∈ environment.bindings,
        Utf8.decode? entry.1 = some name ∧ Utf8.decode? entry.2 = some raw := by
  have hnodup : (((environment.bindings.filterMap readable?).filter fun entry =>
      Text.beginsWith entry.1 family).map Prod.fst).Nodup :=
    (nodup_readable environment).sublist (List.filter_sublist.map _)
  change (name, raw) ∈ Keyed.ofList _ ↔ _
  rw [(Keyed.perm_ofList hnodup).mem_iff, List.mem_filter, List.mem_filterMap, and_comm]
  simp only [readable?_eq_some_iff]

theorem mem_unreadable_ofProcess_iff {environment : Environment} {family name : String} :
    name ∈ (ofProcess family environment).unreadable
      ↔ Text.beginsWith name family = true ∧ ∃ entry ∈ environment.bindings,
        Utf8.decodeLossy entry.1 = name
          ∧ (Utf8.decode? entry.1 = none ∨ Utf8.decode? entry.2 = none) := by
  change name ∈ Keyed.keys (Keyed.ofList _) ↔ _
  rw [Keyed.mem_keys_ofList_iff, List.map_map, and_comm]
  simp [unreadableName?_eq_some_iff]

end Snapshot

/-! ### The variables of the family -/

theorem Override.isSome_target? (schema : Schema) (family name : String) :
    (target? schema family name).isSome = (segments? family name).isSome :=
  Option.isSome_map

theorem Override.beginsWith_of_segments? {family name : String}
    (h : (segments? family name).isSome = true) : Text.beginsWith name family = true := by
  rw [segments?, Option.isSome_map, suffix?] at h
  cases hafter : Text.after? family.toList name.toList with
  | none => simp [hafter] at h
  | some rest =>
    rw [Text.beginsWith, List.isPrefixOf_iff_prefix, after?_eq_some_iff.mp hafter]
    exact List.prefix_append _ _

namespace VariableSource

/-- The snapshot holds the variables whose names begin like the family's, and no others. Those of
the process are held with their texts if the name and the value are text, and otherwise by their
lossy names. -/
structure Complete (source : VariableSource) (environment : Environment) (seen : Snapshot) :
    Prop where
  readable : source.given = none → ∀ name raw, (name, raw) ∈ seen.bindings
    ↔ Text.beginsWith name source.family = true ∧ ∃ entry ∈ environment.bindings,
      Utf8.decode? entry.1 = some name ∧ Utf8.decode? entry.2 = some raw
  unreadable : source.given = none → ∀ name, name ∈ seen.unreadable
    ↔ Text.beginsWith name source.family = true ∧ ∃ entry ∈ environment.bindings,
      Utf8.decodeLossy entry.1 = name
        ∧ (Utf8.decode? entry.1 = none ∨ Utf8.decode? entry.2 = none)
  given : ∀ given, source.given = some given →
    seen.bindings = given.bindings.filter (fun entry => Text.beginsWith entry.1 source.family)
      ∧ seen.unreadable = []
  ascending : Keyed.Ascending seen.bindings
  once : seen.unreadable.Pairwise (· < ·)

/-- What is logged of a variable of the family and laid over the tree: it sets the field that it
names, or it is ignored. -/
inductive Handled (family : String) : String × String → Event × List Overlay → Prop
  | applied {name raw : String} {field : Field} (hfield : field ∈ Schema.indexer.fields)
      (htarget : Override.target? Schema.indexer family name = some (.ok field)) :
      Handled family (name, raw) (.variableApplied name field.path,
        [.ofVariable name raw field])
  | ignored {name raw : String} {skip : Skip}
      (htarget : Override.target? Schema.indexer family name = some (.error skip)) :
      Handled family (name, raw) (.variableIgnored name skip, [])

def step (attempt : String × String × Except Skip Field) : Event × List Overlay :=
  (event attempt, (overlay? attempt).toList)

theorem forall₂_handled (source : VariableSource) (seen : Snapshot) :
    List.Forall₂ (Handled source.family)
      (seen.bindings.filter fun binding =>
        (Override.segments? source.family binding.1).isSome)
      ((source.attempts Schema.indexer seen).map step) := by
  simp only [attempts, ← Override.isSome_target? Schema.indexer]
  induction seen.bindings with
  | nil => exact .nil
  | cons binding bindings ih =>
    obtain ⟨name, raw⟩ := binding
    cases htarget : Override.target? Schema.indexer source.family name with
    | none => simpa [htarget] using ih
    | some target =>
      have hhandled : Handled source.family (name, raw) (step (name, raw, target)) := by
        cases target with
        | ok field => exact .applied (target?_mem htarget) htarget
        | error skip => exact .ignored htarget
      simp only [List.filter_cons, List.filterMap_cons, htarget, Option.isSome_some, if_true,
        Option.map_some, List.map_cons]
      exact .cons hhandled ih

theorem flatMap_overlays (attempts : List (String × String × Except Skip Field)) :
    (attempts.map step).flatMap Prod.snd = attempts.filterMap overlay? := by
  rw [List.flatMap_map, List.filterMap_eq_flatMap_toList]
  rfl

theorem warn_iff (attempt : String × String × Except Skip Field) :
    (step attempt).1.level = .warn ↔ (step attempt).2 = [] := by
  obtain ⟨name, raw, target⟩ := attempt
  cases target <;> simp [step, event, overlay?, Event.level]

theorem snapshot_of_process {source : VariableSource} (h : source.given = none)
    (environment : Environment) :
    source.snapshot environment = Snapshot.ofProcess source.family environment := by
  rw [snapshot, h]

theorem snapshot_of_given {source : VariableSource} {given : Variables}
    (h : source.given = some given) (environment : Environment) :
    source.snapshot environment = Snapshot.ofGiven source.family given := by
  rw [snapshot, h]

theorem complete_snapshot (source : VariableSource) (environment : Environment) :
    source.Complete environment (source.snapshot environment) where
  readable hgiven name raw := by
    rw [snapshot_of_process hgiven]
    exact Snapshot.mem_bindings_ofProcess_iff
  unreadable hgiven name := by
    rw [snapshot_of_process hgiven]
    exact Snapshot.mem_unreadable_ofProcess_iff
  given given hgiven := by
    rw [snapshot_of_given hgiven]
    exact ⟨rfl, rfl⟩
  ascending := (source.snapshot environment).ascending
  once := (source.snapshot environment).once

end VariableSource

/-- **Every variable is accounted for.** The snapshot of a source is complete. Whatever the state,
the source reports each variable that is no text and of the family, once, and writes nothing for it.
Each variable of the family that is text is handled once, in the order of the names: one event is
logged for it, and either one overlay goes over its field, or the event is a warning. Nothing else
is reported, logged or written, so that names that begin like the family's and are not of it leave
no trace. -/
theorem variables_accounted_for (world : World) (source : VariableSource) :
    let seen := source.snapshot world.environment
    let contribution := source.contribution world Schema.indexer
    let ofFamily (name : String) : Bool := (Override.segments? source.family name).isSome
    source.Complete world.environment seen
      ∧ (∀ name, ofFamily name = true → Text.beginsWith name source.family = true)
      ∧ ∃ steps : List (Event × List Overlay),
        List.Forall₂ (VariableSource.Handled source.family)
            (seen.bindings.filter fun binding => ofFamily binding.1) steps
          ∧ (∀ step ∈ steps, step.1.level = .warn ↔ step.2 = [])
          ∧ contribution.events = steps.map Prod.fst
          ∧ ∀ state : Resolution,
            let written := (steps.flatMap Prod.snd).foldl Resolution.overlay state
            (state.add contribution).merged = written.merged
              ∧ (state.add contribution).provenance = written.provenance
              ∧ (state.add contribution).violations
                = state.violations ++ (seen.unreadable.filter ofFamily).map fun name =>
                  .malformedSource (.env name) "variable is not valid unicode" := by
  intro seen contribution ofFamily
  refine ⟨source.complete_snapshot world.environment,
    fun name hname => Override.beginsWith_of_segments? hname, _, source.forall₂_handled seen,
    ?_, ?_, fun state => ?_⟩
  · intro step hstep
    obtain ⟨attempt, -, rfl⟩ := List.mem_map.mp hstep
    exact VariableSource.warn_iff attempt
  · rw [List.map_map]
    rfl
  · rw [VariableSource.flatMap_overlays]
    exact ⟨rfl, rfl, rfl⟩

/-- Variables of a process, of which one has a value and one a name that is no text. -/
def mixedWorld : World where
  read _ := .error .notFound
  environment := .ofList [
    (Utf8.encode "INDEXERS", Utf8.encode "x"),
    (Utf8.encode "INDEXER_CACHE", Utf8.encode "1"),
    (Utf8.encode "INDEXER_METRICS__PORT", Utf8.encode "80"),
    (Utf8.encode "INDEXER_TAP", [0xFF]),
    (Utf8.encode "INDEXER_" ++ [0xFF], Utf8.encode "y")]

/-- The name that only begins like the family's is seen, and nothing comes of it. -/
theorem variables_accounted_for_mixed :
    let source := VariableSource.process "INDEXER"
    let contribution := source.contribution mixedWorld Schema.indexer
    ("INDEXERS", "x") ∈ (source.snapshot mixedWorld.environment).bindings
      ∧ Override.segments? "INDEXER" "INDEXERS" = none
      ∧ contribution.events
        = [.variableIgnored "INDEXER_CACHE" (.unknown "cache"),
          .variableApplied "INDEXER_METRICS__PORT" "metrics.port"]
      ∧ ∀ state : Resolution, (state.add contribution).violations = state.violations
        ++ [.malformedSource (.env "INDEXER_TAP") "variable is not valid unicode",
          .malformedSource (.env "INDEXER_\uFFFD") "variable is not valid unicode"] := by
  intro source contribution
  obtain ⟨hcomplete, -, steps, -, -, -, heffects⟩ := variables_accounted_for mixedWorld source
  refine ⟨?_, by decide +kernel, by decide +kernel, fun state => ?_⟩
  · refine (hcomplete.readable rfl "INDEXERS" "x").mpr ⟨by decide +kernel,
      (Utf8.encode "INDEXERS", Utf8.encode "x"), by decide +kernel, ?_, ?_⟩
    · exact Utf8.decode?_encode "INDEXERS"
    · exact Utf8.decode?_encode "x"
  · have hreported : ((source.snapshot mixedWorld.environment).unreadable.filter fun name =>
        (Override.segments? source.family name).isSome) = ["INDEXER_TAP", "INDEXER_\uFFFD"] := by
      decide +kernel
    rw [(heffects state).2.2, hreported]
    rfl

end LayeredConfig
