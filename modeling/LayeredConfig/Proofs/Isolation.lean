import LayeredConfig.Proofs.Reports

/-!
# Failing sources are isolated

A file that does not load adds a layer that says so, and a violation unless it is optional and not
there. It changes nothing else, so that the other sources amount to what they would amount to
without it. All failures are reported together, before the problems of the merged tree.
-/

namespace LayeredConfig

namespace FileSource

variable {world : World} {source : FileSource}

/-- The file can be read, is text, and the text is a document. -/
def Loads (world : World) (source : FileSource) : Prop :=
  ∃ bytes contents tree, world.read source.path = .ok bytes ∧ Utf8.decode? bytes = some contents
    ∧ Tree.ofToml contents = .ok tree

def PassedOver (world : World) (source : FileSource) : Prop :=
  source.required = false ∧ world.read source.path = .error .notFound

theorem loads_iff : source.Loads world ↔ ∃ document, source.outcome world = .loaded document := by
  constructor
  · rintro ⟨bytes, contents, tree, hread, hdecode, htree⟩
    obtain ⟨document, -, rfl⟩ := CanonicalTree.exists_of_ofToml htree
    exact ⟨document, outcome_eq_loaded_iff.mpr ⟨bytes, contents, hread, hdecode, htree⟩⟩
  · rintro ⟨document, h⟩
    obtain ⟨bytes, contents, h⟩ := outcome_eq_loaded_iff.mp h
    exact ⟨bytes, contents, document.tree, h⟩

theorem passedOver_iff : source.PassedOver world ↔ source.outcome world = .absent := by
  unfold PassedOver outcome
  cases hread : world.read source.path with
  | error problem =>
    by_cases habsent : problem = .notFound ∧ source.required = false
    · simp [habsent]
    · simp only [if_neg habsent, Except.error.injEq, reduceCtorEq, iff_false]
      exact fun h => habsent h.symm
  | ok bytes =>
    cases hdecode : Utf8.decode? bytes with
    | none => simp [hdecode]
    | some contents => cases hdocument : CanonicalTree.ofToml contents <;> simp [hdecode, hdocument]

instance : Decidable (source.Loads world) :=
  match h : source.outcome world with
  | .loaded document => isTrue (loads_iff.mpr ⟨document, h⟩)
  | .absent | .failed _ => isFalse fun hloads => by
    obtain ⟨document, hdocument⟩ := loads_iff.mp hloads
    simp [h] at hdocument

instance : Decidable (source.PassedOver world) :=
  match h : source.outcome world with
  | .absent => isTrue (passedOver_iff.mpr h)
  | .loaded _ | .failed _ => isFalse fun hpassed => by
    simp [passedOver_iff.mp hpassed] at h

theorem writes_of_not_loads (h : ¬ source.Loads world) : source.writes world = [] := by
  unfold writes
  split
  · rename_i document houtcome
    exact absurd (loads_iff.mpr ⟨document, houtcome⟩) h
  · rfl

theorem layer_of_not_loads (h : ¬ source.Loads world) :
    ∃ reason, (source.contribution world).layer = ⟨.file source.path, 0, some reason⟩ := by
  unfold contribution
  cases houtcome : source.outcome world with
  | loaded document => exact absurd (loads_iff.mpr ⟨document, houtcome⟩) h
  | absent => exact ⟨.fileNotFound, rfl⟩
  | failed message => exact ⟨.malformed, rfl⟩

theorem violations_of_loads (h : source.Loads world) :
    (source.contribution world).violations = [] := by
  obtain ⟨document, houtcome⟩ := loads_iff.mp h
  simp [contribution, houtcome]

theorem violations_of_passedOver (h : source.PassedOver world) :
    (source.contribution world).violations = [] := by
  simp [contribution, passedOver_iff.mp h]

theorem violations_of_failed (h : ¬ source.Loads world) (hpassed : ¬ source.PassedOver world) :
    ∃ message, (source.contribution world).violations
      = [.malformedSource (.file source.path) message] := by
  unfold contribution
  cases houtcome : source.outcome world with
  | loaded document => exact absurd (loads_iff.mpr ⟨document, houtcome⟩) h
  | absent => exact absurd (passedOver_iff.mpr houtcome) hpassed
  | failed message => exact ⟨message, rfl⟩

end FileSource

namespace Source

def label : Source → LayerSource
  | file source => .file source.path
  | environment source => .environment source.family

/-- The source has something to add. Variables always load, however few there are. -/
def Loads (world : World) : Source → Prop
  | file source => source.Loads world
  | environment _ => True

instance (world : World) (source : Source) : Decidable (source.Loads world) :=
  match source with
  | file source => inferInstanceAs (Decidable (source.Loads world))
  | environment _ => isTrue trivial

/-- What makes a run fail: a file that is due and does not load, or a variable that is no text. -/
def Fails (world : World) : Source → Prop
  | file source => ¬ source.Loads world ∧ ¬ source.PassedOver world
  | environment source => source.unreadable (source.snapshot world.environment) ≠ []

theorem label_layer (world : World) (source : Source) :
    (source.contribution world Schema.indexer).layer.source = source.label := by
  cases source with
  | file source =>
    change (source.contribution world).layer.source = .file source.path
    unfold FileSource.contribution
    cases source.outcome world <;> rfl
  | environment source => rfl

theorem fails_iff {world : World} {source : Source} :
    source.Fails world ↔ (source.contribution world Schema.indexer).violations ≠ [] := by
  cases source with
  | file source =>
    change ¬ source.Loads world ∧ ¬ source.PassedOver world
      ↔ (source.contribution world).violations ≠ []
    by_cases hloads : source.Loads world
    · simp [hloads, FileSource.violations_of_loads hloads]
    · by_cases hpassed : source.PassedOver world
      · simp [hpassed, FileSource.violations_of_passedOver hpassed]
      · obtain ⟨message, hviolations⟩ := FileSource.violations_of_failed hloads hpassed
        simp [hloads, hpassed, hviolations]
  | environment source => rfl

theorem writes_of_not_loads {world : World} {source : Source} (h : ¬ source.Loads world) :
    source.writes world = [] := by
  cases source with
  | file source => exact FileSource.writes_of_not_loads h
  | environment source => exact absurd trivial h

end Source

theorem writes_filter_loads (world : World) (sources : List Source) :
    writes world (sources.filter fun source => source.Loads world) = writes world sources := by
  induction sources with
  | nil => rfl
  | cons source rest ih =>
    by_cases hloads : source.Loads world
    · rw [List.filter_cons_of_pos (by simpa using hloads)]
      simp only [writes, List.flatMap_cons] at ih ⊢
      rw [ih]
    · rw [List.filter_cons_of_neg (by simpa using hloads), ih]
      simp [writes, Source.writes_of_not_loads hloads]

/-- Runs that lay the same trees over each other agree on the merged tree and its record. -/
theorem reached_congr {world : World} {sources others : List Source}
    (h : writes world sources = writes world others) :
    (reached world sources).merged = (reached world others).merged
      ∧ (reached world sources).provenance = (reached world others).provenance := by
  obtain ⟨hmerged, hrecord⟩ := reached_eq_overlaid world sources
  obtain ⟨hmergedOther, hrecordOther⟩ := reached_eq_overlaid world others
  rw [hmerged, hrecord, hmergedOther, hrecordOther, h]
  exact ⟨rfl, rfl⟩

/-- What a run with a file between other sources has in common with the run without it, and all that
the file adds. -/
structure Isolated (world : World) (before : List Source) (file : FileSource)
    (after : List Source) : Prop where
  merged : (reached world (before ++ .file file :: after)).merged
    = (reached world (before ++ after)).merged
  provenance : (reached world (before ++ .file file :: after)).provenance
    = (reached world (before ++ after)).provenance
  position : (reached world before).layers.length = before.length
  layers : (reached world (before ++ after)).layers
      = (reached world before).layers ++ (reached world after).layers
    ∧ ∃ reason, (reached world (before ++ .file file :: after)).layers
      = (reached world before).layers
        ++ ⟨.file file.path, 0, some reason⟩ :: (reached world after).layers
  violations : (reached world (before ++ after)).violations
      = (reached world before).violations ++ (reached world after).violations
    ∧ (file.PassedOver world → (reached world (before ++ .file file :: after)).violations
      = (reached world before).violations ++ (reached world after).violations)
    ∧ (¬ file.PassedOver world →
      ∃ message, (reached world (before ++ .file file :: after)).violations
        = (reached world before).violations
          ++ .malformedSource (.file file.path) message :: (reached world after).violations)

theorem isolated_of_not_loads {world : World} {file : FileSource} (h : ¬ file.Loads world)
    (before after : List Source) : Isolated world before file after := by
  have hwrites : writes world (before ++ .file file :: after) = writes world (before ++ after) := by
    simp [writes, Source.writes, FileSource.writes_of_not_loads h]
  obtain ⟨hmerged, hprovenance⟩ := reached_congr hwrites
  refine ⟨hmerged, hprovenance, by simp [layers_reached], ?_, ?_⟩
  · simp only [layers_reached, List.map_append, List.map_cons, true_and]
    obtain ⟨reason, hlayer⟩ := FileSource.layer_of_not_loads h
    exact ⟨reason, by rw [← hlayer]; rfl⟩
  · simp only [violations_reached, List.flatMap_append, List.flatMap_cons, true_and]
    refine ⟨fun hpassed => ?_, fun hpassed => ?_⟩
    · change _ ++ ((file.contribution world).violations ++ _) = _
      rw [FileSource.violations_of_passedOver hpassed, List.nil_append]
    · obtain ⟨message, hviolations⟩ := FileSource.violations_of_failed h hpassed
      refine ⟨message, ?_⟩
      change _ ++ ((file.contribution world).violations ++ _) = _
      rw [hviolations, List.singleton_append]

/-- Whatever is wrong with the sources or the merged tree makes the run fail, and is all that the
run then reports. -/
theorem exists_report_of_violations {world : World} {sources : List Source}
    (h : (reached world sources).violations ++ Schema.indexer.violations
      (reached world sources).merged (reached world sources).provenance ≠ []) :
    ∃ report, (resolve world sources).result = .error report
      ∧ report.violations = (reached world sources).violations ++ Schema.indexer.violations
        (reached world sources).merged (reached world sources).provenance :=
  ⟨⟨_⟩, (resolve_result world sources).trans (finish_of_violations h), rfl⟩

/-- **Failing sources are isolated, and all of them are reported.** A file that does not load adds
one layer, at its place, and one violation, unless it is passed over; apart from these the run
reaches what it would reach without the file. So there is one layer for each source, the merged tree
and its record depend on the sources that load, a run with a failing source fails, and it reports
the violations of the sources in their order before those of the schema. -/
theorem failing_sources_isolated (world : World) (sources : List Source) :
    (∀ before file after, sources = before ++ .file file :: after → ¬ file.Loads world →
        Isolated world before file after)
      ∧ (reached world sources).layers.map Layer.source = sources.map Source.label
      ∧ (reached world sources).merged
        = (reached world (sources.filter fun source => source.Loads world)).merged
      ∧ (reached world sources).provenance
        = (reached world (sources.filter fun source => source.Loads world)).provenance
      ∧ ((∃ source ∈ sources, source.Fails world) →
        ∃ report, (resolve world sources).result = .error report)
      ∧ ∀ report, (resolve world sources).result = .error report →
        (sources.flatMap fun source => (source.contribution world Schema.indexer).violations)
            ++ Schema.indexer.violations (reached world sources).merged
              (reached world sources).provenance ≠ [] →
        report.violations
          = (sources.flatMap fun source => (source.contribution world Schema.indexer).violations)
            ++ Schema.indexer.violations (reached world sources).merged
              (reached world sources).provenance := by
  obtain ⟨hmerged, hprovenance⟩ := reached_congr (writes_filter_loads world sources)
  refine ⟨fun before file after _ hfails => isolated_of_not_loads hfails before after, ?_,
    hmerged.symm, hprovenance.symm, ?_, ?_⟩
  · rw [layers_reached, List.map_map]
    exact List.map_congr_left fun source _ => source.label_layer world
  · rintro ⟨source, hsource, hfails⟩
    have hviolations : (reached world sources).violations ≠ [] := by
      rw [violations_reached]
      exact fun hnil => Source.fails_iff.mp hfails (List.flatMap_eq_nil_iff.mp hnil source hsource)
    obtain ⟨report, hreport, -⟩ :=
      exists_report_of_violations (List.append_ne_nil_of_left_ne_nil hviolations _)
    exact ⟨report, hreport⟩
  · intro report hreport hany
    rw [← violations_reached] at hany ⊢
    obtain ⟨other, hother, hlisted⟩ := exists_report_of_violations hany
    obtain rfl := Except.error.inj (hreport.symm.trans hother)
    exact hlisted

def brokenWorld : World :=
  .ofTexts [("base.toml", "[metrics]\nport = 1\n"), ("broken.toml", "[metrics\n"),
    ("late.toml", "[metrics]\nport = 2\n")]

/-- A document that does not end its first line leaves the port to the files around it. -/
theorem failing_sources_isolated_broken :
    (¬ (FileSource.mandatory "broken.toml").Loads brokenWorld
        ∧ ¬ (FileSource.mandatory "broken.toml").PassedOver brokenWorld)
      ∧ Isolated brokenWorld [.file (.mandatory "base.toml")] (.mandatory "broken.toml")
        [.file (.optional "absent.toml"), .file (.mandatory "late.toml")]
      ∧ ∃ report, (resolve brokenWorld [.file (.mandatory "base.toml"),
        .file (.mandatory "broken.toml"), .file (.optional "absent.toml"),
        .file (.mandatory "late.toml")]).result = .error report := by
  have hloads : ¬ (FileSource.mandatory "broken.toml").Loads brokenWorld := by decide +kernel
  have hpassed : ¬ (FileSource.mandatory "broken.toml").PassedOver brokenWorld := by
    decide +kernel
  obtain ⟨hisolated, -, -, -, hfails, -⟩ := failing_sources_isolated brokenWorld
    [.file (.mandatory "base.toml"), .file (.mandatory "broken.toml"),
      .file (.optional "absent.toml"), .file (.mandatory "late.toml")]
  have hmem : Source.file (.mandatory "broken.toml") ∈ [Source.file (.mandatory "base.toml"),
      .file (.mandatory "broken.toml"), .file (.optional "absent.toml"),
      .file (.mandatory "late.toml")] := by decide
  exact ⟨⟨hloads, hpassed⟩, hisolated [_] _ [_, _] rfl hloads, hfails ⟨_, hmem, hloads, hpassed⟩⟩

end LayeredConfig
