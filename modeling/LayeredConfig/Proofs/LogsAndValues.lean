import LayeredConfig.Proofs.ExactOrigins

/-!
# Logs do not depend on values

Logs may be read by those who must not know the settings. Two runs over the same sources, in which
the files have the same shape and the variables the same names, log the same events up to how they
end, whatever the values are. How a run ends depends on the values, and shows at most a number of
problems or of layers.
-/

namespace LayeredConfig

namespace Tree

/-! ### Shapes -/

/-- The trees have nodes at the same paths, and tables at the same ones of these. -/
def SameShape (tree other : Tree) : Prop :=
  ∀ path, (tree.at? path).map isTable = (other.at? path).map isTable

theorem SameShape.isTable_eq {tree other : Tree} (h : tree.SameShape other) :
    tree.isTable = other.isTable := by
  simpa using h []

theorem sameShape_of_leaves {tree other : Tree} (h : tree.isTable = false)
    (hother : other.isTable = false) : tree.SameShape other := by
  intro path
  cases path with
  | nil => simp [h, hother]
  | cons key path => simp [at?_cons_of_leaf h, at?_cons_of_leaf hother]

theorem SameShape.nest {tree other : Tree} (h : tree.SameShape other) (keys : List String) :
    (nest keys tree).SameShape (.nest keys other) := by
  induction keys with
  | nil => exact h
  | cons first keys ih =>
    intro path
    cases path with
    | nil => rfl
    | cons key path =>
      rw [Tree.nest, Tree.nest, at?_table_cons, at?_table_cons, Keyed.get?_cons, Keyed.get?_cons]
      by_cases hkey : first = key
      · simpa [hkey] using ih path
      · simp [hkey]

theorem leaves_of_leaf {tree : Tree} (h : tree.isTable = false) : tree.leaves = 1 :=
  leaves_nest [] h

theorem leavesIn_congr {entries others : List (String × Tree)}
    (h : entries.map (fun entry => entry.2.leaves) = others.map fun entry => entry.2.leaves) :
    leavesIn entries = leavesIn others := by
  induction entries generalizing others with
  | nil =>
    obtain rfl := List.map_eq_nil_iff.mp h.symm
    rfl
  | cons entry rest ih =>
    obtain ⟨other, otherRest, rfl, hother, hrest⟩ := List.map_eq_cons_iff.mp h.symm
    rw [leavesIn, leavesIn, ih hrest.symm, hother]

/-- Children at the same key of trees of one shape have the same shape. -/
theorem SameShape.child {entries others : List (String × Tree)}
    (h : (table entries).SameShape (.table others)) (key : String) :
    Option.Rel SameShape (Keyed.get? entries key) (Keyed.get? others key) := by
  have hbelow (path : List String) : ((Keyed.get? entries key).bind (·.at? path)).map isTable
      = ((Keyed.get? others key).bind (·.at? path)).map isTable := h (key :: path)
  cases hentry : Keyed.get? entries key with
  | none =>
    cases hother : Keyed.get? others key with
    | none => exact .none
    | some other => simpa [hentry, hother] using hbelow []
  | some child =>
    cases hother : Keyed.get? others key with
    | none => simpa [hentry, hother] using hbelow []
    | some other => exact .some fun path => by simpa [hentry, hother] using hbelow path

theorem SameShape.leaves_eq {tree other : Tree} (h : tree.SameShape other)
    (hcanonical : tree.Canonical) (hother : other.Canonical) : tree.leaves = other.leaves := by
  induction tree using tableInduction generalizing other with
  | leaf tree hleaf =>
    rw [leaves_of_leaf hleaf, leaves_of_leaf (h.isTable_eq ▸ hleaf)]
  | table entries ih =>
    obtain ⟨others, rfl⟩ := isTable_iff.mp h.isTable_eq.symm
    have hascending := (canonical_table_iff.mp hcanonical).1
    have hothersAscending := (canonical_table_iff.mp hother).1
    -- entry by entry, the same key and the same number
    have hcounts : entries.map (fun entry => (entry.1, entry.2.leaves))
        = others.map fun entry => (entry.1, entry.2.leaves) := by
      refine Keyed.eq_of_get? (List.pairwise_map.mpr hascending)
        (List.pairwise_map.mpr hothersAscending) fun key => ?_
      rw [Keyed.get?_map, Keyed.get?_map]
      have hchildren := h.child key
      generalize hchild : Keyed.get? entries key = child?,
        hotherChild : Keyed.get? others key = otherChild? at hchildren
      cases hchildren with
      | none => rfl
      | some hshape =>
        exact congrArg some (ih _ (Keyed.mem_of_get? hchild) hshape (hcanonical.child hchild)
          (hother.child hotherChild))
    have hnumbers := congrArg (List.map Prod.snd) hcounts
    rw [List.map_map, List.map_map] at hnumbers
    exact leavesIn_congr hnumbers

end Tree

/-! ### What two runs see alike -/

/-- The text of a file, or why there is none. -/
def World.text (world : World) (path : String) : Except ReadError String :=
  (world.read path).bind fun bytes => (Utf8.decode? bytes).elim (.error .notText) .ok

/-- The file cannot be read in either world, for the same reason; being absent is one. Or it is no
document in either; or it is a document of the same shape in both. -/
inductive FileSource.SameState (world other : World) (source : FileSource) : Prop
  | unreadable {problem : ReadError} (h : world.text source.path = .error problem)
      (hother : other.text source.path = .error problem)
  | unparsable {contents otherContents : String} {problem otherProblem : Toml.ParseError}
      (h : world.text source.path = .ok contents) (hparse : Tree.ofToml contents = .error problem)
      (hother : other.text source.path = .ok otherContents)
      (hotherParse : Tree.ofToml otherContents = .error otherProblem)
  | parsed {contents otherContents : String} {tree otherTree : Tree}
      (h : world.text source.path = .ok contents) (hparse : Tree.ofToml contents = .ok tree)
      (hother : other.text source.path = .ok otherContents)
      (hotherParse : Tree.ofToml otherContents = .ok otherTree)
      (hshape : tree.SameShape otherTree)

/-- The name is that of a variable of the family, and the variable is text. -/
def VariableSource.Sees (source : VariableSource) (world : World) (name : String) : Prop :=
  name ∈ Keyed.keys (source.snapshot world.environment).bindings

/-- The sources are the same but for values: those of files in the two worlds, and those of
variables in the two environments or given in advance. -/
inductive Source.Alike (world other : World) : Source → Source → Prop
  | file {source : FileSource} (h : source.SameState world other) :
      Alike world other (.file source) (.file source)
  | environment {source otherSource : VariableSource} (hfamily : source.family = otherSource.family)
      (hnames : ∀ name, source.Sees world name ↔ otherSource.Sees other name) :
      Alike world other (.environment source) (.environment otherSource)

/-! ### Files -/

namespace FileSource

variable {world other : World} {source : FileSource}

theorem outcome_eq_text : source.outcome world =
    match world.text source.path with
    | .error problem =>
      if problem = .notFound ∧ source.required = false then .absent
      else .failed ("failed to read: " ++ problem.message)
    | .ok contents =>
      match CanonicalTree.ofToml contents with
      | .ok document => .loaded document
      | .error problem => .failed problem.message := by
  unfold outcome World.text
  cases world.read source.path with
  | error problem => rfl
  | ok bytes =>
    cases hdecode : Utf8.decode? bytes with
    | none => simp [Except.bind, hdecode]
    | some contents =>
      cases hdocument : CanonicalTree.ofToml contents <;> simp [Except.bind, hdecode, hdocument]

theorem SameState.of_loaded {document otherDocument : CanonicalTree}
    (h : source.outcome world = .loaded document)
    (hother : source.outcome other = .loaded otherDocument)
    (hshape : document.tree.SameShape otherDocument.tree) : source.SameState world other := by
  have htext {world : World} {document : CanonicalTree}
      (h : source.outcome world = .loaded document) :
      ∃ contents, world.text source.path = .ok contents
        ∧ Tree.ofToml contents = .ok document.tree := by
    obtain ⟨bytes, contents, hread, hdecode, hparse⟩ := outcome_eq_loaded_iff.mp h
    exact ⟨contents, by simp [World.text, hread, hdecode, Except.bind], hparse⟩
  obtain ⟨contents, hcontents, hparse⟩ := htext h
  obtain ⟨otherContents, hotherContents, hotherParse⟩ := htext hother
  exact .parsed hcontents hparse hotherContents hotherParse hshape

theorem SameState.events_eq (h : source.SameState world other) :
    (source.contribution world).events = (source.contribution other).events := by
  unfold contribution
  rw [outcome_eq_text, outcome_eq_text]
  cases h with
  | @unreadable problem h hother =>
    rw [h, hother]
  | unparsable h hparse hother hotherParse =>
    rw [← CanonicalTree.ofToml_eq_error_iff] at hparse hotherParse
    rw [h, hother]
    simp only [hparse, hotherParse]
  | parsed h hparse hother hotherParse hshape =>
    obtain ⟨document, hdocument, rfl⟩ := CanonicalTree.exists_of_ofToml hparse
    obtain ⟨otherDocument, hotherDocument, rfl⟩ := CanonicalTree.exists_of_ofToml hotherParse
    have hleaves := hshape.leaves_eq document.canonical otherDocument.canonical
    rw [h, hother]
    simp only [hdocument, hotherDocument, hleaves]

end FileSource

/-! ### Variables -/

theorem Snapshot.readable?_eq_some_iff {entry : Bytes × Bytes} {name raw : String} :
    readable? entry = some (name, raw)
      ↔ Utf8.decode? entry.1 = some name ∧ Utf8.decode? entry.2 = some raw := by
  unfold readable?
  split <;> simp_all

namespace VariableSource

/-- What is logged of a variable, given its name. -/
def eventOf? (family name : String) : Option Event :=
  (Override.target? Schema.indexer family name).map fun
    | .ok field => .variableApplied name field.path
    | .error skip => .variableIgnored name skip

/-- A fixed source sees the variables of the family that it was given. -/
theorem sees_fixed_iff {family name : String} {pairs : List (String × String)} {world : World} :
    (fixed family pairs).Sees world name
      ↔ name ∈ pairs.map Prod.fst ∧ Text.beginsWith name family = true := by
  rw [← Keyed.mem_keys_ofList_iff]
  simp [Sees, fixed, snapshot, Snapshot.ofGiven, Variables.ofList, Keyed.keys]

/-- The process sees the variables of the family of which the name and the value are text. -/
theorem sees_process_iff {family name : String} {world : World} :
    (process family).Sees world name
      ↔ (∃ entry ∈ world.environment.bindings, Utf8.decode? entry.1 = some name
          ∧ ∃ raw, Utf8.decode? entry.2 = some raw)
        ∧ Text.beginsWith name family = true := by
  change name ∈ Keyed.keys (Keyed.ofList _) ↔ _
  rw [Keyed.mem_keys_ofList_iff]
  simp only [List.mem_map, List.mem_filter, List.mem_filterMap]
  constructor
  · rintro ⟨⟨_, raw⟩, ⟨⟨entry, hentry, hdecode⟩, hfamily⟩, rfl⟩
    obtain ⟨hname, hraw⟩ := Snapshot.readable?_eq_some_iff.mp hdecode
    exact ⟨⟨entry, hentry, hname, raw, hraw⟩, hfamily⟩
  · rintro ⟨⟨entry, hentry, hname, raw, hraw⟩, hfamily⟩
    have hdecode := Snapshot.readable?_eq_some_iff.mpr ⟨hname, hraw⟩
    exact ⟨(name, raw), ⟨⟨entry, hentry, hdecode⟩, hfamily⟩, rfl⟩

theorem events_contribution (world : World) (source : VariableSource) :
    (source.contribution world Schema.indexer).events
      = (Keyed.keys (source.snapshot world.environment).bindings).filterMap
        (eventOf? source.family) := by
  change (source.attempts Schema.indexer _).map event = _
  rw [attempts, List.map_filterMap, Keyed.keys, List.filterMap_map]
  refine List.filterMap_congr fun binding _ => ?_
  obtain ⟨name, raw⟩ := binding
  cases htarget : Override.target? Schema.indexer source.family name with
  | none => simp [eventOf?, htarget]
  | some target => cases target <;> simp [eventOf?, htarget, event]

end VariableSource

theorem Source.Alike.events_eq {world other : World} {source otherSource : Source}
    (h : source.Alike world other otherSource) :
    (source.contribution world Schema.indexer).events
      = (otherSource.contribution other Schema.indexer).events := by
  cases h with
  | file h => exact h.events_eq
  | @environment source otherSource hfamily hnames =>
    change (source.contribution world Schema.indexer).events
      = (otherSource.contribution other Schema.indexer).events
    have hkeys : Keyed.keys (source.snapshot world.environment).bindings
        = Keyed.keys (otherSource.snapshot other.environment).bindings :=
      Keyed.eq_of_ascending_of_mem_iff id
        (Keyed.pairwise_keys (Snapshot.ascending _)) (Keyed.pairwise_keys (Snapshot.ascending _))
        hnames
    rw [VariableSource.events_contribution, VariableSource.events_contribution, hkeys, hfamily]

/-! ### How logs end -/

/-- What is logged at the end of a run, by its result. A report that is not about sources or the
schema is not counted in the log. -/
inductive Ending : Except Report Resolved → Log → Prop
  | silent (report : Report) : Ending (.error report) []
  | failed (report : Report) : Ending (.error report) [.failed report.violations.length]
  | resolved (resolved : Resolved) : Ending (.ok resolved) [.resolved resolved.layers.length]

/-- The event ends a log. -/
def Event.Ends : Event → Prop
  | .failed _ => True
  | .resolved _ => True
  | _ => False

theorem ending_finish (schema : Schema) (state : Resolution) :
    Ending (state.finish schema).result (state.finish schema).log := by
  unfold Resolution.finish
  simp only
  split
  · exact .failed _
  · split
    · exact .silent _
    · split
      · exact .silent _
      · exact .resolved _

theorem not_ends_of_mem_contribution {world : World} {source : Source} {event : Event}
    (h : event ∈ (source.contribution world Schema.indexer).events) : ¬ event.Ends := by
  cases source with
  | file source =>
    change event ∈ (source.contribution world).events at h
    unfold FileSource.contribution at h
    cases houtcome : source.outcome world with
    | loaded document | absent | failed message =>
      simp only [houtcome, List.mem_cons, List.not_mem_nil, or_false] at h
      rcases h with rfl | rfl <;> exact id
  | environment source =>
    change event ∈ (source.contribution world Schema.indexer).events at h
    rw [source.events_contribution, List.mem_filterMap] at h
    obtain ⟨name, -, hevent⟩ := h
    obtain ⟨target, -, rfl⟩ := Option.map_eq_some_iff.mp hevent
    cases target <;> exact id

/-- What is logged before the end of a run. -/
def progress (world : World) (sources : List Source) : Log :=
  .resolving sources.length :: sources.flatMap fun source =>
    (source.contribution world Schema.indexer).events

theorem log_resolve (world : World) (sources : List Source) :
    (resolve world sources).log
      = progress world sources ++ ((reached world sources).finish Schema.indexer).log := rfl

theorem not_ends_of_mem_progress {world : World} {sources : List Source} {event : Event}
    (h : event ∈ progress world sources) : ¬ event.Ends := by
  rcases List.mem_cons.mp h with rfl | hmem
  · exact id
  · obtain ⟨source, -, hevent⟩ := List.mem_flatMap.mp hmem
    exact not_ends_of_mem_contribution hevent

theorem progress_eq {world other : World} {sources otherSources : List Source}
    (h : List.Forall₂ (Source.Alike world other) sources otherSources) :
    progress world sources = progress other otherSources := by
  have hevents : (sources.flatMap fun source => (source.contribution world Schema.indexer).events)
      = otherSources.flatMap fun source => (source.contribution other Schema.indexer).events := by
    induction h with
    | nil => rfl
    | cons hsource _ ih => rw [List.flatMap_cons, List.flatMap_cons, hsource.events_eq, ih]
  rw [progress, progress, hevents, h.length_eq]

/-- A run that succeeds logs the number of its sources in the end. -/
theorem Ending.eq_of_resolved {world : World} {sources : List Source} {ending : Log}
    (hending : Ending (resolve world sources).result ending) {resolved : Resolved}
    (h : (resolve world sources).result = .ok resolved) :
    ending = [.resolved sources.length] := by
  have hlayers := (resolve_eq_ok h).2.2.2
  rw [h] at hending
  cases hending
  rw [hlayers, layers_reached, List.length_map]

/-- **Logs do not depend on values.** Two runs over sources that are alike but for values log the
same events up to their ends, which are as their results say: nothing, the number of problems, or
the number of layers. If both succeed, they log the same throughout. -/
theorem logs_alike_up_to_endings (world other : World) (sources otherSources : List Source)
    (h : List.Forall₂ (Source.Alike world other) sources otherSources) :
    (∃ common ending otherEnding,
      (resolve world sources).log = common ++ ending
      ∧ (resolve other otherSources).log = common ++ otherEnding
      ∧ (∀ event ∈ common, ¬ event.Ends)
      ∧ Ending (resolve world sources).result ending
      ∧ Ending (resolve other otherSources).result otherEnding)
    ∧ ∀ resolved otherResolved, (resolve world sources).result = .ok resolved →
      (resolve other otherSources).result = .ok otherResolved →
      (resolve world sources).log = (resolve other otherSources).log := by
  have hlog := log_resolve world sources
  have hotherLog := log_resolve other otherSources
  rw [← progress_eq h] at hotherLog
  have hending := ending_finish Schema.indexer (reached world sources)
  have hotherEnding := ending_finish Schema.indexer (reached other otherSources)
  rw [← resolve_result] at hending hotherEnding
  refine ⟨⟨_, _, _, hlog, hotherLog, fun event => not_ends_of_mem_progress, hending,
    hotherEnding⟩, ?_⟩
  intro resolved otherResolved hresult hotherResult
  rw [hlog, hotherLog, hending.eq_of_resolved hresult,
    hotherEnding.eq_of_resolved hotherResult, h.length_eq]

def portWorld (port : String) : World :=
  .ofTexts [("base.toml", "[metrics]\nport = " ++ port ++ "\n")]

def portSources (pairs : List (String × String)) : List Source := [
  .file (.mandatory "base.toml"),
  .file (.optional "absent.toml"),
  .environment (.process "INDEXER_"),
  .environment (.fixed "INDEXER_" pairs)]

/-- The variables that are required, each with another value. -/
def changedVariables : List (String × String) :=
  requiredVariables.map fun (name, value) => (name, value ++ "7")

theorem exists_ok_of_isOk {ε α : Type} {result : Except ε α} (h : result.isOk = true) :
    ∃ a, result = .ok a := by
  cases result with
  | error problem => simp [Except.isOk, Except.toBool] at h
  | ok a => exact ⟨a, rfl⟩

theorem resolves_portSources :
    (resolve (portWorld "80") (portSources requiredVariables)).result.isOk = true
      ∧ (resolve (portWorld "7300") (portSources changedVariables)).result.isOk = true := by
  decide +kernel

theorem sameState_portWorld :
    (FileSource.mandatory "base.toml").SameState (portWorld "80") (portWorld "7300") := by
  have hport : (⟨.nest ["metrics", "port"] (.int 80) trivial, .file "base.toml"⟩ : Overlay)
      ∈ (FileSource.mandatory "base.toml").writes (portWorld "80") := by
    decide +kernel
  have hother : (⟨.nest ["metrics", "port"] (.int 7300) trivial, .file "base.toml"⟩ : Overlay)
      ∈ (FileSource.mandatory "base.toml").writes (portWorld "7300") := by
    decide +kernel
  exact .of_loaded (FileSource.mem_writes_iff.mp hport).1 (FileSource.mem_writes_iff.mp hother).1
    ((Tree.sameShape_of_leaves rfl rfl).nest _)

/-- Another port, and another value of each variable. -/
theorem logs_alike_up_to_endings_ports :
    List.Forall₂ (Source.Alike (portWorld "80") (portWorld "7300"))
        (portSources requiredVariables) (portSources changedVariables)
      ∧ (resolve (portWorld "80") (portSources requiredVariables)).result.isOk = true
      ∧ (resolve (portWorld "7300") (portSources changedVariables)).result.isOk = true
      ∧ (resolve (portWorld "80") (portSources requiredVariables)).log
        = (resolve (portWorld "7300") (portSources changedVariables)).log := by
  have habsent : (FileSource.optional "absent.toml").SameState (portWorld "80")
      (portWorld "7300") :=
    .unreadable (show (portWorld "80").text "absent.toml" = .error .notFound from rfl) rfl
  have hprocess : (Source.environment (.process "INDEXER_")).Alike (portWorld "80")
      (portWorld "7300") (.environment (.process "INDEXER_")) := by
    refine .environment rfl fun name => ?_
    rw [VariableSource.sees_process_iff, VariableSource.sees_process_iff]
    rfl
  have hvariables : (Source.environment (.fixed "INDEXER_" requiredVariables)).Alike
      (portWorld "80") (portWorld "7300") (.environment (.fixed "INDEXER_" changedVariables)) := by
    refine .environment rfl fun name => ?_
    rw [VariableSource.sees_fixed_iff, VariableSource.sees_fixed_iff]
    rfl
  have halike : List.Forall₂ (Source.Alike (portWorld "80") (portWorld "7300"))
      (portSources requiredVariables) (portSources changedVariables) :=
    .cons (.file sameState_portWorld)
      (.cons (.file habsent) (.cons hprocess (.cons hvariables .nil)))
  obtain ⟨hok, hotherOk⟩ := resolves_portSources
  obtain ⟨-, hlogs⟩ := logs_alike_up_to_endings (portWorld "80") (portWorld "7300")
    (portSources requiredVariables) (portSources changedVariables) halike
  obtain ⟨resolved, hresult⟩ := exists_ok_of_isOk hok
  obtain ⟨otherResolved, hother⟩ := exists_ok_of_isOk hotherOk
  exact ⟨halike, hok, hotherOk, hlogs resolved otherResolved hresult hother⟩

end LayeredConfig
