import LayeredConfig.Proofs.LineFeeds
import LayeredConfig.Proofs.TextAndFile
import LayeredConfig.Proofs.UnknownBlame
import LayeredConfig.Proofs.ValuesForTables

/-!
# The lines of a report

A report has a line for each violation if and only if no name that it takes over holds a line feed:
the paths of files, the names of variables, and the keys that are not quoted. All else that a report
says is on one line, whatever the sources hold, for it is made from the paths of the schema, from
numbers, and from texts in quotes.
-/

namespace LayeredConfig

open KeyPath

def Origin.names : Origin → List String
  | file path => [path]
  | inline => []
  | env name => [name]

theorem Origin.oneLine_render {origin : Origin} :
    Text.OneLine origin.render ↔ ∀ name ∈ origin.names, Text.OneLine name := by
  cases origin with
  | file path =>
    have hframe : Text.OneLine "file " := Text.oneLine_written rfl
    simp [render, names, hframe]
  | inline =>
    have hwhole : Text.OneLine "inline config" := Text.oneLine_written rfl
    simp [render, names, hwhole]
  | env name =>
    have hframe : Text.OneLine "env " := Text.oneLine_written rfl
    simp [render, names, hframe]

namespace Violation

/-- The texts that are taken over from outside as they are: the names in the origin, and the path of
an unknown key. -/
def names : Violation → List String
  | typeMismatch _ _ _ origin => origin.names
  | malformedSource origin _ => origin.names
  | unknownField path origin => path :: origin.names
  | _ => []

/-- The texts that the program puts together. -/
def wording : Violation → List String
  | missingRequiredField path => [path]
  | typeMismatch path expected found _ => [path, expected, found]
  | malformedSource _ message => [message]
  | unknownField _ _ => []
  | invalidValue path message => [path, message]

/-- What the program says is on one line. -/
def Worded (violation : Violation) : Prop := ∀ text ∈ violation.wording, Text.OneLine text

theorem oneLine_render {violation : Violation} (h : violation.Worded) :
    Text.OneLine violation.render ↔ ∀ name ∈ violation.names, Text.OneLine name := by
  cases violation with
  | missingRequiredField path =>
    have hpath : Text.OneLine path := h path (by simp [wording])
    have hframe : Text.OneLine "missing required field `" ∧ Text.OneLine "`" :=
      ⟨Text.oneLine_written rfl, Text.oneLine_written rfl⟩
    change Text.OneLine ("missing required field `" ++ path ++ "`") ↔ _
    simp [names, hpath, hframe]
  | typeMismatch path expected found origin =>
    have hpath : Text.OneLine path := h path (by simp [wording])
    have hexpected : Text.OneLine expected := h expected (by simp [wording])
    have hfound : Text.OneLine found := h found (by simp [wording])
    have hframe : Text.OneLine "type mismatch at `" ∧ Text.OneLine "` (from "
        ∧ Text.OneLine "): expected " ∧ Text.OneLine ", found " :=
      ⟨Text.oneLine_written rfl, Text.oneLine_written rfl, Text.oneLine_written rfl,
        Text.oneLine_written rfl⟩
    change Text.OneLine ("type mismatch at `" ++ path ++ "` (from " ++ origin.render
      ++ "): expected " ++ expected ++ ", found " ++ found) ↔ _
    simp [names, hpath, hexpected, hfound, hframe, Origin.oneLine_render]
  | malformedSource origin message =>
    have hmessage : Text.OneLine message := h message (by simp [wording])
    have hframe : Text.OneLine "malformed source (" ∧ Text.OneLine "): " :=
      ⟨Text.oneLine_written rfl, Text.oneLine_written rfl⟩
    change Text.OneLine ("malformed source (" ++ origin.render ++ "): " ++ message) ↔ _
    simp [names, hmessage, hframe, Origin.oneLine_render]
  | unknownField path origin =>
    have hframe : Text.OneLine "unknown field `" ∧ Text.OneLine "` (from "
        ∧ Text.OneLine ")" :=
      ⟨Text.oneLine_written rfl, Text.oneLine_written rfl, Text.oneLine_written rfl⟩
    change Text.OneLine ("unknown field `" ++ path ++ "` (from " ++ origin.render ++ ")") ↔ _
    simp [names, hframe, Origin.oneLine_render]
  | invalidValue path message =>
    have hpath : Text.OneLine path := h path (by simp [wording])
    have hmessage : Text.OneLine message := h message (by simp [wording])
    have hframe : Text.OneLine "invalid value at `" ∧ Text.OneLine "`: " :=
      ⟨Text.oneLine_written rfl, Text.oneLine_written rfl⟩
    change Text.OneLine ("invalid value at `" ++ path ++ "`: " ++ message) ↔ _
    simp [names, hpath, hmessage, hframe]

end Violation

/-! ### Reports -/

namespace Report

def headline (report : Report) : String :=
  "invalid configuration (" ++ toString report.violations.length ++ " problem(s)):"

def entry (violation : Violation) : String := "  - " ++ violation.render

/-- The lines are the headline and then one for each violation. -/
def LineForEach (report : Report) : Prop :=
  Text.lines report.render = report.headline :: report.violations.map entry

theorem join_feeds (headline : String) (entries : List String) :
    headline ++ String.join (entries.map fun entry => "\n" ++ entry)
      = String.intercalate "\n" (headline :: entries) := by
  induction entries generalizing headline with
  | nil => simp
  | cons entry entries ih =>
    rw [List.map_cons, String.join_cons, String.intercalate_cons_cons, ← ih]
    simp only [String.append_assoc]

theorem render_eq_intercalate (report : Report) :
    report.render = String.intercalate "\n" (report.headline :: report.violations.map entry) := by
  rw [← join_feeds, List.map_map]
  rfl

theorem lineForEach_iff (report : Report) :
    report.LineForEach ↔ ∀ violation ∈ report.violations, Text.OneLine violation.render := by
  have hdash : Text.OneLine "  - " := Text.oneLine_written rfl
  have hentry (violation : Violation) :
      Text.OneLine (entry violation) ↔ Text.OneLine violation.render := by
    simp [entry, hdash]
  constructor
  · intro h violation hviolation
    rw [← hentry]
    exact Text.oneLine_of_mem_lines
      (h ▸ List.mem_cons_of_mem _ (List.mem_map_of_mem hviolation))
  · intro h
    have hheadline : Text.OneLine report.headline := by
      have hframe : Text.OneLine "invalid configuration (" ∧ Text.OneLine " problem(s)):" :=
        ⟨Text.oneLine_written rfl, Text.oneLine_written rfl⟩
      exact Text.oneLine_append.mpr
        ⟨Text.oneLine_append.mpr ⟨hframe.1, Text.oneLine_natural _⟩, hframe.2⟩
    rw [LineForEach, render_eq_intercalate]
    refine Text.lines_intercalate (List.cons_ne_nil _ _) (List.forall_mem_cons.mpr ⟨hheadline, ?_⟩)
    simpa [hentry] using h

end Report

/-! ### What the program says is on one line -/

theorem Schema.oneLine_key : ∀ field ∈ indexer.fields, ∀ key ∈ field.keys, Text.OneLine key := by
  decide +kernel

theorem Schema.HasTable.oneLine_key {keys : List String} (h : Schema.indexer.HasTable keys) :
    ∀ key ∈ keys, Text.OneLine key := by
  obtain ⟨field, hfield, hkeys, -⟩ := h
  exact fun key hkey => Schema.oneLine_key field hfield key (hkeys.subset hkey)

theorem Field.oneLine_path {field : Field} (h : field ∈ Schema.indexer.fields) :
    Text.OneLine field.path :=
  oneLine_dotted.mpr (Schema.oneLine_key field h)

theorem Problem.worded {problem : Problem} {tree : Tree} (h : problem.Of Schema.indexer tree)
    (record : Provenance) : (problem.violation record).Worded := by
  cases problem with
  | absent field =>
    exact List.forall_mem_singleton.mpr (Field.oneLine_path h.1)
  | notATable keys value =>
    have htable : Text.OneLine "table" := Text.oneLine_written rfl
    simp [Violation.Worded, Violation.wording, Problem.violation, htable, value.oneLine_describe,
      oneLine_dotted.mpr h.1.oneLine_key]
  | mistyped field value =>
    have hkind : Text.OneLine field.kind.name := by
      cases field.kind <;> exact Text.oneLine_written rfl
    simp [Violation.Worded, Violation.wording, Problem.violation, hkind, value.oneLine_describe,
      Field.oneLine_path h.1]
  | excessive field number max =>
    have hframe : Text.OneLine " exceeds maximum of " := Text.oneLine_written rfl
    have hmessage : Text.OneLine (toString number ++ " exceeds maximum of " ++ toString max) :=
      Text.oneLine_append.mpr ⟨Text.oneLine_append.mpr ⟨Text.oneLine_integer number, hframe⟩,
        Text.oneLine_natural max⟩
    exact List.forall_mem_cons.mpr
      ⟨Field.oneLine_path h.1, List.forall_mem_singleton.mpr hmessage⟩

theorem UnknownKey.worded (unknown : UnknownKey) (record : Provenance) :
    (unknown.violation record).Worded := by
  simp [Violation.Worded, Violation.wording, UnknownKey.violation]

theorem Settings.worded {settings : Settings} :
    ∀ violation ∈ settings.violations, violation.Worded := by
  -- the paths of the conditions are the same for all settings
  have hpaths : ∀ path ∈ settings.conditions.map Prod.fst, Text.OneLine path :=
    (by decide +kernel : ∀ path ∈ (default : Settings).conditions.map Prod.fst, Text.OneLine path)
  intro violation h
  obtain ⟨⟨path, holds, defect⟩, hcondition, hbroken⟩ := List.mem_filterMap.mp h
  cases holds with
  | true => simp at hbroken
  | false =>
    obtain rfl := Option.some.inj hbroken
    have hmessage : Text.OneLine defect.message := by
      cases defect <;> exact Text.oneLine_written rfl
    exact List.forall_mem_cons.mpr
      ⟨hpaths _ (List.mem_map_of_mem hcondition), List.forall_mem_singleton.mpr hmessage⟩

theorem Toml.ParseError.oneLine_message {problem : ParseError} (h : Text.OneLine problem.text) :
    Text.OneLine problem.message := by
  have hframe : Text.OneLine " (line " ∧ Text.OneLine ")" :=
    ⟨Text.oneLine_written rfl, Text.oneLine_written rfl⟩
  exact Text.oneLine_append.mpr ⟨Text.oneLine_append.mpr
    ⟨Text.oneLine_append.mpr ⟨h, hframe.1⟩, Text.oneLine_natural _⟩, hframe.2⟩

theorem ReadError.oneLine_message {problem : ReadError}
    (h : ∀ text, problem = .other text → Text.OneLine text) : Text.OneLine problem.message := by
  cases problem with
  | other text => exact h text rfl
  | _ => exact Text.oneLine_written rfl

/-- Should the file fail, what others say of it is on one line: the system, if the file cannot be
read, and the reader of documents, if it is none. -/
structure FileSource.FailsOnOneLine (world : World) (source : FileSource) : Prop where
  system : ∀ text, world.read source.path = .error (.other text) → Text.OneLine text
  document : ∀ bytes contents problem, world.read source.path = .ok bytes →
    Utf8.decode? bytes = some contents → Tree.ofToml contents = .error problem →
    Text.OneLine problem.text

theorem FileSource.FailsOnOneLine.of_read {world : World} {source : FileSource} {contents : String}
    (hread : world.read source.path = .ok (Utf8.encode contents))
    (h : ∀ problem, Tree.ofToml contents = .error problem → Text.OneLine problem.text) :
    source.FailsOnOneLine world where
  system text hfailed := by simp [hread] at hfailed
  document bytes other problem hbytes hdecode hproblem := by
    obtain rfl := Except.ok.inj (hread.symm.trans hbytes)
    obtain rfl := Option.some.inj ((Utf8.decode?_encode contents).symm.trans hdecode)
    exact h problem hproblem

theorem FileSource.oneLine_message {world : World} {source : FileSource}
    (h : source.FailsOnOneLine world) {message : String}
    (hfailed : source.outcome world = .failed message) : Text.OneLine message := by
  have hread {problem : ReadError} (hproblem : ∀ text, problem = .other text → Text.OneLine text) :
      Text.OneLine ("failed to read: " ++ problem.message) :=
    Text.oneLine_append.mpr ⟨Text.oneLine_written rfl, ReadError.oneLine_message hproblem⟩
  unfold FileSource.outcome at hfailed
  split at hfailed
  next problem hunread =>
    split at hfailed
    · cases hfailed
    · obtain rfl := Outcome.failed.inj hfailed
      exact hread fun text htext => h.system text (htext ▸ hunread)
  next bytes hbytes =>
    split at hfailed
    · obtain rfl := Outcome.failed.inj hfailed
      exact hread (by simp)
    next contents hdecode =>
      split at hfailed
      · cases hfailed
      next problem hproblem =>
        obtain rfl := Outcome.failed.inj hfailed
        exact Toml.ParseError.oneLine_message <| h.document bytes contents problem hbytes hdecode
          (CanonicalTree.ofToml_eq_error_iff.mp hproblem)

theorem Source.worded {world : World} {source : Source}
    (h : ∀ file, source = .file file → file.FailsOnOneLine world) :
    ∀ violation ∈ (source.contribution world Schema.indexer).violations, violation.Worded := by
  intro violation hviolation
  rcases malformed_of_mem_contribution hviolation with
    ⟨file, message, hfile, hfailed, rfl⟩ | ⟨vars, name, -, -, rfl⟩
  · exact List.forall_mem_singleton.mpr (FileSource.oneLine_message (h file hfile) hfailed)
  · have hmessage : Text.OneLine "variable is not valid unicode" := Text.oneLine_written rfl
    exact List.forall_mem_singleton.mpr hmessage

theorem Contribution.worded_ofText {contents : String}
    (h : ∀ problem, Tree.ofToml contents = .error problem → Text.OneLine problem.text) :
    ∀ violation ∈ (Contribution.ofText contents).violations, violation.Worded := by
  unfold Contribution.ofText
  cases hdocument : CanonicalTree.ofToml contents with
  | ok document => simp
  | error problem =>
    have hmessage := Toml.ParseError.oneLine_message
      (h problem (CanonicalTree.ofToml_eq_error_iff.mp hdocument))
    exact List.forall_mem_singleton.mpr (List.forall_mem_singleton.mpr hmessage)

/-- A report lists the violations of the sources, of the schema or of the settings, and no others:
what the schema accepts can be decoded. -/
theorem Resolution.source_of_mem_report {state : Resolution} {report : Report}
    (h : (state.finish Schema.indexer).result = .error report)
    {violation : Violation} (hviolation : violation ∈ report.violations) :
    violation ∈ state.violations
      ∨ (∃ problem : Problem, problem.Of Schema.indexer state.merged
          ∧ problem.violation state.provenance = violation)
      ∨ (∃ unknown : UnknownKey, unknown.Of Schema.indexer state.merged
          ∧ unknown.violation state.provenance = violation)
      ∨ ∃ settings : Settings, violation ∈ settings.violations := by
  rcases finish_eq_error h with
    ⟨-, hreport⟩ | ⟨hnothing, ⟨problem, hdecode, -⟩ | ⟨settings, -, -, hreport⟩⟩
  · rw [hreport, List.mem_append, mem_violations_iff Schema.indexer_plain Schema.indexer_separate
      (by decide) state.canonical] at hviolation
    exact hviolation.imp_right fun hschema => hschema.imp_right Or.inl
  · obtain ⟨settings, hsettings, -⟩ :=
      exists_decode_of_violations_eq_nil state.canonical (List.append_eq_nil_iff.mp hnothing).2
    rw [hsettings] at hdecode
    cases hdecode
  · exact Or.inr (Or.inr (Or.inr ⟨settings, hreport ▸ hviolation⟩))

theorem Resolution.worded_of_finish {state : Resolution}
    (hsources : ∀ violation ∈ state.violations, violation.Worded) {report : Report}
    (h : (state.finish Schema.indexer).result = .error report) :
    ∀ violation ∈ report.violations, violation.Worded := by
  intro violation hviolation
  rcases source_of_mem_report h hviolation with
    hsource | ⟨problem, hproblem, rfl⟩ | ⟨unknown, -, rfl⟩ | ⟨settings, hinvalid⟩
  · exact hsources violation hsource
  · exact Problem.worded hproblem state.provenance
  · exact unknown.worded state.provenance
  · exact Settings.worded violation hinvalid

theorem Report.lineForEach_iff_names {report : Report}
    (h : ∀ violation ∈ report.violations, violation.Worded) :
    report.LineForEach
      ↔ ∀ violation ∈ report.violations, ∀ name ∈ violation.names, Text.OneLine name := by
  rw [lineForEach_iff]
  exact forall₂_congr fun violation hviolation => Violation.oneLine_render (h violation hviolation)

/-! ### The names that are taken over -/

/-- Every key is on one line, or holds a dot and is shown in quotes. -/
def Tree.KeysShown (tree : Tree) : Prop :=
  ∀ keys key node, tree.at? (keys ++ [key]) = some node → '.' ∈ key.toList ∨ Text.OneLine key

theorem UnknownKey.oneLine_path {unknown : UnknownKey}
    (htable : Schema.indexer.HasTable unknown.table)
    (hkey : '.' ∈ unknown.key.toList ∨ Text.OneLine unknown.key) : Text.OneLine unknown.path := by
  have habove : Text.OneLine (dotted unknown.table) := oneLine_dotted.mpr htable.oneLine_key
  unfold path
  split
  · exact oneLine_join.mpr ⟨habove, Text.oneLine_quoted unknown.key⟩
  · rename_i hdot
    rw [UnknownKey.keys, oneLine_dotted, List.forall_mem_append, List.forall_mem_singleton]
    exact ⟨htable.oneLine_key, hkey.resolve_left hdot⟩

/-- What a run takes over from an overlay is on one line: the names in its origin, and its keys. -/
structure Overlay.Shown (layer : Overlay) : Prop where
  origin : ∀ name ∈ layer.origin.names, Text.OneLine name
  keys : layer.tree.KeysShown

section Shown

variable {layers : List Overlay} (hshown : ∀ layer ∈ layers, layer.Shown)

include hshown

theorem oneLine_originOf (path : String) :
    ∀ name ∈ ((overlaid layers).provenance.originOf path).names, Text.OneLine name := by
  rcases originOf_overlaid layers path with hinline | ⟨layer, hlayer, horigin⟩
  · simp [hinline, Origin.names]
  · exact horigin ▸ (hshown layer hlayer).origin

/-- A key of the merged tree is a key of some overlay. -/
theorem keysShown_overlaid : (overlaid layers).merged.KeysShown := by
  intro keys key node hnode
  obtain ⟨layer, hlayer, written, hwritten⟩ :=
    ((exists_at?_overlaid_iff (by simp)).mp ⟨node, hnode⟩).exists_mem
  exact (hshown layer hlayer).keys keys key written hwritten

theorem Resolution.oneLine_names_of_finish {state : Resolution}
    (hmerged : state.merged = (overlaid layers).merged)
    (hrecord : state.provenance = (overlaid layers).provenance)
    (hsources : ∀ violation ∈ state.violations, ∀ name ∈ violation.names, Text.OneLine name)
    {report : Report} (h : (state.finish Schema.indexer).result = .error report) :
    ∀ violation ∈ report.violations, ∀ name ∈ violation.names, Text.OneLine name := by
  have horigin := hrecord ▸ oneLine_originOf hshown
  have hkeys := hmerged ▸ keysShown_overlaid hshown
  intro violation hviolation
  rcases source_of_mem_report h hviolation with
    hsource | ⟨problem, -, rfl⟩ | ⟨unknown, hunknown, rfl⟩ | ⟨settings, hinvalid⟩
  · exact hsources violation hsource
  · cases problem with
    | notATable keys value => exact horigin _
    | mistyped field value => exact horigin _
    | _ => simp [Problem.violation, Violation.names]
  · obtain ⟨htable, ⟨node, hnode⟩, -⟩ := hunknown
    exact List.forall_mem_cons.mpr
      ⟨unknown.oneLine_path htable (hkeys unknown.table unknown.key node hnode), horigin _⟩
  · obtain ⟨path, reason, rfl⟩ := invalid_of_mem_settings hinvalid
    simp [Violation.names]

end Shown

/-! ### The names of a run -/

/-- The names that the sources of a run bring with them are on one line each. -/
structure NamesOnOneLine (world : World) (sources : List Source) : Prop where
  files : ∀ file, Source.file file ∈ sources → Text.OneLine file.path
  bound : ∀ source, Source.environment source ∈ sources →
    ∀ entry ∈ (source.snapshot world.environment).bindings, Text.OneLine entry.1
  unreadable : ∀ source, Source.environment source ∈ sources →
    ∀ name ∈ (source.snapshot world.environment).unreadable, Text.OneLine name
  keys : ∀ file document, Source.file file ∈ sources → file.outcome world = .loaded document →
    document.tree.KeysShown

theorem Tree.keysShown_nest {route : List String}
    (hroute : ∀ key ∈ route, '.' ∈ key.toList ∨ Text.OneLine key) {value : Tree}
    (hleaf : value.isTable = false) : (Tree.nest route value).KeysShown := by
  intro keys key node hnode
  have hinitial := Tree.initial_of_at?_nest hleaf hnode
  exact hroute key (hinitial.subset (by simp))

section Names

variable {world : World} {sources : List Source} (hnames : NamesOnOneLine world sources)

include hnames

theorem NamesOnOneLine.shown : ∀ layer ∈ writes world sources, layer.Shown := by
  intro layer h
  obtain ⟨source, hsource, hlayer⟩ := List.mem_flatMap.mp h
  cases source with
  | file source =>
    obtain ⟨houtcome, horigin⟩ := FileSource.mem_writes_iff.mp hlayer
    refine ⟨?_, hnames.keys source layer.toCanonicalTree hsource houtcome⟩
    rw [horigin]
    exact List.forall_mem_singleton.mpr (hnames.files source hsource)
  | environment source =>
    obtain ⟨name, raw, field, hbinding, htarget, rfl⟩ := VariableSource.mem_writes_iff.mp hlayer
    exact ⟨List.forall_mem_singleton.mpr (hnames.bound source hsource _ hbinding),
      Tree.keysShown_nest
        (fun key hkey => Or.inr (Schema.oneLine_key field (target?_mem htarget) key hkey))
        (Override.isTable_coerce raw field.kind)⟩

theorem NamesOnOneLine.malformed {source : Source} (hsource : source ∈ sources) :
    ∀ violation ∈ (source.contribution world Schema.indexer).violations,
      ∀ name ∈ violation.names, Text.OneLine name := by
  intro violation h
  rcases malformed_of_mem_contribution h with
    ⟨file, message, rfl, -, rfl⟩ | ⟨vars, name, rfl, hname, rfl⟩
  · exact List.forall_mem_singleton.mpr (hnames.files file hsource)
  · exact List.forall_mem_singleton.mpr (hnames.unreadable vars hsource name hname)

end Names

section Run

variable {world : World} {sources : List Source} {report : Report}
  (hfails : ∀ file, Source.file file ∈ sources → file.FailsOnOneLine world)
  (h : (resolve world sources).result = .error report)

include hfails h

theorem lineForEach_reached_iff :
    report.LineForEach
      ↔ ∀ violation ∈ report.violations, ∀ name ∈ violation.names, Text.OneLine name := by
  rw [resolve_result] at h
  refine Report.lineForEach_iff_names (Resolution.worded_of_finish ?_ h)
  rw [violations_reached]
  intro violation hviolation
  obtain ⟨source, hsource, hmem⟩ := List.mem_flatMap.mp hviolation
  exact Source.worded (fun file hfile => hfails file (hfile ▸ hsource)) violation hmem

theorem lineForEach_of_names (hnames : NamesOnOneLine world sources) : report.LineForEach := by
  rw [lineForEach_reached_iff hfails h]
  rw [resolve_result] at h
  obtain ⟨hmerged, hrecord⟩ := reached_eq_overlaid world sources
  refine Resolution.oneLine_names_of_finish hnames.shown hmerged hrecord ?_ h
  rw [violations_reached]
  intro violation hviolation
  obtain ⟨source, hsource, hmem⟩ := List.mem_flatMap.mp hviolation
  exact hnames.malformed hsource violation hmem

end Run

section Document

variable {contents : String} {report : Report} (h : (loadText contents).result = .error report)

include h

theorem finish_ofText_eq_error :
    ((Resolution.start.add (.ofText contents)).finish Schema.indexer).result = .error report := by
  change Except.map Resolved.settings _ = _ at h
  cases hresult : ((Resolution.start.add (.ofText contents)).finish Schema.indexer).result with
  | error other =>
    rw [hresult] at h
    rw [Except.error.inj h]
  | ok resolved =>
    rw [hresult] at h
    cases h

variable (hfails : ∀ problem, Tree.ofToml contents = .error problem → Text.OneLine problem.text)

include hfails

theorem lineForEach_loadText_iff :
    report.LineForEach
      ↔ ∀ violation ∈ report.violations, ∀ name ∈ violation.names, Text.OneLine name :=
  Report.lineForEach_iff_names
    (Resolution.worded_of_finish (Contribution.worded_ofText hfails) (finish_ofText_eq_error h))

theorem lineForEach_loadText
    (hkeys : ∀ tree, Tree.ofToml contents = .ok tree → tree.KeysShown) : report.LineForEach := by
  rw [lineForEach_loadText_iff h hfails]
  have hshown : ∀ layer ∈ (Contribution.ofText contents).overlays, layer.Shown := by
    unfold Contribution.ofText
    cases hdocument : CanonicalTree.ofToml contents with
    | error problem => simp
    | ok document =>
      have htree := CanonicalTree.ofToml_eq_ok_iff.mp hdocument
      exact List.forall_mem_singleton.mpr ⟨by simp [Origin.names], hkeys document.tree htree⟩
  have hsources : ∀ violation ∈ (Contribution.ofText contents).violations,
      ∀ name ∈ violation.names, Text.OneLine name := by
    unfold Contribution.ofText
    cases CanonicalTree.ofToml contents <;> simp [Violation.names, Origin.names]
  refine Resolution.oneLine_names_of_finish hshown ?_ ?_ hsources (finish_ofText_eq_error h)
  · rfl
  · rfl

end Document

/-- **The lines of a report.** Suppose that what others say of failures is on one line: the system
of files that it cannot read, and the reader of documents of those that are none. Then a report has
the headline and a line for each violation, in their order, exactly if no violation names a file, a
variable or an unknown key with a line feed. It does whenever no file, variable or key of the
sources has one in its name; keys that hold dots may, as they are quoted. -/
theorem report_lines_iff (report : Report) :
    (∀ world sources, (∀ file, Source.file file ∈ sources → file.FailsOnOneLine world) →
        (resolve world sources).result = .error report →
        (report.LineForEach
          ↔ ∀ violation ∈ report.violations, ∀ name ∈ violation.names, Text.OneLine name)
        ∧ (NamesOnOneLine world sources → report.LineForEach))
      ∧ ∀ contents,
        (∀ problem, Tree.ofToml contents = .error problem → Text.OneLine problem.text) →
        (loadText contents).result = .error report →
        (report.LineForEach
          ↔ ∀ violation ∈ report.violations, ∀ name ∈ violation.names, Text.OneLine name)
        ∧ ((∀ tree, Tree.ofToml contents = .ok tree → tree.KeysShown) → report.LineForEach) :=
  ⟨fun _ _ hfails h => ⟨lineForEach_reached_iff hfails h, lineForEach_of_names hfails h⟩,
    fun _ hfails h => ⟨lineForEach_loadText_iff h hfails, lineForEach_loadText h hfails⟩⟩

/-- A file with a line feed in a key that also has a dot, one that is no document, and others that
must not be read. -/
def feedWorld : World where
  read
    | "a.toml" => .ok (Utf8.encode "\"a.\\nb\" = 1\n")
    | "broken.toml" => .ok (Utf8.encode "[metrics\n")
    | _ => .error (.other "Permission denied (os error 13)")
  environment := .empty

def feedSources : List Source :=
  [.file (.mandatory "a.toml"), .file (.mandatory "broken.toml"), .file (.mandatory "locked.toml")]

/-- The key with a dot is quoted and leaves the lines in order; without the dot it would break
one. -/
theorem report_lines_iff_feeds :
    (∀ file, Source.file file ∈ feedSources → file.FailsOnOneLine feedWorld)
      ∧ (∃ report, (resolve feedWorld feedSources).result = .error report
        ∧ .malformedSource (.file "broken.toml") "TOML (line 1)" ∈ report.violations
        ∧ .malformedSource (.file "locked.toml") "failed to read: Permission denied (os error 13)"
          ∈ report.violations
        ∧ .unknownField "\"a.\\nb\"" (.file "a.toml") ∈ report.violations ∧ report.LineForEach)
      ∧ ∃ report, (loadText "\"a\\nb\" = 1\n").result = .error report
        ∧ .unknownField "a\nb" .inline ∈ report.violations ∧ ¬ report.LineForEach := by
  have hread : Tree.ofToml "\"a.\\nb\" = 1\n" = .ok (.nest ["a.\nb"] (.int 1)) := by
    decide +kernel
  have hbroken : Tree.ofToml "[metrics\n" = .error ⟨1, "TOML"⟩ := by decide +kernel
  have hfails : ∀ file, Source.file file ∈ feedSources → file.FailsOnOneLine feedWorld := by
    intro file hfile
    simp only [feedSources, List.mem_cons, Source.file.injEq, List.not_mem_nil, or_false] at hfile
    rcases hfile with rfl | rfl | rfl
    · exact .of_read rfl (by simp [hread])
    · refine .of_read rfl fun problem hproblem => ?_
      obtain rfl := Except.error.inj (hbroken.symm.trans hproblem)
      exact Text.oneLine_written rfl
    · refine ⟨fun text htext => ?_, by simp [feedWorld, FileSource.mandatory]⟩
      obtain rfl := ReadError.other.inj (Except.error.inj htext)
      exact Text.oneLine_written rfl
  have hnames : NamesOnOneLine feedWorld feedSources := by
    refine ⟨?_, by simp [feedSources], by simp [feedSources], ?_⟩
    · simp only [feedSources, List.mem_cons, Source.file.injEq, List.not_mem_nil, or_false]
      rintro file (rfl | rfl | rfl) <;> decide
    · intro file document hfile hloaded
      simp only [feedSources, List.mem_cons, Source.file.injEq, List.not_mem_nil, or_false]
        at hfile
      obtain ⟨bytes, contents, hbytes, hdecode, htree⟩ :=
        FileSource.outcome_eq_loaded_iff.mp hloaded
      rcases hfile with rfl | rfl | rfl
      · obtain rfl := Except.ok.inj hbytes
        obtain rfl := Option.some.inj ((Utf8.decode?_encode _).symm.trans hdecode)
        rw [← Except.ok.inj (hread.symm.trans htree)]
        exact Tree.keysShown_nest (by decide) rfl
      · obtain rfl := Except.ok.inj hbytes
        obtain rfl := Option.some.inj ((Utf8.decode?_encode _).symm.trans hdecode)
        cases hbroken.symm.trans htree
      · cases hbytes
  refine ⟨hfails, ?_, ?_⟩
  · obtain ⟨report, hresult, hmem⟩ : (resolve feedWorld feedSources).Reports
        (.unknownField "\"a.\\nb\"" (.file "a.toml")) := by
      decide +kernel
    have hmalformed (origin : Origin) (message : String)
        (h : (resolve feedWorld feedSources).Reports (.malformedSource origin message)) :
        .malformedSource origin message ∈ report.violations := by
      obtain ⟨other, hother, hlisted⟩ := h
      exact Except.error.inj (hother.symm.trans hresult) ▸ hlisted
    exact ⟨report, hresult, hmalformed _ _ (by decide +kernel), hmalformed _ _ (by decide +kernel),
      hmem, ((report_lines_iff report).1 _ _ hfails hresult).2 hnames⟩
  · obtain ⟨report, hresult, hmem⟩ :
        (loadText "\"a\\nb\" = 1\n").Reports (.unknownField "a\nb" .inline) := by
      decide +kernel
    have hparsed : Tree.ofToml "\"a\\nb\" = 1\n" = .ok (.nest ["a\nb"] (.int 1)) := by
      decide +kernel
    refine ⟨report, hresult, hmem, fun hlines => ?_⟩
    have hpath := ((report_lines_iff report).2 _ (by simp [hparsed]) hresult).1.mp hlines _ hmem
      "a\nb" (by decide)
    exact absurd hpath (by decide)

/-- A key that holds a line feed and no dot is shown as it is, and the report of the document has a
line that belongs to no violation. -/
theorem feed_in_key_breaks_line :
    ¬ ∀ contents report, (loadText contents).result = .error report → report.LineForEach := by
  intro h
  obtain ⟨report, hresult, hmem⟩ :
      (loadText "\"a\\nb\" = 1\n").Reports (.unknownField "a\nb" .inline) := by
    decide +kernel
  have hline := (Report.lineForEach_iff report).mp (h _ report hresult) _ hmem
  exact absurd hline (by decide +kernel)

end LayeredConfig
