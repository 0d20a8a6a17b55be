import LayeredConfig.Proofs.FieldVariables
import LayeredConfig.Proofs.LogsAndValues
import LayeredConfig.Proofs.OverrideFrame
import LayeredConfig.Proofs.RepeatedSources
import Mathlib.Data.Nat.Digits.Defs

/-!
# The values of variables

A variable gives its field a value of the field's kind only if its text denotes one: plain digits
that fit into 64 bits, one of the two words for a flag, a finite decimal. Any other text stays what
it is. Where the field takes no text it is reported, under the name of the variable that has it.
-/

namespace LayeredConfig

open KeyPath Provenance

/-- The text is the word, which is in lower case, with any of its letters in upper case. -/
def AnyCase (text word : String) : Prop :=
  List.Forall₂ (fun c letter => c = letter ∨ c = letter.toUpper) text.toList word.toList

/-- The number that a text of digits has in base ten, the last digit counting least. -/
def decimalValue (text : String) : Nat :=
  Nat.ofDigits 10 (text.toList.reverse.map fun c => c.toNat - '0'.toNat)

/-- The value that a text stands for where a value of some kind is due. -/
inductive Denotes (raw : String) : Kind → Tree → Prop
  | string : Denotes raw .string (.string raw)
  | bool (flag : Bool) (h : AnyCase raw (if flag then "true" else "false")) :
      Denotes raw .bool (.bool flag)
  | integer (hdigits : raw ≠ "" ∧ ∀ c ∈ raw.toList, '0' ≤ c ∧ c ≤ '9')
      (hmax : decimalValue raw ≤ 2 ^ 64 - 1) : Denotes raw .integer (.int (decimalValue raw))
  | float (x : Float) (hread : Decimal.float? raw = some x) (hfinite : Decimal.finite x = true) :
      Denotes raw .float (.float x)

theorem lowerCase_eq_iff {word : List Char} (h : ∀ letter ∈ word, letter.isUpper = false)
    (chars : List Char) : Text.lowerCase chars = word
      ↔ List.Forall₂ (fun c letter => c = letter ∨ c = letter.toUpper) chars word := by
  induction word generalizing chars with
  | nil => simp [Text.lowerCase]
  | cons letter word ih =>
    obtain ⟨hletter, hword⟩ := List.forall_mem_cons.mp h
    cases chars with
    | nil => simp [Text.lowerCase]
    | cons c chars =>
      have hrest := ih hword chars
      rw [Text.lowerCase] at hrest ⊢
      rw [List.map_cons, List.cons.injEq, List.forall₂_cons, hrest, Text.toLower_eq_iff,
        and_iff_right hletter]

theorem natOfDigits_eq_decimalValue {text : String}
    (h : ∀ c ∈ text.toList, Text.isDigit c = true) :
    Text.natOfDigits 10 text.toList = decimalValue text := by
  rw [decimalValue]
  generalize text.toList = digits at h ⊢
  induction digits using List.reverseRecOn with
  | nil => rfl
  | append_singleton digits digit ih =>
    rw [List.forall_mem_append, List.forall_mem_singleton] at h
    rw [Text.natOfDigits_append_singleton, ih h.1, Text.digitValue, if_pos h.2, List.reverse_append,
      List.reverse_singleton, List.singleton_append, List.map_cons, Nat.ofDigits_cons]
    omega

namespace Override

theorem reading?_bool_eq_some_iff {raw : String} {value : Tree} :
    reading? raw .bool = some value
      ↔ ∃ flag : Bool, value = .bool flag ∧ AnyCase raw (if flag then "true" else "false") := by
  have htrue : Text.lowerCase raw.toList = "true".toList ↔ AnyCase raw "true" :=
    lowerCase_eq_iff (by simp) raw.toList
  have hfalse : Text.lowerCase raw.toList = "false".toList ↔ AnyCase raw "false" :=
    lowerCase_eq_iff (by simp) raw.toList
  simp only [reading?]
  split
  · rename_i hlower
    have hother : ¬ AnyCase raw "false" := by
      rw [← hfalse, hlower]
      decide
    simp [htrue.mp hlower, hother, eq_comm]
  · rename_i hnotTrue
    rw [htrue] at hnotTrue
    split
    · rename_i hlower
      simp [hfalse.mp hlower, hnotTrue, eq_comm]
    · rename_i hnotFalse
      rw [hfalse] at hnotFalse
      simp [hnotTrue, hnotFalse]

theorem reading?_integer_eq_some_iff {raw : String} {value : Tree} :
    reading? raw .integer = some value
      ↔ (raw ≠ "" ∧ ∀ c ∈ raw.toList, '0' ≤ c ∧ c ≤ '9') ∧ decimalValue raw ≤ 2 ^ 64 - 1
        ∧ value = .int (decimalValue raw) := by
  have hdigits : (raw.toList ≠ [] ∧ raw.toList.all Text.isDigit = true)
      ↔ (raw ≠ "" ∧ ∀ c ∈ raw.toList, '0' ≤ c ∧ c ≤ '9') := by
    simp [Text.isDigit, List.all_eq_true]
  rw [← hdigits]
  simp only [reading?]
  split
  · rename_i h
    have hbound : decimalValue raw < UInt64.size ↔ decimalValue raw ≤ 2 ^ 64 - 1 := by
      rw [UInt64.size]
      omega
    rw [natOfDigits_eq_decimalValue (List.all_eq_true.mp h.2), ← hbound]
    split
    · rename_i hmax
      simp [h, hmax, eq_comm]
    · rename_i hmax
      simp [hmax]
  · rename_i h
    exact iff_of_false (by simp) fun hvalue => h hvalue.1

theorem denotes_iff_reading? {raw : String} {kind : Kind} (hkind : kind ≠ .string) (value : Tree) :
    Denotes raw kind value ↔ reading? raw kind = some value := by
  cases kind with
  | string => exact absurd rfl hkind
  | bool =>
    rw [reading?_bool_eq_some_iff]
    constructor
    · intro h
      cases h with
      | bool flag hword => exact ⟨flag, rfl, hword⟩
    · rintro ⟨flag, rfl, hword⟩
      exact .bool flag hword
  | integer =>
    rw [reading?_integer_eq_some_iff]
    constructor
    · intro h
      cases h with
      | integer hdigits hmax => exact ⟨hdigits, hmax, rfl⟩
    · rintro ⟨hdigits, hmax, rfl⟩
      exact .integer hdigits hmax
  | float =>
    rw [reading?, Option.map_eq_some_iff]
    constructor
    · intro h
      cases h with
      | float x hread hfinite => exact ⟨x, Option.filter_eq_some_iff.mpr ⟨hread, hfinite⟩, rfl⟩
    · rintro ⟨x, hx, rfl⟩
      obtain ⟨hread, hfinite⟩ := Option.filter_eq_some_iff.mp hx
      exact .float x hread hfinite

theorem coerce_eq_iff (raw : String) (kind : Kind) (value : Tree) :
    coerce raw kind = value ↔ Denotes raw kind value
      ∨ (value = .string raw ∧ ∀ other, ¬ Denotes raw kind other) := by
  by_cases hkind : kind = .string
  · subst hkind
    constructor
    · rintro rfl
      exact Or.inl .string
    · rintro (hdenotes | ⟨rfl, -⟩)
      · cases hdenotes
        rfl
      · rfl
  · simp only [denotes_iff_reading? hkind, coerce]
    cases hreading : reading? raw kind with
    | none => simp [eq_comm]
    | some read => simp

end Override

/-! ### What becomes of a value -/

/-- The value stands at the key path, and its origin is on record. -/
structure Resolution.Holds (state : Resolution) (keys : List String) (value : Tree)
    (origin : Origin) : Prop where
  table : state.merged.isTable = true
  node : state.merged.at? keys = some value
  recorded : state.provenance.get? (dotted keys) = some origin

section Holds

variable {field : Field} (hfield : field ∈ Schema.indexer.fields)

include hfield

theorem Resolution.Holds.of_variable (name raw : String) (state : Resolution) :
    (state.overlay (.ofVariable name raw field)).Holds field.keys (Override.coerce raw field.kind)
      (.env name) := by
  obtain ⟨hkeys, hplain⟩ := Schema.indexer_plain field hfield
  have hleaf := Override.isTable_coerce raw field.kind
  have hstray := (Tree.plainKeys_nest hleaf hplain).not_stray hkeys hplain
  constructor
  · exact (Tree.isTable_overlay _ _).trans (Tree.isTable_nest hkeys _)
  · exact Tree.lookup_eq_found_iff.mp (Tree.lookup_overlay_nest_self hleaf state.merged)
  · exact get?_overlay_of_node (.of_plain hkeys hplain)
      (Overlay.not_disturbs_of_not_stray hstray) (Tree.at?_nest _ _)

variable {value : Tree} {origin : Origin}

/-- A variable for another field leaves the value. -/
theorem Resolution.Holds.overlay_other {state : Resolution}
    (h : state.Holds field.keys value origin) {other : Field}
    (hother : other ∈ Schema.indexer.fields) (hne : other ≠ field) (name raw : String) :
    (state.overlay (.ofVariable name raw other)).Holds field.keys value origin := by
  obtain ⟨hkeys, hplain⟩ := Schema.indexer_plain field hfield
  obtain ⟨hotherKeys, hotherPlain⟩ := Schema.indexer_plain other hother
  have hbelow : ¬ other.keys <+: field.keys := fun hinitial =>
    hne (Schema.indexer_separate.eq_of_initial hother hfield hinitial)
  have habove : ¬ field.keys <+: other.keys := fun hinitial =>
    hne (Schema.indexer_separate.eq_of_initial hfield hother hinitial).symm
  have hwritten := Override.isTable_coerce raw other.kind
  have hnode : (state.overlay (.ofVariable name raw other)).merged.at? field.keys = some value :=
    (Tree.at?_overlay_nest hwritten state.merged hbelow habove).trans h.node
  have hnone : (Overlay.ofVariable name raw other).tree.at? field.keys = none :=
    (Schema.indexer_separate.nest_of_ne hfield hother hne hwritten).1
  have hstray := (Tree.plainKeys_nest hwritten hotherPlain).not_stray hkeys hplain
  have htable : (Overlay.ofVariable name raw other).tree.isTable = true :=
    Tree.isTable_nest hotherKeys _
  refine ⟨(Tree.isTable_overlay _ _).trans htable, hnode, ?_⟩
  rcases get?_overlay_of_none h.table htable (.of_plain hkeys hplain)
      (Overlay.not_disturbs_of_not_stray hstray) hnone with ⟨-, hgone⟩ | ⟨hkept, -⟩
  · simp [hgone] at hnode
  · exact hkept.trans h.recorded

theorem Resolution.Holds.foldl_others {layers : List Overlay} {state : Resolution}
    (h : state.Holds field.keys value origin)
    (hothers : ∀ layer ∈ layers, ∃ other ∈ Schema.indexer.fields, other ≠ field
      ∧ ∃ name raw, layer = .ofVariable name raw other) :
    (layers.foldl Resolution.overlay state).Holds field.keys value origin := by
  induction layers generalizing state with
  | nil => exact h
  | cons layer layers ih =>
    rw [List.forall_mem_cons] at hothers
    obtain ⟨⟨other, hother, hne, name, raw, rfl⟩, hrest⟩ := hothers
    exact ih (h.overlay_other hfield hother hne name raw) hrest

end Holds

namespace VariableSource

/-- The last variable for a field has its way: the value that it is read as stands in the end, and
the variable is on record for it. -/
theorem holds_add {world : World} {source : VariableSource} {name raw : String} {field : Field}
    (hbinding : (name, raw) ∈ (source.snapshot world.environment).bindings)
    (htarget : Override.target? Schema.indexer source.family name = some (.ok field))
    (hlast : ∀ other otherRaw,
      (other, otherRaw) ∈ (source.snapshot world.environment).bindings →
      Override.target? Schema.indexer source.family other = some (.ok field) → other ≤ name)
    (state : Resolution) :
    ((source.writes world).foldl Resolution.overlay state).Holds field.keys
      (Override.coerce raw field.kind) (.env name) := by
  have hascending := (source.snapshot world.environment).ascending
  obtain ⟨before, after, hsplit⟩ := List.append_of_mem hbinding
  rw [hsplit] at hascending hlast
  have hfield := target?_mem htarget
  rw [writes, hsplit, List.filterMap_append, List.filterMap_cons]
  simp only [htarget]
  rw [List.foldl_append, List.foldl_cons]
  refine (Resolution.Holds.of_variable hfield name raw _).foldl_others hfield
    fun layer hlayer => ?_
  obtain ⟨⟨other, otherRaw⟩, hmem, hlayer⟩ := List.mem_filterMap.mp hlayer
  simp only at hlayer
  split at hlayer
  · rename_i otherField hother
    obtain rfl := Option.some.inj hlayer
    have hgreater : name < other :=
      (List.pairwise_cons.mp (List.pairwise_append.mp hascending).2.1).1 _ hmem
    have hne : otherField ≠ field := by
      rintro rfl
      exact absurd (hlast other otherRaw (by simp [hmem]) hother) (not_le.mpr hgreater)
    exact ⟨otherField, target?_mem hother, hne, other, otherRaw, rfl⟩
  · simp at hlayer

end VariableSource

/-- **No variable is silently converted.** The value that a text is read as is the one that it
denotes for the kind, or the text itself if it denotes none. In a run whose last source is one of
variables, the last variable for a field in the order of names puts the value that it denotes into
the merged tree. If it denotes none, the run fails, and its report has a mismatch at the field that
shows the text and names the variable. -/
theorem variable_denotes_or_reported :
    (∀ raw kind value, Override.coerce raw kind = value
      ↔ Denotes raw kind value ∨ (value = .string raw ∧ ∀ other, ¬ Denotes raw kind other))
    ∧ ∀ (world : World) (earlier : List Source) (source : VariableSource) (name raw : String)
        (field : Field),
      let bindings := (source.snapshot world.environment).bindings
      let sources := earlier ++ [.environment source]
      (name, raw) ∈ bindings →
      Override.target? Schema.indexer source.family name = some (.ok field) →
      (∀ other otherRaw, (other, otherRaw) ∈ bindings →
        Override.target? Schema.indexer source.family other = some (.ok field) → other ≤ name) →
      (∀ value, Denotes raw field.kind value →
          (reached world sources).merged.at? field.keys = some value)
        ∧ ((∀ value, ¬ Denotes raw field.kind value) →
          (resolve world sources).Reports (.typeMismatch field.path field.kind.name
            ("string " ++ Text.quoted raw) (.env name))) := by
  refine ⟨Override.coerce_eq_iff, ?_⟩
  intro world earlier source name raw field bindings sources hbinding htarget hlast
  have hfield := target?_mem htarget
  obtain ⟨-, hnode, hrecorded⟩ := source.holds_add hbinding htarget hlast (reached world earlier)
  obtain ⟨hmerged, hprovenance⟩ :=
    Resolution.add_contribution world (.environment source) (reached world earlier)
  rw [← reached_append_singleton] at hmerged hprovenance
  replace hnode : (reached world sources).merged.at? field.keys
      = some (Override.coerce raw field.kind) := hmerged ▸ hnode
  replace hrecorded : (reached world sources).provenance.get? field.path = some (.env name) :=
    hprovenance ▸ hrecorded
  constructor
  · intro value hdenotes
    rw [hnode, (Override.coerce_eq_iff raw field.kind value).mpr (Or.inl hdenotes)]
  · intro hnothing
    have htext : Override.coerce raw field.kind = .string raw :=
      (Override.coerce_eq_iff _ _ _).mpr (Or.inr ⟨rfl, hnothing⟩)
    have hrejects : field.kind.accepts (.string raw) = false := by
      cases hkind : field.kind with
      | string => exact absurd .string (hkind ▸ hnothing (.string raw))
      | _ => rfl
    have hproblem : (Problem.mistyped field (.string raw)).Of Schema.indexer
        (reached world sources).merged := ⟨hfield, htext ▸ hnode, hrejects⟩
    obtain ⟨report, hreport, hreported⟩ := finish_reports_of_mem <|
      (mem_violations_iff Schema.indexer_plain Schema.indexer_separate (by decide)
        (reached world sources).canonical).mpr (Or.inl ⟨_, hproblem, rfl⟩)
    rw [Problem.violation, originOf_eq_of_get? hrecorded] at hreported
    exact ⟨report, (resolve_result world sources).trans hreport, hreported⟩

/-- Two spellings of one field, the later of which denotes a number, and a word that is no flag. -/
theorem variable_denotes_or_reported_spellings :
    let world := World.ofTexts [("base.toml", "metrics = 5\n")]
    let source := VariableSource.fixed "INDEXER_" [("INDEXER_METRICS__PORT", "+80"),
      ("INDEXER_metrics__port", "0080"), ("INDEXER_SERVICE__SERVE_NETWORK_SUBGRAPH", "yes")]
    let sources : List Source := [.file (.mandatory "base.toml"), .environment source]
    Override.coerce "+80" .integer = .string "+80"
      ∧ (reached world sources).merged.at? ["metrics", "port"] = some (.int 80)
      ∧ (resolve world sources).Reports (.typeMismatch "service.serve_network_subgraph" "bool"
        "string \"yes\"" (.env "INDEXER_SERVICE__SERVE_NETWORK_SUBGRAPH")) := by
  intro world source sources
  have hbindings : (source.snapshot world.environment).bindings
      = [("INDEXER_METRICS__PORT", "+80"), ("INDEXER_SERVICE__SERVE_NETWORK_SUBGRAPH", "yes"),
        ("INDEXER_metrics__port", "0080")] := by
    decide +kernel
  have hport : Override.target? Schema.indexer source.family "INDEXER_metrics__port"
      = some (.ok ((Field.optional ["metrics", "port"] .integer).atMost 65535)) := by
    decide +kernel
  have hserve : Override.target? Schema.indexer source.family
        "INDEXER_SERVICE__SERVE_NETWORK_SUBGRAPH"
      = some (.ok (.optional ["service", "serve_network_subgraph"] .bool)) := by
    decide +kernel
  have hlast (field : Field) (name : String)
      (h : ∀ binding ∈ (source.snapshot world.environment).bindings,
        Override.target? Schema.indexer source.family binding.1 = some (.ok field) →
        binding.1 ≤ name) (other otherRaw : String)
      (hmem : (other, otherRaw) ∈ (source.snapshot world.environment).bindings) :
      Override.target? Schema.indexer source.family other = some (.ok field) → other ≤ name :=
    h (other, otherRaw) hmem
  obtain ⟨hcoerce, hruns⟩ := variable_denotes_or_reported
  have hsigned : Override.reading? "+80" .integer = none := by decide +kernel
  have hword : Override.reading? "yes" .bool = none := by decide +kernel
  have hnumber : Denotes "0080" .integer (.int 80) :=
    (Override.denotes_iff_reading? (by decide) _).mpr (by decide +kernel)
  refine ⟨(hcoerce _ _ _).mpr (Or.inr ⟨rfl, fun other h => ?_⟩), ?_, ?_⟩
  · rw [Override.denotes_iff_reading? (by decide), hsigned] at h
    cases h
  · refine (hruns world [.file (.mandatory "base.toml")] source "INDEXER_metrics__port" "0080" _
      (by simp [hbindings]) hport (hlast _ _ ?_)).1 _ hnumber
    rw [hbindings]
    decide +kernel
  · refine (hruns world [.file (.mandatory "base.toml")] source
      "INDEXER_SERVICE__SERVE_NETWORK_SUBGRAPH" "yes" _ (by simp [hbindings]) hserve
      (hlast _ _ ?_)).2 fun value h => ?_
    · rw [hbindings]
      decide +kernel
    · rw [Field.optional, Override.denotes_iff_reading? (by decide), hword] at h
      cases h

end LayeredConfig
