import LayeredConfig.Proofs.FieldVariables

/-!
# The names that stand for a field

A name stands for a field if it begins with the family and a separator and then spells the path of
the field in any case, each dot of the path as two underscores. The keys between the underscores are
put together with dots before the field is looked up, so that a dot may also be left as it is: such
names stand for the field too, although no key of a field holds a dot. They are the only ones
besides those with underscores throughout.
-/

namespace LayeredConfig.Override

/-- A way to write a path in a name: each dot is written as two underscores or left as it is. -/
inductive Spells : List Char → List Char → Prop
  | nil : Spells [] []
  | char (c : Char) {path text : List Char} (h : Spells path text) : Spells (c :: path) (c :: text)
  | dot {path text : List Char} (h : Spells path text) :
      Spells ('.' :: path) ('_' :: '_' :: text)

/-- The path with two underscores for each dot. -/
def underscored (path : List Char) : List Char :=
  path.flatMap fun c => if c = '.' then ['_', '_'] else [c]

/-- No underscore is followed by a dot or by another underscore. In such a path the underscores that
are written for dots can be told from its own. -/
def Open (path : List Char) : Prop :=
  path.IsChain fun c next => c = '_' → next ≠ '_' ∧ next ≠ '.'

theorem spells_underscored (path : List Char) : Spells path (underscored path) := by
  induction path with
  | nil => exact .nil
  | cons c path ih =>
    by_cases hc : c = '.'
    · subst hc
      exact .dot ih
    · have hcons : underscored (c :: path) = c :: underscored path := by simp [underscored, hc]
      exact hcons ▸ .char c ih

/-- Without a dot there is one way to write a path. -/
theorem Spells.eq_underscored {path text : List Char} (h : Spells path text) (hdot : '.' ∉ text) :
    text = underscored path := by
  induction h with
  | nil => rfl
  | char c h ih =>
    rw [List.mem_cons, not_or] at hdot
    have hcons (path : List Char) : underscored (c :: path) = c :: underscored path := by
      simp [underscored, Ne.symm hdot.1]
    rw [hcons, ← ih hdot.2]
  | dot h ih =>
    have hcons (path : List Char) :
        underscored ('.' :: path) = '_' :: '_' :: underscored path := rfl
    rw [hcons, ← ih (by simpa using hdot)]

theorem Spells.eq_nil {path : List Char} (h : Spells path []) : path = [] := by
  cases h
  rfl

theorem dot_not_mem_underscored (path : List Char) : '.' ∉ underscored path := by
  intro hmem
  obtain ⟨c, -, hc⟩ := List.mem_flatMap.mp hmem
  split at hc
  · simp at hc
  · rename_i hne
    exact hne (List.mem_singleton.mp hc).symm

/-! ### Pieces -/

theorem splitAtSeparators_ne_nil (cs : List Char) : splitAtSeparators cs ≠ [] := by
  fun_cases splitAtSeparators cs <;> simp [*]

theorem splitAtSeparators_cons {c : Char} {cs : List Char}
    (h : c = '_' → cs.head? ≠ some '_') :
    ∃ piece more, splitAtSeparators cs = piece :: more
      ∧ splitAtSeparators (c :: cs) = (c :: piece) :: more := by
  obtain ⟨piece, more, hpieces⟩ := List.exists_cons_of_ne_nil (splitAtSeparators_ne_nil cs)
  refine ⟨piece, more, hpieces, ?_⟩
  rw [splitAtSeparators, hpieces]
  rintro rest rfl rfl
  simp at h

theorem intercalate_cons_cons (separator : List Char) (c : Char) (piece : List Char)
    (more : List (List Char)) :
    separator.intercalate ((c :: piece) :: more) = c :: separator.intercalate (piece :: more) := by
  cases more <;> simp

/-- Joined with dots, the pieces of a text make a path that the text spells. -/
theorem spells_intercalate (text : List Char) :
    Spells (['.'].intercalate (splitAtSeparators text)) text := by
  fun_induction splitAtSeparators text with
  | case1 => exact .nil
  | case2 rest ih =>
    rw [List.intercalate_cons_of_ne_nil (splitAtSeparators_ne_nil rest)]
    exact .dot ih
  | case3 c rest hseparator piece more hpieces ih =>
    rw [intercalate_cons_cons, ← hpieces]
    exact .char c ih
  | case4 c rest hseparator hpieces ih => exact absurd hpieces (splitAtSeparators_ne_nil rest)

theorem Spells.head?_ne_underscore {path text : List Char} (h : Spells path text)
    (hopen : Open ('_' :: path)) : text.head? ≠ some '_' := by
  cases h with
  | nil => simp
  | char c h => simpa using ((List.isChain_cons_cons.mp hopen).1 rfl).1
  | dot h => exact absurd rfl ((List.isChain_cons_cons.mp hopen).1 rfl).2

/-- An open path comes back from every text that spells it. -/
theorem intercalate_of_spells {path text : List Char} (h : Spells path text) (hopen : Open path) :
    ['.'].intercalate (splitAtSeparators text) = path := by
  induction h with
  | nil => rfl
  | @char c path text h ih =>
    have hnext : c = '_' → text.head? ≠ some '_' := by
      rintro rfl
      exact h.head?_ne_underscore hopen
    obtain ⟨piece, more, hpieces, hcons⟩ := splitAtSeparators_cons hnext
    rw [hcons, intercalate_cons_cons, ← hpieces, ih hopen.of_cons]
  | @dot path text h ih =>
    have hcons : splitAtSeparators ('_' :: '_' :: text) = [] :: splitAtSeparators text := rfl
    rw [hcons, List.intercalate_cons_of_ne_nil (splitAtSeparators_ne_nil text), ih hopen.of_cons]
    rfl

theorem toLower_eq_underscore_iff (c : Char) : c.toLower = '_' ↔ c = '_' := by
  simp [Text.toLower_eq_iff]

/-- Underscores have no case, so that lower case can come before the splitting or after it. -/
theorem splitAtSeparators_lowerCase (text : List Char) :
    splitAtSeparators (Text.lowerCase text) = (splitAtSeparators text).map Text.lowerCase := by
  fun_induction splitAtSeparators text with
  | case1 => rfl
  | case2 rest ih => exact congrArg ([] :: ·) ih
  | case3 c rest hseparator piece more hpieces ih =>
    have hnext : c.toLower = '_' → (Text.lowerCase rest).head? ≠ some '_' := by
      rw [toLower_eq_underscore_iff]
      rintro rfl hhead
      obtain ⟨next, further, rfl⟩ := List.exists_cons_of_ne_nil (show rest ≠ [] by
        rintro rfl
        simp [Text.lowerCase] at hhead)
      have hunder : next = '_' := by
        simpa [Text.lowerCase, toLower_eq_underscore_iff] using hhead
      exact hseparator further rfl (by rw [hunder])
    obtain ⟨lower, others, hlower, hcons⟩ := splitAtSeparators_cons hnext
    rw [hlower, hpieces] at ih
    obtain ⟨rfl, rfl⟩ := List.cons.inj ih
    exact hcons
  | case4 c rest hseparator hpieces ih => exact absurd hpieces (splitAtSeparators_ne_nil rest)

/-! ### Names -/

theorem after?_eq_some_iff {start cs rest : List Char} :
    Text.after? start cs = some rest ↔ cs = start ++ rest := by
  refine ⟨fun h => ?_, fun h => h ▸ after?_append start rest⟩
  induction start generalizing cs with
  | nil => exact Option.some.inj h
  | cons s start ih =>
    cases cs with
    | nil => simp [Text.after?] at h
    | cons c cs =>
      rw [Text.after?] at h
      split at h
      · rename_i hc
        rw [ih h, hc, List.cons_append]
      · simp at h

/-- Between the beginning of the family and what follows there is a separator. -/
theorem exists_separator_of_suffix? {family : String} {name suffix : List Char}
    (h : suffix? family.toList name = some suffix) (hne : suffix ≠ []) :
    ∃ separator, Separates family separator
      ∧ name = family.toList ++ (separator.toList ++ suffix) := by
  unfold suffix? at h
  split at h
  · simp at h
  · rename_i rest hafter
    obtain rfl := Option.some.inj h
    exact ⟨"__", Or.inl rfl, after?_eq_some_iff.mp hafter⟩
  · rename_i rest hseparator hafter
    obtain rfl := Option.some.inj h
    exact ⟨"_", Or.inr (Or.inl rfl), after?_eq_some_iff.mp hafter⟩
  · exact absurd (Option.some.inj h).symm hne
  · rename_i rest hdouble hsingle hempty hafter
    split at h
    · rename_i hlast
      obtain rfl := Option.some.inj h
      exact ⟨"", Or.inr (Or.inr ⟨rfl, hlast⟩), after?_eq_some_iff.mp hafter⟩
    · simp at h

theorem segments?_eq_ok_iff {family name : String} {segments : List String} :
    segments? family name = some (.ok segments)
      ↔ ∃ suffix, suffix? family.toList name.toList = some suffix ∧ suffix ≠ []
        ∧ [] ∉ splitAtSeparators (Text.lowerCase suffix)
        ∧ segments = (splitAtSeparators (Text.lowerCase suffix)).map String.ofList := by
  rw [segments?, Option.map_eq_some_iff]
  refine exists_congr fun suffix => and_congr_right fun _ => ?_
  rw [splitAtSeparators_lowerCase]
  by_cases hne : suffix = []
  · simp [hne]
  · by_cases hempty : [] ∈ (splitAtSeparators suffix).map Text.lowerCase
    · simp only [if_neg hne, if_pos hempty, reduceCtorEq]
      tauto
    · simp only [if_neg hne, if_neg hempty, Except.ok.injEq]
      tauto

theorem field_eq_ok_iff {segments : List String} {found : Field} :
    field Schema.indexer segments = .ok found
      ↔ found ∈ Schema.indexer.fields ∧ found.path = String.intercalate "." segments := by
  have hfield? : Schema.indexer.field? (String.intercalate "." segments) = some found
      ↔ found ∈ Schema.indexer.fields ∧ found.path = String.intercalate "." segments := by
    constructor
    · intro h
      exact ⟨List.mem_of_find?_eq_some h, by simpa using List.find?_some h⟩
    · rintro ⟨hfound, hpath⟩
      exact hpath ▸ (indexer_spelling found hfound).2.2
  rw [← hfield?, field]
  split
  · rename_i other hother
    simp [hother]
  · rename_i hnone
    split <;> simp [hnone]

/-! ### Fields -/

/-- Put after an underscore, so that none can begin with an underscore or a dot, the paths of all
fields are open. -/
theorem indexer_open : ∀ field ∈ Schema.indexer.fields, Open ('_' :: field.path.toList) := by
  unfold Open
  decide +kernel

/-- The name is read as segments, and these lead to the field. -/
def StandsFor (family name : String) (found : Field) : Prop :=
  ∃ segments, segments? family name = some (.ok segments)
    ∧ field Schema.indexer segments = .ok found

/-- The name is made up of the family, a separator, and the path of the field in any case, with two
underscores for each dot. -/
def Documented (family name : String) (found : Field) : Prop :=
  ∃ separator text, Separates family separator ∧ name = family ++ separator ++ text
    ∧ Text.lowerCase text.toList = underscored found.path.toList

/-- In a documented name no dot follows the family. -/
theorem Documented.dot_not_mem {family name rest : String} {found : Field}
    (h : Documented family name found) (hname : name = family ++ rest) : '.' ∉ rest.toList := by
  obtain ⟨separator, text, hseparates, hsplit, htext⟩ := h
  have hrest : rest.toList = separator.toList ++ text.toList := by
    have hchars := congrArg String.toList (hname.symm.trans hsplit)
    simpa [List.append_assoc] using hchars
  rw [hrest, List.mem_append, not_or]
  constructor
  · rcases hseparates with rfl | rfl | ⟨rfl, -⟩ <;> decide
  · intro hmem
    apply dot_not_mem_underscored found.path.toList
    rw [← htext]
    exact List.mem_map.mpr ⟨'.', hmem, rfl⟩

section Field

variable {found : Field} (hfound : found ∈ Schema.indexer.fields)

include hfound

/-- The pieces that a path is put together from are not empty, as none of its keys is. -/
theorem nil_not_mem_of_intercalate {pieces : List (List Char)} (hne : pieces ≠ [])
    (hpath : ['.'].intercalate pieces = found.path.toList) : [] ∉ pieces := by
  intro hmem
  have hjoined : found.path = String.intercalate "." (pieces.map String.ofList) := by
    rw [← String.toList_inj, String.toList_intercalate, ← hpath]
    simp
  have hkeys : found.keys = (pieces.map String.ofList).flatMap KeyPath.segments := by
    rw [← Schema.segments_path Schema.indexer_plain hfound, hjoined,
      KeyPath.segments_intercalate (by simpa using hne)]
  have hempty : "" ∈ found.keys := by
    rw [hkeys]
    exact List.mem_flatMap.mpr ⟨"", List.mem_map.mpr ⟨[], hmem, rfl⟩, by simp [KeyPath.segments]⟩
  exact ((Schema.indexer_plain found hfound).2 "" hempty).1 rfl

/-- A name stands for the field if what follows a separator spells its path. -/
theorem standsFor_iff_spells (family name : String) :
    StandsFor family name found ↔ ∃ separator text, Separates family separator
      ∧ name = family ++ separator ++ text
      ∧ Spells found.path.toList (Text.lowerCase text.toList) := by
  constructor
  · rintro ⟨segments, hsegments, hfield⟩
    obtain ⟨suffix, hsuffix, hne, -, rfl⟩ := segments?_eq_ok_iff.mp hsegments
    obtain ⟨separator, hseparates, hname⟩ := exists_separator_of_suffix? hsuffix hne
    have hpath : found.path.toList
        = ['.'].intercalate (splitAtSeparators (Text.lowerCase suffix)) := by
      rw [(field_eq_ok_iff.mp hfield).2, String.toList_intercalate]
      simp
    refine ⟨separator, String.ofList suffix, hseparates, ?_, ?_⟩
    · rw [← String.toList_inj, hname]
      simp
    · rw [hpath, String.toList_ofList]
      exact spells_intercalate _
  · rintro ⟨separator, text, hseparates, rfl, hspells⟩
    have hopen := indexer_open found hfound
    have hpath := intercalate_of_spells hspells hopen.of_cons
    obtain ⟨first, rest, htext⟩ : ∃ first rest, text.toList = first :: rest := by
      refine List.exists_cons_of_ne_nil fun hempty => ?_
      obtain ⟨hkeys, hplain⟩ := Schema.indexer_plain found hfound
      apply KeyPath.dotted_ne_empty hkeys hplain
      rw [← String.toList_inj]
      rw [hempty] at hspells
      exact hspells.eq_nil
    have hfirst : first ≠ '_' := by
      rintro rfl
      exact hspells.head?_ne_underscore hopen (by rw [htext]; rfl)
    refine ⟨_, segments?_eq_ok_iff.mpr ⟨text.toList, ?_, by simp [htext],
      nil_not_mem_of_intercalate hfound (splitAtSeparators_ne_nil _) hpath, rfl⟩,
      field_eq_ok_iff.mpr ⟨hfound, ?_⟩⟩
    · rw [String.toList_append, String.toList_append, List.append_assoc, htext,
        suffix?_append hseparates hfirst]
    · rw [← String.toList_inj, String.toList_intercalate, ← hpath]
      simp

end Field

/-- **Which names stand for a field.** A name stands for a field exactly if it is made up of the
family, a separator, and a text that in lower case spells the path of the field, with two
underscores or a dot for each dot. The documented names, with underscores for all dots, are those
among them in which no dot follows the family. -/
theorem standsFor_iff (family name : String) (found : Field)
    (hfound : found ∈ Schema.indexer.fields) :
    (StandsFor family name found ↔ ∃ separator text, Separates family separator
        ∧ name = family ++ separator ++ text
        ∧ Spells found.path.toList (Text.lowerCase text.toList))
      ∧ (Documented family name found ↔ StandsFor family name found
        ∧ ∀ rest, name = family ++ rest → '.' ∉ rest.toList) := by
  refine ⟨standsFor_iff_spells hfound family name, ?_, ?_⟩
  · intro h
    refine ⟨?_, fun rest hname => h.dot_not_mem hname⟩
    obtain ⟨separator, text, hseparates, hname, htext⟩ := h
    rw [standsFor_iff_spells hfound]
    exact ⟨separator, text, hseparates, hname, htext ▸ spells_underscored _⟩
  · rintro ⟨hstands, hdot⟩
    obtain ⟨separator, text, hseparates, hname, hspells⟩ :=
      (standsFor_iff_spells hfound family name).mp hstands
    refine ⟨separator, text, hseparates, hname, hspells.eq_underscored fun hmem => ?_⟩
    obtain ⟨c, hc, hlower⟩ := List.mem_map.mp hmem
    obtain rfl : c = '.' := by simpa [Text.toLower_eq_iff] using hlower
    apply hdot (separator ++ text) (by rw [hname, String.append_assoc])
    rw [String.toList_append]
    exact List.mem_append_right _ hc

/-- A documented name, with a separator that the family does not end with, in both cases. -/
theorem standsFor_iff_mixedCase :
    let port := (Field.optional ["metrics", "port"] .integer).atMost 65535
    port ∈ Schema.indexer.fields ∧ Documented "Indexer" "Indexer__metrics__PORT" port
      ∧ StandsFor "Indexer" "Indexer__metrics__PORT" port := by
  intro port
  have hport : port ∈ Schema.indexer.fields := by decide
  have hdocumented : Documented "Indexer" "Indexer__metrics__PORT" port :=
    ⟨"__", "metrics__PORT", Or.inl rfl, by decide, by decide +kernel⟩
  have hstands := (standsFor_iff "Indexer" "Indexer__metrics__PORT" port hport).2.mp hdocumented
  exact ⟨hport, hdocumented, hstands.1⟩

/-- A name with a dot between the keys stands for the port, although it is no documented one. -/
theorem dotted_name_stands_for_port :
    let port := (Field.optional ["metrics", "port"] .integer).atMost 65535
    StandsFor "INDEXER_" "INDEXER_METRICS.PORT" port
      ∧ ¬ Documented "INDEXER_" "INDEXER_METRICS.PORT" port
      ∧ ¬ ∀ family name, ∀ found ∈ Schema.indexer.fields,
        (StandsFor family name found ↔ Documented family name found) := by
  intro port
  have hstands : StandsFor "INDEXER_" "INDEXER_METRICS.PORT" port :=
    ⟨["metrics.port"], by decide +kernel, by decide +kernel⟩
  have hsplit : "INDEXER_METRICS.PORT" = "INDEXER_" ++ "METRICS.PORT" := by decide
  have hundocumented : ¬ Documented "INDEXER_" "INDEXER_METRICS.PORT" port :=
    fun h => h.dot_not_mem hsplit (by decide)
  exact ⟨hstands, hundocumented, fun h => hundocumented ((h _ _ port (by decide)).mp hstands)⟩

end LayeredConfig.Override
