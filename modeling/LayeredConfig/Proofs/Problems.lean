import LayeredConfig.Proofs.Lookups
import LayeredConfig.Proofs.SchemaPaths
import LayeredConfig.Schema.Violations
import Mathlib.Data.List.Basic

/-!
# The problems of the fields

What the schema can find wrong with the fields of a tree: a required one is absent, a value stands
where a table is due, a value is not of the field's kind, or a number is too great. The pass over
the fields reports these problems and no others, each once, at the first field that it is about or
that lies below it.
-/

namespace LayeredConfig

inductive Problem where
  | absent (field : Field)
  /-- A value stands at the path of a table. -/
  | notATable (keys : List String) (value : Tree)
  | mistyped (field : Field) (value : Tree)
  | excessive (field : Field) (number : Int) (max : Nat)

namespace Problem

/-- The tree has the problem. A field is absent only if the way to it is open; where a value is,
the way to it leads through tables. -/
def Of (schema : Schema) (tree : Tree) : Problem → Prop
  | absent field => field ∈ schema.fields ∧ field.required = true
      ∧ tree.at? field.keys = none ∧ ¬ tree.Blocks field.keys
  | notATable keys value => schema.HasTable keys ∧ tree.at? keys = some value
      ∧ value.isTable = false
  | mistyped field value => field ∈ schema.fields ∧ tree.at? field.keys = some value
      ∧ field.kind.accepts value = false
  | excessive field number max => field ∈ schema.fields
      ∧ tree.at? field.keys = some (.int number) ∧ field.kind.accepts (.int number) = true
      ∧ field.max = some max ∧ (max : Int) < number

def keys : Problem → List String
  | absent field => field.keys
  | notATable keys _ => keys
  | mistyped field _ => field.keys
  | excessive field _ _ => field.keys

def violation (record : Provenance) : Problem → Violation
  | absent field => .missingRequiredField field.path
  | notATable keys value =>
    .typeMismatch (KeyPath.dotted keys) "table" value.describe
      (record.originOf (KeyPath.dotted keys))
  | mistyped field value =>
    .typeMismatch field.path field.kind.name value.describe (record.originOf field.path)
  | excessive field number max =>
    .invalidValue field.path (toString number ++ " exceeds maximum of " ++ toString max)

/-- The position of the first field of the schema that the problem is about or that lies below
it. -/
def rank (schema : Schema) (problem : Problem) : Nat :=
  schema.fields.findIdx fun field => problem.keys.isPrefixOf field.keys

end Problem

/-- What is wrong with a value of the field. -/
def Field.valueProblem? (field : Field) (value : Tree) : Option Problem :=
  if field.kind.accepts value then
    match field.max, value with
    | some max, .int n => if (max : Int) < n then some (.excessive field n max) else none
    | _, _ => none
  else some (.mistyped field value)

/-- What a look-up of the field finds wrong. -/
def Field.problem? (tree : Tree) (field : Field) : Option Problem :=
  match tree.lookup field.keys with
  | .found value => field.valueProblem? value
  | .missing => if field.required then some (.absent field) else none
  | .blocked keys value => some (.notATable keys value)

theorem valueProblem?_eq_some_iff {field : Field} {value : Tree} {problem : Problem} :
    field.valueProblem? value = some problem
      ↔ (field.kind.accepts value = false ∧ problem = .mistyped field value)
        ∨ ∃ number max, value = .int number ∧ field.kind.accepts value = true
          ∧ field.max = some max ∧ (max : Int) < number
          ∧ problem = .excessive field number max := by
  unfold Field.valueProblem?
  cases haccepts : field.kind.accepts value with
  | false => simp [eq_comm]
  | true =>
    cases hmax : field.max with
    | none => simp
    | some max =>
      cases value with
      | int number =>
        by_cases hlt : (max : Int) < number
        · simp [hlt, eq_comm]
        · simp [hlt]
      | _ => simp

section Leads

variable {schema : Schema} {tree : Tree} {field : Field} {problem : Problem}

theorem of_problem? (hfield : field ∈ schema.fields) (h : field.problem? tree = some problem) :
    problem.Of schema tree ∧ problem.keys <+: field.keys := by
  unfold Field.problem? at h
  cases hlookup : tree.lookup field.keys with
  | found value =>
    have hvalue := Tree.lookup_eq_found_iff.mp hlookup
    rw [hlookup] at h
    rcases valueProblem?_eq_some_iff.mp h with
      ⟨hrejects, rfl⟩ | ⟨number, max, rfl, haccepts, hmax, hlt, rfl⟩
    · exact ⟨⟨hfield, hvalue, hrejects⟩, List.prefix_refl _⟩
    · exact ⟨⟨hfield, hvalue, haccepts, hmax, hlt⟩, List.prefix_refl _⟩
  | missing =>
    have hopen := Tree.lookup_eq_missing_iff.mp hlookup
    simp only [hlookup] at h
    split at h
    · rename_i hrequired
      obtain rfl := Option.some.inj h
      exact ⟨⟨hfield, hrequired, hopen⟩, List.prefix_refl _⟩
    · simp at h
  | blocked keys value =>
    obtain ⟨hinitial, hne, hvalue, hleaf⟩ := Tree.lookup_eq_blocked_iff.mp hlookup
    simp only [hlookup] at h
    obtain rfl := Option.some.inj h
    exact ⟨⟨⟨field, hfield, hinitial, hne⟩, hvalue, hleaf⟩, hinitial⟩

theorem problem?_eq_some_iff (hseparate : schema.Separate) (hfield : field ∈ schema.fields) :
    field.problem? tree = some problem
      ↔ problem.Of schema tree ∧ problem.keys <+: field.keys := by
  refine ⟨of_problem? hfield, ?_⟩
  rintro ⟨hof, hinitial⟩
  unfold Field.problem?
  cases problem with
  | absent other =>
    obtain ⟨hother, hrequired, hopen⟩ := hof
    obtain rfl := hseparate.eq_of_initial hother hfield hinitial
    simp [Tree.lookup_eq_missing_iff.mpr hopen, hrequired]
  | notATable keys value =>
    obtain ⟨htable, hvalue, hleaf⟩ := hof
    have hne : keys ≠ field.keys := by
      rintro rfl
      exact hseparate.not_hasTable hfield (List.prefix_refl _) htable
    have hlookup : tree.lookup field.keys = .blocked keys value :=
      Tree.lookup_eq_blocked_iff.mpr ⟨hinitial, hne, hvalue, hleaf⟩
    simp [hlookup]
  | mistyped other value =>
    obtain ⟨hother, hvalue, hrejects⟩ := hof
    obtain rfl := hseparate.eq_of_initial hother hfield hinitial
    rw [Tree.lookup_eq_found_iff.mpr hvalue]
    exact valueProblem?_eq_some_iff.mpr (Or.inl ⟨hrejects, rfl⟩)
  | excessive other number max =>
    obtain ⟨hother, hvalue, haccepts, hmax, hlt⟩ := hof
    obtain rfl := hseparate.eq_of_initial hother hfield hinitial
    rw [Tree.lookup_eq_found_iff.mpr hvalue]
    exact valueProblem?_eq_some_iff.mpr (Or.inr ⟨number, max, rfl, haccepts, hmax, hlt, rfl⟩)

end Leads

/-! ### The pass over the fields -/

theorem valueViolations_eq (field : Field) (record : Provenance) (value : Tree) :
    field.valueViolations record value
      = (field.valueProblem? value).toList.map (Problem.violation record) := by
  unfold Field.valueViolations Field.valueProblem?
  cases field.kind.accepts value with
  | false => rfl
  | true =>
    cases field.max with
    | none => rfl
    | some max =>
      cases value with
      | int number =>
        by_cases hlt : (max : Int) < number
        · simp [hlt, Problem.violation]
        · simp [hlt]
      | _ => rfl

/-- A value in the place of a table counts only once; every other problem of a field counts. -/
theorem fieldViolations_cons (tree : Tree) (record : Provenance) (reported : List (List String))
    (field : Field) (rest : List Field) :
    Schema.fieldViolations tree record reported (field :: rest)
      = match field.problem? tree with
        | none => Schema.fieldViolations tree record reported rest
        | some (.notATable keys value) =>
          if keys ∈ reported then Schema.fieldViolations tree record reported rest
          else (Problem.notATable keys value).violation record
            :: Schema.fieldViolations tree record (keys :: reported) rest
        | some problem =>
          problem.violation record :: Schema.fieldViolations tree record reported rest := by
  rw [Schema.fieldViolations, Field.problem?]
  cases tree.lookup field.keys with
  | found value =>
    simp only [valueViolations_eq]
    cases hproblem : field.valueProblem? value with
    | none => rfl
    | some problem =>
      rcases valueProblem?_eq_some_iff.mp hproblem with ⟨-, rfl⟩ | ⟨number, max, -, -, -, -, rfl⟩
      · rfl
      · rfl
  | missing =>
    cases hrequired : field.required with
    | false => simp [Field.absenceViolations, hrequired]
    | true => simp [Field.absenceViolations, hrequired, Problem.violation]
  | blocked keys value => rfl

/-- A look-up finds a value in the place of a table, or a problem of the field itself, which is
reported at once. -/
theorem blocked_or_own {schema : Schema} (hseparate : schema.Separate) {tree : Tree} {field : Field}
    (hfield : field ∈ schema.fields) {problem : Problem} (h : field.problem? tree = some problem) :
    (∃ keys value, problem = .notATable keys value)
      ∨ (problem.keys = field.keys ∧ (∀ keys value, problem ≠ .notATable keys value)
        ∧ ∀ record reported rest, Schema.fieldViolations tree record reported (field :: rest)
          = problem.violation record :: Schema.fieldViolations tree record reported rest) := by
  obtain ⟨hof, hinitial⟩ := of_problem? hfield h
  cases problem with
  | notATable keys value => exact Or.inl ⟨keys, value, rfl⟩
  | _ =>
    right
    refine ⟨congrArg Field.keys (hseparate.eq_of_initial hof.1 hfield hinitial), by simp, ?_⟩
    intro record reported rest
    rw [fieldViolations_cons, h]

/-- The key paths at which the fields find a value in the place of a table. -/
def Reported (tree : Tree) (fields : List Field) (reported : List (List String)) : Prop :=
  ∀ keys, keys ∈ reported
    ↔ ∃ field ∈ fields, ∃ value, field.problem? tree = some (.notATable keys value)

section Reported

variable {tree : Tree} {done : List Field} {reported : List (List String)} {field : Field}

theorem Reported.concat (h : Reported tree done reported)
    (hold : ∀ keys value, field.problem? tree = some (.notATable keys value) → keys ∈ reported) :
    Reported tree (done ++ [field]) reported := by
  intro keys
  constructor
  · intro hkeys
    obtain ⟨earlier, hmem, hfound⟩ := (h keys).mp hkeys
    exact ⟨earlier, List.mem_append_left _ hmem, hfound⟩
  · rintro ⟨finder, hmem, value, hfound⟩
    rcases List.mem_append.mp hmem with hmem | hmem
    · exact (h keys).mpr ⟨finder, hmem, value, hfound⟩
    · exact hold keys value (List.mem_singleton.mp hmem ▸ hfound)

theorem Reported.concat_cons (h : Reported tree done reported) {keys : List String} {value : Tree}
    (hfound : field.problem? tree = some (.notATable keys value)) :
    Reported tree (done ++ [field]) (keys :: reported) := by
  intro other
  constructor
  · intro hother
    rcases List.mem_cons.mp hother with rfl | hother
    · exact ⟨field, by simp, value, hfound⟩
    · obtain ⟨earlier, hmem, hearlier⟩ := (h other).mp hother
      exact ⟨earlier, List.mem_append_left _ hmem, hearlier⟩
  · rintro ⟨finder, hmem, otherValue, hother⟩
    rcases List.mem_append.mp hmem with hmem | hmem
    · exact List.mem_cons_of_mem _ ((h other).mpr ⟨finder, hmem, otherValue, hother⟩)
    · rw [List.mem_singleton.mp hmem, hfound] at hother
      simp_all

end Reported

/-- The problems that the fields of `rest` find and those of `done` do not, in the order of the
fields that find them first. -/
structure NewProblems (schema : Schema) (tree : Tree) (done rest : List Field)
    (problems : List Problem) : Prop where
  mem_iff : ∀ problem, problem ∈ problems ↔ (∃ field ∈ rest, field.problem? tree = some problem)
    ∧ ∀ earlier ∈ done, earlier.problem? tree ≠ some problem
  ascending : problems.Pairwise fun problem later => problem.rank schema < later.rank schema

section Fields

variable {schema : Schema} (hseparate : schema.Separate) {tree : Tree}

include hseparate

theorem exists_problem?_iff {problem : Problem} :
    (∃ field ∈ schema.fields, field.problem? tree = some problem) ↔ problem.Of schema tree := by
  constructor
  · rintro ⟨field, hfield, hproblem⟩
    exact (of_problem? hfield hproblem).1
  · intro hof
    have hfield : ∃ field ∈ schema.fields, problem.keys <+: field.keys := by
      cases problem with
      | notATable keys value =>
        obtain ⟨⟨field, hfield, hinitial, -⟩, -⟩ := hof
        exact ⟨field, hfield, hinitial⟩
      | _ => exact ⟨_, hof.1, List.prefix_refl _⟩
    obtain ⟨field, hfield, hinitial⟩ := hfield
    exact ⟨field, hfield, (problem?_eq_some_iff hseparate hfield).mpr ⟨hof, hinitial⟩⟩

variable {done rest : List Field}

/-- A problem that no field before the rest finds ranks behind these fields. -/
theorem rank_eq_add (hfields : schema.fields = done ++ rest) {problem : Problem}
    (hof : problem.Of schema tree)
    (hdone : ∀ earlier ∈ done, earlier.problem? tree ≠ some problem) :
    problem.rank schema
      = rest.findIdx (fun field => problem.keys.isPrefixOf field.keys) + done.length := by
  have hnone : done.findIdx (fun field => problem.keys.isPrefixOf field.keys) = done.length := by
    rw [List.findIdx_eq_length]
    intro earlier hmem
    have hearlier : earlier ∈ schema.fields := by simp [hfields, hmem]
    rw [Bool.eq_false_iff, Ne, List.isPrefixOf_iff_prefix]
    exact fun hinitial =>
      hdone earlier hmem ((problem?_eq_some_iff hseparate hearlier).mpr ⟨hof, hinitial⟩)
  rw [Problem.rank, hfields, List.findIdx_append, hnone, if_neg (lt_irrefl _)]

/-- Only a value in the place of a table is found by more than one field. -/
theorem problem?_ne_of_own {field : Field} (hfields : schema.fields = done ++ field :: rest)
    {problem : Problem} (hown : problem.keys = field.keys) :
    ∀ earlier ∈ done, earlier.problem? tree ≠ some problem := by
  intro earlier hmem hfound
  have hearlier : earlier ∈ schema.fields := by simp [hfields, hmem]
  have hinitial := (of_problem? hearlier hfound).2
  rw [hown] at hinitial
  obtain rfl := hseparate.eq_of_initial (by simp [hfields]) hearlier hinitial
  have hnodup := hseparate.nodup
  rw [hfields, List.nodup_append] at hnodup
  exact hnodup.2.2 _ hmem _ List.mem_cons_self rfl

omit hseparate in
theorem NewProblems.skip {field : Field} {problems : List Problem}
    (hknown : ∀ problem, field.problem? tree = some problem →
      ∃ earlier ∈ done, earlier.problem? tree = some problem)
    (h : NewProblems schema tree (done ++ [field]) rest problems) :
    NewProblems schema tree done (field :: rest) problems := by
  refine ⟨fun problem => ?_, h.ascending⟩
  rw [h.mem_iff, List.forall_mem_append, List.forall_mem_singleton, List.exists_mem_cons_iff]
  constructor
  · rintro ⟨hfound, hdone, -⟩
    exact ⟨Or.inr hfound, hdone⟩
  · rintro ⟨hfound, hdone⟩
    have hsilent : field.problem? tree ≠ some problem := by
      intro hproblem
      obtain ⟨earlier, hmem, hearlier⟩ := hknown problem hproblem
      exact hdone earlier hmem hearlier
    exact ⟨hfound.resolve_left hsilent, hdone, hsilent⟩

theorem NewProblems.add {field : Field} {problem : Problem} {problems : List Problem}
    (hfields : schema.fields = done ++ field :: rest)
    (hproblem : field.problem? tree = some problem)
    (hnew : ∀ earlier ∈ done, earlier.problem? tree ≠ some problem)
    (h : NewProblems schema tree (done ++ [field]) rest problems) :
    NewProblems schema tree done (field :: rest) (problem :: problems) := by
  have hsplit : schema.fields = (done ++ [field]) ++ rest := by simp [hfields]
  constructor
  · intro other
    rw [List.mem_cons, h.mem_iff, List.forall_mem_append, List.forall_mem_singleton,
      List.exists_mem_cons_iff]
    constructor
    · rintro (rfl | ⟨hfound, hdone, -⟩)
      · exact ⟨Or.inl hproblem, hnew⟩
      · exact ⟨Or.inr hfound, hdone⟩
    · rintro ⟨hfound, hdone⟩
      by_cases hother : field.problem? tree = some other
      · exact Or.inl (Option.some.inj (hother.symm.trans hproblem))
      · exact Or.inr ⟨hfound.resolve_left hother, hdone, hother⟩
  · -- the field finds its problem first, so that all later ones rank behind it
    refine List.pairwise_cons.mpr ⟨fun later hlater => ?_, h.ascending⟩
    obtain ⟨⟨finder, hfinder, hfound⟩, hdone⟩ := (h.mem_iff later).mp hlater
    have hfield : field ∈ schema.fields := by simp [hfields]
    have hfinderField : finder ∈ schema.fields := by simp [hsplit, hfinder]
    obtain ⟨hof, hinitial⟩ := of_problem? hfield hproblem
    have hlaterOf := (of_problem? hfinderField hfound).1
    calc problem.rank schema = done.length := by
          rw [rank_eq_add hseparate hfields hof hnew, List.findIdx_cons,
            List.isPrefixOf_iff_prefix.mpr hinitial]
          simp
      _ < (done ++ [field]).length := by simp
      _ ≤ later.rank schema := by
          rw [rank_eq_add hseparate hsplit hlaterOf hdone]
          exact Nat.le_add_left _ _

/-- The rest of a pass reports the problems that the remaining fields find and those before do not,
if it starts from the values in the place of tables that are reported by then. -/
theorem exists_newProblems (hfields : schema.fields = done ++ rest) {reported : List (List String)}
    (hreported : Reported tree done reported) :
    ∃ problems, NewProblems schema tree done rest problems
      ∧ ∀ record, Schema.fieldViolations tree record reported rest
        = problems.map (Problem.violation record) := by
  -- `reported` grows along the pass: that it holds the blocked paths of `done` is what is carried
  induction rest generalizing done reported with
  | nil => exact ⟨[], ⟨by simp, List.Pairwise.nil⟩, fun record => rfl⟩
  | cons field rest ih =>
    have hsplit : schema.fields = (done ++ [field]) ++ rest := by simp [hfields]
    have hfield : field ∈ schema.fields := by simp [hfields]
    cases hproblem : field.problem? tree with
    | none =>
      obtain ⟨problems, hnew, hpass⟩ := ih hsplit (hreported.concat (by simp [hproblem]))
      refine ⟨problems, hnew.skip (by simp [hproblem]), fun record => ?_⟩
      rw [fieldViolations_cons, hproblem, hpass]
    | some problem =>
      rcases blocked_or_own hseparate hfield hproblem with ⟨keys, value, rfl⟩ | ⟨hown, hkind, hstep⟩
      · by_cases htold : keys ∈ reported
        · -- an earlier field is blocked at the same path, so by the same value
          obtain ⟨earlier, hmem, other, hfound⟩ := (hreported keys).mp htold
          obtain rfl : other = value := by
            have hearlier : earlier ∈ schema.fields := by simp [hfields, hmem]
            have hother := (of_problem? hearlier hfound).1.2.1
            have hvalue := (of_problem? hfield hproblem).1.2.1
            exact Option.some.inj (hother.symm.trans hvalue)
          obtain ⟨problems, hnew, hpass⟩ := ih hsplit (hreported.concat (by simp [hproblem, htold]))
          refine ⟨problems, hnew.skip fun problem h => ⟨earlier, hmem, ?_⟩, fun record => ?_⟩
          · rw [hfound, ← hproblem, h]
          · rw [fieldViolations_cons, hproblem, ← hpass]
            exact if_pos htold
        · have hnew : ∀ earlier ∈ done, earlier.problem? tree ≠ some (.notATable keys value) :=
            fun earlier hmem hfound => htold ((hreported keys).mpr ⟨earlier, hmem, value, hfound⟩)
          obtain ⟨problems, hrest, hpass⟩ := ih hsplit (hreported.concat_cons hproblem)
          refine ⟨_, hrest.add hseparate hfields hproblem hnew, fun record => ?_⟩
          rw [fieldViolations_cons, hproblem, List.map_cons, ← hpass]
          exact if_neg htold
      · have hnew : ∀ earlier ∈ done, earlier.problem? tree ≠ some problem :=
          problem?_ne_of_own hseparate hfields hown
        obtain ⟨problems, hrest, hpass⟩ := ih hsplit (hreported.concat (by simp [hproblem, hkind]))
        refine ⟨_, hrest.add hseparate hfields hproblem hnew, fun record => ?_⟩
        rw [hstep, hpass, List.map_cons]

/-- The pass over the fields reports exactly the problems of the tree, each at the first field that
it is about or that lies below it. -/
theorem exists_problems (tree : Tree) :
    ∃ problems : List Problem, (∀ problem, problem ∈ problems ↔ problem.Of schema tree)
      ∧ problems.Pairwise (fun problem later => problem.rank schema < later.rank schema)
      ∧ ∀ record, Schema.fieldViolations tree record [] schema.fields
        = problems.map (Problem.violation record) := by
  have hnothing : Reported tree [] [] := fun keys => by simp
  have hfields : schema.fields = [] ++ schema.fields := rfl
  obtain ⟨problems, hnew, hpass⟩ := exists_newProblems hseparate hfields hnothing
  refine ⟨problems, fun problem => ?_, hnew.ascending, hpass⟩
  rw [hnew.mem_iff, ← exists_problem?_iff hseparate]
  simp

end Fields

end LayeredConfig
