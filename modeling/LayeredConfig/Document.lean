import LayeredConfig.Toml.Document
import LayeredConfig.Tree.Canonical

/-!
# The trees of documents

A document describes a table, and in every table of its tree the keys ascend. Dates do not disturb
that: each is a table of its one reserved key.
-/

namespace LayeredConfig

/-- The tree of a document. -/
def Tree.ofToml (contents : String) : Except Toml.ParseError Tree :=
  (Toml.parse contents).map Toml.Value.toTree

namespace Toml

theorem toTree_scalar_canonical (scalar : Scalar) : scalar.toValue.toTree.Canonical := by
  cases scalar with
  | float number =>
    change (if Decimal.finite number then Tree.float number else Tree.null).Canonical
    split <;> trivial
  | dateTime moment => exact Tree.canonical_nest [Value.dateTimeKey] trivial
  | _ => trivial

theorem toEntries_insert (entries : List (String × Value)) (key : String) (value : Value) :
    Value.toEntries (Keyed.insert entries key value)
      = Keyed.insert (Value.toEntries entries) key value.toTree := by
  induction entries with
  | nil => rfl
  | cons entry rest ih =>
    obtain ⟨first, old⟩ := entry
    simp only [Keyed.insert, Value.toEntries]
    split
    · rfl
    · split
      · rfl
      · rw [Value.toEntries, ih]

theorem dated?_isDate {draft : Draft} {value : Value} (h : draft.dated? = some (.ok value)) :
    ∃ moment, value = .dateTime moment := by
  unfold Draft.dated? at h
  split at h
  · simp at h
  split at h
  · split at h
    · split at h
      · rename_i moment _
        exact ⟨moment, by simpa using h.symm⟩
      · simp [stop] at h
    · simp [stop] at h
  · simp at h

theorem asValue_canonical {draft : Draft} {entries : Reading (List (String × Value))}
    {value : Value}
    (hentries : ∀ read, entries = .ok read → (Tree.table (Value.toEntries read)).Canonical)
    (h : draft.asValue entries = .ok value) : value.toTree.Canonical := by
  unfold Draft.asValue at h
  split at h
  · rename_i read hdated
    obtain ⟨moment, rfl⟩ := dated?_isDate (h ▸ hdated)
    exact toTree_scalar_canonical (.dateTime moment)
  · cases hread : entries with
    | error stopped => simp [hread, Except.map] at h
    | ok read =>
      rw [hread] at h
      obtain rfl := Except.ok.inj h
      exact hentries read hread

mutual

theorem finish_canonical : ∀ (node : Node) (value : Value), node.finish = .ok value →
    value.toTree.Canonical
  | .scalar scalar, value, h => by
    obtain rfl := Except.ok.inj h
    exact toTree_scalar_canonical scalar
  | .array items, value, h => by
    rw [Node.finish] at h
    cases hitems : finishItems items with
    | error stopped => simp [hitems, Except.map] at h
    | ok values =>
      rw [hitems] at h
      obtain rfl := Except.ok.inj h
      trivial
  | .inline entries, value, h => asValue_canonical (finishEntries_canonical entries) h
  | .table _ entries, value, h => asValue_canonical (finishEntries_canonical entries) h
  | .tables done last, value, h => by
    rw [Node.finish] at h
    cases hdone : finishTables done with
    | error stopped => simp [hdone, bind, Except.bind] at h
    | ok values =>
      cases hlast : Draft.asValue last (finishEntries last) with
      | error stopped => simp [hdone, hlast, bind, Except.bind] at h
      | ok value =>
        rw [hdone, hlast] at h
        obtain rfl := Except.ok.inj h
        trivial
termination_by structural node => node

theorem finishEntries_canonical : ∀ (entries : List (String × Place × Node))
    (read : List (String × Value)), finishEntries entries = .ok read →
    (Tree.table (Value.toEntries read)).Canonical
  | [], read, h => by
    obtain rfl := Except.ok.inj h
    exact Tree.canonical_table_iff.mpr ⟨List.Pairwise.nil, by simp [Value.toEntries]⟩
  | (key, place, node) :: rest, read, h => by
    rw [finishEntries] at h
    cases hnode : node.finish with
    | error stopped => simp [hnode, bind, Except.bind] at h
    | ok value =>
      cases hrest : finishEntries rest with
      | error stopped => simp [hnode, hrest, bind, Except.bind] at h
      | ok others =>
        rw [hnode, hrest] at h
        obtain rfl := Except.ok.inj h
        have hvalue := finish_canonical node value hnode
        obtain ⟨hascending, hothers⟩ :=
          Tree.canonical_table_iff.mp (finishEntries_canonical rest others hrest)
        rw [toEntries_insert]
        refine Tree.canonical_table_iff.mpr ⟨Keyed.ascending_insert hascending _ _, ?_⟩
        intro entry hentry
        rcases Keyed.mem_of_mem_insert hentry with rfl | hentry
        · exact hvalue
        · exact hothers entry hentry
termination_by structural entries => entries

end

theorem parse_isTable {contents : String} {value : Value} (h : parse contents = .ok value) :
    ∃ root entries, finishEntries root = .ok entries ∧ value = .table entries := by
  unfold parse at h
  simp only at h
  split at h
  · simp at h
  · simp at h
  · split at h
    · simp at h
    · rename_i entries hentries
      exact ⟨_, entries, hentries, (Except.ok.inj h).symm⟩

end Toml

open Toml in
/-- A document that can be read describes a table whose keys ascend at every depth. -/
theorem Tree.ofToml_canonical {contents : String} {tree : Tree}
    (h : Tree.ofToml contents = .ok tree) : tree.isTable = true ∧ tree.Canonical := by
  unfold Tree.ofToml at h
  cases hparse : parse contents with
  | error problem => simp [hparse, Except.map] at h
  | ok value =>
    rw [hparse] at h
    obtain rfl := Except.ok.inj h
    obtain ⟨root, entries, hentries, rfl⟩ := parse_isTable hparse
    exact ⟨rfl, finishEntries_canonical root entries hentries⟩

namespace CanonicalTree

def ofToml (contents : String) : Except Toml.ParseError CanonicalTree :=
  match h : Tree.ofToml contents with
  | .ok tree => .ok ⟨tree, (Tree.ofToml_canonical h).2⟩
  | .error problem => .error problem

theorem ofToml_eq_ok_iff {contents : String} {document : CanonicalTree} :
    ofToml contents = .ok document ↔ Tree.ofToml contents = .ok document.tree := by
  unfold ofToml
  split
  · rename_i tree htree
    constructor
    · intro h
      obtain rfl := Except.ok.inj h
      exact htree
    · intro h
      obtain ⟨other, _⟩ := document
      obtain rfl := Except.ok.inj (htree.symm.trans h)
      rfl
  · rename_i problem hproblem
    simp [hproblem]

/-- A document that can be read has its keys in order. -/
theorem exists_of_ofToml {contents : String} {tree : Tree} (h : Tree.ofToml contents = .ok tree) :
    ∃ document, ofToml contents = .ok document ∧ document.tree = tree :=
  ⟨⟨tree, (Tree.ofToml_canonical h).2⟩, ofToml_eq_ok_iff.mpr h, rfl⟩

theorem ofToml_eq_error_iff {contents : String} {problem : Toml.ParseError} :
    ofToml contents = .error problem ↔ Tree.ofToml contents = .error problem := by
  unfold ofToml
  split
  · rename_i tree htree
    simp [htree]
  · rename_i other hother
    rw [hother, Except.error.injEq, Except.error.injEq]

end CanonicalTree

end LayeredConfig
