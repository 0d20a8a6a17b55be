import LayeredConfig.Proofs.Keyed
import LayeredConfig.Tree.Canonical

/-!
# Nodes and paths of trees

What a tree has at longer and at shorter paths. A node has tables above it and nothing else; a value
that is no table blocks every path that goes on from it.
-/

namespace LayeredConfig.Tree

theorem at?_cons_of_leaf {tree : Tree} (h : tree.isTable = false) (key : String)
    (path : List String) : tree.at? (key :: path) = none := by
  cases tree <;> first | rfl | simp [isTable] at h

theorem at?_append (tree : Tree) (above below : List String) :
    tree.at? (above ++ below) = (tree.at? above).bind fun node => node.at? below := by
  induction above generalizing tree with
  | nil => simp
  | cons key above ih =>
    cases tree with
    | table entries =>
      rw [List.cons_append, at?_table_cons, at?_table_cons, Option.bind_assoc]
      exact congrArg _ (funext ih)
    | _ => rfl

/-- Only tables stand above a node. -/
theorem isTable_of_at?_append_cons {tree node : Tree} {above : List String} {key : String}
    {below : List String} (h : tree.at? (above ++ key :: below) = some node) :
    ∃ entries, tree.at? above = some (.table entries) := by
  rw [at?_append] at h
  obtain ⟨value, hvalue, hnode⟩ := Option.bind_eq_some_iff.mp h
  cases hleaf : value.isTable with
  | false => simp [at?_cons_of_leaf hleaf] at hnode
  | true =>
    obtain ⟨entries, rfl⟩ := isTable_iff.mp hleaf
    exact ⟨entries, hvalue⟩

/-- A proper part of the path leads to a value that is no table, so that nothing is at the path. -/
def Blocks (tree : Tree) (path : List String) : Prop :=
  ∃ above key below value, path = above ++ key :: below ∧ tree.at? above = some value
    ∧ value.isTable = false

theorem not_blocks_nil (tree : Tree) : ¬ tree.Blocks [] := by
  rintro ⟨above, key, below, value, hpath, -⟩
  simp at hpath

theorem blocks_cons_of_leaf {tree : Tree} (h : tree.isTable = false) (key : String)
    (path : List String) : tree.Blocks (key :: path) :=
  ⟨[], key, path, tree, rfl, at?_nil tree, h⟩

theorem blocks_table_cons {entries : List (String × Tree)} {key : String} {path : List String} :
    (table entries).Blocks (key :: path)
      ↔ ∃ child, Keyed.get? entries key = some child ∧ child.Blocks path := by
  constructor
  · rintro ⟨above, next, below, value, hpath, hvalue, hleaf⟩
    cases above with
    | nil =>
      rw [at?_nil, Option.some.injEq] at hvalue
      simp [← hvalue, isTable] at hleaf
    | cons first above =>
      obtain ⟨rfl, rfl⟩ := List.cons.inj hpath
      obtain ⟨child, hchild, hvalue⟩ := Option.bind_eq_some_iff.mp hvalue
      exact ⟨child, hchild, above, next, below, value, rfl, hvalue, hleaf⟩
  · rintro ⟨child, hchild, above, next, below, value, rfl, hvalue, hleaf⟩
    refine ⟨key :: above, next, below, value, rfl, ?_, hleaf⟩
    rw [at?_table_cons, hchild]
    exact hvalue

theorem at?_eq_none_of_blocks {tree : Tree} {path : List String} (h : tree.Blocks path) :
    tree.at? path = none := by
  obtain ⟨above, key, below, value, rfl, hvalue, hleaf⟩ := h
  rw [at?_append, hvalue]
  exact at?_cons_of_leaf hleaf key below

theorem blocks_of_initial {tree value : Tree} {keys longer : List String}
    (hvalue : tree.at? keys = some value) (hleaf : value.isTable = false)
    (hinitial : keys <+: longer) (hne : keys ≠ longer) : tree.Blocks longer := by
  obtain ⟨rest, rfl⟩ := hinitial
  cases rest with
  | nil => simp at hne
  | cons key rest => exact ⟨keys, key, rest, value, rfl, hvalue, hleaf⟩

/-! ### Nests -/

theorem at?_nest_append (above below : List String) (value : Tree) :
    (nest (above ++ below) value).at? above = some (nest below value) := by
  induction above with
  | nil => simp
  | cons key above ih => simp [nest, at?_table_cons, Keyed.get?_cons, ih]

/-- A nest around a value other than a table has nodes on the way to the value only. -/
theorem initial_of_at?_nest {keys route : List String} {value node : Tree}
    (hleaf : value.isTable = false) (h : (nest keys value).at? route = some node) :
    route <+: keys := by
  induction keys generalizing route with
  | nil =>
    cases route with
    | nil => exact List.prefix_refl _
    | cons key route => simp [nest, at?_cons_of_leaf hleaf] at h
  | cons first keys ih =>
    cases route with
    | nil => exact List.nil_prefix
    | cons key route =>
      rw [nest, at?_table_cons, Keyed.get?_cons] at h
      by_cases hkey : first = key
      · rw [if_pos hkey] at h
        exact List.cons_prefix_cons.mpr ⟨hkey.symm, ih h⟩
      · simp [hkey] at h

/-- A nest has one value other than a table. -/
theorem eq_of_at?_nest_leaf {keys route : List String} {value node : Tree}
    (hleaf : value.isTable = false) (h : (nest keys value).at? route = some node)
    (hnode : node.isTable = false) : route = keys ∧ node = value := by
  obtain ⟨rest, rfl⟩ := initial_of_at?_nest hleaf h
  rw [at?_nest_append, Option.some.injEq] at h
  cases rest with
  | nil => exact ⟨(List.append_nil route).symm, h.symm⟩
  | cons key rest => simp [← h, nest, isTable] at hnode

theorem not_blocks_nest {keys route : List String} {value : Tree} (hleaf : value.isTable = false)
    (h : ¬ keys <+: route) : ¬ (nest keys value).Blocks route := by
  rintro ⟨above, key, below, node, rfl, hnode, hnodeLeaf⟩
  obtain ⟨rfl, -⟩ := eq_of_at?_nest_leaf hleaf hnode hnodeLeaf
  exact h (List.prefix_append above (key :: below))

/-! ### Trees that are alike -/

/-- Two trees have the same values other than tables, and tables at the same paths. -/
def Alike (tree other : Tree) : Prop :=
  (∀ path value, value.isTable = false →
      (tree.at? path = some value ↔ other.at? path = some value))
    ∧ ∀ path, (∃ entries, tree.at? path = some (.table entries))
      ↔ ∃ entries, other.at? path = some (.table entries)

theorem Alike.exists_node {tree other : Tree} (h : tree.Alike other) (path : List String) :
    (∃ node, tree.at? path = some node) ↔ ∃ node, other.at? path = some node := by
  have hsplit (tree : Tree) : (∃ node, tree.at? path = some node)
      ↔ (∃ value, value.isTable = false ∧ tree.at? path = some value)
        ∨ ∃ entries, tree.at? path = some (.table entries) := by
    constructor
    · rintro ⟨node, hnode⟩
      cases htable : node.isTable with
      | false => exact Or.inl ⟨node, htable, hnode⟩
      | true =>
        obtain ⟨entries, rfl⟩ := isTable_iff.mp htable
        exact Or.inr ⟨entries, hnode⟩
    · rintro (⟨value, -, hvalue⟩ | ⟨entries, hentries⟩)
      · exact ⟨value, hvalue⟩
      · exact ⟨_, hentries⟩
  rw [hsplit, hsplit, h.2 path]
  exact or_congr_left (exists_congr fun value => and_congr_right (h.1 path value))

theorem Alike.child {entries others : List (String × Tree)} {key : String} {child other : Tree}
    (h : (table entries).Alike (.table others)) (hchild : Keyed.get? entries key = some child)
    (hother : Keyed.get? others key = some other) : child.Alike other := by
  have hleft (path : List String) : (table entries).at? (key :: path) = child.at? path := by
    simp [at?_table_cons, hchild]
  have hright (path : List String) : (table others).at? (key :: path) = other.at? path := by
    simp [at?_table_cons, hother]
  refine ⟨fun path value hleaf => ?_, fun path => ?_⟩
  · rw [← hleft, ← hright]
    exact h.1 (key :: path) value hleaf
  · rw [← hleft, ← hright]
    exact h.2 (key :: path)

/-- Canonical trees that are alike are the same tree. -/
theorem Alike.eq {tree other : Tree} (h : tree.Alike other) (htree : tree.Canonical)
    (hother : other.Canonical) : tree = other := by
  induction tree using tableInduction generalizing other with
  | leaf tree hleaf =>
    have hsame := (h.1 [] tree hleaf).mp (at?_nil tree)
    rw [at?_nil] at hsame
    exact (Option.some.inj hsame).symm
  | table entries ih =>
    obtain ⟨others, hothers⟩ := (h.2 []).mp ⟨entries, at?_nil _⟩
    rw [at?_nil] at hothers
    obtain rfl := Option.some.inj hothers
    have hkeys (key : String) : (∃ child, Keyed.get? entries key = some child)
        ↔ ∃ child, Keyed.get? others key = some child := by
      simpa [at?_table_cons] using h.exists_node [key]
    refine congrArg _ (Keyed.eq_of_get? (canonical_table_iff.mp htree).1
      (canonical_table_iff.mp hother).1 fun key => ?_)
    cases hchild : Keyed.get? entries key with
    | none =>
      rw [eq_comm, Option.eq_none_iff_forall_ne_some]
      intro child hpresent
      obtain ⟨node, hnode⟩ := (hkeys key).mpr ⟨child, hpresent⟩
      simp [hchild] at hnode
    | some child =>
      obtain ⟨found, hfound⟩ := (hkeys key).mp ⟨child, hchild⟩
      rw [hfound]
      exact congrArg some (ih _ (Keyed.mem_of_get? hchild) (h.child hchild hfound)
        (htree.child hchild) (hother.child hfound))

end LayeredConfig.Tree
