import LayeredConfig.Proofs.TreePaths

/-!
# Leaving out nulls

A tree without its nulls has the other nodes where they were. Arrays are left as they are. What
reads a tree by the members of its tables can tell an absent member from a null one only by the
default that it has for the absent one.
-/

namespace LayeredConfig.Tree

mutual

/-- The tree without the members that are null, at any depth. -/
def withoutNulls : Tree → Tree
  | .table entries => .table (withoutNullsIn entries)
  | value => value
termination_by structural tree => tree

def withoutNullsIn : List (String × Tree) → List (String × Tree)
  | [] => []
  | (key, child) :: rest =>
    if child = .null then withoutNullsIn rest
    else (key, withoutNulls child) :: withoutNullsIn rest
termination_by structural entries => entries

end

theorem withoutNulls_of_leaf {tree : Tree} (h : tree.isTable = false) :
    tree.withoutNulls = tree := by
  cases tree <;> first | rfl | simp [isTable] at h

/-- What is left of a member. -/
def kept? (child : Tree) : Option Tree :=
  if child = .null then none else some child.withoutNulls

@[simp] theorem kept?_null : kept? .null = none := rfl

theorem kept?_of_ne {child : Tree} (h : child ≠ .null) : child.kept? = some child.withoutNulls :=
  if_neg h

theorem kept?_eq_none_iff {child : Tree} : child.kept? = none ↔ child = .null := by
  by_cases hnull : child = .null <;> simp [kept?, hnull]

theorem kept?_eq_some_iff {child node : Tree} :
    child.kept? = some node ↔ child ≠ .null ∧ child.withoutNulls = node := by
  by_cases hnull : child = .null <;> simp [kept?, hnull]

theorem withoutNulls_eq_leaf_iff {tree value : Tree} (h : value.isTable = false) :
    tree.withoutNulls = value ↔ tree = value := by
  cases htable : tree.isTable with
  | false => rw [withoutNulls_of_leaf htable]
  | true =>
    obtain ⟨entries, rfl⟩ := isTable_iff.mp htable
    constructor <;> rintro rfl <;> simp [withoutNulls, isTable] at h

theorem withoutNullsIn_eq (entries : List (String × Tree)) :
    withoutNullsIn entries
      = entries.filterMap fun entry => entry.2.kept?.map fun child => (entry.1, child) := by
  induction entries with
  | nil => rfl
  | cons entry rest ih =>
    obtain ⟨key, child⟩ := entry
    rw [withoutNullsIn, ih]
    by_cases hnull : child = .null <;> simp [kept?, hnull]

theorem ascending_withoutNullsIn {entries : List (String × Tree)} (h : Keyed.Ascending entries) :
    Keyed.Ascending (withoutNullsIn entries) := by
  rw [withoutNullsIn_eq]
  refine List.Pairwise.filterMap _ ?_ h
  intro entry later hlt kept hkept keptLater hkeptLater
  obtain ⟨child, -, rfl⟩ := Option.map_eq_some_iff.mp hkept
  obtain ⟨other, -, rfl⟩ := Option.map_eq_some_iff.mp hkeptLater
  exact hlt

theorem get?_withoutNullsIn {entries : List (String × Tree)} (h : Keyed.Ascending entries)
    (key : String) :
    Keyed.get? (withoutNullsIn entries) key = (Keyed.get? entries key).bind kept? := by
  induction entries with
  | nil => rfl
  | cons entry rest ih =>
    obtain ⟨first, child⟩ := entry
    obtain ⟨hfirst, hrest⟩ := List.pairwise_cons.mp h
    rw [withoutNullsIn, Keyed.get?_cons]
    by_cases hnull : child = .null
    · rw [if_pos hnull, ih hrest]
      split
      next hkey =>
        -- the keys ascend, so that the null was the only entry for its key
        subst hkey
        have habsent : Keyed.get? rest first = none :=
          Keyed.get?_eq_none_iff.mpr fun later hlater => (ne_of_lt (hfirst later hlater)).symm
        simp [habsent, hnull]
      next => rfl
    · rw [if_neg hnull, Keyed.get?_cons, ih hrest]
      split
      next => exact (kept?_of_ne hnull).symm
      next => rfl

theorem canonical_withoutNulls {tree : Tree} (h : tree.Canonical) :
    tree.withoutNulls.Canonical := by
  induction tree using tableInduction with
  | leaf tree hleaf => rwa [withoutNulls_of_leaf hleaf]
  | table entries ih =>
    obtain ⟨hascending, hchildren⟩ := canonical_table_iff.mp h
    refine canonical_table_iff.mpr ⟨ascending_withoutNullsIn hascending, fun entry hentry => ?_⟩
    rw [withoutNullsIn_eq] at hentry
    obtain ⟨whole, hwhole, hkept⟩ := List.mem_filterMap.mp hentry
    obtain ⟨child, hchild, rfl⟩ := Option.map_eq_some_iff.mp hkept
    obtain ⟨-, rfl⟩ := kept?_eq_some_iff.mp hchild
    exact ih whole hwhole (hchildren whole hwhole)

/-- Below the root there are the nodes that there were, but no nulls. -/
theorem at?_withoutNulls {tree : Tree} (h : tree.Canonical) {path : List String}
    (hpath : path ≠ []) : tree.withoutNulls.at? path = (tree.at? path).bind kept? := by
  induction path generalizing tree with
  | nil => exact absurd rfl hpath
  | cons key path ih =>
    cases htable : tree.isTable with
    | false => simp [withoutNulls_of_leaf htable, at?_cons_of_leaf htable]
    | true =>
      obtain ⟨entries, rfl⟩ := isTable_iff.mp htable
      rw [withoutNulls, at?_table_cons, at?_table_cons,
        get?_withoutNullsIn (canonical_table_iff.mp h).1]
      cases hchild : Keyed.get? entries key with
      | none => rfl
      | some child =>
        by_cases hnull : child = .null
        · -- there is nothing below a null
          subst hnull
          cases path <;> rfl
        · cases path with
          | nil => simp [kept?_of_ne hnull]
          | cons next path =>
            simpa [kept?_of_ne hnull] using ih (h.child hchild) (List.cons_ne_nil next path)

/-! ### With or without nulls -/

/-- The tree is `whole`, with its nulls or without them. -/
def Trims (whole tree : Tree) : Prop := tree = whole ∨ tree = whole.withoutNulls

theorem Trims.eq_of_leaf {whole tree : Tree} (h : whole.Trims tree)
    (hleaf : whole.isTable = false) : tree = whole :=
  h.elim id fun htree => htree.trans (withoutNulls_of_leaf hleaf)

/-- The members that are kept are there with their nulls or without them, and no member is left out
but nulls. -/
structure TrimsIn (entries kept : List (String × Tree)) : Prop where
  ascending : Keyed.Ascending kept
  trims : ∀ key child, Keyed.get? kept key = some child →
    ∃ whole, Keyed.get? entries key = some whole ∧ whole.Trims child
  null : ∀ key whole, Keyed.get? entries key = some whole → Keyed.get? kept key = none →
    whole = .null

theorem Trims.exists_of_table {entries : List (String × Tree)} {tree : Tree}
    (h : (table entries).Trims tree) (hascending : Keyed.Ascending entries) :
    ∃ kept, tree = table kept ∧ TrimsIn entries kept := by
  rcases h with rfl | rfl
  · exact ⟨entries, rfl, hascending, fun key child hchild => ⟨child, hchild, Or.inl rfl⟩,
      fun key whole hwhole hnone => absurd (hwhole.symm.trans hnone) (Option.some_ne_none whole)⟩
  · refine ⟨withoutNullsIn entries, rfl, ascending_withoutNullsIn hascending, ?_, ?_⟩
    · intro key child hchild
      rw [get?_withoutNullsIn hascending] at hchild
      obtain ⟨whole, hwhole, hkept⟩ := Option.bind_eq_some_iff.mp hchild
      exact ⟨whole, hwhole, Or.inr (kept?_eq_some_iff.mp hkept).2.symm⟩
    · intro key whole hwhole hnone
      rw [get?_withoutNullsIn hascending, hwhole] at hnone
      exact kept?_eq_none_iff.mp hnone

end LayeredConfig.Tree
