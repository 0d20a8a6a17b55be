import LayeredConfig.Tree

/-!
# Canonical trees

A tree is canonical if the keys ascend in each of its tables. Nests of single values are, and an
overlay of canonical trees is, so that layers and what they amount to carry the proof with the tree.
-/

namespace LayeredConfig

namespace Tree

/-- A tree is a table of trees or has nothing below it. -/
@[elab_as_elim]
theorem tableInduction {motive : Tree → Prop}
    (leaf : ∀ tree, tree.isTable = false → motive tree)
    (table : ∀ entries, (∀ entry ∈ entries, motive entry.2) → motive (.table entries))
    (tree : Tree) : motive tree := by
  refine @Tree.rec motive (fun _ => True) (fun entries => ∀ entry ∈ entries, motive entry.2)
    (fun entry => motive entry.2) (leaf _ rfl) (fun _ => leaf _ rfl) (fun _ => leaf _ rfl)
    (fun _ => leaf _ rfl) (fun _ => leaf _ rfl) (fun _ _ => leaf _ rfl)
    (fun entries => table entries) trivial (fun _ _ _ _ => trivial)
    (fun entry hmem => nomatch hmem) ?_ (fun _ _ h => h) tree
  intro entry rest hentry hrest
  exact List.forall_mem_cons.mpr ⟨hentry, hrest⟩

theorem isTable_iff {tree : Tree} : tree.isTable = true ↔ ∃ entries, tree = .table entries := by
  cases tree <;> simp [isTable]

mutual

def decideCanonical : (tree : Tree) → Decidable tree.Canonical
  | .table entries =>
    @instDecidableAnd (Keyed.Ascending entries) _ inferInstance (decideCanonicalIn entries)
  | .null | .bool _ | .int _ | .float _ | .string _ | .array _ => isTrue trivial
termination_by structural tree => tree

def decideCanonicalIn : (entries : List (String × Tree)) → Decidable (CanonicalIn entries)
  | [] => isTrue trivial
  | (_, child) :: rest => @instDecidableAnd _ _ (decideCanonical child) (decideCanonicalIn rest)
termination_by structural entries => entries

end

instance : DecidablePred Canonical := decideCanonical

theorem canonicalIn_iff {entries : List (String × Tree)} :
    CanonicalIn entries ↔ ∀ entry ∈ entries, entry.2.Canonical := by
  induction entries with
  | nil => simp [CanonicalIn]
  | cons entry rest ih =>
    obtain ⟨key, child⟩ := entry
    simp [CanonicalIn, ih]

theorem canonical_of_leaf {tree : Tree} (h : tree.isTable = false) : tree.Canonical := by
  cases tree <;> trivial

theorem canonical_table_iff {entries : List (String × Tree)} :
    (table entries).Canonical
      ↔ Keyed.Ascending entries ∧ ∀ entry ∈ entries, entry.2.Canonical := by
  rw [← canonicalIn_iff]
  rfl

theorem Canonical.child {entries : List (String × Tree)} (h : (table entries).Canonical)
    {key : String} {child : Tree} (hchild : Keyed.get? entries key = some child) :
    child.Canonical :=
  (canonical_table_iff.mp h).2 _ (Keyed.mem_of_get? hchild)

theorem isTable_nest {path : List String} (h : path ≠ []) (value : Tree) :
    (nest path value).isTable = true := by
  obtain ⟨key, path, rfl⟩ := List.exists_cons_of_ne_nil h
  rfl

theorem canonical_nest (path : List String) {value : Tree} (h : value.Canonical) :
    (nest path value).Canonical := by
  induction path with
  | nil => exact h
  | cons key path ih =>
    exact canonical_table_iff.mpr ⟨List.pairwise_singleton _ _, by simpa using ih⟩

/-! ### Overlays -/

theorem overlay_of_leaf (base : Tree) {layer : Tree} (h : layer.isTable = false) :
    base.overlay layer = layer := by
  cases layer <;> first | rfl | simp [isTable] at h

theorem overlay_onto_leaf {base : Tree} (h : base.isTable = false) (layer : Tree) :
    base.overlay layer = layer := by
  cases layer <;> cases base <;> first | rfl | simp [isTable] at h

theorem overlay_table_table (under entries : List (String × Tree)) :
    (table under).overlay (table entries) = table (overlayIn under entries) := rfl

theorem isTable_overlay (base layer : Tree) : (base.overlay layer).isTable = layer.isTable := by
  cases hlayer : layer.isTable with
  | false => rw [overlay_of_leaf base hlayer, hlayer]
  | true =>
    obtain ⟨entries, rfl⟩ := isTable_iff.mp hlayer
    cases base <;> rfl

theorem canonical_overlay {base layer : Tree} (hbase : base.Canonical)
    (hlayer : layer.Canonical) : (base.overlay layer).Canonical := by
  induction layer using tableInduction generalizing base with
  | leaf layer hleaf => rwa [overlay_of_leaf base hleaf]
  | table entries ih =>
    cases htable : base.isTable with
    | false => rwa [overlay_onto_leaf htable]
    | true =>
      obtain ⟨under, rfl⟩ := isTable_iff.mp htable
      have hentries := (canonical_table_iff.mp hlayer).2
      rw [overlay_table_table]
      -- the entries are merged one by one, each into a table that is canonical already
      clear htable hlayer
      induction entries generalizing under with
      | nil => exact hbase
      | cons entry rest ihRest =>
        obtain ⟨key, value⟩ := entry
        obtain ⟨ihValue, ihEntries⟩ := List.forall_mem_cons.mp ih
        obtain ⟨hvalue, hrest⟩ := List.forall_mem_cons.mp hentries
        refine ihRest ihEntries _ ?_ hrest
        obtain ⟨hascending, hunder⟩ := canonical_table_iff.mp hbase
        refine canonical_table_iff.mpr ⟨Keyed.ascending_insert hascending _ _, ?_⟩
        intro member hmember
        rcases Keyed.mem_of_mem_insert hmember with rfl | hmember
        · cases hold : Keyed.get? under key with
          | none => exact hvalue
          | some old => exact ihValue (hbase.child hold) hvalue
        · exact hunder member hmember

end Tree

/-- A tree with its keys in ascending order, so that it is determined by its nodes. -/
structure CanonicalTree where
  tree : Tree
  canonical : tree.Canonical
deriving DecidableEq

/-- The tree that holds `value` at the end of a path and nothing else. -/
def CanonicalTree.nest (keys : List String) (value : Tree) (h : value.Canonical) :
    CanonicalTree where
  tree := .nest keys value
  canonical := Tree.canonical_nest keys h

end LayeredConfig
