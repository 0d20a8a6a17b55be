import LayeredConfig.Proofs.TreePaths

/-!
# Looking up a path

A look-up finds the node at a path, or says why there is none: the way is open but ends early, or a
value that is no table stands on it. Each of the three outcomes says exactly that of the tree.
-/

namespace LayeredConfig

namespace Tree

/-- What the outcome of a look-up says about the node at the path and what stands above it. -/
def Lookup.Tells (walked : List String) (tree : Tree) (keys : List String) : Lookup → Prop
  | .found value => tree.at? keys = some value
  | .missing => tree.at? keys = none ∧ ¬ tree.Blocks keys
  | .blocked stop value => ∃ above key below, keys = above ++ key :: below
      ∧ stop = walked ++ above ∧ tree.at? above = some value ∧ value.isTable = false

theorem tells_lookupFrom (walked : List String) (tree : Tree) (keys : List String) :
    (lookupFrom walked tree keys).Tells walked tree keys := by
  induction keys generalizing walked tree with
  | nil =>
    have hfound : lookupFrom walked tree [] = .found tree := by cases tree <;> rfl
    rw [hfound]
    exact at?_nil tree
  | cons key keys ih =>
    cases htable : tree.isTable with
    | false =>
      have hblocked : lookupFrom walked tree (key :: keys) = .blocked walked tree := by
        cases tree <;> first | rfl | simp [isTable] at htable
      rw [hblocked]
      exact ⟨[], key, keys, rfl, by simp, at?_nil tree, htable⟩
    | true =>
      obtain ⟨entries, rfl⟩ := isTable_iff.mp htable
      cases hchild : Keyed.get? entries key with
      | none =>
        have hstep : lookupFrom walked (table entries) (key :: keys) = .missing := by
          simp [lookupFrom, hchild]
        rw [hstep]
        exact ⟨by simp [at?_table_cons, hchild], by simp [blocks_table_cons, hchild]⟩
      | some child =>
        have hstep : lookupFrom walked (table entries) (key :: keys)
            = lookupFrom (walked ++ [key]) child keys := by
          simp [lookupFrom, hchild]
        have hat (rest : List String) : (table entries).at? (key :: rest) = child.at? rest := by
          simp [at?_table_cons, hchild]
        have hbelow := ih (walked ++ [key]) child
        rw [hstep]
        cases hlookup : lookupFrom (walked ++ [key]) child keys with
        | found value =>
          rw [hlookup] at hbelow
          exact (hat keys).trans hbelow
        | missing =>
          rw [hlookup] at hbelow
          obtain ⟨habsent, hopen⟩ := hbelow
          refine ⟨(hat keys).trans habsent, ?_⟩
          simpa [blocks_table_cons, hchild] using hopen
        | blocked stop value =>
          rw [hlookup] at hbelow
          obtain ⟨above, next, below, rfl, hstop, hvalue, hleaf⟩ := hbelow
          refine ⟨key :: above, next, below, rfl, ?_, (hat above).trans hvalue, hleaf⟩
          rw [hstop, List.append_assoc, List.singleton_append]

/-- What blocks a path stands at one place only. -/
theorem eq_of_leaves_on_the_way {tree value other : Tree} {keys above further : List String}
    (habove : above <+: keys) (hfurther : further <+: keys)
    (hvalue : tree.at? above = some value) (hleaf : value.isTable = false)
    (hother : tree.at? further = some other) (hotherLeaf : other.isTable = false) :
    above = further := by
  have hproper : ∀ {short long : List String} {node below : Tree}, short <+: long →
      tree.at? short = some node → node.isTable = false → tree.at? long = some below →
      short = long := by
    rintro short long node below ⟨rest, rfl⟩ hnode hnodeLeaf hbelow
    cases rest with
    | nil => simp
    | cons key rest =>
      rw [at?_append, hnode] at hbelow
      simp [at?_cons_of_leaf hnodeLeaf] at hbelow
  rcases List.prefix_or_prefix_of_prefix habove hfurther with hshorter | hlonger
  · exact hproper hshorter hvalue hleaf hother
  · exact (hproper hlonger hother hotherLeaf hvalue).symm

section Lookup

variable {tree : Tree} {keys : List String}

theorem lookup_eq_found_iff {value : Tree} :
    tree.lookup keys = .found value ↔ tree.at? keys = some value := by
  have htold := tells_lookupFrom [] tree keys
  rw [lookup]
  cases hlookup : lookupFrom [] tree keys with
  | found other =>
    rw [hlookup] at htold
    have hother : tree.at? keys = some other := htold
    simp [hother]
  | missing =>
    rw [hlookup] at htold
    simp [htold.1]
  | blocked stop other =>
    rw [hlookup] at htold
    obtain ⟨above, key, below, rfl, -, hother, hleaf⟩ := htold
    simp [at?_eq_none_of_blocks ⟨above, key, below, other, rfl, hother, hleaf⟩]

theorem lookup_eq_missing_iff :
    tree.lookup keys = .missing ↔ tree.at? keys = none ∧ ¬ tree.Blocks keys := by
  have htold := tells_lookupFrom [] tree keys
  rw [lookup]
  cases hlookup : lookupFrom [] tree keys with
  | found value =>
    rw [hlookup] at htold
    have hvalue : tree.at? keys = some value := htold
    simp [hvalue]
  | missing =>
    rw [hlookup] at htold
    exact iff_of_true rfl htold
  | blocked stop value =>
    rw [hlookup] at htold
    obtain ⟨above, key, below, hkeys, -, hvalue, hleaf⟩ := htold
    exact iff_of_false (by simp) fun h => h.2 ⟨above, key, below, value, hkeys, hvalue, hleaf⟩

theorem lookup_eq_blocked_iff {stop : List String} {value : Tree} :
    tree.lookup keys = .blocked stop value
      ↔ stop <+: keys ∧ stop ≠ keys ∧ tree.at? stop = some value ∧ value.isTable = false := by
  have htold := tells_lookupFrom [] tree keys
  rw [lookup]
  constructor
  · intro hlookup
    rw [hlookup] at htold
    obtain ⟨above, key, below, rfl, rfl, hvalue, hleaf⟩ := htold
    exact ⟨⟨key :: below, rfl⟩, by simp, hvalue, hleaf⟩
  · rintro ⟨⟨rest, rfl⟩, hne, hvalue, hleaf⟩
    obtain ⟨key, below, rfl⟩ := List.exists_cons_of_ne_nil (show rest ≠ [] by simpa using hne)
    have hblocks : tree.Blocks (stop ++ key :: below) :=
      ⟨stop, key, below, value, rfl, hvalue, hleaf⟩
    cases hlookup : lookupFrom [] tree (stop ++ key :: below) with
    | found other =>
      rw [hlookup] at htold
      simp [Lookup.Tells, at?_eq_none_of_blocks hblocks] at htold
    | missing =>
      rw [hlookup] at htold
      exact absurd hblocks htold.2
    | blocked other otherValue =>
      rw [hlookup] at htold
      obtain ⟨above, next, rest, hkeys, rfl, hother, hotherLeaf⟩ := htold
      obtain rfl := eq_of_leaves_on_the_way (List.prefix_append stop _) ⟨next :: rest, hkeys.symm⟩
        hvalue hleaf hother hotherLeaf
      rw [hvalue] at hother
      simp [Option.some.inj hother]

end Lookup

end Tree

end LayeredConfig
