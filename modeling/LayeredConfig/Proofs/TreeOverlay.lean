import LayeredConfig.Proofs.TreePaths

/-!
# What an overlay leaves at each path

The node at a path after one overlay depends on the two trees at that path only. Where the layer has
a node, that node is laid over what was there. Where the layer has none, the old node stays, unless
the layer has put a value that is no table above it.
-/

namespace LayeredConfig.Tree

theorem elim_overlay_of_leaf (old? : Option Tree) {node : Tree} (h : node.isTable = false) :
    (old?.elim node fun old => old.overlay node) = node := by
  cases old? with
  | none => rfl
  | some old => exact overlay_of_leaf old h

theorem isTable_elim_overlay (old? : Option Tree) (node : Tree) :
    (old?.elim node fun old => old.overlay node).isTable = node.isTable := by
  cases old? with
  | none => rfl
  | some old => exact isTable_overlay old node

theorem overlayIn_cons (under : List (String × Tree)) (key : String) (value : Tree)
    (rest : List (String × Tree)) :
    overlayIn under ((key, value) :: rest) =
      overlayIn (Keyed.insert under key
        ((Keyed.get? under key).elim value fun old => old.overlay value)) rest := by
  rw [overlayIn]
  cases Keyed.get? under key <;> rfl

/-- Every key of the layer gets its value laid over the old one, and the other keys stay. -/
theorem get?_overlayIn {entries : List (String × Tree)} (h : Keyed.Ascending entries)
    (under : List (String × Tree)) (key : String) :
    Keyed.get? (overlayIn under entries) key =
      match Keyed.get? entries key with
      | some value => some ((Keyed.get? under key).elim value fun old => old.overlay value)
      | none => Keyed.get? under key := by
  induction entries generalizing under with
  | nil => rfl
  | cons entry rest ih =>
    obtain ⟨first, value⟩ := entry
    obtain ⟨hfirst, hrest⟩ := List.pairwise_cons.mp h
    rw [overlayIn_cons, ih hrest, Keyed.get?_insert, Keyed.get?_cons]
    by_cases hkey : first = key
    · subst hkey
      have habsent : Keyed.get? rest first = none :=
        Keyed.get?_eq_none_iff.mpr fun later hlater => (ne_of_lt (hfirst later hlater)).symm
      simp [habsent]
    · simp [hkey]

/-- A layer that has a node at a path leaves that node there, laid over the old one. -/
theorem at?_overlay_of_some {layer node : Tree} (hcanonical : layer.Canonical) (base : Tree)
    {path : List String} (h : layer.at? path = some node) :
    (base.overlay layer).at? path
      = some ((base.at? path).elim node fun old => old.overlay node) := by
  induction path generalizing base layer with
  | nil =>
    rw [at?_nil, Option.some.injEq] at h
    simp [h]
  | cons key path ih =>
    cases hlayer : layer.isTable with
    | false => simp [at?_cons_of_leaf hlayer] at h
    | true =>
      obtain ⟨entries, rfl⟩ := isTable_iff.mp hlayer
      rw [at?_table_cons] at h
      obtain ⟨child, hchild, hnode⟩ := Option.bind_eq_some_iff.mp h
      cases hbase : base.isTable with
      | false =>
        rw [overlay_onto_leaf hbase, at?_cons_of_leaf hbase, at?_table_cons, hchild]
        simpa using hnode
      | true =>
        obtain ⟨under, rfl⟩ := isTable_iff.mp hbase
        rw [overlay_table_table, at?_table_cons, at?_table_cons,
          get?_overlayIn (canonical_table_iff.mp hcanonical).1, hchild]
        cases hunder : Keyed.get? under key with
        | none => simpa using hnode
        | some old => simpa using ih (hcanonical.child hchild) old hnode

/-- A value of the layer that is no table takes away everything below its path. -/
theorem at?_overlay_of_blocks {layer : Tree} (hcanonical : layer.Canonical) (base : Tree)
    {path : List String} (h : layer.Blocks path) : (base.overlay layer).at? path = none := by
  obtain ⟨above, key, below, value, rfl, hvalue, hleaf⟩ := h
  have hnode : (base.overlay layer).at? above = some value := by
    rw [at?_overlay_of_some hcanonical base hvalue, elim_overlay_of_leaf _ hleaf]
  exact at?_eq_none_of_blocks ⟨above, key, below, value, rfl, hnode, hleaf⟩

/-- Where the layer has nothing at a path and nothing that blocks it, the old node stays. -/
theorem at?_overlay_of_none {layer : Tree} (hcanonical : layer.Canonical) (base : Tree)
    {path : List String} (h : layer.at? path = none) (hblocks : ¬ layer.Blocks path) :
    (base.overlay layer).at? path = base.at? path := by
  induction path generalizing base layer with
  | nil => simp at h
  | cons key path ih =>
    cases hlayer : layer.isTable with
    | false => exact absurd (blocks_cons_of_leaf hlayer key path) hblocks
    | true =>
      obtain ⟨entries, rfl⟩ := isTable_iff.mp hlayer
      cases hbase : base.isTable with
      | false => rw [overlay_onto_leaf hbase, at?_cons_of_leaf hbase, h]
      | true =>
        obtain ⟨under, rfl⟩ := isTable_iff.mp hbase
        rw [overlay_table_table, at?_table_cons, at?_table_cons,
          get?_overlayIn (canonical_table_iff.mp hcanonical).1]
        cases hchild : Keyed.get? entries key with
        | none => rfl
        | some child =>
          rw [at?_table_cons, hchild] at h
          have hopen : ¬ child.Blocks path :=
            fun hchildBlocks => hblocks (blocks_table_cons.mpr ⟨child, hchild, hchildBlocks⟩)
          cases hunder : Keyed.get? under key with
          | none => simpa using h
          | some old => simpa using ih (hcanonical.child hchild) old h hopen

theorem exists_at?_overlay {layer node : Tree} (hcanonical : layer.Canonical) (base : Tree)
    {route : List String} (h : layer.at? route = some node) :
    ∃ merged, (base.overlay layer).at? route = some merged :=
  ⟨_, at?_overlay_of_some hcanonical base h⟩

/-- Only a value that is no table, above it, takes a node away. -/
theorem blocks_of_at?_overlay_eq_none {base layer old : Tree} {route : List String}
    (hcanonical : layer.Canonical) (hold : base.at? route = some old)
    (h : (base.overlay layer).at? route = none) : layer.Blocks route := by
  by_contra hopen
  cases hlayer : layer.at? route with
  | some node =>
    obtain ⟨merged, hmerged⟩ := exists_at?_overlay hcanonical base hlayer
    simp [h] at hmerged
  | none =>
    rw [at?_overlay_of_none hcanonical base hlayer hopen, hold] at h
    simp at h

end LayeredConfig.Tree
