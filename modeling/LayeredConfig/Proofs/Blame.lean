import LayeredConfig.Proofs.RecordedOrigins

/-!
# Blame

A path is blamed on the origin recorded for it, or else on that of its nearest recorded ancestor. In
a run this is the origin of the last overlay that speaks for the path. The overlay that put the node
there speaks for it; so does every later one that disturbs the record, although it has nothing
there.
-/

namespace LayeredConfig

open KeyPath Provenance

/-- An overlay of a run, with the state that it is laid over. -/
structure Stage where
  before : Resolution
  layer : Overlay

def stagesFrom (state : Resolution) : List Overlay → List Stage
  | [] => []
  | layer :: rest => ⟨state, layer⟩ :: stagesFrom (state.overlay layer) rest

def stages (layers : List Overlay) : List Stage := stagesFrom .start layers

theorem stagesFrom_append (state : Resolution) (layers rest : List Overlay) :
    stagesFrom state (layers ++ rest)
      = stagesFrom state layers ++ stagesFrom (layers.foldl Resolution.overlay state) rest := by
  induction layers generalizing state with
  | nil => rfl
  | cons layer layers ih => simp [stagesFrom, ih]

theorem stages_append_singleton (layers : List Overlay) (layer : Overlay) :
    stages (layers ++ [layer]) = stages layers ++ [⟨overlaid layers, layer⟩] :=
  stagesFrom_append .start layers [layer]

theorem map_layer_stages (layers : List Overlay) : (stages layers).map Stage.layer = layers := by
  induction layers using List.reverseRecOn with
  | nil => rfl
  | append_singleton layers layer ih =>
    rw [stages_append_singleton, List.map_append, ih]
    rfl

theorem layer_mem_of_mem_stages {layers : List Overlay} {stage : Stage}
    (h : stage ∈ stages layers) : stage.layer ∈ layers := by
  rw [← map_layer_stages layers]
  exact List.mem_map_of_mem h

namespace Stage

/-- The overlay decides what the path is blamed on. -/
def Speaks (stage : Stage) (path : String) : Prop :=
  ∃ mark ∈ marks "" (some stage.before.merged) stage.layer.tree,
    mark.Speaks stage.before.provenance path

def Disturbs (stage : Stage) (keys : List String) : Prop :=
  stage.layer.Disturbs stage.before keys

theorem Disturbs.speaks {stage : Stage} {keys : List String} (h : stage.Disturbs keys) :
    stage.Speaks (dotted keys) := by
  obtain ⟨route, node, hnode, -, hconcerns⟩ := h
  exact ⟨_, mem_marks_overlay.mpr ⟨route, node, hnode, rfl⟩, Or.inl hconcerns⟩

theorem speaks_of_node {stage : Stage} {keys : List String} {node : Tree}
    (h : stage.layer.tree.at? keys = some node) : stage.Speaks (dotted keys) :=
  ⟨_, mem_marks_overlay.mpr ⟨keys, node, h, rfl⟩, Or.inl (Or.inl rfl)⟩

end Stage

/-- A path that some overlay speaks for is blamed on the last one that does. -/
theorem lastWith_originOf {path : String} {layers : List Overlay}
    (h : ∃ stage ∈ stages layers, stage.Speaks path) :
    LastWith (fun stage => stage.Speaks path
        ∧ Blamed path stage.layer.origin ((overlaid layers).provenance.originOf path))
      (fun stage => ¬ stage.Speaks path) (stages layers) := by
  induction layers using List.reverseRecOn with
  | nil => simp [stages, stagesFrom] at h
  | append_singleton layers layer ih =>
    rw [stages_append_singleton] at h ⊢
    rw [lastWith_append_singleton, overlaid_append_singleton, provenance_overlay]
    obtain ⟨hspoken, hsilent⟩ := @originOf_foldl layer.origin (overlaid layers).provenance path
      (marks "" (some (overlaid layers).merged) layer.tree) (get?_overlaid_root layers)
    by_cases hspeaks : Stage.Speaks ⟨overlaid layers, layer⟩ path
    · exact Or.inl ⟨hspeaks, hspoken hspeaks⟩
    · have hnone : ∀ mark ∈ marks "" (some (overlaid layers).merged) layer.tree,
          ¬ mark.Speaks (overlaid layers).provenance path :=
        fun mark hmark hmarkSpeaks => hspeaks ⟨mark, hmark, hmarkSpeaks⟩
      rw [hsilent hnone]
      refine Or.inr ⟨ih ?_, hspeaks⟩
      obtain ⟨stage, hstage, hstageSpeaks⟩ := h
      rcases List.mem_append.mp hstage with hstage | hstage
      · exact ⟨stage, hstage, hstageSpeaks⟩
      · exact absurd (List.mem_singleton.mp hstage ▸ hstageSpeaks) hspeaks

/-- A path is blamed on an origin if and only if that is the origin of the last overlay that speaks
for the path. -/
theorem originOf_overlaid_iff {path : String} (hrooted : "" ∉ ancestors path) (origin : Origin)
    (layers : List Overlay) :
    ((∃ stage ∈ stages layers, stage.Speaks path)
        ∧ (overlaid layers).provenance.originOf path = origin)
      ↔ LastWith (fun stage => stage.Speaks path ∧ stage.layer.origin = origin)
          (fun stage => ¬ stage.Speaks path) (stages layers) := by
  have hblamed : (∃ stage ∈ stages layers, stage.Speaks path) →
      LastWith (fun stage => stage.Speaks path
          ∧ stage.layer.origin = (overlaid layers).provenance.originOf path)
        (fun stage => ¬ stage.Speaks path) (stages layers) := by
    intro hspoken
    obtain ⟨before, stage, after, hsplit, ⟨hspeaks, hstage⟩, hsilent⟩ := lastWith_originOf hspoken
    have horigin := hstage.resolve_right fun hroot => hrooted hroot.2
    exact ⟨before, stage, after, hsplit, ⟨hspeaks, horigin.symm⟩, hsilent⟩
  constructor
  · rintro ⟨hspoken, rfl⟩
    exact hblamed hspoken
  · intro hlast
    obtain ⟨stage, hmem, hspeaks, -⟩ := hlast.exists_mem
    have hspoken : ∃ stage ∈ stages layers, stage.Speaks path := ⟨stage, hmem, hspeaks⟩
    obtain ⟨speaker, -, ⟨-, hother⟩, -, hsame⟩ := ((hblamed hspoken).and hlast
      (fun item h => not_not.mpr h.1) (fun item h => not_not.mpr h.1)).exists_mem
    exact ⟨hspoken, hother.symm.trans hsame⟩

section Node

variable {layers : List Overlay}
  (hlayers : ∀ layer ∈ layers, layer.tree.isTable = true) {keys : List String} (hkeys : keys ≠ [])

include hlayers hkeys

/-- A node of the merged tree stems from the last overlay that has a node at its path. It is
recorded as that overlay's unless the record is disturbed, or the path is written like the
root's. -/
theorem exists_last_node_stage {node : Tree} (h : (overlaid layers).merged.at? keys = some node) :
    ∃ before stage after, stages layers = before ++ stage :: after
      ∧ (∃ value, stage.layer.tree.at? keys = some value)
      ∧ (∀ later ∈ after, later.layer.tree.at? keys = none)
      ∧ (Anchored keys → (∀ other ∈ stage :: after, ¬ other.Disturbs keys) →
        (overlaid layers).provenance.get? (dotted keys) = some stage.layer.origin) := by
  induction layers using List.reverseRecOn generalizing node with
  | nil =>
    obtain ⟨key, keys, rfl⟩ := List.exists_cons_of_ne_nil hkeys
    simp [overlaid, Resolution.start, Tree.empty, Tree.at?_table_cons] at h
  | append_singleton layers layer ih =>
    rw [List.forall_mem_append, List.forall_mem_singleton] at hlayers
    obtain ⟨hbefore, hlayer⟩ := hlayers
    have hbase := isTable_overlaid hbefore
    rw [stages_append_singleton]
    rw [overlaid_append_singleton] at h ⊢
    cases hvalue : layer.tree.at? keys with
    | some value =>
      refine ⟨stages layers, ⟨overlaid layers, layer⟩, [], rfl, ⟨value, hvalue⟩, by simp, ?_⟩
      intro hanchored hcalm
      exact get?_overlay_of_node hanchored (hcalm _ List.mem_cons_self) hvalue
    | none =>
      have hblocks : ¬ layer.tree.Blocks keys := by
        intro hblocks
        simp [Resolution.overlay, Tree.at?_overlay_of_blocks layer.canonical _ hblocks] at h
      have hold : (overlaid layers).merged.at? keys = some node :=
        (Tree.at?_overlay_of_none layer.canonical _ hvalue hblocks).symm.trans h
      obtain ⟨before, stage, after, hsplit, hnode, hafter, hrecorded⟩ := ih hbefore hold
      refine ⟨before, stage, after ++ [⟨overlaid layers, layer⟩], by simp [hsplit], hnode, ?_, ?_⟩
      · intro later hlater
        rcases List.mem_append.mp hlater with hlater | hlater
        · exact hafter later hlater
        · exact List.mem_singleton.mp hlater ▸ hvalue
      · intro hanchored hcalm
        have hkept := hrecorded hanchored fun other hother =>
          hcalm other (by rw [← List.cons_append]; exact List.mem_append_left _ hother)
        have hlast : ¬ layer.Disturbs (overlaid layers) keys :=
          hcalm ⟨overlaid layers, layer⟩ (by simp)
        rcases get?_overlay_of_none hbase hlayer hanchored hlast hvalue with
          ⟨-, hgone⟩ | ⟨hsame, -⟩
        · simp [hgone] at h
        · rw [hsame, hkept]

/-- A node that plain keys lead to stems from the last overlay that has a node at its path, and is
recorded as that overlay's unless the record is disturbed. -/
theorem exists_last_stage (hplain : ∀ key ∈ keys, Plain key) {node : Tree}
    (h : (overlaid layers).merged.at? keys = some node) :
    ∃ before stage after, stages layers = before ++ stage :: after
      ∧ (∃ value, stage.layer.tree.at? keys = some value)
      ∧ (∀ later ∈ after, later.layer.tree.at? keys = none)
      ∧ ((∀ other ∈ stage :: after, ¬ other.Disturbs keys) →
        (overlaid layers).provenance.get? (dotted keys) = some stage.layer.origin) := by
  obtain ⟨before, stage, after, hsplit, hnode, hafter, hrecorded⟩ :=
    exists_last_node_stage hlayers hkeys h
  exact ⟨before, stage, after, hsplit, hnode, hafter, hrecorded (.of_plain hkeys hplain)⟩

end Node

end LayeredConfig
