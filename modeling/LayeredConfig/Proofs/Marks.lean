import LayeredConfig.Proofs.Segments
import LayeredConfig.Proofs.TreeOverlay
import LayeredConfig.Provenance

/-!
# The marks of an overlay

An overlay changes the record of origins by one mark for each node of its layer. The mark gives the
path of the node the layer's origin; and where the node takes the place of another one, it first
forgets what was recorded below. Tables merge, so a table laid over a table forgets nothing, and its
mark comes after those of its members.

Marks go by dotted paths. A mark therefore concerns every path that is spelled like the path of its
node, whichever keys led there.
-/

namespace LayeredConfig.Provenance

/-- What one node of a layer does to the record. -/
structure Mark where
  path : String
  /-- The node takes the place of an old one. -/
  replaces : Bool
deriving DecidableEq

namespace Mark

def apply (origin : Origin) (record : Provenance) (mark : Mark) : Provenance :=
  (if mark.replaces then record.clearUnder mark.path else record).set mark.path origin

/-- The mark changes what is recorded for the path. -/
def Concerns (mark : Mark) (path : String) : Prop :=
  mark.path = path ∨ (mark.replaces = true ∧ KeyPath.isBelow path mark.path = true)

end Mark

/-- A node of a layer takes the place of an old one unless both are tables. -/
def replaces (old? : Option Tree) (node : Tree) : Bool :=
  old?.any fun old => !(old.isTable && node.isTable)

/-- The members of a table, and none of anything else. -/
def members : Option Tree → List (String × Tree)
  | some (.table entries) => entries
  | _ => []

mutual

/-- The marks of laying a tree over `base?`, or over nothing, at the dotted path `above`. -/
def marks (above : String) (base? : Option Tree) : Tree → List Mark
  | .table entries =>
    let here : Mark := ⟨above, replaces base? (.table entries)⟩
    let below := marksIn above (members base?) entries
    if base?.any Tree.isTable then below ++ [here] else here :: below
  | leaf => [⟨above, replaces base? leaf⟩]
termination_by structural layer => layer

def marksIn (above : String) (under : List (String × Tree)) : List (String × Tree) → List Mark
  | [] => []
  | (key, child) :: rest =>
    marks (KeyPath.join above key) (Keyed.get? under key) child ++ marksIn above under rest
termination_by structural entries => entries

end

theorem marks_of_leaf (above : String) (base? : Option Tree) {layer : Tree}
    (h : layer.isTable = false) : marks above base? layer = [⟨above, replaces base? layer⟩] := by
  cases layer <;> first | rfl | simp [Tree.isTable] at h

theorem marks_table_onto_table (above : String) (under entries : List (String × Tree)) :
    marks above (some (.table under)) (.table entries)
      = marksIn above under entries ++ [⟨above, false⟩] := rfl

theorem marks_table_of_not_table (above : String) {base? : Option Tree}
    (h : base?.any Tree.isTable = false) (entries : List (String × Tree)) :
    marks above base? (.table entries)
      = ⟨above, base?.isSome⟩ :: marksIn above [] entries := by
  cases base? with
  | none => rfl
  | some base => cases base <;> first | rfl | simp [Tree.isTable] at h

theorem marksIn_append (above : String) (under entries rest : List (String × Tree)) :
    marksIn above under (entries ++ rest)
      = marksIn above under entries ++ marksIn above under rest := by
  induction entries with
  | nil => rfl
  | cons entry entries ih =>
    obtain ⟨key, child⟩ := entry
    simp [marksIn, ih]

/-! ### An overlay of the record is the fold of its marks -/

theorem recordTree_eq_foldl (origin : Origin) (path : String) (record : Provenance) (layer : Tree) :
    recordTree origin path record layer
      = (marks path none layer).foldl (Mark.apply origin) record := by
  induction layer using Tree.tableInduction generalizing path record with
  | leaf layer hleaf =>
    rw [marks_of_leaf path none hleaf]
    cases layer <;> first | rfl | simp [Tree.isTable] at hleaf
  | table entries ih =>
    rw [marks_table_of_not_table path rfl, List.foldl_cons]
    change recordEntries origin path (record.set path origin) entries
      = (marksIn path [] entries).foldl (Mark.apply origin) (record.set path origin)
    generalize record.set path origin = recorded
    induction entries generalizing recorded with
    | nil => rfl
    | cons entry rest ihRest =>
      obtain ⟨key, child⟩ := entry
      obtain ⟨ihChild, ihEntries⟩ := List.forall_mem_cons.mp ih
      rw [recordEntries, ihRest ihEntries, ihChild, marksIn, List.foldl_append, Keyed.get?_nil]

theorem overlay_eq_foldl (origin : Origin) (path : String) (base : Tree) (record : Provenance)
    (layer : Tree) :
    record.overlay origin path base layer
      = (marks path (some base) layer).foldl (Mark.apply origin) record := by
  induction layer using Tree.tableInduction generalizing path base record with
  | leaf layer hleaf =>
    rw [marks_of_leaf path _ hleaf]
    cases layer <;> cases base <;> first | rfl | simp [Tree.isTable] at hleaf
  | table entries ih =>
    cases htable : base.isTable with
    | false =>
      have hover : record.overlay origin path base (.table entries)
          = recordTree origin path (record.clearUnder path) (.table entries) := by
        cases base <;> first | rfl | simp [Tree.isTable] at htable
      rw [hover, recordTree_eq_foldl, marks_table_of_not_table path rfl,
        marks_table_of_not_table path (by simpa using htable)]
      rfl
    | true =>
      obtain ⟨under, rfl⟩ := Tree.isTable_iff.mp htable
      rw [marks_table_onto_table, List.foldl_append]
      change (overlayEntries origin path under record entries).set path origin
        = Mark.apply origin ((marksIn path under entries).foldl (Mark.apply origin) record) _
      suffices h : overlayEntries origin path under record entries
          = (marksIn path under entries).foldl (Mark.apply origin) record by
        rw [h]
        rfl
      induction entries generalizing record with
      | nil => rfl
      | cons entry rest ihRest =>
        obtain ⟨key, child⟩ := entry
        obtain ⟨ihChild, ihEntries⟩ := List.forall_mem_cons.mp ih
        rw [overlayEntries, marksIn, List.foldl_append, ihRest ihEntries]
        cases hold : Keyed.get? under key with
        | none => rw [← recordTree_eq_foldl]
        | some old => rw [← ihChild]

/-! ### Marks and nodes -/

theorem bind_at?_cons (base? : Option Tree) (key : String) (route : List String) :
    (base?.bind fun base => base.at? (key :: route))
      = (Keyed.get? (members base?) key).bind fun child => child.at? route := by
  cases base? with
  | none => rfl
  | some base => cases base <;> rfl

theorem mem_marks_table {mark : Mark} {above : String} {base? : Option Tree}
    {entries : List (String × Tree)} :
    mark ∈ marks above base? (.table entries)
      ↔ mark = ⟨above, replaces base? (.table entries)⟩
        ∨ mark ∈ marksIn above (members base?) entries := by
  cases htable : base?.any Tree.isTable with
  | false => simp [marks, htable]
  | true => simp [marks, htable, or_comm]

theorem mem_marksIn {mark : Mark} {above : String} {under entries : List (String × Tree)} :
    mark ∈ marksIn above under entries
      ↔ ∃ key child, (key, child) ∈ entries
        ∧ mark ∈ marks (KeyPath.join above key) (Keyed.get? under key) child := by
  induction entries with
  | nil => simp [marksIn]
  | cons entry rest ih =>
    obtain ⟨first, value⟩ := entry
    rw [marksIn, List.mem_append, ih]
    constructor
    · rintro (hfirst | ⟨key, child, hmem, hmark⟩)
      · exact ⟨first, value, List.mem_cons_self, hfirst⟩
      · exact ⟨key, child, List.mem_cons_of_mem _ hmem, hmark⟩
    · rintro ⟨key, child, hmem, hmark⟩
      rcases List.mem_cons.mp hmem with heq | hmem
      · obtain ⟨rfl, rfl⟩ := Prod.mk.inj heq
        exact Or.inl hmark
      · exact Or.inr ⟨key, child, hmem, hmark⟩

/-- Every node of the layer leaves one mark, at the dotted path that its keys lead to. -/
theorem mem_marks {mark : Mark} {above : String} {base? : Option Tree} {layer : Tree}
    (hcanonical : layer.Canonical) :
    mark ∈ marks above base? layer
      ↔ ∃ route node, layer.at? route = some node
        ∧ mark = ⟨KeyPath.place above route,
            replaces (base?.bind fun base => base.at? route) node⟩ := by
  induction layer using Tree.tableInduction generalizing above base? with
  | leaf layer hleaf =>
    rw [marks_of_leaf above base? hleaf, List.mem_singleton]
    constructor
    · intro hmark
      exact ⟨[], layer, Tree.at?_nil layer, by simpa using hmark⟩
    · rintro ⟨route, node, hnode, hmark⟩
      cases route with
      | nil =>
        obtain rfl : layer = node := by simpa using hnode
        simpa using hmark
      | cons key route => simp [Tree.at?_cons_of_leaf hleaf] at hnode
  | table entries ih =>
    obtain ⟨hascending, hentries⟩ := Tree.canonical_table_iff.mp hcanonical
    rw [mem_marks_table, mem_marksIn]
    constructor
    · rintro (hmark | ⟨key, child, hmem, hmark⟩)
      · exact ⟨[], .table entries, Tree.at?_nil _, by simpa using hmark⟩
      · obtain ⟨route, node, hnode, hmark⟩ := (ih _ hmem (hentries _ hmem)).mp hmark
        refine ⟨key :: route, node, ?_, ?_⟩
        · rw [Tree.at?_table_cons, (Keyed.get?_eq_some_iff hascending).mpr hmem]
          exact hnode
        · rw [bind_at?_cons]
          exact hmark
    · rintro ⟨route, node, hnode, hmark⟩
      cases route with
      | nil =>
        obtain rfl : Tree.table entries = node := by simpa using hnode
        exact Or.inl (by simpa using hmark)
      | cons key route =>
        obtain ⟨child, hchild, hnode⟩ := Option.bind_eq_some_iff.mp hnode
        have hmem := (Keyed.get?_eq_some_iff hascending).mp hchild
        refine Or.inr ⟨key, child, hmem, (ih _ hmem (hentries _ hmem)).mpr ⟨route, node, hnode, ?_⟩⟩
        rwa [bind_at?_cons] at hmark

theorem exists_route_of_mem_marksIn {mark : Mark} {above : String} {base? : Option Tree}
    {entries part : List (String × Tree)} (hcanonical : (Tree.table entries).Canonical)
    (hpart : part ⊆ entries) (h : mark ∈ marksIn above (members base?) part) :
    ∃ key child route other, (key, child) ∈ part
      ∧ (Tree.table entries).at? (key :: route) = some other
      ∧ mark = ⟨KeyPath.place above (key :: route),
          replaces (base?.bind fun base => base.at? (key :: route)) other⟩ := by
  obtain ⟨hascending, hentries⟩ := Tree.canonical_table_iff.mp hcanonical
  obtain ⟨key, child, hmem, hmark⟩ := mem_marksIn.mp h
  obtain ⟨route, other, hother, hmark⟩ := (mem_marks (hentries _ (hpart hmem))).mp hmark
  refine ⟨key, child, route, other, hmem, ?_, ?_⟩
  · rw [Tree.at?_table_cons, (Keyed.get?_eq_some_iff hascending).mpr (hpart hmem)]
    exact hother
  · rw [bind_at?_cons]
    exact hmark

/-- What follows the marks of a table's members is at most the table's own mark, and only where it
forgets nothing. -/
theorem marks_table_eq_append (above : String) (base? : Option Tree)
    (entries : List (String × Tree)) :
    ∃ before after, marks above base? (.table entries)
        = before ++ marksIn above (members base?) entries ++ after
      ∧ ∀ mark ∈ after, mark = ⟨above, replaces base? (.table entries)⟩
        ∧ mark.replaces = false := by
  cases htable : base?.any Tree.isTable with
  | false =>
    exact ⟨[⟨above, replaces base? (.table entries)⟩], [], by simp [marks, htable], by simp⟩
  | true =>
    refine ⟨[], [⟨above, replaces base? (.table entries)⟩], by simp [marks, htable], ?_⟩
    intro mark hmark
    obtain rfl := List.mem_singleton.mp hmark
    refine ⟨rfl, ?_⟩
    cases base? with
    | none => rfl
    | some base =>
      obtain ⟨under, rfl⟩ := Tree.isTable_iff.mp (show base.isTable = true from htable)
      rfl

/-- The marks after that of a node belong to nodes elsewhere, and forget nothing on the way to it:
tables above the node may follow it, but only those that are merged into tables. -/
theorem marks_eq_append_cons {above : String} {base? : Option Tree} {layer node : Tree}
    (hcanonical : layer.Canonical) {keys : List String} (hnode : layer.at? keys = some node) :
    ∃ before after, marks above base? layer
        = before ++ ⟨KeyPath.place above keys,
            replaces (base?.bind fun base => base.at? keys) node⟩ :: after
      ∧ ∀ mark ∈ after, ∃ route other, route ≠ keys ∧ layer.at? route = some other
        ∧ mark = ⟨KeyPath.place above route,
            replaces (base?.bind fun base => base.at? route) other⟩
        ∧ (mark.replaces = true → ¬ route <+: keys) := by
  induction keys generalizing above base? layer with
  | nil =>
    obtain rfl : layer = node := by simpa using hnode
    cases hlayer : layer.isTable with
    | false => exact ⟨[], [], by simp [marks_of_leaf above base? hlayer], by simp⟩
    | true =>
      obtain ⟨entries, rfl⟩ := Tree.isTable_iff.mp hlayer
      cases htable : base?.any Tree.isTable with
      | true => exact ⟨marksIn above (members base?) entries, [], by simp [marks, htable], by simp⟩
      | false =>
        refine ⟨[], marksIn above (members base?) entries, by simp [marks, htable], ?_⟩
        intro mark hmark
        obtain ⟨key, -, route, other, -, hother, hmark⟩ :=
          exists_route_of_mem_marksIn hcanonical (List.Subset.refl _) hmark
        exact ⟨key :: route, other, by simp, hother, hmark, by simp⟩
  | cons key keys ih =>
    cases hlayer : layer.isTable with
    | false => simp [Tree.at?_cons_of_leaf hlayer] at hnode
    | true =>
      obtain ⟨entries, rfl⟩ := Tree.isTable_iff.mp hlayer
      obtain ⟨child, hchild, hbelow⟩ := Option.bind_eq_some_iff.mp hnode
      obtain ⟨first, rest, rfl⟩ := List.append_of_mem (Keyed.mem_of_get? hchild)
      obtain ⟨before, after, hmarks, hafter⟩ := @ih (KeyPath.join above key)
        (Keyed.get? (members base?) key) child (hcanonical.child hchild) hbelow
      obtain ⟨outer, own, htable, hown⟩ :=
        marks_table_eq_append above base? (first ++ (key, child) :: rest)
      refine ⟨outer ++ marksIn above (members base?) first ++ before,
        after ++ marksIn above (members base?) rest ++ own, ?_, fun mark hmark => ?_⟩
      · rw [htable, marksIn_append, marksIn, hmarks, bind_at?_cons]
        simp
      · rcases List.mem_append.mp hmark with hmark | hmark
        · rcases List.mem_append.mp hmark with hmark | hmark
          · -- below the same key
            obtain ⟨route, other, hne, hother, hmark, hforgets⟩ := hafter mark hmark
            refine ⟨key :: route, other, by simpa using hne, ?_, ?_, fun hreplaces => ?_⟩
            · rw [Tree.at?_table_cons, hchild]
              exact hother
            · rw [bind_at?_cons]
              exact hmark
            · rw [List.prefix_cons_inj]
              exact hforgets hreplaces
          · -- below a later key
            obtain ⟨later, value, route, other, hmem, hother, hmark⟩ :=
              exists_route_of_mem_marksIn hcanonical
                (fun entry hentry => List.mem_append_right _ (List.mem_cons_of_mem _ hentry)) hmark
            have hascending := (Tree.canonical_table_iff.mp hcanonical).1
            have hlt : key < later :=
              (List.pairwise_cons.mp (List.pairwise_append.mp hascending).2.1).1 _ hmem
            have hne : later ≠ key := (ne_of_lt hlt).symm
            refine ⟨later :: route, other, by simp [hne], hother, hmark, fun _ hinitial => ?_⟩
            exact hne (List.cons_prefix_cons.mp hinitial).1
        · -- the table itself
          obtain ⟨hmark, hforgets⟩ := hown mark hmark
          refine ⟨[], _, by simp, Tree.at?_nil _, ?_, by simp [hforgets]⟩
          rw [hmark]
          simp

end LayeredConfig.Provenance
