import LayeredConfig.Proofs.Conformance
import LayeredConfig.Settings.Decode
import Mathlib.Data.List.Nodup

/-!
# Decoding groups

A decoder agrees with a list of fields if it takes every tree that conforms to them, puts the value
that each field has in the tree, or else the default, where the field belongs, and takes no other
tree unless that holds an array for a table or a null for a value. A group of settings agrees with
the fields of all its members once each member agrees with its own.
-/

namespace LayeredConfig

/-- The value of the kind that a tree stands for: where a float is due, an integer stands for
one. -/
def Kind.typed : Kind → Tree → Tree
  | .float, .int n => .float (Float.ofInt n)
  | _, tree => tree

/-- The field seen from outside a group that is the member `name`. -/
def Field.under (name : String) (field : Field) : Field :=
  { field with keys := name :: field.keys }

/-- No field is null, and no table on the way to a field is an array. -/
structure Clean (fields : List Field) (tree : Tree) : Prop where
  value : ∀ field ∈ fields, tree.at? field.keys ≠ some .null
  table : ∀ field ∈ fields, ∀ above key below, field.keys = above ++ key :: below →
    ∀ items, tree.at? above ≠ some (.array items)

namespace Decode

/-- What is in a field of the tree, or else in the tree of defaults. -/
def settled (defaults? : Option Tree) (tree : Tree) (field : Field) : Option Tree :=
  ((tree.at? field.keys).map field.kind.typed).or
    (defaults?.bind fun defaults => defaults.at? field.keys)

/-- A decoder, followed by encoding, agrees with the fields and their defaults. -/
structure Agrees (view : Tree → Decoded Tree) (fields : List Field) (defaults? : Option Tree) :
    Prop where
  complete : ∀ tree : Tree, tree.Canonical → Conforms fields tree →
    ∃ out, view tree = .ok out
      ∧ ∀ field ∈ fields, out.at? field.keys = settled defaults? tree field
  sound : ∀ tree out : Tree, tree.Canonical → Clean fields tree → view tree = .ok out →
    Conforms fields tree

theorem exists_map_eq_ok {α β : Type} {result : Decoded α} {f : α → β} :
    (∃ out, result.map f = .ok out) ↔ ∃ value, result = .ok value := by
  cases result <;> simp [Except.map]

theorem map_eq_ok {α β : Type} {result : Decoded α} {f : α → β} {out : β} :
    result.map f = .ok out ↔ ∃ value, result = .ok value ∧ f value = out := by
  cases result <;> simp [Except.map]

theorem bind_eq_ok {α β : Type} {result : Decoded α} {f : α → Decoded β} {out : β} :
    (result >>= f) = .ok out ↔ ∃ value, result = .ok value ∧ f value = .ok out := by
  cases result <;> simp [bind, Except.bind]

theorem exists_bind_eq_ok {α β : Type} {result : Decoded α} {f : α → Decoded β} :
    (∃ out, (result >>= f) = .ok out)
      ↔ ∃ value, result = .ok value ∧ ∃ out, f value = .ok out := by
  cases result <;> simp [bind, Except.bind]

theorem exists_pure_eq_ok {α : Type} (value : α) : ∃ out, (pure value : Decoded α) = .ok out :=
  ⟨value, rfl⟩

theorem pure_eq_ok {α : Type} {value out : α} :
    (pure value : Decoded α) = .ok out ↔ value = out := by
  simp [pure, Except.pure]

/-- A member of a group: how a value given for it is decoded and encoded again, what stands for an
absent one, if it may be absent, and the fields it consists of. -/
structure Slot where
  member : Member
  view : Tree → Decoded Tree
  absent : Option Tree
  fields : List Field
  decodable_iff : ∀ tree, member.problem? tree = none ↔ ∃ out, view tree = .ok out

namespace Slot

variable {α : Type} (name : String) (decode : Tree → Decoded α) (encode : α → Tree)

theorem member_decodable_iff (tree : Tree) :
    (Decode.member name decode).problem? tree = none
      ↔ ∃ out, (decode tree).map encode = .ok out := by
  rw [exists_map_eq_ok]
  cases hdecode : decode tree <;> simp [Decode.member, hdecode]

def required (fields : List Field) : Slot where
  member := Decode.member name decode
  view tree := (decode tree).map encode
  absent := none
  fields := fields
  decodable_iff := member_decodable_iff name decode encode

def withDefault (default : α) (fields : List Field) : Slot where
  member := Decode.member name decode
  view tree := (decode tree).map encode
  absent := some (encode default)
  fields := fields
  decodable_iff := member_decodable_iff name decode encode

/-- The member's value in a group, encoded. -/
def value (slot : Slot) (given : Given) : Decoded Tree :=
  match Keyed.get? given.values slot.member.name, slot.absent with
  | some tree, _ => slot.view tree
  | none, some tree => .ok tree
  | none, none => .error (given.absence slot.member.name)

@[simp] theorem value_required (fields : List Field) (given : Given) :
    (required name decode encode fields).value given
      = (given.required name decode).map encode := by
  unfold value required Given.required Decode.member
  cases Keyed.get? given.values name <;> rfl

@[simp] theorem value_withDefault (default : α) (fields : List Field) (given : Given) :
    (withDefault name decode encode default fields).value given
      = (given.withDefault name decode default).map encode := by
  unfold value withDefault Given.withDefault Decode.member
  cases Keyed.get? given.values name <;> rfl

end Slot

/-- The fields of a group, from those of its members. -/
def groupFields (slots : List Slot) : List Field :=
  slots.flatMap fun slot => slot.fields.map (Field.under slot.member.name)

theorem mem_groupFields {slots : List Slot} {field : Field} :
    field ∈ groupFields slots ↔ ∃ slot ∈ slots, ∃ inner ∈ slot.fields,
      field = inner.under slot.member.name := by
  simp only [groupFields, List.mem_flatMap, List.mem_map, eq_comm]

/-! ### Conformance of a group -/

theorem under_met_iff {name : String} {field : Field} {entries : List (String × Tree)} :
    (field.under name).Met (.table entries)
      ↔ (∀ child, Keyed.get? entries name = some child → field.Met child)
        ∧ (Keyed.get? entries name = none → field.required = false) := by
  cases hchild : Keyed.get? entries name with
  | none =>
    constructor
    · intro hmet
      exact ⟨by simp, fun _ => hmet.optional (by simp [Field.under, Tree.at?_table_cons, hchild])⟩
    · rintro ⟨-, hrequired⟩
      refine ⟨?_, ?_, fun _ => hrequired rfl⟩
      · simp [Field.under, Tree.blocks_table_cons, hchild]
      · simp [Field.under, Tree.at?_table_cons, hchild]
  | some child =>
    have hnode : (Tree.table entries).at? (field.under name).keys = child.at? field.keys := by
      simp [Field.under, Tree.at?_table_cons, hchild]
    have hblocks : (Tree.table entries).Blocks (field.under name).keys
        ↔ child.Blocks field.keys := by
      simp [Field.under, Tree.blocks_table_cons, hchild]
    constructor
    · intro hmet
      refine ⟨?_, by simp⟩
      intro other hother
      obtain rfl := Option.some.inj hother
      constructor
      · rw [← hblocks]
        exact hmet.reachable
      · intro value hvalue
        exact hmet.taken value (hnode.trans hvalue)
      · intro hnone
        exact hmet.optional (hnode.trans hnone)
    · rintro ⟨hchildMet, -⟩
      have hmet := hchildMet child rfl
      constructor
      · rw [hblocks]
        exact hmet.reachable
      · intro value hvalue
        exact hmet.taken value (hnode.symm.trans hvalue)
      · intro hnone
        exact hmet.optional (hnode.symm.trans hnone)

/-- Slots that together make up a group: some, no two for one name, and each with fields. -/
structure Distinct (slots : List Slot) : Prop where
  nonempty : slots ≠ []
  nodup : (slots.map fun slot => slot.member.name).Nodup
  inhabited : ∀ slot ∈ slots, slot.fields ≠ []

instance (slots : List Slot) : Decidable (Distinct slots) :=
  decidable_of_iff (slots ≠ [] ∧ (slots.map fun slot => slot.member.name).Nodup
      ∧ ∀ slot ∈ slots, slot.fields ≠ [])
    ⟨fun h => ⟨h.1, h.2.1, h.2.2⟩, fun h => ⟨h.nonempty, h.nodup, h.inhabited⟩⟩

theorem Distinct.eq_of_name_eq {slots : List Slot} (h : Distinct slots) {slot other : Slot}
    (hslot : slot ∈ slots) (hother : other ∈ slots)
    (hname : slot.member.name = other.member.name) : slot = other :=
  List.inj_on_of_nodup_map h.nodup hslot hother hname

theorem declared_group_iff {slots : List Slot} (key : String) (route : List String) :
    Declared (groupFields slots) (key :: route)
      ↔ ∃ slot ∈ slots, slot.member.name = key ∧ Declared slot.fields route := by
  constructor
  · rintro ⟨field, hfield, hinitial⟩
    obtain ⟨slot, hslot, inner, hinner, rfl⟩ := mem_groupFields.mp hfield
    change (key :: route <+: slot.member.name :: inner.keys
      ∨ slot.member.name :: inner.keys <+: key :: route) at hinitial
    rw [List.cons_prefix_cons, List.cons_prefix_cons] at hinitial
    rcases hinitial with ⟨rfl, hinitial⟩ | ⟨rfl, hinitial⟩
    · exact ⟨slot, hslot, rfl, inner, hinner, Or.inl hinitial⟩
    · exact ⟨slot, hslot, rfl, inner, hinner, Or.inr hinitial⟩
  · rintro ⟨slot, hslot, rfl, inner, hinner, hinitial⟩
    refine ⟨_, mem_groupFields.mpr ⟨slot, hslot, inner, hinner, rfl⟩, ?_⟩
    exact hinitial.imp (List.cons_prefix_cons.mpr ⟨rfl, ·⟩) (List.cons_prefix_cons.mpr ⟨rfl, ·⟩)

/-- A table conforms to the fields of a group if every member in it conforms to its own fields, and
the absent ones have no field that is required. -/
theorem conforms_group_iff {slots : List Slot} (hdistinct : Distinct slots)
    (entries : List (String × Tree)) :
    Conforms (groupFields slots) (.table entries)
      ↔ (∀ key child, Keyed.get? entries key = some child →
          ∃ slot ∈ slots, slot.member.name = key ∧ Conforms slot.fields child)
        ∧ ∀ slot ∈ slots, Keyed.get? entries slot.member.name = none →
          ∀ field ∈ slot.fields, field.required = false := by
  have hunder : ∀ slot ∈ slots, ∀ field ∈ slot.fields,
      field.under slot.member.name ∈ groupFields slots :=
    fun slot hslot field hfield => mem_groupFields.mpr ⟨slot, hslot, field, hfield, rfl⟩
  constructor
  · rintro ⟨hmet, hdeclared⟩
    constructor
    · intro key child hchild
      have hat : ∀ route, (Tree.table entries).at? (key :: route) = child.at? route := by
        intro route
        rw [Tree.at?_table_cons, hchild]
        rfl
      obtain ⟨slot, hslot, rfl, -⟩ := (declared_group_iff key []).mp
        (hdeclared [key] child (by rw [hat, Tree.at?_nil]))
      refine ⟨slot, hslot, rfl, ?_, ?_⟩
      · intro field hfield
        exact (under_met_iff.mp (hmet _ (hunder slot hslot field hfield))).1 child hchild
      · intro route node hnode
        obtain ⟨other, hother, hname, hinner⟩ := (declared_group_iff _ route).mp
          (hdeclared (slot.member.name :: route) node (by rw [hat, hnode]))
        exact hdistinct.eq_of_name_eq hother hslot hname ▸ hinner
    · intro slot hslot habsent field hfield
      exact (under_met_iff.mp (hmet _ (hunder slot hslot field hfield))).2 habsent
  · rintro ⟨hchildren, habsent⟩
    constructor
    · intro field hfield
      obtain ⟨slot, hslot, inner, hinner, rfl⟩ := mem_groupFields.mp hfield
      rw [under_met_iff]
      constructor
      · intro child hchild
        obtain ⟨other, hother, hname, hconforms⟩ := hchildren _ child hchild
        obtain rfl := hdistinct.eq_of_name_eq hother hslot hname
        exact hconforms.met inner hinner
      · intro hnone
        exact habsent slot hslot hnone inner hinner
    · intro route node hnode
      cases route with
      | nil =>
        obtain ⟨slot, hslot⟩ := List.exists_mem_of_ne_nil slots hdistinct.nonempty
        obtain ⟨field, hfield⟩ := List.exists_mem_of_ne_nil _ (hdistinct.inhabited slot hslot)
        exact ⟨_, hunder slot hslot field hfield, Or.inl List.nil_prefix⟩
      | cons key route =>
        obtain ⟨child, hchild, hbelow⟩ := Option.bind_eq_some_iff.mp hnode
        obtain ⟨slot, hslot, hname, hconforms⟩ := hchildren key child hchild
        exact (declared_group_iff key route).mpr
          ⟨slot, hslot, hname, hconforms.declared route node hbelow⟩

theorem isTable_of_conforms_group {slots : List Slot} (hdistinct : Distinct slots)
    {tree : Tree} (h : Conforms (groupFields slots) tree) :
    tree.isTable = true := by
  obtain ⟨slot, hslot⟩ := List.exists_mem_of_ne_nil slots hdistinct.nonempty
  obtain ⟨field, hfield⟩ := List.exists_mem_of_ne_nil _ (hdistinct.inhabited slot hslot)
  by_contra hleaf
  refine (h.met _ (mem_groupFields.mpr ⟨slot, hslot, field, hfield, rfl⟩)).reachable ?_
  exact Tree.blocks_cons_of_leaf (by simpa using hleaf) _ _

/-! ### Reading a group -/

theorem find?_member {members : List Member} (hnodup : (members.map Member.name).Nodup)
    {m : Member} (h : m ∈ members) :
    (members.find? fun other => decide (other.name = m.name)) = some m := by
  obtain ⟨other, hother⟩ : ∃ other,
      (members.find? fun other => decide (other.name = m.name)) = some other := by
    rw [← Option.isSome_iff_exists, List.find?_isSome]
    exact ⟨m, h, by simp⟩
  have hname : other.name = m.name := by simpa using List.find?_some hother
  rw [hother, List.inj_on_of_nodup_map hnodup (List.mem_of_find?_eq_some hother) h hname]

theorem entryProblem?_eq_none_iff {group : GroupShape}
    (hnodup : (group.members.map Member.name).Nodup) (entries : List (String × Tree)) :
    group.entryProblem? entries = none
      ↔ ∀ entry ∈ entries, ∃ m ∈ group.members, m.name = entry.1 ∧ m.problem? entry.2 = none := by
  induction entries with
  | nil => simp [GroupShape.entryProblem?]
  | cons entry rest ih =>
    obtain ⟨name, tree⟩ := entry
    rw [GroupShape.entryProblem?, List.forall_mem_cons, ← ih]
    constructor
    · intro h
      cases hfind : group.members.find? fun m => decide (m.name = name) with
      | none => simp [hfind] at h
      | some m =>
        rw [hfind] at h
        obtain ⟨hproblem, hrest⟩ : m.problem? tree = none ∧ group.entryProblem? rest = none := by
          simpa using h
        have hname : m.name = name := by simpa using List.find?_some hfind
        exact ⟨⟨m, List.mem_of_find?_eq_some hfind, hname, hproblem⟩, hrest⟩
    · rintro ⟨⟨m, hmem, rfl, hproblem⟩, hrest⟩
      rw [find?_member hnodup hmem]
      simp [hproblem, hrest]

/-! ### Agreement of a group -/

/-- How a decoder is made: it reads a group and puts the values of the slots in their places. -/
structure Assembles (view : Tree → Decoded Tree) (group : GroupShape) (slots : List Slot) :
    Prop where
  members : group.members = slots.map Slot.member
  complete : ∀ tree given, group.read tree = .ok given →
    (∀ slot ∈ slots, ∃ value, slot.value given = .ok value) → ∃ out, view tree = .ok out
  sound : ∀ tree out, view tree = .ok out → ∃ given, group.read tree = .ok given
    ∧ ∀ slot ∈ slots, ∃ value, slot.value given = .ok value
      ∧ out.at? [slot.member.name] = some value

/-- The slot agrees with its fields and the default of the member, and the member may be absent if
and only if no field of it is required. -/
structure Slot.Fits (slot : Slot) (defaults? : Option Tree) : Prop where
  agrees : Agrees slot.view slot.fields
    (defaults?.bind fun defaults => defaults.at? [slot.member.name])
  absent : slot.absent = none → ∃ field ∈ slot.fields, field.required = true
  default : ∀ tree, slot.absent = some tree →
    (∀ field ∈ slot.fields, field.required = false)
      ∧ (defaults?.bind fun defaults => defaults.at? [slot.member.name]) = some tree

theorem Slot.Fits.required {α : Type} {name : String} {decode : Tree → Decoded α}
    {encode : α → Tree} {fields : List Field} {defaults? : Option Tree}
    (hagrees : Agrees (fun tree => (decode tree).map encode) fields
      (defaults?.bind fun defaults => defaults.at? [name]))
    (hrequired : ∃ field ∈ fields, field.required = true) :
    (Slot.required name decode encode fields).Fits defaults? :=
  ⟨hagrees, fun _ => hrequired, fun _ h => nomatch h⟩

theorem Slot.Fits.withDefault {α : Type} {name : String} {decode : Tree → Decoded α}
    {encode : α → Tree} {default : α} {fields : List Field} {defaults? : Option Tree}
    (hagrees : Agrees (fun tree => (decode tree).map encode) fields
      (defaults?.bind fun defaults => defaults.at? [name]))
    (hoptional : ∀ field ∈ fields, field.required = false)
    (hdefault : (defaults?.bind fun defaults => defaults.at? [name]) = some (encode default)) :
    (Slot.withDefault name decode encode default fields).Fits defaults? :=
  ⟨hagrees, fun h => (nomatch h), fun _ h => ⟨hoptional, hdefault.trans h⟩⟩

section Group

variable {view : Tree → Decoded Tree} {group : GroupShape} {slots : List Slot}
  {defaults? : Option Tree}

theorem read_table_eq_ok (hassembles : Assembles view group slots) (hdistinct : Distinct slots)
    {entries : List (String × Tree)}
    (h : ∀ entry ∈ entries, ∃ slot ∈ slots, slot.member.name = entry.1
      ∧ ∃ out, slot.view entry.2 = .ok out) :
    group.read (.table entries) = .ok ⟨entries, .missingMember⟩ := by
  have hnodup : (group.members.map Member.name).Nodup := by
    rw [hassembles.members, List.map_map]
    exact hdistinct.nodup
  have hnone : group.entryProblem? entries = none := by
    rw [entryProblem?_eq_none_iff hnodup]
    intro entry hentry
    obtain ⟨slot, hslot, hname, hview⟩ := h entry hentry
    refine ⟨slot.member, ?_, hname, (slot.decodable_iff entry.2).mpr hview⟩
    rw [hassembles.members]
    exact List.mem_map_of_mem hslot
  rw [GroupShape.read, hnone]

theorem of_read_table_eq_ok (hassembles : Assembles view group slots) (hdistinct : Distinct slots)
    {entries : List (String × Tree)} {given : Given}
    (h : group.read (.table entries) = .ok given) :
    given.values = entries ∧ ∀ entry ∈ entries, ∃ slot ∈ slots, slot.member.name = entry.1
      ∧ ∃ out, slot.view entry.2 = .ok out := by
  have hnodup : (group.members.map Member.name).Nodup := by
    rw [hassembles.members, List.map_map]
    exact hdistinct.nodup
  rw [GroupShape.read] at h
  cases hproblem : group.entryProblem? entries with
  | some problem => simp [hproblem] at h
  | none =>
    rw [hproblem] at h
    obtain rfl := Except.ok.inj h
    refine ⟨rfl, ?_⟩
    intro entry hentry
    obtain ⟨m, hmem, hname, hdecodes⟩ :=
      (entryProblem?_eq_none_iff hnodup entries).mp hproblem entry hentry
    rw [hassembles.members] at hmem
    obtain ⟨slot, hslot, rfl⟩ := List.mem_map.mp hmem
    exact ⟨slot, hslot, hname, (slot.decodable_iff entry.2).mp hdecodes⟩

/-- A group that is read, with a value for each slot that has the fields of the slot, has all fields
where they belong. -/
theorem exists_view_of_values (hassembles : Assembles view group slots) {tree : Tree}
    {given : Given} (hread : group.read tree = .ok given) (expected : Field → Option Tree)
    (hvalues : ∀ slot ∈ slots, ∃ value, slot.value given = .ok value
      ∧ ∀ field ∈ slot.fields, value.at? field.keys = expected (field.under slot.member.name)) :
    ∃ out, view tree = .ok out
      ∧ ∀ field ∈ groupFields slots, out.at? field.keys = expected field := by
  obtain ⟨out, hout⟩ := hassembles.complete _ _ hread fun slot hslot =>
    (hvalues slot hslot).imp fun value h => h.1
  obtain ⟨other, hother, hmembers⟩ := hassembles.sound _ _ hout
  obtain rfl := Except.ok.inj (hread.symm.trans hother)
  refine ⟨out, hout, fun field hfield => ?_⟩
  obtain ⟨slot, hslot, inner, hinner, rfl⟩ := mem_groupFields.mp hfield
  obtain ⟨value, hvalue, hfields⟩ := hvalues slot hslot
  obtain ⟨placed, hplaced, hmember⟩ := hmembers slot hslot
  obtain rfl := Except.ok.inj (hvalue.symm.trans hplaced)
  rw [← hfields inner hinner]
  change out.at? ([slot.member.name] ++ inner.keys) = _
  rw [Tree.at?_append, hmember]
  rfl

theorem bind_at?_under (tree? : Option Tree) (name : String) (field : Field) :
    (tree?.bind fun tree => tree.at? (field.under name).keys)
      = (tree?.bind fun tree => tree.at? [name]).bind fun child => child.at? field.keys := by
  cases tree? with
  | none => rfl
  | some tree =>
    change tree.at? ([name] ++ field.keys) = _
    rw [Tree.at?_append]
    rfl

/-- In a table that conforms to a group each slot has a value, with the fields of the slot where
they belong. -/
theorem exists_value (hdistinct : Distinct slots) {slot : Slot}
    (hslot : slot ∈ slots) (hfit : slot.Fits defaults?) {entries : List (String × Tree)}
    (hcanonical : (Tree.table entries).Canonical)
    (hconforms : Conforms (groupFields slots) (.table entries)) :
    ∃ value, slot.value ⟨entries, .missingMember⟩ = .ok value
      ∧ ∀ field ∈ slot.fields, value.at? field.keys
        = settled defaults? (.table entries) (field.under slot.member.name) := by
  obtain ⟨hchildren, habsent⟩ := (conforms_group_iff hdistinct entries).mp hconforms
  cases hchild : Keyed.get? entries slot.member.name with
  | some child =>
    obtain ⟨other, hother, hname, hconformsChild⟩ := hchildren _ child hchild
    obtain rfl := hdistinct.eq_of_name_eq hother hslot hname
    obtain ⟨out, hout, hfields⟩ :=
      hfit.agrees.complete child (hcanonical.child hchild) hconformsChild
    refine ⟨out, by simp [Slot.value, hchild, hout], ?_⟩
    intro field hfield
    rw [hfields field hfield, settled, settled, bind_at?_under]
    simp [Field.under, Tree.at?_table_cons, hchild]
  | none =>
    cases hdefault : slot.absent with
    | none =>
      obtain ⟨field, hfield, hrequired⟩ := hfit.absent hdefault
      simp [habsent slot hslot hchild field hfield] at hrequired
    | some value =>
      refine ⟨value, by simp [Slot.value, hchild, hdefault], ?_⟩
      intro field hfield
      rw [settled, bind_at?_under, (hfit.default value hdefault).2]
      simp [Field.under, Tree.at?_table_cons, hchild]

theorem Clean.of_group {entries : List (String × Tree)}
    (hclean : Clean (groupFields slots) (.table entries)) {slot : Slot} (hslot : slot ∈ slots)
    {child : Tree} (hchild : Keyed.get? entries slot.member.name = some child) :
    Clean slot.fields child := by
  have hat : ∀ route, (Tree.table entries).at? (slot.member.name :: route) = child.at? route := by
    intro route
    rw [Tree.at?_table_cons, hchild]
    rfl
  constructor
  · intro field hfield
    rw [← hat]
    exact hclean.value _ (mem_groupFields.mpr ⟨slot, hslot, field, hfield, rfl⟩)
  · intro field hfield above key below hkeys items
    rw [← hat]
    have hunder := mem_groupFields.mpr ⟨slot, hslot, field, hfield, rfl⟩
    exact hclean.table _ hunder _ key below (by simp [Field.under, hkeys]) items

theorem conforms_of_view_eq_ok (hassembles : Assembles view group slots)
    (hdistinct : Distinct slots)
    (hfits : ∀ slot ∈ slots, slot.Fits defaults?) {entries : List (String × Tree)}
    (hcanonical : (Tree.table entries).Canonical)
    (hclean : Clean (groupFields slots) (.table entries)) {given : Given}
    (hread : group.read (.table entries) = .ok given)
    (hvalues : ∀ slot ∈ slots, ∃ value, slot.value given = .ok value) :
    Conforms (groupFields slots) (.table entries) := by
  obtain ⟨hgiven, hentries⟩ := of_read_table_eq_ok hassembles hdistinct hread
  rw [conforms_group_iff hdistinct entries]
  constructor
  · intro key child hchild
    obtain ⟨slot, hslot, rfl, out, hout⟩ := hentries _ (Keyed.mem_of_get? hchild)
    have hcleanChild := Clean.of_group hclean hslot hchild
    exact ⟨slot, hslot, rfl,
      (hfits slot hslot).agrees.sound child out (hcanonical.child hchild) hcleanChild hout⟩
  · intro slot hslot habsent field hfield
    obtain ⟨value, hvalue⟩ := hvalues slot hslot
    cases hdefault : slot.absent with
    | none => simp [Slot.value, hgiven, habsent, hdefault] at hvalue
    | some default => exact ((hfits slot hslot).default default hdefault).1 field hfield

/-- A group agrees with the fields of its members if all members do with theirs. -/
theorem Agrees.of_slots (hassembles : Assembles view group slots) (hdistinct : Distinct slots)
    (hfits : ∀ slot ∈ slots, slot.Fits defaults?) :
    Agrees view (groupFields slots) defaults? := by
  constructor
  · intro tree hcanonical hconforms
    obtain ⟨entries, rfl⟩ :=
      Tree.isTable_iff.mp (isTable_of_conforms_group hdistinct hconforms)
    have hvalue := fun slot hslot =>
      exists_value hdistinct hslot (hfits slot hslot) hcanonical hconforms
    have hread : group.read (.table entries) = .ok ⟨entries, .missingMember⟩ := by
      apply read_table_eq_ok hassembles hdistinct
      intro entry hentry
      have hascending := (Tree.canonical_table_iff.mp hcanonical).1
      have hchild := (Keyed.get?_eq_some_iff hascending).mpr hentry
      obtain ⟨slot, hslot, hname, hconformsChild⟩ :=
        ((conforms_group_iff hdistinct entries).mp hconforms).1 entry.1 entry.2 hchild
      obtain ⟨out, hout, -⟩ :=
        (hfits slot hslot).agrees.complete entry.2 (hcanonical.child hchild) hconformsChild
      exact ⟨slot, hslot, hname, out, hout⟩
    exact exists_view_of_values hassembles hread _ hvalue
  · intro tree out hcanonical hclean hview
    obtain ⟨given, hread, hvalues⟩ := hassembles.sound tree out hview
    cases tree with
    | table entries =>
      exact conforms_of_view_eq_ok hassembles hdistinct hfits hcanonical hclean hread
        fun slot hslot => (hvalues slot hslot).imp fun value h => h.1
    | array items =>
      -- the group would be read by position, but no table may be an array
      obtain ⟨slot, hslot⟩ := List.exists_mem_of_ne_nil slots hdistinct.nonempty
      obtain ⟨field, hfield⟩ := List.exists_mem_of_ne_nil _ (hdistinct.inhabited slot hslot)
      have hunder := mem_groupFields.mpr ⟨slot, hslot, field, hfield, rfl⟩
      exact absurd (Tree.at?_nil _) (hclean.table _ hunder [] slot.member.name field.keys rfl items)
    | _ => simp [GroupShape.read] at hread

end Group

end Decode

end LayeredConfig
