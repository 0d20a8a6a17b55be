import LayeredConfig.Environment.Guard
import LayeredConfig.Proofs.Keyed

/-!
# Guards restore the environment

A group of guards undoes the change that it was made with, and nothing else: each guard remembers
what its own variable held, and the other variables are as they were. As no variable has two guards
in one group, these can be dropped in any order. Groups that are dropped last one first undo the
later changes before the earlier ones, so that each finds the environment as it left it and leads
back to where it was made.
-/

namespace LayeredConfig

namespace Environment

variable {environment other : Environment}

theorem eq_of_get? (h : ∀ name, environment.get? name = other.get? name) :
    environment = other := by
  obtain ⟨bindings, hascending⟩ := environment
  obtain ⟨others, hothers⟩ := other
  obtain rfl : bindings = others := Keyed.eq_of_get? hascending hothers h
  rfl

theorem mem_namesFrom_iff {start name : Bytes} :
    name ∈ environment.namesFrom start ↔ environment.get? name ≠ none ∧ start <+: name := by
  rw [namesFrom, List.mem_filter, Keyed.mem_keys_iff, List.isPrefixOf_iff_prefix, get?]

theorem nodup_namesFrom (environment : Environment) (start : Bytes) :
    (environment.namesFrom start).Nodup :=
  (Keyed.nodup_keys environment.ascending).filter _

end Environment

namespace Guard

theorem get?_drop (environment : Environment) (guard : Guard) (name : Bytes) :
    (drop environment guard).get? name
      = if guard.name = name then guard.former else environment.get? name := by
  unfold drop
  cases guard.former with
  | some value => exact Environment.get?_set environment guard.name value name
  | none => exact Environment.get?_remove environment guard.name name

theorem get?_dropAll_of_not_mem {guards : List Guard} {name : Bytes}
    (h : name ∉ guards.map Guard.name) (environment : Environment) :
    (dropAll environment guards).get? name = environment.get? name := by
  induction guards generalizing environment with
  | nil => rfl
  | cons guard guards ih =>
    rw [List.map_cons, List.mem_cons, not_or] at h
    calc (dropAll (drop environment guard) guards).get? name
        = (drop environment guard).get? name := ih h.2 _
      _ = environment.get? name := by rw [get?_drop, if_neg (Ne.symm h.1)]

theorem get?_dropAll_of_mem {guards : List Guard} (hdistinct : (guards.map Guard.name).Nodup)
    {guard : Guard} (h : guard ∈ guards) (environment : Environment) :
    (dropAll environment guards).get? guard.name = guard.former := by
  induction guards generalizing environment with
  | nil => simp at h
  | cons first guards ih =>
    rw [List.map_cons, List.nodup_cons] at hdistinct
    obtain ⟨hfirst, hrest⟩ := hdistinct
    rcases List.mem_cons.mp h with rfl | hmem
    · calc (dropAll (drop environment guard) guards).get? guard.name
          = (drop environment guard).get? guard.name := get?_dropAll_of_not_mem hfirst _
        _ = guard.former := by rw [get?_drop, if_pos rfl]
    · exact ih hrest hmem (drop environment first)

/-- Dropping the guards undoes a change: they remember what the variables held before it, one guard
for each variable, and the change was to no other variable. -/
structure Undo (guards : List Guard) (before after : Environment) : Prop where
  distinct : (guards.map Guard.name).Nodup
  former : ∀ guard ∈ guards, guard.former = before.get? guard.name
  others : ∀ name, name ∉ guards.map Guard.name → after.get? name = before.get? name

namespace Undo

variable {guards : List Guard} {before after : Environment}

theorem perm (h : Undo guards before after) {order : List Guard} (horder : order.Perm guards) :
    Undo order before after where
  distinct := (horder.map Guard.name).nodup_iff.mpr h.distinct
  former guard hguard := h.former guard (horder.mem_iff.mp hguard)
  others name hname := h.others name fun hmem => hname ((horder.map Guard.name).mem_iff.mpr hmem)

theorem dropAll_eq (h : Undo guards before after) : dropAll after guards = before := by
  refine Environment.eq_of_get? fun name => ?_
  by_cases hname : name ∈ guards.map Guard.name
  · obtain ⟨guard, hguard, rfl⟩ := List.mem_map.mp hname
    rw [get?_dropAll_of_mem h.distinct hguard, h.former guard hguard]
  · rw [get?_dropAll_of_not_mem hname, h.others name hname]

/-- Two changes to different variables, one after the other, are undone by the guards of both. -/
theorem append {more : List Guard} {last : Environment} (h : Undo guards before after)
    (hmore : Undo more after last)
    (hdisjoint : (guards.map Guard.name).Disjoint (more.map Guard.name)) :
    Undo (guards ++ more) before last where
  distinct := by
    rw [List.map_append, List.nodup_append']
    exact ⟨h.distinct, hmore.distinct, hdisjoint⟩
  former guard hguard := by
    rcases List.mem_append.mp hguard with hguard | hguard
    · exact h.former guard hguard
    · rw [hmore.former guard hguard]
      exact h.others guard.name fun hmem => hdisjoint hmem (List.mem_map_of_mem hguard)
  others name hname := by
    rw [List.map_append, List.mem_append, not_or] at hname
    rw [hmore.others name hname.2, h.others name hname.1]

theorem of_set (environment : Environment) (name value : Bytes) :
    Undo [(set environment name value).2] environment (set environment name value).1 where
  distinct := List.nodup_singleton name
  former guard hguard := by rw [List.mem_singleton.mp hguard, set]
  others other hother := by
    have hne : name ≠ other := fun heq => hother (heq ▸ List.mem_cons_self)
    rw [set, Environment.get?_set, if_neg hne]

theorem of_remove (environment : Environment) (name : Bytes) :
    Undo [(remove environment name).2] environment (remove environment name).1 where
  distinct := List.nodup_singleton name
  former guard hguard := by rw [List.mem_singleton.mp hguard, remove]
  others other hother := by
    have hne : name ≠ other := fun heq => hother (heq ▸ List.mem_cons_self)
    rw [remove, Environment.get?_remove, if_neg hne]

end Undo

theorem map_name_removeAll (environment : Environment) (names : List Bytes) :
    (removeAll environment names).2.map Guard.name = names := by
  induction names generalizing environment with
  | nil => rfl
  | cons name names ih => exact congrArg (name :: ·) (ih (environment.remove name))

theorem get?_removeAll (environment : Environment) (names : List Bytes) (name : Bytes) :
    (removeAll environment names).1.get? name
      = if name ∈ names then none else environment.get? name := by
  induction names generalizing environment with
  | nil => simp [removeAll]
  | cons first names ih =>
    change (removeAll (environment.remove first) names).1.get? name = _
    rw [ih, Environment.get?_remove]
    by_cases hfirst : first = name
    · simp [hfirst]
    · simp [hfirst, Ne.symm hfirst]

theorem Undo.of_removeAll {names : List Bytes} (h : names.Nodup) (environment : Environment) :
    Undo (removeAll environment names).2 environment (removeAll environment names).1 := by
  induction names generalizing environment with
  | nil => exact ⟨List.nodup_nil, by simp [removeAll], fun name _ => rfl⟩
  | cons name names ih =>
    obtain ⟨hname, hnames⟩ := List.nodup_cons.mp h
    refine (Undo.of_remove environment name).append (ih hnames (environment.remove name)) ?_
    rw [map_name_removeAll]
    exact List.singleton_disjoint.mpr hname

/-- Clearing removes the variables whose names begin so, and no others. -/
theorem get?_clear (environment : Environment) (start name : Bytes) :
    (clear environment start).1.get? name
      = if start <+: name then none else environment.get? name := by
  rw [clear, get?_removeAll]
  by_cases hstart : start <+: name
  · -- a name that is not among the variables has no value anyway
    by_cases hname : environment.get? name = none <;>
      simp [Environment.mem_namesFrom_iff, hstart, hname]
  · simp [Environment.mem_namesFrom_iff, hstart]

end Guard

namespace GuardedEnvironment

open Guard

/-- The guards of a group that have not been dropped. -/
def group (state : GuardedEnvironment) (number : Nat) : List Guard :=
  state.groups[number]?.getD []

/-- Drops a group, its guards in the given order. -/
def dropIn (order : List Guard) (state : GuardedEnvironment) (number : Nat) : GuardedEnvironment :=
  ⟨dropAll state.environment order, state.groups.set number []⟩

/-- A group that is left to be dropped: its number, and the environment just before it was made. -/
structure OpenGroup where
  number : Nat
  before : Environment

/-- The states that can be reached from an environment by making groups and dropping, each time, the
last one that is left, its guards in any order. The groups that are left are listed, the last one
first. -/
inductive Run (initial : Environment) : GuardedEnvironment → List OpenGroup → Prop
  | start : Run initial (.start initial) []
  | make {state : GuardedEnvironment} {opened : List OpenGroup} (run : Run initial state opened)
      (action : Action) (makes : ∀ number, action ≠ .drop number) :
      Run initial (state.act action) (⟨state.groups.length, state.environment⟩ :: opened)
  | drop {state : GuardedEnvironment} {last : OpenGroup} {opened : List OpenGroup}
      (run : Run initial state (last :: opened)) (order : List Guard)
      (horder : order.Perm (state.group last.number)) :
      Run initial (dropIn order state last.number) opened

/-- Each group that is left undoes what was done since it was made and is not undone by the groups
after it; the first one leads back to the initial environment. -/
def Unwinds (initial : Environment) (state : GuardedEnvironment) :
    Environment → List OpenGroup → Prop
  | environment, [] => environment = initial
  | environment, last :: opened => Undo (state.group last.number) last.before environment
    ∧ Unwinds initial state last.before opened

/-- What holds of every state that a run reaches. -/
structure Sound (initial : Environment) (state : GuardedEnvironment) (opened : List OpenGroup) :
    Prop where
  made : ∀ group ∈ opened, group.number < state.groups.length
  descending : opened.Pairwise fun group earlier => earlier.number < group.number
  unwinds : Unwinds initial state state.environment opened

variable {initial : Environment} {state : GuardedEnvironment}

theorem Unwinds.congr {other : GuardedEnvironment} {opened : List OpenGroup}
    (hgroups : ∀ group ∈ opened, other.group group.number = state.group group.number)
    {environment : Environment} (h : Unwinds initial state environment opened) :
    Unwinds initial other environment opened := by
  induction opened generalizing environment with
  | nil => exact h
  | cons last opened ih =>
    obtain ⟨hlast, hopened⟩ := List.forall_mem_cons.mp hgroups
    obtain ⟨hundo, hrest⟩ := h
    exact ⟨hlast ▸ hundo, ih hopened hrest⟩

/-- Every action but a drop makes one group, which undoes it. -/
theorem exists_group_of_act (state : GuardedEnvironment) {action : Action}
    (makes : ∀ number, action ≠ .drop number) :
    ∃ guards, (state.act action).groups = state.groups ++ [guards]
      ∧ Undo guards state.environment (state.act action).environment := by
  cases action with
  | set name value => exact ⟨_, rfl, Undo.of_set state.environment name value⟩
  | remove name => exact ⟨_, rfl, Undo.of_remove state.environment name⟩
  | clear start =>
    have hnames := state.environment.nodup_namesFrom start
    exact ⟨_, rfl, Undo.of_removeAll hnames state.environment⟩
  | drop number => exact absurd rfl (makes number)

namespace Sound

variable {last : OpenGroup} {opened : List OpenGroup}

theorem of_start (initial : Environment) : Sound initial (.start initial) [] :=
  ⟨by simp, List.Pairwise.nil, rfl⟩

theorem make (h : Sound initial state opened) {action : Action}
    (makes : ∀ number, action ≠ .drop number) :
    Sound initial (state.act action) (⟨state.groups.length, state.environment⟩ :: opened) := by
  obtain ⟨guards, hgroups, hundo⟩ := state.exists_group_of_act makes
  have hnew : (state.act action).group state.groups.length = guards := by
    rw [group, hgroups, List.getElem?_concat_length]
    rfl
  have hold : ∀ group ∈ opened,
      (state.act action).group group.number = state.group group.number := by
    intro group hgroup
    rw [GuardedEnvironment.group, GuardedEnvironment.group, hgroups,
      List.getElem?_append_left (h.made group hgroup)]
  refine ⟨?_, List.pairwise_cons.mpr ⟨h.made, h.descending⟩, ?_⟩
  · rw [hgroups, List.length_append, List.forall_mem_cons]
    exact ⟨Nat.lt_succ_self _, fun group hgroup => Nat.lt_succ_of_lt (h.made group hgroup)⟩
  · exact ⟨hnew ▸ hundo, h.unwinds.congr hold⟩

theorem environment_dropIn (h : Sound initial state (last :: opened)) {order : List Guard}
    (horder : order.Perm (state.group last.number)) :
    (dropIn order state last.number).environment = last.before := by
  exact (h.unwinds.1.perm horder).dropAll_eq

theorem drop (h : Sound initial state (last :: opened)) {order : List Guard}
    (horder : order.Perm (state.group last.number)) :
    Sound initial (dropIn order state last.number) opened := by
  have henvironment := h.environment_dropIn horder
  obtain ⟨-, hrest⟩ := h.unwinds
  obtain ⟨hlast, hdescending⟩ := List.pairwise_cons.mp h.descending
  have hother : ∀ group ∈ opened,
      (dropIn order state last.number).group group.number = state.group group.number := by
    intro group hgroup
    rw [GuardedEnvironment.group, dropIn, List.getElem?_set_ne (hlast group hgroup).ne']
    rfl
  refine ⟨fun group hgroup => ?_, hdescending, ?_⟩
  · rw [dropIn, List.length_set]
    exact h.made group (List.mem_cons_of_mem _ hgroup)
  · rw [henvironment]
    exact hrest.congr hother

end Sound

/-- The invariant of runs. -/
theorem Run.sound {opened : List OpenGroup} (run : Run initial state opened) :
    Sound initial state opened := by
  induction run with
  | start => exact Sound.of_start initial
  | make run action makes ih => exact ih.make makes
  | drop run order horder ih => exact ih.drop horder

/-- **Guards restore the environment.** In a run that makes groups of guards and drops them last one
first, dropping the last group that is left brings the environment back to what it was just before
the group was made, in whatever order its guards are dropped. When no group is left, the environment
is the initial one. Clearing leaves no variable whose name begins so, and the others as they
were. -/
theorem dropping_restores_environment (initial : Environment) (state : GuardedEnvironment)
    (opened : List OpenGroup) (run : Run initial state opened) :
    (∀ last rest, opened = last :: rest →
        (∀ order : List Guard, order.Perm (state.group last.number) →
          (dropIn order state last.number).environment = last.before)
        ∧ (state.act (.drop last.number)).environment = last.before)
      ∧ (opened = [] → state.environment = initial)
      ∧ ∀ start name, (state.act (.clear start)).environment.get? name
        = if start <+: name then none else state.environment.get? name := by
  have hsound := run.sound
  refine ⟨?_, ?_, fun start name => get?_clear state.environment start name⟩
  · rintro last rest rfl
    exact ⟨fun order horder => hsound.environment_dropIn horder,
      hsound.environment_dropIn (List.Perm.refl _)⟩
  · rintro rfl
    exact hsound.unwinds

/-- A variable is set over its own value, then it and another one that begins alike are cleared, and
their guards are dropped in the reverse order of their making. -/
theorem dropping_restores_environment_reversed :
    let initial : Environment := .ofList [([65], [1]), ([65, 66], [2]), ([67], [3])]
    let written := (start initial).act (.set [65] [9])
    let cleared := written.act (.clear [65])
    Run initial cleared [⟨1, written.environment⟩, ⟨0, initial⟩]
      ∧ (cleared.group 1).length = 2
      ∧ (dropIn (cleared.group 1).reverse cleared 1).environment = written.environment
      ∧ cleared.environment.get? [65, 66] = none := by
  intro initial written cleared
  have hwritten : Run initial written [⟨0, initial⟩] := Run.start.make _ (by simp)
  have hcleared : Run initial cleared [⟨1, written.environment⟩, ⟨0, initial⟩] :=
    hwritten.make _ (by simp)
  obtain ⟨hdrop, -, -⟩ := dropping_restores_environment initial cleared _ hcleared
  obtain ⟨-, -, hclear⟩ := dropping_restores_environment initial written _ hwritten
  refine ⟨hcleared, by decide, (hdrop _ _ rfl).1 _ (List.reverse_perm _), ?_⟩
  exact (hclear [65] [65, 66]).trans (if_pos (by decide))

end GuardedEnvironment

end LayeredConfig
