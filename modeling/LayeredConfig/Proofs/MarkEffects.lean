import LayeredConfig.Proofs.Marks

/-!
# What marks leave in the record

The origin recorded for a path after a list of marks is decided by the last mark that concerns the
path. The origin that a path is blamed on is decided by the last mark that speaks for it: one that
concerns it, or one for an ancestor while nothing nearer is recorded.
-/

namespace LayeredConfig.Provenance

theorem get?_clearUnder (record : Provenance) (path other : String) :
    (record.clearUnder path).get? other
      = if KeyPath.isBelow other path = true then none else record.get? other := by
  have hkept := Keyed.get?_filter record.origins (fun key => !KeyPath.isBelow key path) other
  rw [clearUnder, get?, hkept, get?]
  cases KeyPath.isBelow other path <;> rfl

variable {origin : Origin} {record : Provenance} {mark : Mark} {path : String}

theorem get?_apply_self (hpath : mark.path ≠ "") :
    (mark.apply origin record).get? mark.path = some origin := by
  rw [Mark.apply, get?_set _ hpath, if_pos rfl]

theorem get?_apply_of_ne (hne : mark.path ≠ path) :
    (mark.apply origin record).get? path
      = if mark.replaces = true ∧ KeyPath.isBelow path mark.path = true then none
        else record.get? path := by
  have hset : ∀ other : Provenance, (other.set mark.path origin).get? path = other.get? path := by
    intro other
    by_cases hroot : mark.path = ""
    · simp [set, hroot]
    · rw [get?_set _ hroot, if_neg hne]
  rw [Mark.apply, hset]
  cases mark.replaces with
  | false => simp
  | true => simp [get?_clearUnder]

theorem get?_apply_of_not_concerns (h : ¬ mark.Concerns path) :
    (mark.apply origin record).get? path = record.get? path := by
  rw [get?_apply_of_ne fun heq => h (Or.inl heq), if_neg fun hbelow => h (Or.inr hbelow)]

section Fold

variable {marks : List Mark}

/-- Marks that do not concern a path leave what is recorded for it. -/
theorem get?_foldl_of_not_concerns (h : ∀ mark ∈ marks, ¬ mark.Concerns path) :
    (marks.foldl (Mark.apply origin) record).get? path = record.get? path := by
  induction marks generalizing record with
  | nil => rfl
  | cons first rest ih =>
    obtain ⟨hfirst, hrest⟩ := List.forall_mem_cons.mp h
    rw [List.foldl_cons, ih hrest, get?_apply_of_not_concerns hfirst]

theorem get?_foldl_of_last {before after : List Mark} (hpath : mark.path ≠ "")
    (hafter : ∀ later ∈ after, ¬ later.Concerns mark.path) :
    ((before ++ mark :: after).foldl (Mark.apply origin) record).get? mark.path = some origin := by
  rw [List.foldl_append, List.foldl_cons, get?_foldl_of_not_concerns hafter, get?_apply_self hpath]

/-- What is recorded for a path stems from a mark at the path, or was there before and concerns
none of the marks. -/
theorem get?_foldl_eq_some {recorded : Origin} (hpath : path ≠ "")
    (h : (marks.foldl (Mark.apply origin) record).get? path = some recorded) :
    (recorded = origin ∧ ∃ mark ∈ marks, mark.path = path)
      ∨ (record.get? path = some recorded ∧ ∀ mark ∈ marks, ¬ mark.Concerns path) := by
  induction marks generalizing record with
  | nil => exact Or.inr ⟨h, by simp⟩
  | cons first rest ih =>
    rcases ih h with ⟨heq, mark, hmem, hmark⟩ | ⟨hrecord, hrest⟩
    · exact Or.inl ⟨heq, mark, List.mem_cons_of_mem _ hmem, hmark⟩
    · by_cases hfirst : first.path = path
      · left
        refine ⟨?_, first, List.mem_cons_self, hfirst⟩
        subst hfirst
        rw [get?_apply_self hpath] at hrecord
        exact (Option.some.inj hrecord).symm
      · right
        rw [get?_apply_of_ne hfirst] at hrecord
        split at hrecord
        · simp at hrecord
        · rename_i hopen
          exact ⟨hrecord, List.forall_mem_cons.mpr ⟨not_or.mpr ⟨hfirst, hopen⟩, hrest⟩⟩

/-- The root is never recorded. -/
theorem get?_foldl_root (h : record.get? "" = none) :
    (marks.foldl (Mark.apply origin) record).get? "" = none := by
  induction marks generalizing record with
  | nil => exact h
  | cons first rest ih =>
    apply ih
    have hset : ∀ other : Provenance, other.get? "" = none →
        (other.set first.path origin).get? "" = none := by
      intro other hother
      by_cases hroot : first.path = ""
      · simpa [set, hroot] using hother
      · rw [get?_set _ hroot, if_neg hroot, hother]
    apply hset
    cases first.replaces with
    | false => exact h
    | true => simp [get?_clearUnder, h]

end Fold

/-! ### Blame -/

/-- The mark decides what the path is blamed on: it concerns the path, or it is at an ancestor, and
nothing nearer is recorded. -/
def Mark.Speaks (mark : Mark) (record : Provenance) (path : String) : Prop :=
  mark.Concerns path ∨ ∃ longer shorter, KeyPath.ancestors path = longer ++ mark.path :: shorter
    ∧ ∀ other ∈ longer, record.get? other = none

theorem findSome?_congr {α β : Type} {f g : α → Option β} {items : List α}
    (h : ∀ item ∈ items, f item = g item) : items.findSome? f = items.findSome? g := by
  induction items with
  | nil => rfl
  | cons item items ih =>
    obtain ⟨hitem, hrest⟩ := List.forall_mem_cons.mp h
    rw [List.findSome?_cons, List.findSome?_cons, hitem, ih hrest]

theorem originOf_eq_of_nearest {recorded : Origin} {longer shorter : List String} {anchor : String}
    (hpath : KeyPath.ancestors path = longer ++ anchor :: shorter)
    (hlonger : ∀ other ∈ longer, record.get? other = none ∨ record.get? other = some recorded)
    (hanchor : record.get? anchor = some recorded) : record.originOf path = recorded := by
  rw [originOf, hpath]
  clear hpath
  induction longer with
  | nil => simp [hanchor]
  | cons other longer ih =>
    obtain ⟨hother, hrest⟩ := List.forall_mem_cons.mp hlonger
    rw [List.cons_append, List.findSome?_cons]
    rcases hother with hnone | hsome
    · rw [hnone]
      exact ih hrest
    · rw [hsome]
      rfl

theorem originOf_eq_of_get? {recorded : Origin} (h : record.get? path = some recorded) :
    record.originOf path = recorded := by
  obtain ⟨above, hpath⟩ := KeyPath.ancestors_eq_cons path
  have hnearest : KeyPath.ancestors path = [] ++ path :: above := hpath
  exact originOf_eq_of_nearest hnearest (by simp) h

theorem get?_apply_ancestor {other : String} (hsilent : ¬ mark.Concerns path)
    (hother : other ∈ KeyPath.ancestors path) (hne : mark.path ≠ other) :
    (mark.apply origin record).get? other = record.get? other := by
  apply get?_apply_of_not_concerns
  rintro (heq | ⟨hreplaces, hbelow⟩)
  · exact hne heq
  · apply hsilent
    rcases KeyPath.eq_or_isBelow_of_mem_ancestors hother with rfl | habove
    · exact Or.inr ⟨hreplaces, hbelow⟩
    · exact Or.inr ⟨hreplaces, KeyPath.isBelow_trans habove hbelow⟩

theorem originOf_apply_of_speaks (hroot : mark.path ≠ "") (h : mark.Speaks record path) :
    (mark.apply origin record).originOf path = origin := by
  have hself := @get?_apply_self origin record _ hroot
  rcases h with (heq | ⟨hreplaces, hbelow⟩) | ⟨longer, shorter, hpath, hlonger⟩
  · exact originOf_eq_of_get? (heq ▸ hself)
  · obtain ⟨between, hpath, hbetween⟩ := KeyPath.ancestors_of_isBelow hbelow
    obtain ⟨above, habove⟩ := KeyPath.ancestors_eq_cons mark.path
    rw [habove] at hpath
    refine originOf_eq_of_nearest hpath (fun other hother => Or.inl ?_) hself
    have hne : mark.path ≠ other := by
      rintro rfl
      simpa [KeyPath.not_isBelow_self] using hbetween _ hother
    rw [get?_apply_of_ne hne, if_pos ⟨hreplaces, hbetween other hother⟩]
  · refine originOf_eq_of_nearest hpath (fun other hother => ?_) hself
    by_cases heq : mark.path = other
    · exact Or.inr (heq ▸ hself)
    · left
      rw [get?_apply_of_ne heq, hlonger other hother, ite_self]

theorem Mark.Speaks.mem_ancestors (h : mark.Speaks record path) :
    mark.path ∈ KeyPath.ancestors path := by
  rcases h with (heq | ⟨-, hbelow⟩) | ⟨longer, shorter, hpath, -⟩
  · obtain ⟨above, hpath⟩ := KeyPath.ancestors_eq_cons path
    simp [hpath, heq]
  · obtain ⟨between, hpath, -⟩ := KeyPath.ancestors_of_isBelow hbelow
    obtain ⟨above, habove⟩ := KeyPath.ancestors_eq_cons mark.path
    simp [hpath, habove]
  · simp [hpath]

/-- A mark that is written like the root's leaves nothing to blame. -/
theorem originOf_apply_of_root_speaks (hroot : mark.path = "") (hrecord : record.get? "" = none)
    (h : mark.Speaks record path) : (mark.apply origin record).originOf path = .inline := by
  have hself : (mark.apply origin record).get? "" = none :=
    @get?_foldl_root origin record [mark] hrecord
  have halone : KeyPath.ancestors "" = [""] := rfl
  have hnone : ∀ other ∈ KeyPath.ancestors path,
      (mark.apply origin record).get? other = none := by
    intro other hother
    by_cases hempty : other = ""
    · rw [hempty, hself]
    · rw [get?_apply_of_ne (hroot ▸ Ne.symm hempty)]
      rcases h with (hpath | ⟨hreplaces, hbelow⟩) | ⟨longer, shorter, hpath, hlonger⟩
      · rw [← hpath, hroot, halone, List.mem_singleton] at hother
        exact absurd hother hempty
      · obtain ⟨between, hpath, hbetween⟩ := KeyPath.ancestors_of_isBelow hbelow
        rw [hpath, hroot, halone, List.mem_append, List.mem_singleton] at hother
        rw [if_pos ⟨hreplaces, hbetween other (hother.resolve_right hempty)⟩]
      · rw [hroot] at hpath
        obtain rfl := KeyPath.eq_nil_of_ancestors_eq_append hpath
        rw [hpath, List.mem_append, List.mem_singleton] at hother
        rw [hlonger other (hother.resolve_right hempty), ite_self]
  rw [originOf, List.findSome?_eq_none_iff.mpr hnone, Option.getD_none]

theorem originOf_apply_of_not_speaks (h : ¬ mark.Speaks record path) :
    (mark.apply origin record).originOf path = record.originOf path := by
  obtain ⟨hsilent, hfar⟩ := not_or.mp h
  unfold originOf
  congr 1
  by_cases hmem : mark.path ∈ KeyPath.ancestors path
  · obtain ⟨longer, shorter, hpath, hfirst⟩ := List.eq_append_cons_of_mem hmem
    have hsame :
        longer.findSome? (mark.apply origin record).get? = longer.findSome? record.get? := by
      apply findSome?_congr
      intro other hother
      refine get?_apply_ancestor hsilent ?_ fun heq => hfirst (heq ▸ hother)
      rw [hpath]
      exact List.mem_append_left _ hother
    -- something before the mark's path is recorded, and answers first
    have hrecorded : (longer.findSome? record.get?).isSome = true := by
      rw [List.findSome?_isSome_iff]
      by_contra hnone
      refine hfar ⟨longer, shorter, hpath, fun other hother => ?_⟩
      by_contra hsome
      exact hnone ⟨other, hother, Option.isSome_iff_ne_none.mpr hsome⟩
    rw [hpath, List.findSome?_append, List.findSome?_append, hsame]
    obtain ⟨answer, hanswer⟩ := Option.isSome_iff_exists.mp hrecorded
    rw [hanswer]
    rfl
  · apply findSome?_congr
    intro other hother
    exact get?_apply_ancestor hsilent hother fun heq => hmem (heq ▸ hother)

theorem speaks_apply_iff {later : Mark} (h : ¬ mark.Speaks record path) :
    later.Speaks (mark.apply origin record) path ↔ later.Speaks record path := by
  obtain ⟨hsilent, hfar⟩ := not_or.mp h
  refine or_congr_right (exists_congr fun longer => exists_congr fun shorter =>
    and_congr_right fun hpath => ?_)
  have hancestor : ∀ other ∈ longer, other ∈ KeyPath.ancestors path := by
    intro other hother
    rw [hpath]
    exact List.mem_append_left _ hother
  constructor
  · intro hlonger other hother
    have hne : mark.path ≠ other := by
      rintro rfl
      have hroot : mark.path ≠ "" := by
        intro hempty
        obtain ⟨nearer, between, rfl⟩ := List.append_of_mem hother
        rw [hempty, List.append_assoc, List.cons_append] at hpath
        simpa using KeyPath.eq_nil_of_ancestors_eq_append hpath
      have hnone := hlonger _ hother
      rw [get?_apply_self hroot] at hnone
      simp at hnone
    rw [← @get?_apply_ancestor origin _ _ _ _ hsilent (hancestor other hother) hne]
    exact hlonger other hother
  · intro hlonger other hother
    have hne : mark.path ≠ other := by
      rintro rfl
      obtain ⟨nearer, between, rfl⟩ := List.append_of_mem hother
      refine hfar ⟨nearer, between ++ later.path :: shorter, by simp [hpath], ?_⟩
      intro nearest hnearest
      exact hlonger nearest (List.mem_append_left _ hnearest)
    rw [get?_apply_ancestor hsilent (hancestor other hother) hne]
    exact hlonger other hother

/-- The path is blamed on the origin, or on none where nothing but the root can be recorded. -/
def Blamed (path : String) (origin blamed : Origin) : Prop :=
  blamed = origin ∨ (blamed = .inline ∧ "" ∈ KeyPath.ancestors path)

theorem blamed_apply_of_speaks (hrecord : record.get? "" = none) (h : mark.Speaks record path) :
    Blamed path origin ((mark.apply origin record).originOf path) := by
  by_cases hroot : mark.path = ""
  · exact Or.inr ⟨originOf_apply_of_root_speaks hroot hrecord h, hroot ▸ h.mem_ancestors⟩
  · exact Or.inl (originOf_apply_of_speaks hroot h)

/-- After some marks of one origin a path is blamed on that origin if one of the marks speaks for
it, and on what it was blamed on before if none does. -/
theorem originOf_foldl {marks : List Mark} (hrecord : record.get? "" = none) :
    ((∃ mark ∈ marks, mark.Speaks record path) →
        Blamed path origin ((marks.foldl (Mark.apply origin) record).originOf path))
      ∧ ((∀ mark ∈ marks, ¬ mark.Speaks record path) →
        (marks.foldl (Mark.apply origin) record).originOf path = record.originOf path) := by
  induction marks generalizing record with
  | nil => simp
  | cons first rest ih =>
    rw [List.foldl_cons]
    have hroot : (first.apply origin record).get? "" = none :=
      @get?_foldl_root origin record [first] hrecord
    obtain ⟨hspeaks, hsilent⟩ := ih hroot
    by_cases hfirst : first.Speaks record path
    · refine ⟨fun _ => ?_, fun hnone => absurd hfirst (hnone first List.mem_cons_self)⟩
      by_cases hrest : ∃ mark ∈ rest, mark.Speaks (first.apply origin record) path
      · exact hspeaks hrest
      · rw [hsilent fun mark hmem hmark => hrest ⟨mark, hmem, hmark⟩]
        exact blamed_apply_of_speaks hrecord hfirst
    · have horigin := @originOf_apply_of_not_speaks origin _ _ _ hfirst
      constructor
      · rintro ⟨mark, hmem, hmark⟩
        rcases List.mem_cons.mp hmem with rfl | hmem
        · exact absurd hmark hfirst
        · exact hspeaks ⟨mark, hmem, (speaks_apply_iff hfirst).mpr hmark⟩
      · intro hnone
        rw [← horigin]
        apply hsilent
        intro mark hmem hmark
        exact hnone mark (List.mem_cons_of_mem _ hmem) ((speaks_apply_iff hfirst).mp hmark)

end LayeredConfig.Provenance
