import LayeredConfig.Keyed
import Mathlib.Data.List.Induction
import Mathlib.Data.List.Sort
import Mathlib.Data.String.Basic

/-!
# The contents of keyed lists

What a list holds after insertions, and what its look-ups tell. In a list that ascends no key has
two entries, so the look-up of a key tells what the list holds, and lists with the same members or
the same look-ups are the same.
-/

namespace LayeredConfig.Keyed

variable {κ α : Type}

section Lookup

variable [DecidableEq κ] {entries : Keyed κ α} {k : κ}

theorem get?_map {β : Type} (entries : Keyed κ α) (f : α → β) (k : κ) :
    get? (entries.map fun entry => (entry.1, f entry.2)) k = (get? entries k).map f := by
  induction entries with
  | nil => rfl
  | cons entry rest ih =>
    obtain ⟨key, value⟩ := entry
    rw [List.map_cons, get?_cons, get?_cons, ih]
    split <;> rfl

theorem get?_eq_none_iff : get? entries k = none ↔ ∀ entry ∈ entries, entry.1 ≠ k := by
  induction entries with
  | nil => simp
  | cons entry rest ih =>
    obtain ⟨key, value⟩ := entry
    rw [get?_cons, List.forall_mem_cons, ← ih]
    split
    · rename_i hkey
      simp [hkey]
    · rename_i hkey
      simp [hkey]

theorem mem_keys_iff : k ∈ keys entries ↔ get? entries k ≠ none := by
  rw [Ne, get?_eq_none_iff, keys, List.mem_map]
  simp

end Lookup

section Insert

variable [DecidableEq κ] [LT κ] [DecidableLT κ] {entries : Keyed κ α}

theorem ofList_append_singleton (pairs : List (κ × α)) (pair : κ × α) :
    ofList (pairs ++ [pair]) = insert (ofList pairs) pair.1 pair.2 := by
  rw [ofList, List.foldl_append]
  rfl

/-- A map of a list of pairs has the keys of the pairs. -/
theorem mem_keys_ofList_iff {pairs : List (κ × α)} {k : κ} :
    k ∈ keys (ofList pairs) ↔ k ∈ pairs.map Prod.fst := by
  induction pairs using List.reverseRecOn with
  | nil => simp [ofList, keys]
  | append_singleton pairs pair ih =>
    rw [ofList_append_singleton, mem_keys_iff, get?_insert, List.map_append, List.mem_append,
      ← ih, mem_keys_iff]
    by_cases hkey : pair.1 = k
    · simp [hkey]
    · simp [hkey, Ne.symm hkey]

theorem perm_insert {k : κ} (h : ∀ entry ∈ entries, entry.1 ≠ k) (v : α) :
    (insert entries k v).Perm ((k, v) :: entries) := by
  induction entries with
  | nil => exact List.Perm.refl _
  | cons first rest ih =>
    obtain ⟨key, value⟩ := first
    obtain ⟨hfirst, hrest⟩ := List.forall_mem_cons.mp h
    unfold insert
    split
    · exact List.Perm.refl _
    · exact ((ih hrest).cons _).trans (List.Perm.swap _ _ _)

/-- If no key is given twice, then no pair is replaced. -/
theorem perm_ofList {pairs : List (κ × α)} (h : (pairs.map Prod.fst).Nodup) :
    (ofList pairs).Perm pairs := by
  induction pairs using List.reverseRecOn with
  | nil => exact List.Perm.refl _
  | append_singleton pairs pair ih =>
    rw [List.map_append, List.nodup_append] at h
    obtain ⟨hpairs, -, hnew⟩ := h
    have hbefore := ih hpairs
    have hfresh : ∀ entry ∈ ofList pairs, entry.1 ≠ pair.1 := fun entry hentry =>
      hnew _ (List.mem_map_of_mem (hbefore.mem_iff.mp hentry)) _ List.mem_cons_self
    rw [ofList_append_singleton]
    exact ((perm_insert hfresh pair.2).trans (hbefore.cons pair)).trans
      (List.perm_append_singleton pair pairs).symm

end Insert

section Order

variable [LT κ] [@Std.Asymm κ (· < ·)]

/-- Lists that ascend in some measure and have the same members are the same list. -/
theorem eq_of_ascending_of_mem_iff {β : Type} (measure : β → κ) {items others : List β}
    (h : items.Pairwise fun item later => measure item < measure later)
    (hothers : others.Pairwise fun item later => measure item < measure later)
    (hmem : ∀ item, item ∈ items ↔ item ∈ others) : items = others := by
  have hirrefl : Std.Irrefl fun item later : β => measure item < measure later :=
    ⟨fun _ => Std.lt_irrefl⟩
  have hantisymm : Std.Antisymm fun item later : β => measure item < measure later :=
    ⟨fun _ _ hlt hgt => absurd hgt (Std.not_gt_of_lt hlt)⟩
  exact h.eq_of_mem_iff hothers hmem

theorem nodup_keys {entries : Keyed κ α} (h : Ascending entries) :
    (keys entries).Nodup :=
  List.pairwise_map.mpr (h.imp Std.ne_of_lt)

variable [DecidableEq κ] {entries : Keyed κ α} {k : κ} {v : α}

theorem get?_eq_some_iff (h : Ascending entries) :
    get? entries k = some v ↔ (k, v) ∈ entries := by
  refine ⟨mem_of_get?, fun hmem => ?_⟩
  induction entries with
  | nil => simp at hmem
  | cons entry rest ih =>
    obtain ⟨key, value⟩ := entry
    obtain ⟨hfirst, hrest⟩ := List.pairwise_cons.mp h
    rw [get?_cons]
    rcases List.mem_cons.mp hmem with heq | hmem
    · simp_all
    · rw [if_neg (Std.ne_of_lt (hfirst _ hmem))]
      exact ih hrest hmem

/-- Lists that ascend are determined by their look-ups. -/
theorem eq_of_get? {others : Keyed κ α} (h : Ascending entries)
    (hothers : Ascending others) (hget : ∀ k, get? entries k = get? others k) :
    entries = others := by
  refine eq_of_ascending_of_mem_iff Prod.fst h hothers fun entry => ?_
  rw [← get?_eq_some_iff h, ← get?_eq_some_iff hothers, hget]

end Order

end LayeredConfig.Keyed
