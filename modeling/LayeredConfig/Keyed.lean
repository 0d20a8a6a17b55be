/-!
# Keyed lists

Finite maps as lists of key and value pairs in strictly ascending key order. Two such lists with
the same entries are the same list, so equality of maps is equality of data. Strings ascend by
code point, which is also the order of their UTF-8 bytes. Insertion and removal keep the keys
ascending, so whatever holds such a list can hold the proof that it ascends.
-/

namespace LayeredConfig

abbrev Keyed (κ α : Type) := List (κ × α)

namespace Keyed

variable {κ α : Type}

/-- The value of the first entry with key `k`. -/
def get? [DecidableEq κ] : Keyed κ α → κ → Option α
  | [], _ => none
  | (key, value) :: rest, k => if key = k then some value else get? rest k

/-- The map with `v` at `k`: in the place of an entry for `k`, or before the first greater key. -/
def insert [DecidableEq κ] [LT κ] [DecidableLT κ] : Keyed κ α → κ → α → Keyed κ α
  | [], k, v => [(k, v)]
  | (key, value) :: rest, k, v =>
    if k < key then (k, v) :: (key, value) :: rest
    else if key = k then (k, v) :: rest
    else (key, value) :: insert rest k v

def erase [DecidableEq κ] (entries : Keyed κ α) (k : κ) : Keyed κ α :=
  entries.filter fun entry => decide (entry.1 ≠ k)

/-- The map of a list of pairs, in which a later pair replaces an earlier one of the same key. -/
def ofList [DecidableEq κ] [LT κ] [DecidableLT κ] (pairs : List (κ × α)) : Keyed κ α :=
  pairs.foldl (fun entries pair => insert entries pair.1 pair.2) []

def keys (entries : Keyed κ α) : List κ :=
  entries.map Prod.fst

/-- The keys ascend strictly, so each has one entry and the order of entries is determined. -/
def Ascending [LT κ] (entries : Keyed κ α) : Prop :=
  entries.Pairwise fun earlier later => earlier.1 < later.1

instance [LT κ] [DecidableLT κ] (entries : Keyed κ α) : Decidable (Ascending entries) :=
  inferInstanceAs (Decidable (List.Pairwise _ _))

section Lookup

variable [DecidableEq κ]

@[simp] theorem get?_nil (k : κ) : get? ([] : Keyed κ α) k = none := rfl

theorem get?_cons (key : κ) (value : α) (rest : Keyed κ α) (k : κ) :
    get? ((key, value) :: rest) k = if key = k then some value else get? rest k := rfl

theorem get?_insert [LT κ] [DecidableLT κ] (entries : Keyed κ α) (k : κ) (v : α) (j : κ) :
    get? (insert entries k v) j = if k = j then some v else get? entries j := by
  induction entries with
  | nil => rfl
  | cons entry rest ih =>
    obtain ⟨key, value⟩ := entry
    unfold insert
    split
    · rfl
    · split
      · rename_i h
        subst h
        simp only [get?_cons]
        split <;> rfl
      · rename_i h
        simp only [get?_cons, ih]
        split
        · rename_i hkey
          subst hkey
          rw [if_neg (Ne.symm h)]
        · rfl

theorem get?_filter (entries : Keyed κ α) (keep : κ → Bool) (k : κ) :
    get? (entries.filter fun entry => keep entry.1) k
      = if keep k then get? entries k else none := by
  induction entries with
  | nil => simp
  | cons entry rest ih =>
    obtain ⟨key, value⟩ := entry
    rw [List.filter_cons, get?_cons]
    split
    · rename_i hkept
      rw [get?_cons, ih]
      by_cases hkey : key = k
      · simp [← hkey, hkept]
      · simp [hkey]
    · rename_i hkept
      rw [ih]
      by_cases hkey : key = k
      · simp [← hkey, hkept]
      · simp [hkey]

theorem get?_erase (entries : Keyed κ α) (k j : κ) :
    get? (erase entries k) j = if k = j then none else get? entries j := by
  unfold erase
  rw [get?_filter entries (fun key => decide (key ≠ k)) j]
  by_cases hkey : k = j
  · simp [hkey]
  · simp [hkey, Ne.symm hkey]

theorem mem_of_get? {entries : Keyed κ α} {k : κ} {v : α} (h : get? entries k = some v) :
    (k, v) ∈ entries := by
  induction entries with
  | nil => simp at h
  | cons entry rest ih =>
    obtain ⟨key, value⟩ := entry
    rw [get?_cons] at h
    split at h
    · rename_i hkey
      simp_all
    · exact List.mem_cons_of_mem _ (ih h)

theorem mem_of_mem_insert [LT κ] [DecidableLT κ] {entries : Keyed κ α} {k : κ} {v : α}
    {entry : κ × α} (h : entry ∈ insert entries k v) : entry = (k, v) ∨ entry ∈ entries := by
  induction entries with
  | nil => simpa [insert] using h
  | cons first rest ih =>
    obtain ⟨key, value⟩ := first
    unfold insert at h
    split at h
    · simpa using h
    · split at h
      · rcases List.mem_cons.mp h with heq | hmem
        · exact Or.inl heq
        · exact Or.inr (List.mem_cons_of_mem _ hmem)
      · rcases List.mem_cons.mp h with heq | hmem
        · exact Or.inr (heq ▸ List.mem_cons_self)
        · exact (ih hmem).imp_right (List.mem_cons_of_mem _)

end Lookup

/-! ### Lists that ascend -/

theorem ascending_nil [LT κ] : Ascending ([] : Keyed κ α) := List.Pairwise.nil

theorem pairwise_keys [LT κ] {entries : Keyed κ α} (h : Ascending entries) :
    (keys entries).Pairwise (· < ·) :=
  List.pairwise_map.mpr h

section Order

variable [DecidableEq κ] [LT κ] {entries : Keyed κ α}

theorem ascending_erase (h : Ascending entries) (k : κ) : Ascending (erase entries k) :=
  h.filter _

variable [DecidableLT κ] [LE κ] [Std.IsLinearOrder κ] [Std.LawfulOrderLT κ]

theorem ascending_insert (h : Ascending entries) (k : κ) (v : α) :
    Ascending (insert entries k v) := by
  induction entries with
  | nil => exact List.pairwise_singleton _ _
  | cons first rest ih =>
    obtain ⟨key, value⟩ := first
    obtain ⟨hfirst, hrest⟩ := List.pairwise_cons.mp h
    unfold insert
    split
    · rename_i hlt
      refine List.pairwise_cons.mpr ⟨fun entry hmem => ?_, h⟩
      rcases List.mem_cons.mp hmem with heq | hmem
      · exact heq ▸ hlt
      · exact Std.lt_trans hlt (hfirst entry hmem)
    · split
      · rename_i heq
        subst heq
        exact List.pairwise_cons.mpr ⟨hfirst, hrest⟩
      · rename_i hlt hne
        refine List.pairwise_cons.mpr ⟨fun entry hmem => ?_, ih hrest⟩
        rcases mem_of_mem_insert hmem with heq | hmem
        · exact heq ▸ Std.lt_of_le_of_ne (Std.not_lt.mp hlt) hne
        · exact hfirst entry hmem

theorem ascending_ofList (pairs : List (κ × α)) : Ascending (ofList pairs) := by
  suffices h : ∀ entries : Keyed κ α, Ascending entries →
      Ascending (pairs.foldl (fun entries pair => insert entries pair.1 pair.2) entries) from
    h [] ascending_nil
  induction pairs with
  | nil => exact fun entries hentries => hentries
  | cons pair pairs ih =>
    exact fun entries hentries => ih _ (ascending_insert hentries pair.1 pair.2)

end Order

end Keyed

end LayeredConfig
