import LayeredConfig.KeyPath
import Mathlib.Data.List.Infix

/-!
# Segments of dotted paths

A dotted path is determined by the segments between its dots, and one path lies below another if and
only if it has more segments. Joining keys and splitting at the dots undo each other for plain keys,
those that hold no dot and are not empty. For other keys they do not: the path of a node can then
read like the path of a different one.
-/

namespace LayeredConfig.KeyPath

/-- What stands between the dots of a path. -/
def segments (path : String) : List String :=
  (path.toList.splitOn '.').map String.ofList

/-- A key that takes up exactly one segment of a path. -/
def Plain (key : String) : Prop := key ≠ "" ∧ '.' ∉ key.toList

instance (key : String) : Decidable (Plain key) := inferInstanceAs (Decidable (_ ∧ _))

theorem segments_ne_nil (path : String) : segments path ≠ [] := by
  simp [segments]

theorem intercalate_segments (path : String) : String.intercalate "." (segments path) = path := by
  rw [← String.toList_inj, String.toList_intercalate, segments, List.map_map]
  have hmap : (path.toList.splitOn '.').map (String.toList ∘ String.ofList)
      = path.toList.splitOn '.' := by
    rw [show String.toList ∘ String.ofList = id from funext fun cs => String.toList_ofList]
    exact List.map_id _
  rw [hmap]
  exact List.intercalate_splitOn '.'

theorem segments_injective : Function.Injective segments := by
  intro path other h
  rw [← intercalate_segments path, h, intercalate_segments]

theorem segments_of_not_mem {key : String} (h : '.' ∉ key.toList) : segments key = [key] := by
  simp [segments, List.splitOn_eq_singleton h]

theorem segments_append_dot (path key : String) :
    segments (path ++ "." ++ key) = segments path ++ segments key := by
  have hchars : (path ++ "." ++ key).toList = path.toList ++ '.' :: key.toList := by simp
  rw [segments, hchars, List.splitOn_append_cons_self, List.map_append]
  rfl

theorem segments_intercalate {keys : List String} (h : keys ≠ []) :
    segments (String.intercalate "." keys) = keys.flatMap segments := by
  induction keys with
  | nil => exact absurd rfl h
  | cons key keys ih =>
    by_cases hkeys : keys = []
    · simp [hkeys]
    · rw [String.intercalate_cons_of_ne_nil hkeys, segments_append_dot, ih hkeys, List.flatMap_cons]

theorem join_empty (key : String) : join "" key = key := rfl

theorem join_of_ne {path : String} (h : path ≠ "") (key : String) :
    join path key = path ++ "." ++ key := if_neg h

theorem join_ne_empty {path : String} (h : path ≠ "") (key : String) : join path key ≠ "" := by
  rw [join_of_ne h, Ne, ← String.toList_inj]
  simp

theorem segments_join {path : String} (h : path ≠ "") (key : String) :
    segments (join path key) = segments path ++ segments key := by
  rw [join_of_ne h, segments_append_dot]

/-- A path lies below another one if and only if it has further segments. -/
theorem isBelow_iff {path above : String} :
    isBelow path above = true ↔ ∃ rest, rest ≠ [] ∧ segments path = segments above ++ rest := by
  rw [isBelow, List.isPrefixOf_iff_prefix]
  constructor
  · rintro ⟨tail, htail⟩
    refine ⟨segments (String.ofList tail), segments_ne_nil _, ?_⟩
    rw [← segments_append_dot]
    congr 1
    rw [← String.toList_inj, ← htail]
    simp
  · rintro ⟨rest, hrest, hsegments⟩
    refine ⟨(String.intercalate "." rest).toList, ?_⟩
    have hpath : path = above ++ "." ++ String.intercalate "." rest := by
      calc path = String.intercalate "." (segments above ++ rest) := by
            rw [← hsegments, intercalate_segments]
        _ = String.intercalate "." (segments above) ++ "." ++ String.intercalate "." rest :=
            String.intercalate_append_of_ne_nil (segments_ne_nil above) hrest
        _ = above ++ "." ++ String.intercalate "." rest := by rw [intercalate_segments]
    rw [hpath, String.toList_append, String.toList_append, String.toList_append]

theorem isBelow_trans {path between above : String} (h : isBelow path between = true)
    (habove : isBelow between above = true) : isBelow path above = true := by
  obtain ⟨rest, -, hrest⟩ := isBelow_iff.mp h
  obtain ⟨upper, hupper, hbetween⟩ := isBelow_iff.mp habove
  have hsegments : segments path = segments above ++ (upper ++ rest) := by
    rw [hrest, hbetween, List.append_assoc]
  exact isBelow_iff.mpr ⟨upper ++ rest, by simp [hupper], hsegments⟩

theorem not_isBelow_self (path : String) : isBelow path path = false := by
  rw [Bool.eq_false_iff]
  intro h
  obtain ⟨rest, hrest, hsegments⟩ := isBelow_iff.mp h
  simp [hrest] at hsegments

theorem not_isBelow_empty (above : String) : isBelow "" above = false := by
  rw [Bool.eq_false_iff]
  intro h
  obtain ⟨tail, htail⟩ := List.isPrefixOf_iff_prefix.mp h
  simp at htail

theorem isBelow_join {path : String} (h : path ≠ "") (key : String) :
    isBelow (join path key) path = true :=
  isBelow_iff.mpr ⟨segments key, segments_ne_nil key, segments_join h key⟩

/-! ### Key paths from a given place on -/

/-- The dotted path that keys lead to from the path `above`. -/
def place (above : String) (keys : List String) : String := keys.foldl join above

theorem dotted_eq_place (keys : List String) : dotted keys = place "" keys := rfl

@[simp] theorem place_nil (above : String) : place above [] = above := rfl

@[simp] theorem place_cons (above key : String) (keys : List String) :
    place above (key :: keys) = place (join above key) keys := rfl

theorem isBelow_place {above : String} (h : above ≠ "") (key : String) (keys : List String) :
    isBelow (place above (key :: keys)) above = true := by
  induction keys generalizing above key with
  | nil => exact isBelow_join h key
  | cons next keys ih => exact isBelow_trans (ih (join_ne_empty h key) next) (isBelow_join h key)

theorem segments_place {above : String} (habove : above ≠ "") {keys : List String}
    (hkeys : ∀ key ∈ keys, Plain key) : segments (place above keys) = segments above ++ keys := by
  induction keys generalizing above with
  | nil => simp
  | cons key keys ih =>
    obtain ⟨hkey, hrest⟩ := List.forall_mem_cons.mp hkeys
    calc segments (place (join above key) keys)
        = segments (join above key) ++ keys := ih (join_ne_empty habove key) hrest
      _ = segments above ++ segments key ++ keys := by rw [segments_join habove]
      _ = segments above ++ key :: keys := by
          rw [segments_of_not_mem hkey.2, List.append_assoc, List.singleton_append]

theorem segments_dotted {keys : List String} (hne : keys ≠ []) (hkeys : ∀ key ∈ keys, Plain key) :
    segments (dotted keys) = keys := by
  obtain ⟨key, keys, rfl⟩ := List.exists_cons_of_ne_nil hne
  obtain ⟨hkey, hrest⟩ := List.forall_mem_cons.mp hkeys
  calc segments (dotted (key :: keys))
      = segments (place key keys) := by rw [dotted_eq_place, place_cons, join_empty]
    _ = segments key ++ keys := segments_place hkey.1 hrest
    _ = key :: keys := by rw [segments_of_not_mem hkey.2, List.singleton_append]

theorem dotted_ne_empty {keys : List String} (hne : keys ≠ []) (hkeys : ∀ key ∈ keys, Plain key) :
    dotted keys ≠ "" := by
  intro hempty
  have hsegments := segments_dotted hne hkeys
  rw [hempty] at hsegments
  exact (hkeys "" (hsegments ▸ List.mem_cons_self)).1 rfl

theorem head_eq_empty_of_dotted {key : String} {keys : List String}
    (h : dotted (key :: keys) = "") : key = "" := by
  by_contra hkey
  cases keys with
  | nil => exact hkey h
  | cons next keys =>
    have hbelow := isBelow_place hkey next keys
    rw [dotted_eq_place, place_cons, join_empty] at h
    rw [h, not_isBelow_empty] at hbelow
    simp at hbelow

theorem segments_dotted_concat {above : List String} (habove : ∀ key ∈ above, Plain key)
    {key : String} (hkey : '.' ∉ key.toList) :
    segments (dotted (above ++ [key])) = above ++ [key] := by
  have hjoin : dotted (above ++ [key]) = join (dotted above) key := by simp [dotted]
  rw [hjoin]
  by_cases hne : above = []
  · subst hne
    exact segments_of_not_mem hkey
  · rw [segments_join (dotted_ne_empty hne habove), segments_dotted hne habove,
      segments_of_not_mem hkey]

theorem isBelow_dotted_append {above : List String} (h : dotted above ≠ "") (key : String)
    (below : List String) : isBelow (dotted (above ++ key :: below)) (dotted above) = true := by
  have happend : dotted (above ++ key :: below) = place (dotted above) (key :: below) := by
    rw [dotted, List.foldl_append]
    rfl
  rw [happend]
  exact isBelow_place h key below

/-- The key path leaves the root by a key with characters. Then it is not written like the root, and
no part of the way to it is. -/
def Anchored (keys : List String) : Prop := ∃ key rest, keys = key :: rest ∧ key ≠ ""

namespace Anchored

variable {keys route : List String}

theorem of_plain (hne : keys ≠ []) (hplain : ∀ key ∈ keys, Plain key) : Anchored keys := by
  obtain ⟨key, rest, rfl⟩ := List.exists_cons_of_ne_nil hne
  exact ⟨key, rest, rfl, (hplain key List.mem_cons_self).1⟩

theorem dotted_ne_empty (h : Anchored keys) : dotted keys ≠ "" := by
  obtain ⟨key, rest, rfl, hkey⟩ := h
  exact fun hempty => hkey (head_eq_empty_of_dotted hempty)

theorem of_initial (h : Anchored keys) (hinitial : route <+: keys) (hroute : route ≠ []) :
    Anchored route := by
  obtain ⟨key, rest, rfl, hkey⟩ := h
  obtain ⟨first, further, rfl⟩ := List.exists_cons_of_ne_nil hroute
  exact ⟨first, further, rfl, (List.cons_prefix_cons.mp hinitial).1 ▸ hkey⟩

theorem isBelow_of_initial (h : Anchored keys) (hinitial : route <+: keys) (hroute : route ≠ [])
    (hne : route ≠ keys) : isBelow (dotted keys) (dotted route) = true := by
  have hanchored := h.of_initial hinitial hroute
  obtain ⟨rest, rfl⟩ := hinitial
  cases rest with
  | nil => simp at hne
  | cons key rest => exact isBelow_dotted_append hanchored.dotted_ne_empty key rest

theorem eq_of_dotted_eq (h : Anchored keys) (hinitial : route <+: keys)
    (heq : dotted route = dotted keys) : route = keys := by
  by_contra hne
  have hroute : route ≠ [] := by
    rintro rfl
    exact h.dotted_ne_empty heq.symm
  have hbelow := h.isBelow_of_initial hinitial hroute hne
  rw [heq, not_isBelow_self] at hbelow
  simp at hbelow

end Anchored

/-! ### Ancestors -/

theorem cuts_append_cons (separator : Char) (chars rest : List Char) :
    cuts separator (chars ++ separator :: rest)
      = cuts separator chars ++ (cuts separator rest).map fun cut => chars ++ separator :: cut := by
  induction chars with
  | nil => simp [cuts]
  | cons c chars ih =>
    rw [List.cons_append, cuts, cuts, ih]
    split <;> simp

theorem cuts_eq_append_self (separator : Char) (chars : List Char) :
    ∃ shorter, cuts separator chars = shorter ++ [chars] := by
  induction chars with
  | nil => exact ⟨[], rfl⟩
  | cons c chars ih =>
    obtain ⟨shorter, hshorter⟩ := ih
    rw [cuts, hshorter]
    split
    · exact ⟨[] :: shorter.map (c :: ·), by simp⟩
    · exact ⟨shorter.map (c :: ·), by simp⟩

/-- A path is the first of its own ancestors. -/
theorem ancestors_eq_cons (path : String) : ∃ above, ancestors path = path :: above := by
  obtain ⟨shorter, hshorter⟩ := cuts_eq_append_self '.' path.toList
  refine ⟨shorter.reverse.map String.ofList, ?_⟩
  rw [ancestors, hshorter]
  simp

/-- The ancestors of a path below another one are paths below that one, and then the ancestors of
that one. -/
theorem ancestors_of_isBelow {path above : String} (h : isBelow path above = true) :
    ∃ between, ancestors path = between ++ ancestors above
      ∧ ∀ other ∈ between, isBelow other above = true := by
  rw [isBelow, List.isPrefixOf_iff_prefix] at h
  obtain ⟨tail, htail⟩ := h
  have hchars : path.toList = above.toList ++ '.' :: tail := by
    rw [← htail]
    simp
  refine ⟨((cuts '.' tail).map fun cut => above.toList ++ '.' :: cut).reverse.map String.ofList,
    ?_, ?_⟩
  · rw [ancestors, hchars, cuts_append_cons, List.reverse_append, List.map_append]
    rfl
  · intro other hother
    obtain ⟨chars, hchars, rfl⟩ := List.mem_map.mp hother
    obtain ⟨cut, -, rfl⟩ := List.mem_map.mp (List.mem_reverse.mp hchars)
    rw [isBelow, List.isPrefixOf_iff_prefix]
    exact ⟨cut, by simp⟩

theorem eq_or_append_of_mem_cuts {separator : Char} {chars cut : List Char}
    (h : cut ∈ cuts separator chars) : cut = chars ∨ ∃ tail, chars = cut ++ separator :: tail := by
  induction chars generalizing cut with
  | nil => exact Or.inl (List.mem_singleton.mp h)
  | cons c chars ih =>
    rw [cuts] at h
    have hlonger : cut ∈ (cuts separator chars).map (c :: ·) →
        cut = c :: chars ∨ ∃ tail, c :: chars = cut ++ separator :: tail := by
      intro hmem
      obtain ⟨shorter, hshorter, rfl⟩ := List.mem_map.mp hmem
      rcases ih hshorter with rfl | ⟨tail, rfl⟩
      · exact Or.inl rfl
      · exact Or.inr ⟨tail, rfl⟩
    split at h
    · rename_i hc
      rcases List.mem_cons.mp h with rfl | hmem
      · exact Or.inr ⟨chars, by rw [hc]; rfl⟩
      · exact hlonger hmem
    · exact hlonger h

/-- An ancestor of a path is the path or has it below. -/
theorem eq_or_isBelow_of_mem_ancestors {path other : String} (h : other ∈ ancestors path) :
    other = path ∨ isBelow path other = true := by
  obtain ⟨cut, hcut, rfl⟩ := List.mem_map.mp h
  rcases eq_or_append_of_mem_cuts (List.mem_reverse.mp hcut) with rfl | ⟨tail, htail⟩
  · exact Or.inl (String.ofList_toList)
  · right
    rw [isBelow, List.isPrefixOf_iff_prefix]
    exact ⟨tail, by simp [htail]⟩

/-- Nothing is above the root. -/
theorem eq_nil_of_ancestors_eq_append {path : String} {longer shorter : List String}
    (h : ancestors path = longer ++ "" :: shorter) : shorter = [] := by
  have hroot : "" ∈ ancestors path := by simp [h]
  obtain ⟨between, hbetween, hempty⟩ :
      ∃ between, ancestors path = between ++ [""] ∧ "" ∉ between := by
    rcases eq_or_isBelow_of_mem_ancestors hroot with rfl | hbelow
    · exact ⟨[], rfl, by simp⟩
    · obtain ⟨between, hbetween, hother⟩ := ancestors_of_isBelow hbelow
      refine ⟨between, hbetween, fun hmem => ?_⟩
      simpa [not_isBelow_self] using hother _ hmem
  rw [hbetween] at h
  rcases List.append_eq_append_iff.mp h with ⟨rest, -, hrest⟩ | ⟨rest, rfl, hrest⟩
  · cases rest with
    | nil => simpa using hrest
    | cons first rest => simp at hrest
  · cases rest with
    | nil => simpa using hrest
    | cons first rest =>
      obtain ⟨rfl, -⟩ := List.cons.inj hrest
      simp at hempty

theorem empty_not_mem_ancestors {keys : List String} (hne : keys ≠ [])
    (hplain : ∀ key ∈ keys, Plain key) : "" ∉ ancestors (dotted keys) := by
  intro hmem
  rcases eq_or_isBelow_of_mem_ancestors hmem with heq | hbelow
  · exact dotted_ne_empty hne hplain heq.symm
  · obtain ⟨rest, -, hrest⟩ := isBelow_iff.mp hbelow
    rw [segments_dotted hne hplain] at hrest
    have hkey : "" ∈ keys := by
      rw [hrest]
      exact List.mem_cons_self
    exact (hplain "" hkey).1 rfl

end LayeredConfig.KeyPath
