import LayeredConfig.Decimal.Layout
import LayeredConfig.KeyPath
import LayeredConfig.Schema.Violations
import LayeredConfig.Text.Digits
import Mathlib.Data.List.Basic
import Mathlib.Data.List.Induction

/-!
# Line feeds

A text that is put together from parts stays on one line if each part does. Numbers and quoted texts
always do, and so does what a report says of a value, whatever the value holds.
-/

namespace LayeredConfig

namespace Text

/-- What stands between the line feeds of a text. -/
def lines (text : String) : List String :=
  (text.toList.splitOn '\n').map String.ofList

/-- The text holds no line feed. -/
def OneLine (text : String) : Prop := '\n' ∉ text.toList

instance (text : String) : Decidable (OneLine text) := inferInstanceAs (Decidable (_ ∉ _))

theorem not_mem_of_mem_splitOn {separator : Char} {chars piece : List Char}
    (h : piece ∈ chars.splitOn separator) : separator ∉ piece := by
  induction chars generalizing piece with
  | nil => simp_all
  | cons c chars ih =>
    rw [List.splitOn_cons_eq_if_modifyHead] at h
    split at h
    · rcases List.mem_cons.mp h with rfl | hmem
      · exact List.not_mem_nil
      · exact ih hmem
    · rename_i hc
      obtain ⟨first, rest, hsplit⟩ :=
        List.exists_cons_of_ne_nil (List.splitOn_ne_nil separator chars)
      rw [hsplit, List.modifyHead_cons] at h
      rw [hsplit] at ih
      rcases List.mem_cons.mp h with rfl | hmem
      · have hne : separator ≠ c := fun heq => hc (by simp [heq])
        exact List.not_mem_cons_of_ne_of_not_mem hne (ih List.mem_cons_self)
      · exact ih (List.mem_cons_of_mem _ hmem)

theorem oneLine_of_mem_lines {text line : String} (h : line ∈ lines text) : OneLine line := by
  obtain ⟨piece, hpiece, rfl⟩ := List.mem_map.mp h
  rw [OneLine, String.toList_ofList]
  exact not_mem_of_mem_splitOn hpiece

/-- Texts of one line each, joined by line feeds, are the lines of the whole. -/
theorem lines_intercalate {texts : List String} (hne : texts ≠ [])
    (h : ∀ text ∈ texts, OneLine text) : lines (String.intercalate "\n" texts) = texts := by
  have hpieces : ∀ piece ∈ texts.map String.toList, '\n' ∉ piece := by
    intro piece hpiece
    obtain ⟨text, htext, rfl⟩ := List.mem_map.mp hpiece
    exact h text htext
  rw [lines, String.toList_intercalate]
  change (List.splitOn '\n' (['\n'].intercalate _)).map String.ofList = texts
  rw [List.splitOn_intercalate '\n' hpieces (by simpa using hne), List.map_map]
  simp

@[simp] theorem oneLine_append {text more : String} :
    OneLine (text ++ more) ↔ OneLine text ∧ OneLine more := by
  simp [OneLine, not_or]

@[simp] theorem oneLine_ofList {chars : List Char} :
    OneLine (String.ofList chars) ↔ '\n' ∉ chars := by
  simp [OneLine]

/-- A text that is written out is checked character by character. -/
theorem oneLine_written {chars : List Char} (h : (chars.all fun c => c ≠ '\n') = true) :
    OneLine (String.ofList chars) :=
  oneLine_ofList.mpr fun hfeed => by simpa using List.all_eq_true.mp h '\n' hfeed

/-! ### Numbers and quoted texts -/

theorem feed_not_mem_toDigits {base : Nat} (hbase : 1 < base) (hmax : base ≤ 16) (n : Nat) :
    '\n' ∉ Nat.toDigits base n :=
  not_mem_toDigits hbase hmax (by decide) n

theorem oneLine_natural (n : Nat) : OneLine (toString n) :=
  oneLine_ofList.mpr (feed_not_mem_toDigits (by decide) (by decide) n)

theorem oneLine_integer (n : Int) : OneLine (toString n) := by
  cases n with
  | ofNat n => exact oneLine_natural n
  | negSucc n => exact oneLine_append.mpr ⟨oneLine_written rfl, oneLine_natural (n + 1)⟩

theorem feed_not_mem_escape (c : Char) : '\n' ∉ escape c := by
  by_cases hshort : c ∈ ['"', '\\', '\n', '\r', '\t', '\x00']
  · revert c
    simp only [List.forall_mem_cons]
    exact ⟨by decide, by decide, by decide, by decide, by decide, by decide, by simp⟩
  · simp only [List.mem_cons, List.not_mem_nil, not_or] at hshort
    obtain ⟨hquote, hbackslash, hfeed, hr, ht, hnull, -⟩ := hshort
    simp only [escape, hquote, hbackslash, hfeed, hr, ht, hnull, if_false]
    split
    · simp [codePoint, feed_not_mem_toDigits]
    · simpa using Ne.symm hfeed

theorem oneLine_quoted (text : String) : OneLine (quoted text) := by
  have hquote : OneLine "\"" := oneLine_written rfl
  simp [quoted, hquote, feed_not_mem_escape]

end Text

namespace Decimal

variable {digits : List Char} (hdigits : '\n' ∉ digits)

include hdigits

theorem feed_not_mem_positionalChars (exponent : Int) :
    '\n' ∉ positionalChars digits exponent := by
  have htake (n : Nat) : '\n' ∉ digits.take n := fun h => hdigits (List.mem_of_mem_take h)
  have hdrop (n : Nat) : '\n' ∉ digits.drop n := fun h => hdigits (List.mem_of_mem_drop h)
  unfold positionalChars
  split
  · simp [zeros, hdigits]
  · simp only
    split
    · simp [zeros, hdigits]
    · simp [htake, hdrop]

theorem feed_not_mem_scientificChars (exponent : Int) :
    '\n' ∉ scientificChars digits exponent := by
  have hexponent := Text.feed_not_mem_toDigits (by decide : 1 < 10) (by decide) exponent.natAbs
  have hmark : '\n' ∉ if exponent < 0 then ['e', '-'] else ['e', '+'] := by
    split <;> decide
  unfold scientificChars
  rw [List.mem_append, List.mem_append, not_or, not_or]
  refine ⟨⟨?_, hmark⟩, hexponent⟩
  split
  · simpa using hdigits
  · exact hdigits

omit hdigits

theorem feed_not_mem_chars (layout : Layout) (d : Decimal) : '\n' ∉ layout.chars d := by
  have hdigits := Text.feed_not_mem_toDigits (by decide : 1 < 10) (by decide) d.coefficient
  unfold Layout.chars
  simp only
  split
  · exact feed_not_mem_positionalChars hdigits _
  · exact feed_not_mem_scientificChars hdigits _

theorem oneLine_text (layout : Layout) (x : Float) : Text.OneLine (layout.text x) := by
  have hsign : '\n' ∉ if (fields x).negative then ['-'] else [] := by
    split <;> decide
  unfold Layout.text
  split
  · simp [hsign, feed_not_mem_chars]
  split
  · exact Text.oneLine_written rfl
  · split <;> exact Text.oneLine_written rfl

end Decimal

/-- What a report says of a value is on one line. -/
theorem Tree.oneLine_describe (tree : Tree) : Text.OneLine tree.describe := by
  cases tree with
  | null => exact Text.oneLine_written rfl
  | bool flag => cases flag <;> exact Text.oneLine_written rfl
  | int n => exact Text.oneLine_append.mpr ⟨Text.oneLine_written rfl, Text.oneLine_integer n⟩
  | float x => exact Text.oneLine_append.mpr ⟨Text.oneLine_written rfl, Decimal.oneLine_text _ x⟩
  | string text =>
    exact Text.oneLine_append.mpr ⟨Text.oneLine_written rfl, Text.oneLine_quoted text⟩
  | array items => exact Text.oneLine_written rfl
  | table entries => exact Text.oneLine_written rfl

/-! ### Dotted paths -/

namespace KeyPath

theorem oneLine_join {path key : String} :
    Text.OneLine (join path key) ↔ Text.OneLine path ∧ Text.OneLine key := by
  have hdot : Text.OneLine "." := Text.oneLine_written rfl
  unfold join
  split
  · rename_i hempty
    have hpath : Text.OneLine path := hempty ▸ by decide
    simp [hpath]
  · simp [hdot]

theorem oneLine_dotted {keys : List String} :
    Text.OneLine (dotted keys) ↔ ∀ key ∈ keys, Text.OneLine key := by
  induction keys using List.reverseRecOn with
  | nil => simp [dotted, Text.OneLine]
  | append_singleton keys key ih =>
    rw [dotted, List.foldl_append]
    change Text.OneLine (join (dotted keys) key) ↔ _
    rw [oneLine_join, ih, List.forall_mem_append, List.forall_mem_singleton]

end KeyPath

end LayeredConfig
