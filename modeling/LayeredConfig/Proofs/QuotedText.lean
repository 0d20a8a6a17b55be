import LayeredConfig.Text.Digits
import LayeredConfig.Text.Quoted
import Mathlib.Data.List.Basic

/-!
# Quoted text determines the text

Escaped text can be read back one character at a time: what stands after a backslash tells how long
the escape is, and no other character is written with a backslash in front. Different texts are
therefore never shown alike.
-/

namespace LayeredConfig.Text

theorem closing_not_mem_toDigits (n : Nat) : '\x7d' ∉ Nat.toDigits 16 n :=
  not_mem_toDigits (by decide) (by decide) (by decide) n

/-- The character that a letter after a backslash stands for. -/
def controlOf (letter : Char) : Char :=
  if letter = 'n' then '\n'
  else if letter = 'r' then '\r'
  else if letter = 't' then '\t'
  else if letter = '0' then '\x00'
  else letter

/-- Reads the first character off escaped text, and leaves the rest. -/
def unescape : List Char → Option (Char × List Char)
  | '\\' :: 'u' :: rest =>
    let digits := rest.tail.takeWhile fun c => decide (c ≠ '\x7d')
    some (Char.ofNat (natOfDigits 16 digits), rest.drop (digits.length + 2))
  | '\\' :: letter :: rest => some (controlOf letter, rest)
  | c :: rest => some (c, rest)
  | [] => none

theorem unescape_codePoint (c : Char) (rest : List Char) :
    unescape (codePoint c ++ rest) = some (c, rest) := by
  have hdigits : (Nat.toDigits 16 c.toNat ++ '\x7d' :: rest).takeWhile
      (fun c => decide (c ≠ '\x7d')) = Nat.toDigits 16 c.toNat := by
    rw [List.takeWhile_append_of_pos]
    · simp
    · intro digit hdigit
      refine decide_eq_true fun heq => ?_
      exact closing_not_mem_toDigits _ (heq ▸ hdigit)
  simp only [codePoint, List.cons_append, List.append_assoc, List.nil_append, unescape,
    List.tail_cons, hdigits]
  simp [natOfDigits_toDigits]

theorem unescape_of_ne {c : Char} (h : c ≠ '\\') (rest : List Char) :
    unescape (c :: rest) = some (c, rest) := by
  unfold unescape
  split <;> simp_all

theorem unescape_escape (c : Char) (rest : List Char) :
    unescape (escape c ++ rest) = some (c, rest) := by
  by_cases hshort : c ∈ ['"', '\\', '\n', '\r', '\t', '\x00']
  · revert c
    simp only [List.forall_mem_cons]
    exact ⟨rfl, rfl, rfl, rfl, rfl, rfl, by simp⟩
  · simp only [List.mem_cons, List.not_mem_nil, not_or] at hshort
    obtain ⟨hquote, hbackslash, hn, hr, ht, hnull, -⟩ := hshort
    simp only [escape, hquote, hbackslash, hn, hr, ht, hnull, if_false]
    split
    · exact unescape_codePoint c rest
    · exact unescape_of_ne hbackslash rest

theorem flatMap_escape_injective :
    Function.Injective fun chars : List Char => chars.flatMap escape := by
  intro chars others h
  simp only at h
  induction chars generalizing others with
  | nil =>
    cases others with
    | nil => rfl
    | cons d others =>
      have hread := unescape_escape d (others.flatMap escape)
      rw [← List.flatMap_cons, ← h] at hread
      cases hread
  | cons c chars ih =>
    have hread := unescape_escape c (chars.flatMap escape)
    rw [← List.flatMap_cons, h] at hread
    cases others with
    | nil => cases hread
    | cons d others =>
      rw [List.flatMap_cons, unescape_escape] at hread
      obtain ⟨rfl, hrest⟩ := Prod.mk.inj (Option.some.inj hread)
      rw [ih hrest.symm]

theorem quoted_injective : Function.Injective quoted := by
  intro text other h
  have hchars := congrArg String.toList h
  simp only [quoted, String.toList_ofList, List.cons_append, List.cons.injEq, true_and,
    List.append_cancel_right_eq] at hchars
  exact String.toList_inj.mp (flatMap_escape_injective hchars)

end LayeredConfig.Text
