import LayeredConfig.Text.Utf8
import Mathlib.Data.List.Basic

/-!
# Lossy decoding

Lossy decoding agrees with strict decoding wherever that succeeds: it reads well-formed bytes as the
text that they encode. The narrower ranges that some first bytes leave for the second one hold for
every character, as none is a surrogate, is written in a longer form than needed, or lies above the
last code point.
-/

namespace LayeredConfig.Utf8

theorem toNat_ofNat_of_lt {n : Nat} (h : n < 256) : (UInt8.ofNat n).toNat = n := Nat.mod_eq_of_lt h

/-- The byte `first` begins a character that may go on with the byte `next`. After that, `owed` more
are due, and `bits` are read. -/
def Opens (first next owed bits : Nat) : Prop :=
  ∃ part : Partial, start (UInt8.ofNat first) = .part part ∧ part.owed = owed ∧ part.bits = bits
    ∧ part.least.toNat ≤ next ∧ next ≤ part.greatest.toNat

theorem lossyChars_step {part : Partial} {n : Nat} (hn : n < 256) (hleast : part.least.toNat ≤ n)
    (hgreatest : n ≤ part.greatest.toNat) (rest : Bytes) :
    lossyChars (some part) (UInt8.ofNat n :: rest)
      = match part.owed with
        | 0 => Char.ofNat (part.bits * 64 + (n - 0x80)) :: lossyChars none rest
        | owed + 1 => lossyChars (some ⟨owed, 0x80, 0xBF, part.bits * 64 + (n - 0x80)⟩) rest := by
  have hrange : part.least ≤ UInt8.ofNat n ∧ UInt8.ofNat n ≤ part.greatest := by
    simp only [UInt8.le_iff_toNat_le, toNat_ofNat_of_lt hn]
    exact ⟨hleast, hgreatest⟩
  have hstep : lossyChars (some part) (UInt8.ofNat n :: rest)
      = match part.owed with
        | 0 => Char.ofNat (part.bits * 64 + ((UInt8.ofNat n).toNat - 0x80)) :: lossyChars none rest
        | owed + 1 => lossyChars
            (some ⟨owed, 0x80, 0xBF, part.bits * 64 + ((UInt8.ofNat n).toNat - 0x80)⟩) rest :=
    if_pos hrange
  rw [hstep, toNat_ofNat_of_lt hn]

/-- Once it is open, the narrower range of the second byte makes no difference. -/
theorem lossyChars_of_opens {first next owed bits : Nat} (h : Opens first next owed bits)
    (hlow : 128 ≤ next) (hhigh : next ≤ 191) (rest : Bytes) :
    lossyChars none (UInt8.ofNat first :: UInt8.ofNat next :: rest)
      = lossyChars (some ⟨owed, 0x80, 0xBF, bits⟩) (UInt8.ofNat next :: rest) := by
  obtain ⟨part, hstart, rfl, rfl, hleast, hgreatest⟩ := h
  have hopen : lossyChars none (UInt8.ofNat first :: UInt8.ofNat next :: rest)
      = lossyChars (some part) (UInt8.ofNat next :: rest) := by
    simp only [lossyChars, hstart]
  rw [hopen, lossyChars_step (by omega) hleast hgreatest, lossyChars_step (by omega) hlow hhigh]

theorem lossyChars_last (bits n : Nat) (rest : Bytes) :
    lossyChars (some ⟨0, 0x80, 0xBF, bits⟩) (UInt8.ofNat (n % 64 + 128) :: rest)
      = Char.ofNat (bits * 64 + n % 64) :: lossyChars none rest := by
  have hrange : 128 ≤ n % 64 + 128 ∧ n % 64 + 128 ≤ 191 := by omega
  rw [lossyChars_step (by omega) hrange.1 hrange.2, Nat.add_sub_cancel]

theorem lossyChars_next (owed bits n : Nat) (rest : Bytes) :
    lossyChars (some ⟨owed + 1, 0x80, 0xBF, bits⟩) (UInt8.ofNat (n % 64 + 128) :: rest)
      = lossyChars (some ⟨owed, 0x80, 0xBF, bits * 64 + n % 64⟩) rest := by
  have hrange : 128 ≤ n % 64 + 128 ∧ n % 64 + 128 ≤ 191 := by omega
  rw [lossyChars_step (by omega) hrange.1 hrange.2, Nat.add_sub_cancel]

section Lengths

variable {v : Nat}

theorem opens_two (hlow : 0x80 ≤ v) (hhigh : v ≤ 0x7FF) :
    Opens (v / 64 % 32 + 192) (v % 64 + 128) 0 (v / 64) := by
  have hn : v / 64 % 32 + 192 < 256 := by omega
  refine ⟨⟨0, 0x80, 0xBF, v / 64⟩, ?_, rfl, rfl, ?_, ?_⟩
  · simp only [start, toNat_ofNat_of_lt hn]
    rw [if_neg (by omega), if_neg (by omega), if_pos (by omega),
      show v / 64 % 32 + 192 - 0xC0 = v / 64 by omega]
  · change 128 ≤ _
    omega
  · change _ ≤ 191
    omega

theorem opens_three (hvalid : v < 0xD800 ∨ 0xDFFF < v) (hlow : 0x800 ≤ v) (hhigh : v ≤ 0xFFFF) :
    Opens (v / 4096 % 16 + 224) (v / 64 % 64 + 128) 1 (v / 4096) := by
  have hn : v / 4096 % 16 + 224 < 256 := by omega
  unfold Opens
  simp only [start, toNat_ofNat_of_lt hn]
  rw [if_neg (by omega), if_neg (by omega), if_neg (by omega)]
  by_cases hfirst : v / 4096 = 0
  · rw [if_pos (by omega)]
    refine ⟨_, rfl, rfl, hfirst.symm, ?_, ?_⟩
    · change 160 ≤ _
      omega
    · change _ ≤ 191
      omega
  rw [if_neg (by omega)]
  by_cases hlast : v / 4096 = 13
  · rw [if_pos (by omega)]
    refine ⟨_, rfl, rfl, hlast.symm, ?_, ?_⟩
    · change 128 ≤ _
      omega
    · change _ ≤ 159
      omega
  · rw [if_neg (by omega), if_pos (by omega)]
    refine ⟨_, rfl, rfl, ?_, ?_, ?_⟩
    · change v / 4096 % 16 + 224 - 224 = _
      omega
    · change 128 ≤ _
      omega
    · change _ ≤ 191
      omega

theorem opens_four (hlow : 0x10000 ≤ v) (hhigh : v < 0x110000) :
    Opens (v / 262144 % 8 + 240) (v / 4096 % 64 + 128) 2 (v / 262144) := by
  have hn : v / 262144 % 8 + 240 < 256 := by omega
  unfold Opens
  simp only [start, toNat_ofNat_of_lt hn]
  rw [if_neg (by omega), if_neg (by omega), if_neg (by omega), if_neg (by omega),
    if_neg (by omega), if_neg (by omega)]
  by_cases hfirst : v / 262144 = 0
  · rw [if_pos (by omega)]
    refine ⟨_, rfl, rfl, hfirst.symm, ?_, ?_⟩
    · change 144 ≤ _
      omega
    · change _ ≤ 191
      omega
  rw [if_neg (by omega)]
  by_cases hlast : v / 262144 = 4
  · rw [if_neg (by omega), if_pos (by omega)]
    refine ⟨_, rfl, rfl, hlast.symm, ?_, ?_⟩
    · change 128 ≤ _
      omega
    · change _ ≤ 143
      omega
  · rw [if_pos (by omega)]
    refine ⟨_, rfl, rfl, ?_, ?_, ?_⟩
    · change v / 262144 % 8 + 240 - 240 = _
      omega
    · change 128 ≤ _
      omega
    · change _ ≤ 191
      omega

end Lengths

/-- The bytes of a character are read as the character. -/
theorem lossyChars_encodeChar (c : Char) (rest : Bytes) :
    lossyChars none (String.utf8EncodeChar c ++ rest) = c :: lossyChars none rest := by
  have hvalid : c.val.toNat < 0xD800 ∨ (0xDFFF < c.val.toNat ∧ c.val.toNat < 0x110000) := c.valid
  have hchar : Char.ofNat c.val.toNat = c := Char.ofNat_toNat c
  unfold String.utf8EncodeChar
  generalize c.val.toNat = v at hvalid hchar ⊢
  dsimp only
  split
  · have hstart : start (UInt8.ofNat v) = .whole (Char.ofNat v) := by
      simp only [start, toNat_ofNat_of_lt (show v < 256 by omega)]
      rw [if_pos (by omega)]
    simp only [List.singleton_append, lossyChars, hstart, hchar]
  split
  · have hbits : v / 64 * 64 + v % 64 = v := by omega
    simp only [List.cons_append, List.nil_append]
    rw [lossyChars_of_opens (opens_two (by omega) (by omega)) (by omega) (by omega),
      lossyChars_last, hbits, hchar]
  split
  · have hbits : (v / 4096 * 64 + v / 64 % 64) * 64 + v % 64 = v := by omega
    simp only [List.cons_append, List.nil_append]
    rw [lossyChars_of_opens (opens_three (by omega) (by omega) (by omega)) (by omega) (by omega),
      lossyChars_next, lossyChars_last, hbits, hchar]
  · have hbits : ((v / 262144 * 64 + v / 4096 % 64) * 64 + v / 64 % 64) * 64 + v % 64 = v := by
      omega
    simp only [List.cons_append, List.nil_append]
    rw [lossyChars_of_opens (opens_four (by omega) (by omega)) (by omega) (by omega),
      lossyChars_next, lossyChars_next, lossyChars_last, hbits, hchar]

theorem encode_eq_flatMap (text : String) :
    encode text = text.toList.flatMap String.utf8EncodeChar := by
  rw [encode, String.toUTF8, ← String.utf8Encode_toList, List.utf8Encode]
  simp

theorem decodeLossy_encode (text : String) : decodeLossy (encode text) = text := by
  rw [decodeLossy, encode_eq_flatMap, ← String.toList_inj, String.toList_ofList]
  induction text.toList with
  | nil => rfl
  | cons c cs ih => rw [List.flatMap_cons, lossyChars_encodeChar, ih]

/-- The lossy text of well-formed bytes is their text. -/
theorem decodeLossy_of_decode? {bytes : Bytes} {text : String} (h : decode? bytes = some text) :
    decodeLossy bytes = text := by
  rw [decode?_eq_some_iff.mp h, decodeLossy_encode]

end LayeredConfig.Utf8
