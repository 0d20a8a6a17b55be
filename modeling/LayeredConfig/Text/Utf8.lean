/-!
# UTF-8

Text as bytes and back. Strict decoding refuses bytes that are not well formed; lossy decoding
writes one replacement character for each longest run of bytes that begins a character and cannot
go on, and for each byte that begins none.
-/

namespace LayeredConfig

/-- A sequence of bytes that need not be text. -/
abbrev Bytes := List UInt8

namespace Utf8

def encode (text : String) : Bytes :=
  text.toUTF8.data.toList

/-- The text that the bytes encode, if they are well-formed UTF-8. -/
def decode? (bytes : Bytes) : Option String :=
  String.fromUTF8? ⟨bytes.toArray⟩

theorem decode?_encode (text : String) : decode? (encode text) = some text := by
  have bytes : (⟨(encode text).toArray⟩ : ByteArray) = text.toByteArray := by
    simp [encode]
  unfold decode? String.fromUTF8?
  rw [bytes, dif_pos text.isValidUTF8]
  rfl

theorem decode?_eq_some_iff {bytes : Bytes} {text : String} :
    decode? bytes = some text ↔ bytes = encode text := by
  refine ⟨fun h => ?_, fun h => h ▸ decode?_encode text⟩
  unfold decode? String.fromUTF8? at h
  split at h
  · obtain rfl := Option.some.inj h
    rfl
  · cases h

/-- A character of which the first bytes are read: how many are still owed after the next one, what
the next one must lie between, and the bits read so far. -/
structure Partial where
  owed : Nat
  least : UInt8
  greatest : UInt8
  bits : Nat

/-- What a byte begins when no character is under way. -/
inductive Start where
  | whole (char : Char)
  | part (pending : Partial)
  | stray

/-- The second byte of a character has a narrower range where the wider one would allow a longer
form than needed, a surrogate, or a code point above the last. -/
def start (byte : UInt8) : Start :=
  let n := byte.toNat
  if n ≤ 0x7F then .whole (Char.ofNat n)
  else if n < 0xC2 then .stray
  else if n ≤ 0xDF then .part ⟨0, 0x80, 0xBF, n - 0xC0⟩
  else if n = 0xE0 then .part ⟨1, 0xA0, 0xBF, 0⟩
  else if n = 0xED then .part ⟨1, 0x80, 0x9F, 0xD⟩
  else if n ≤ 0xEF then .part ⟨1, 0x80, 0xBF, n - 0xE0⟩
  else if n = 0xF0 then .part ⟨2, 0x90, 0xBF, 0⟩
  else if n ≤ 0xF3 then .part ⟨2, 0x80, 0xBF, n - 0xF0⟩
  else if n = 0xF4 then .part ⟨2, 0x80, 0x8F, 4⟩
  else .stray

def replacement : Char := '\uFFFD'

def lossyChars : Option Partial → Bytes → List Char
  | none, [] => []
  | some _, [] => [replacement]
  | pending, byte :: rest =>
    let fresh : List Char :=
      match start byte with
      | .whole char => char :: lossyChars none rest
      | .part opened => lossyChars (some opened) rest
      | .stray => replacement :: lossyChars none rest
    match pending with
    | none => fresh
    | some part =>
      if part.least ≤ byte ∧ byte ≤ part.greatest then
        let bits := part.bits * 64 + (byte.toNat - 0x80)
        match part.owed with
        | 0 => Char.ofNat bits :: lossyChars none rest
        | owed + 1 => lossyChars (some ⟨owed, 0x80, 0xBF, bits⟩) rest
      else replacement :: fresh

/-- The text of a byte sequence, with replacement characters where it is not well formed. -/
def decodeLossy (bytes : Bytes) : String :=
  String.ofList (lossyChars none bytes)

end Utf8

end LayeredConfig
