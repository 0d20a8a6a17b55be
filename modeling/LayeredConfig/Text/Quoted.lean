import LayeredConfig.Text.DefaultIgnorable
import LayeredConfig.Text.GraphemeExtend
import LayeredConfig.Text.Unprintable

/-!
# Quoted text

Text between double quotes as problem reports show it. Quotes, backslashes and the common controls
are escaped by a letter, characters that would not show on their own by their code point in braces,
and everything else stands for itself. The result holds no line break, and it determines the text.
-/

namespace LayeredConfig.Text

def inRanges (ranges : List (Nat × Nat)) (c : Char) : Bool :=
  ranges.any fun range => decide (range.1 ≤ c.toNat ∧ c.toNat ≤ range.2)

/-- The character does not show when it stands alone. Between the space and the tilde all do. -/
def hidden (c : Char) : Bool :=
  if 0x20 ≤ c.toNat ∧ c.toNat < 0x7F then false
  else inRanges graphemeExtend c || inRanges defaultIgnorable c || inRanges unprintable c

/-- A code point in hexadecimal without leading zeros, between braces. -/
def codePoint (c : Char) : List Char :=
  '\\' :: 'u' :: '\x7b' :: Nat.toDigits 16 c.toNat ++ ['\x7d']

def escape (c : Char) : List Char :=
  if c = '"' then ['\\', '"']
  else if c = '\\' then ['\\', '\\']
  else if c = '\n' then ['\\', 'n']
  else if c = '\r' then ['\\', 'r']
  else if c = '\t' then ['\\', 't']
  else if c = '\x00' then ['\\', '0']
  else if hidden c then codePoint c
  else [c]

/-- The text in quotes, every character escaped where it needs to be. -/
def quoted (text : String) : String :=
  String.ofList ('"' :: text.toList.flatMap escape ++ ['"'])

end LayeredConfig.Text
