/-!
# Default ignorables

The characters with the Unicode property Default_Ignorable_Code_Point, which take no room of their
own in shown text. Those that extend graphemes or are unprintable in any case are left to the other
tables. What remains are the fillers of the Korean script, letters without a shape.
-/

namespace LayeredConfig.Text

/-- First and last code points of the ranges, ascending. -/
def defaultIgnorable : List (Nat × Nat) :=
  [(0x115F, 0x1160), (0x3164, 0x3164), (0xFFA0, 0xFFA0)]

end LayeredConfig.Text
