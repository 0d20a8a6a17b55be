import LayeredConfig.Decimal.Shortest

/-!
# Decimal layout

How the digits of a number are set out as text: positionally, always with a point, while the
exponent of the first digit lies within given limits, and otherwise in scientific form.
-/

namespace LayeredConfig.Decimal

/-- The exponents of the first digit for which a number is written positionally. -/
structure Layout where
  positional : Int → Bool

/-- Numbers in problem reports and in trees: positional from `0.00001` up to sixteen digits before
the point. -/
def Layout.compact : Layout := ⟨fun exponent => decide (-5 ≤ exponent ∧ exponent ≤ 15)⟩

def zeros (n : Nat) : List Char := List.replicate n '0'

def positionalChars (digits : List Char) (exponent : Int) : List Char :=
  if exponent < 0 then '0' :: '.' :: zeros (-exponent - 1).toNat ++ digits
  else
    let whole := exponent.toNat + 1
    if digits.length ≤ whole then digits ++ zeros (whole - digits.length) ++ ['.', '0']
    else digits.take whole ++ '.' :: digits.drop whole

/-- Digits with a point after the first if there are more, and the exponent with its sign. -/
def scientificChars (digits : List Char) (exponent : Int) : List Char :=
  let head := match digits with
    | first :: second :: rest => first :: '.' :: second :: rest
    | few => few
  let mark := if exponent < 0 then ['e', '-'] else ['e', '+']
  head ++ mark ++ Nat.toDigits 10 exponent.natAbs

def Layout.chars (layout : Layout) (d : Decimal) : List Char :=
  let digits := Nat.toDigits 10 d.coefficient
  let exponent : Int := d.exponent + digits.length - 1
  if layout.positional exponent then positionalChars digits exponent
  else scientificChars digits exponent

/-- The text of a double. A negative zero keeps its sign. -/
def Layout.text (layout : Layout) (x : Float) : String :=
  if finite x then
    let sign := if (fields x).negative then ['-'] else []
    String.ofList (sign ++ layout.chars (shortest x))
  else if (fields x).fraction ≠ 0 then "NaN"
  else if (fields x).negative then "-inf"
  else "inf"

end LayeredConfig.Decimal
