import LayeredConfig.Decimal.Shortest
import LayeredConfig.Text.Digits

/-!
# Reading decimals

Text to doubles. A decimal rounds to the nearest double, to even on a tie, and beyond the largest
to an infinity.
-/

namespace LayeredConfig.Decimal

open Text (isDigit natOfDigits splitSign)

def positiveInfinity : Float := Float.ofBits 0x7FF0000000000000

def notANumber : Float := Float.ofBits 0x7FF8000000000000

/-- The double nearest to a decimal. Powers of ten that no double comes near are not computed. -/
def toFloat (d : Decimal) : Float :=
  if d.coefficient = 0 then Float.ofBits 0
  else
    let size := d.exponent + digitCount d.coefficient
    if size > 400 then positiveInfinity
    else if size < -400 then Float.ofBits 0
    else if d.exponent < 0 then Float.ofScientific d.coefficient true d.exponent.natAbs
    else Float.ofScientific d.coefficient false d.exponent.natAbs

def withSign (negative : Bool) (x : Float) : Float :=
  if negative then -x else x

/-- The exponent after the mantissa: nothing, or a letter `e`, an optional sign and digits up to
the end. -/
def exponent? : List Char → Option Int
  | [] => some 0
  | c :: rest =>
    if c = 'e' ∨ c = 'E' then
      let (negative, digits) := splitSign rest
      if digits ≠ [] ∧ digits.all isDigit then
        let n : Int := natOfDigits 10 digits
        some (if negative then -n else n)
      else none
    else none

/-- An unsigned decimal with an optional point and exponent, a digit being required on either side
of the point. -/
def unsigned? (cs : List Char) : Option Decimal :=
  let whole := cs.takeWhile isDigit
  let afterWhole := cs.dropWhile isDigit
  let (fraction, tail) := match afterWhole with
    | '.' :: rest => (rest.takeWhile isDigit, rest.dropWhile isDigit)
    | _ => ([], afterWhole)
  if whole = [] ∧ fraction = [] then none
  else (exponent? tail).map fun e => ⟨natOfDigits 10 (whole ++ fraction), e - fraction.length⟩

/-- A double written as a decimal, or as `inf`, `infinity` or `nan` in any case, with an optional
sign. Blanks and separators between digits are refused. -/
def float? (text : String) : Option Float :=
  let (negative, body) := splitSign text.toList
  let lower := body.map Char.toLower
  if lower = "inf".toList ∨ lower = "infinity".toList then
    some (withSign negative positiveInfinity)
  else if lower = "nan".toList then some (withSign negative notANumber)
  else (unsigned? body).map fun d => withSign negative d.toFloat

end LayeredConfig.Decimal
