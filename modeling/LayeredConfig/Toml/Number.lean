import LayeredConfig.Decimal.Reading
import LayeredConfig.Toml.Value

/-!
# Numbers

Integers of 64 bits in four bases and floats, read from the front of a text. Single underscores may
part digits from each other. An underscore, a point or the letter of an exponent must be followed
by a digit, and a number too large is an error. What else follows the digits is left unread.
-/

namespace LayeredConfig.Toml

open Text (isDigit isHexDigit natOfDigits splitSign)

/-- Digits, with an underscore allowed before each, and what follows them. -/
def digitRun (accepts : Char → Bool) : Reader (List Char)
  | [] => .ok ([], [])
  | ['_'] => stop []
  | '_' :: digit :: rest =>
    if accepts digit then prepend digit (digitRun accepts rest) else stop (digit :: rest)
  | c :: rest => if accepts c then prepend c (digitRun accepts rest) else .ok ([], c :: rest)

def digits (accepts : Char → Bool) : Reader (List Char)
  | [] => stop []
  | c :: rest => if accepts c then prepend c (digitRun accepts rest) else stop (c :: rest)

/-- A decimal number without a zero in front of other digits. -/
def wholeDigits : Attempt (List Char)
  | [] => .ok none
  | '0' :: rest => .ok (some (['0'], rest))
  | c :: rest => if isDigit c then (digits isDigit (c :: rest)).map some else .ok none

/-- The number after the mark of a base. It has no sign and must fit in 63 bits. -/
def inBase (base : Nat) (accepts : Char → Bool) : Reader Scalar := fun cs => do
  let (digits, rest) ← digits accepts cs
  let n := natOfDigits base digits
  if n ≤ Int64.maxValue.toInt then return (.integer n, rest) else stop cs

/-- An exponent, which its letter announces and in which zeros may come first. -/
def exponent : Attempt Int
  | [] => .ok none
  | c :: rest =>
    if c = 'e' ∨ c = 'E' then do
      let (negative, body) := splitSign rest
      let (digits, left) ← digits isDigit body
      let n : Int := natOfDigits 10 digits
      return some (if negative then -n else n, left)
    else .ok none

def fractionAndExponent : Attempt (List Char × Int) := fun cs => do
  match cs with
  | '.' :: rest =>
    let (fraction, left) ← digits isDigit rest
    match ← exponent left with
    | some (e, left) => return some ((fraction, e), left)
    | none => return some ((fraction, 0), left)
  | _ => return (← exponent cs).map fun (e, left) => (([], e), left)

def integer? (negative : Bool) (whole : List Char) : Option Scalar :=
  let n : Int := natOfDigits 10 whole
  let signed := if negative then -n else n
  if Int64.minValue.toInt ≤ signed ∧ signed ≤ Int64.maxValue.toInt then some (.integer signed)
  else none

/-- The float of a sign, digits and an exponent. One too large in the positive direction is
none. -/
def float? (negative : Bool) (whole fraction : List Char) (e : Int) : Option Scalar :=
  let decimal : Decimal := ⟨natOfDigits 10 (whole ++ fraction), e - fraction.length⟩
  let x := Decimal.withSign negative decimal.toFloat
  if Decimal.finite x ∨ negative then some (.float x) else none

def specialFloat? (cs : List Char) : Option (Taken Scalar) :=
  match splitSign cs with
  | (negative, 'i' :: 'n' :: 'f' :: rest) =>
    some (.float (Decimal.withSign negative Decimal.positiveInfinity), rest)
  | (negative, 'n' :: 'a' :: 'n' :: rest) =>
    some (.float (Decimal.withSign negative Decimal.notANumber), rest)
  | _ => none

def decimal : Attempt Scalar := fun cs => do
  let (negative, body) := splitSign cs
  match ← wholeDigits body with
  | none => return specialFloat? cs
  | some (whole, rest) =>
    let (value?, left) ← match ← fractionAndExponent rest with
      | some ((fraction, e), left) => pure (float? negative whole fraction e, left)
      | none => pure (integer? negative whole, rest)
    match value? with
    | some value => return some (value, left)
    | none => stop cs

def number : Attempt Scalar
  | '0' :: 'x' :: rest => (inBase 16 isHexDigit rest).map some
  | '0' :: 'o' :: rest => (inBase 8 (fun c => decide ('0' ≤ c ∧ c ≤ '7')) rest).map some
  | '0' :: 'b' :: rest => (inBase 2 (fun c => decide (c = '0' ∨ c = '1')) rest).map some
  | cs => decimal cs

/-- A value that is neither a text nor made of other values. -/
def scalar : Attempt Scalar
  | 't' :: 'r' :: 'u' :: 'e' :: rest => .ok (some (.boolean true, rest))
  | 'f' :: 'a' :: 'l' :: 's' :: 'e' :: rest => .ok (some (.boolean false, rest))
  | cs => do
    match ← dateTime cs with
    | some (moment, rest) => return some (.dateTime moment, rest)
    | none => number cs

end LayeredConfig.Toml
