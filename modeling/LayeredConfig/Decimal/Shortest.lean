/-!
# Shortest decimals

The decimal with the fewest digits that rounds to a given double, and among those of that length
the one nearest to it. The search is in exact arithmetic on natural numbers: a double is a
mantissa times a power of two, and the numbers that round to it lie within half a gap to its
neighbours, ends included when the mantissa is even.
-/

namespace LayeredConfig

structure Decimal where
  coefficient : Nat
  exponent : Int
deriving DecidableEq, Inhabited

namespace Decimal

/-- The parts of a double: its sign, the biased exponent and the stored fraction. -/
structure Fields where
  negative : Bool
  exponent : Nat
  fraction : Nat

def fields (x : Float) : Fields :=
  let bits := x.toBits.toNat
  ⟨decide (Nat.pow 2 63 ≤ bits), bits / Nat.pow 2 52 % Nat.pow 2 11, bits % Nat.pow 2 52⟩

def finite (x : Float) : Bool :=
  decide ((fields x).exponent ≠ 0x7FF)

/-- A positive number and the ends of the range that rounds to it, as numerators over one
denominator. -/
structure Span where
  low : Nat
  value : Nat
  high : Nat
  denominator : Nat
  closed : Bool

/-- The span of a finite double without its sign. Below a power of two the gap is half as wide,
except at the bottom of the range. -/
def span (parts : Fields) : Span :=
  let mantissa := if parts.exponent = 0 then parts.fraction else Nat.pow 2 52 + parts.fraction
  let scale : Int := (if parts.exponent = 0 then 1 else parts.exponent) - 1075
  let quarter := Nat.pow 2 scale.toNat
  let below := if parts.fraction = 0 ∧ 1 < parts.exponent then 1 else 2
  { low := (4 * mantissa - below) * quarter
    value := 4 * mantissa * quarter
    high := (4 * mantissa + 2) * quarter
    denominator := 4 * Nat.pow 2 (-scale).toNat
    closed := mantissa % 2 = 0 }

def digitCount (n : Nat) : Nat :=
  (Nat.toDigits 10 n).length

/-- The exponent of the first digit of `a / b`, for positive `a` and `b`. -/
def leadingExponent (a b : Nat) : Int :=
  let guess : Int := digitCount a - digitCount b
  if b * Nat.pow 10 guess.toNat ≤ a * Nat.pow 10 (-guess).toNat then guess else guess - 1

/-- The multiple of `10 ^ exponent` that lies in the span next to its value: the nearer of two, and
of two equally near the even one. -/
def Span.onGrid? (s : Span) (exponent : Int) : Option Nat :=
  let up := Nat.pow 10 (-exponent).toNat
  let unit := s.denominator * Nat.pow 10 exponent.toNat
  let inside (n : Nat) : Bool :=
    if s.closed then s.low * up ≤ n * unit ∧ n * unit ≤ s.high * up
    else s.low * up < n * unit ∧ n * unit < s.high * up
  let floor := s.value * up / unit
  let rest := s.value * up % unit
  match inside floor, inside (floor + 1) with
  | true, true =>
    if 2 * rest < unit ∨ (2 * rest = unit ∧ floor % 2 = 0) then some floor else some (floor + 1)
  | true, false => some floor
  | false, true => some (floor + 1)
  | false, false => none

/-- Without zeros at the end of the coefficient. At most `fuel` are dropped. -/
def trim : Nat → Decimal → Decimal
  | 0, d => d
  | fuel + 1, d =>
    if d.coefficient ≠ 0 ∧ d.coefficient % 10 = 0 then
      trim fuel ⟨d.coefficient / 10, d.exponent + 1⟩
    else d

/-- The shortest decimal for a finite double without its sign. Seventeen digits always suffice. -/
def shortest (x : Float) : Decimal :=
  let s := span (fields x)
  if s.value = 0 then ⟨0, 0⟩
  else
    let top := leadingExponent s.value s.denominator
    let found := (List.range 17).findSome? fun (more : Nat) =>
      let exponent : Int := top - more
      (s.onGrid? exponent).map fun n => (⟨n, exponent⟩ : Decimal)
    trim 17 (found.getD ⟨0, 0⟩)

end Decimal

end LayeredConfig
