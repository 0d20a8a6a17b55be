import LayeredConfig.Text.Digits
import LayeredConfig.Toml.Reading

/-!
# Dates and times

The four TOML forms: a date, a time of day, both, and both with an offset from universal time.
The first separator decides what is read: after a year and a hyphen only a date can follow, after
an hour and a colon only a time.
-/

namespace LayeredConfig.Toml

open Text (isDigit natOfDigits)

structure Date where
  year : Nat
  month : Nat
  day : Nat
deriving DecidableEq, Inhabited

/-- A time of day, to the nanosecond. A leap second may be written. -/
structure Time where
  hour : Nat
  minute : Nat
  second : Nat
  nanosecond : Nat
deriving DecidableEq, Inhabited

inductive Offset where
  | universal
  | shifted (behind : Bool) (hours minutes : Nat)
deriving DecidableEq, Inhabited

inductive DateTime where
  | localDate (date : Date)
  | localTime (time : Time)
  | localDateTime (date : Date) (time : Time)
  | offsetDateTime (date : Date) (time : Time) (offset : Offset)
deriving DecidableEq, Inhabited

namespace Date

def isLeapYear (year : Nat) : Bool :=
  decide (year % 4 = 0 ∧ (year % 100 ≠ 0 ∨ year % 400 = 0))

def daysInMonth (year month : Nat) : Nat :=
  if month = 2 then (if isLeapYear year then 29 else 28)
  else if month = 4 ∨ month = 6 ∨ month = 9 ∨ month = 11 then 30
  else 31

end Date

def fixedWidth? (width : Nat) (cs : List Char) : Option (Taken Nat) :=
  let digits := cs.take width
  if digits.length = width ∧ digits.all isDigit then some (natOfDigits 10 digits, cs.drop width)
  else none

def twoDigits (least greatest : Nat) : Reader Nat := fun cs =>
  match fixedWidth? 2 cs with
  | some (n, rest) => if least ≤ n ∧ n ≤ greatest then .ok (n, rest) else stop cs
  | none => stop cs

def date : Attempt Date := fun cs => do
  match fixedWidth? 4 cs with
  | some (year, '-' :: rest) =>
    let (month, rest) ← twoDigits 1 12 rest
    let (day, rest) ← twoDigits 1 (Date.daysInMonth year month) (← mark '-' rest)
    return some (⟨year, month, day⟩, rest)
  | _ => return none

/-- The nanoseconds of a fraction of a second. Digits beyond the ninth are dropped. -/
def nanoseconds (digits : List Char) : Nat :=
  let kept := digits.take 9
  natOfDigits 10 kept * Nat.pow 10 (9 - kept.length)

def fraction (cs : List Char) : Nat × List Char :=
  match cs with
  | '.' :: rest =>
    let digits := rest.takeWhile isDigit
    if digits = [] then (0, cs) else (nanoseconds digits, rest.dropWhile isDigit)
  | _ => (0, cs)

def time : Attempt Time := fun cs => do
  match fixedWidth? 2 cs with
  | some (hour, ':' :: rest) =>
    if 23 < hour then return none
    else
      let (minute, rest) ← twoDigits 0 59 rest
      let (second, rest) ← twoDigits 0 60 (← mark ':' rest)
      let (nanosecond, rest) := fraction rest
      return some (⟨hour, minute, second, nanosecond⟩, rest)
  | _ => return none

def offset : Attempt Offset
  | [] => .ok none
  | c :: rest =>
    if c = 'Z' ∨ c = 'z' then .ok (some (.universal, rest))
    else if c = '+' ∨ c = '-' then do
      let (hours, rest) ← twoDigits 0 23 rest
      let (minutes, rest) ← twoDigits 0 59 (← mark ':' rest)
      return some (.shifted (c = '-') hours minutes, rest)
    else .ok none

def timeAfterDate : Attempt Time
  | [] => .ok none
  | c :: rest => if c = 'T' ∨ c = 't' ∨ c = ' ' then time rest else .ok none

/-- The longest of the four forms that the text begins with. -/
def dateTime : Attempt DateTime := fun cs => do
  match ← date cs with
  | none => return (← time cs).map fun (time, rest) => (.localTime time, rest)
  | some (date, afterDate) =>
    match ← timeAfterDate afterDate with
    | none => return some (.localDate date, afterDate)
    | some (time, afterTime) =>
      match ← offset afterTime with
      | none => return some (.localDateTime date time, afterTime)
      | some (offset, rest) => return some (.offsetDateTime date time offset, rest)

def DateTime.ofText? (text : String) : Option DateTime :=
  match dateTime text.toList with
  | .ok (some (moment, [])) => some moment
  | _ => none

def padded (width n : Nat) : List Char :=
  let digits := Nat.toDigits 10 n
  List.replicate (width - digits.length) '0' ++ digits

def Date.chars (date : Date) : List Char :=
  padded 4 date.year ++ '-' :: padded 2 date.month ++ '-' :: padded 2 date.day

/-- The fraction of a second is written without zeros at its end, and not at all if it is zero. -/
def Time.chars (time : Time) : List Char :=
  let fraction :=
    if time.nanosecond = 0 then []
    else '.' :: ((padded 9 time.nanosecond).reverse.dropWhile (· = '0')).reverse
  padded 2 time.hour ++ ':' :: padded 2 time.minute ++ ':' :: padded 2 time.second ++ fraction

/-- No offset at all is written as one ahead of universal time. -/
def Offset.chars : Offset → List Char
  | universal => ['Z']
  | shifted behind hours minutes =>
    let sign := if behind ∧ (hours ≠ 0 ∨ minutes ≠ 0) then '-' else '+'
    sign :: padded 2 hours ++ ':' :: padded 2 minutes

def DateTime.text : DateTime → String
  | localDate date => String.ofList date.chars
  | localTime time => String.ofList time.chars
  | localDateTime date time => String.ofList (date.chars ++ 'T' :: time.chars)
  | offsetDateTime date time offset =>
    String.ofList (date.chars ++ 'T' :: time.chars ++ offset.chars)

end LayeredConfig.Toml
