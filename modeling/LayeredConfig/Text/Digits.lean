/-!
# Digits

The characters that write numbers, in bases up to sixteen.
-/

namespace LayeredConfig.Text

def isDigit (c : Char) : Bool := decide ('0' ≤ c ∧ c ≤ '9')

def isHexDigit (c : Char) : Bool :=
  isDigit c || decide ('a' ≤ c ∧ c ≤ 'f') || decide ('A' ≤ c ∧ c ≤ 'F')

/-- The value of a digit, letters counting from ten. -/
def digitValue (c : Char) : Nat :=
  if isDigit c then c.toNat - '0'.toNat
  else if 'a' ≤ c ∧ c ≤ 'f' then c.toNat - 'a'.toNat + 10
  else c.toNat - 'A'.toNat + 10

def natOfDigits (base : Nat) (digits : List Char) : Nat :=
  digits.foldl (fun n c => n * base + digitValue c) 0

/-- Splits a plus or minus sign off, and tells whether the sign was a minus. -/
def splitSign : List Char → Bool × List Char
  | '+' :: rest => (false, rest)
  | '-' :: rest => (true, rest)
  | cs => (false, cs)

theorem digitValue_digitChar {d : Nat} (h : d < 16) : digitValue (Nat.digitChar d) = d := by
  have hall : ∀ d : Fin 16, digitValue (Nat.digitChar d) = d := by decide
  exact hall ⟨d, h⟩

theorem natOfDigits_append_singleton (base : Nat) (digits : List Char) (digit : Char) :
    natOfDigits base (digits ++ [digit]) = natOfDigits base digits * base + digitValue digit := by
  simp [natOfDigits]

/-- A character that is no digit is not among the digits of a number. -/
theorem not_mem_toDigits {base : Nat} (hbase : 1 < base) (hmax : base ≤ 16) {c : Char}
    (hc : ∀ d : Fin 16, Nat.digitChar d ≠ c) (n : Nat) : c ∉ Nat.toDigits base n := by
  induction n using Nat.base_induction base hbase with
  | single d hd =>
    rw [Nat.toDigits_of_lt_base hd, List.mem_singleton]
    exact (hc ⟨d, Nat.lt_of_lt_of_le hd hmax⟩).symm
  | digit n d hd hn ih =>
    rw [← Nat.toDigits_append_toDigits hbase hn hd, Nat.toDigits_of_lt_base hd, List.mem_append,
      List.mem_singleton, not_or]
    exact ⟨ih, (hc ⟨d, Nat.lt_of_lt_of_le hd hmax⟩).symm⟩

/-- The digits of a number in some base read back as the number. -/
theorem natOfDigits_toDigits {base : Nat} (hbase : 1 < base) (hmax : base ≤ 16) (n : Nat) :
    natOfDigits base (Nat.toDigits base n) = n := by
  induction n using Nat.base_induction base hbase with
  | single d hd =>
    rw [Nat.toDigits_of_lt_base hd]
    simp [natOfDigits, digitValue_digitChar (Nat.lt_of_lt_of_le hd hmax)]
  | digit n d hd hn ih =>
    rw [← Nat.toDigits_append_toDigits hbase hn hd, Nat.toDigits_of_lt_base hd,
      natOfDigits_append_singleton, ih, digitValue_digitChar (Nat.lt_of_lt_of_le hd hmax),
      Nat.mul_comm]

end LayeredConfig.Text
