/-! Integers in decimal notation: the fewest digits, and a minus sign for negative numbers.
Main statements: the digits of a number read back (`value_digits`), so different numbers have
different digits (`digits_injective`), and all are ASCII digits (`isDigit_of_mem_digits`).
-/

namespace Firmware.Decimal

/-- The digits of a natural number. -/
def digits (n : Nat) : List Char := Nat.toDigits 10 n

/-- The digits of an integer, after a minus sign if it is negative. -/
def signed (n : Int) : List Char :=
  if n < 0 then '-' :: digits n.natAbs else digits n.natAbs

/-- The number that a run of digits stands for. -/
def value (digits : List Char) : Nat := Nat.ofDigitChars 10 digits 0

theorem value_digits (n : Nat) : value (digits n) = n :=
  Nat.ofDigitChars_toDigits (by decide) (by decide)

theorem digits_injective {m n : Nat} (same : digits m = digits n) : m = n := by
  rw [← value_digits m, same, value_digits]

theorem isDigit_of_mem_digits {n : Nat} {c : Char} (member : c ∈ digits n)
    : c.isDigit = true :=
  Nat.isDigit_of_mem_toDigits (by decide) (by decide) member

end Firmware.Decimal
