/-!
# Digits

Decimal numerals are written without leading zeros or padded to a width, and read as people type
them: an optional plus sign and one or more ASCII digits. Readers of hexadecimal digits take both
cases; each writer chooses its own.
-/

namespace RunnerFleet

namespace Decimal

def digits (n : Nat) : List Char := Nat.toDigits 10 n

/-- The decimal digits of `n` with zeros in front, at least `width` characters. -/
def padded (width n : Nat) : List Char :=
  List.replicate (width - (digits n).length) '0' ++ digits n

def value (ds : List Char) : Nat := Nat.ofDigitChars 10 ds 0

def withoutPlus : List Char → List Char
  | '+' :: ds => ds
  | ds => ds

/-- An optional plus sign and one or more digits, standing for a number below `bound`. -/
def read? (bound : Nat) (cs : List Char) : Option Nat :=
  let ds := withoutPlus cs
  if ds ≠ [] ∧ ds.all Char.isDigit ∧ value ds < bound then some (value ds) else none

def readUInt32? (cs : List Char) : Option UInt32 := (read? UInt32.size cs).map UInt32.ofNat

def readUInt64? (cs : List Char) : Option UInt64 := (read? UInt64.size cs).map UInt64.ofNat

theorem value_digits (n : Nat) : value (digits n) = n := Nat.ofDigitChars_ten_toDigits

theorem digits_ne_nil (n : Nat) : digits n ≠ [] := Nat.toDigits_ne_nil

theorem isDigit_of_mem_digits {n : Nat} {c : Char} (h : c ∈ digits n) : c.isDigit = true :=
  Nat.isDigit_of_mem_toDigits (by decide) (by decide) h

end Decimal

namespace Hexadecimal

def digit? (c : Char) : Option Nat :=
  if c.isDigit then some (c.toNat - '0'.toNat)
  else if 'a' ≤ c ∧ c ≤ 'f' then some (c.toNat - 'a'.toNat + 10)
  else if 'A' ≤ c ∧ c ≤ 'F' then some (c.toNat - 'A'.toNat + 10)
  else none

def upperDigit (n : Nat) : Char := (Nat.digitChar n).toUpper

theorem digit?_upperDigit {n : Nat} (h : n < 16) : digit? (upperDigit n) = some n := by
  have all : ∀ n < 16, digit? (upperDigit n) = some n := by decide
  exact all n h

end Hexadecimal

end RunnerFleet
