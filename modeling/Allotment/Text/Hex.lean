/-!
# Hexadecimal digits

Digits are written in lower case and read in either case.

**Results.**
* `hexValue?_hexDigit`: a digit that is written is read as its value.
-/

namespace Allotment

namespace Text

/-- The digit of a value below sixteen. -/
def hexDigit (n : Nat) : Char := if n < 10 then Char.ofNat (48 + n) else Char.ofNat (87 + n)

/-- The value of a digit. -/
def hexValue? (c : Char) : Option Nat :=
  let n := c.toNat
  if 48 ≤ n ∧ n ≤ 57 then some (n - 48)
  else if 97 ≤ n ∧ n ≤ 102 then some (n - 87)
  else if 65 ≤ n ∧ n ≤ 70 then some (n - 55)
  else none

/-- The digits of two places. -/
def hexPair (n : Nat) : List Char := [hexDigit (n / 16), hexDigit (n % 16)]

/-- A digit that is written is read as its value. -/
theorem hexValue?_hexDigit {n : Nat} (h : n < 16) : hexValue? (hexDigit n) = some n := by
  have all : ∀ m : Fin 16, hexValue? (hexDigit m.val) = some m.val := by decide
  exact all ⟨n, h⟩

end Text

end Allotment
