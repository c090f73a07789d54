/-!
# Decimal digits

Natural numbers and their decimal digits.

**Results.**
* `ofDigits_digitsOf`: the digits of a number denote it.
* `ofDigits_padLeft`: zeros in front change nothing.
-/

namespace Allotment

namespace Decimal

/-- The decimal digits of a number. -/
def digitsOf (n : Nat) : List Char := Nat.toDigits 10 n

/-- The number that decimal digits denote. -/
def ofDigits (digits : List Char) : Nat := Nat.ofDigitChars 10 digits 0

/-- Zeros in front of digits until there are `width` of them. -/
def padLeft (width : Nat) (digits : List Char) : List Char :=
  List.replicate (width - digits.length) '0' ++ digits

@[simp] theorem ofDigits_digitsOf (n : Nat) : ofDigits (digitsOf n) = n :=
  Nat.ofDigitChars_toDigits (by decide) (by decide)

theorem isDigit_of_mem_digitsOf {n : Nat} {c : Char} (h : c ∈ digitsOf n) : c.isDigit = true :=
  Nat.isDigit_of_mem_toDigits (by decide) (by decide) h

/-- Zeros in front change nothing. -/
@[simp] theorem ofDigits_padLeft (width : Nat) (digits : List Char) :
    ofDigits (padLeft width digits) = ofDigits digits := by
  unfold padLeft
  induction width - digits.length with
  | zero => rfl
  | succ n ih =>
      rw [List.replicate_succ, List.cons_append]
      simpa [ofDigits, Nat.ofDigitChars_cons] using ih

end Decimal

end Allotment
