import Allotment.Decimal.Digits
import Allotment.Decimal.Shortest

/-!
# Written decimals

How the shortest decimal of a floating-point number is laid out.  The decisions
of a format are the fields of one record.
-/

namespace Allotment

namespace Decimal

/-- The decisions of a written format for floating-point numbers. -/
structure Layout where
  /-- Positional from this exponent of the leading digit on. -/
  positionalFrom : Int
  /-- Positional up to and with this exponent of the leading digit. -/
  positionalTo : Int
  /-- An integral value is written with the fraction `.0`. -/
  pointZero : Bool
  /-- The least number of exponent digits. -/
  exponentWidth : Nat
  /-- The choice between two equally near shortest decimals. -/
  tie : Tie
  nan : String
  infinity : String

/-- The digits with the point set so that the leading digit has the exponent `e`. -/
def Layout.positional (l : Layout) (digits : List Char) (e : Int) : List Char :=
  if e < 0 then
    '0' :: '.' :: (List.replicate (-e - 1).toNat '0' ++ digits)
  else
    let whole := e.toNat + 1
    if digits.length ≤ whole then
      digits ++ List.replicate (whole - digits.length) '0' ++
        (if l.pointZero then ['.', '0'] else [])
    else digits.take whole ++ '.' :: digits.drop whole

/-- One digit, the point, the other digits, and the signed exponent. -/
def Layout.scientific (l : Layout) (digits : List Char) (e : Int) : List Char :=
  let mantissa :=
    match digits with
    | [] => []
    | [d] => [d]
    | d :: rest => d :: '.' :: rest
  let sign := if e < 0 then '-' else '+'
  mantissa ++ 'e' :: sign :: padLeft l.exponentWidth (digitsOf e.natAbs)

/-- The magnitude of a finite value, written. -/
def Layout.magnitude (l : Layout) (b : Binary64) : List Char :=
  let d := shortest l.tie b
  let digits := digitsOf d.digits
  let e := d.exp + digits.length - 1
  if l.positionalFrom ≤ e ∧ e ≤ l.positionalTo then l.positional digits e
  else l.scientific digits e

/-- A floating-point number, written. -/
def Layout.write (l : Layout) (x : Float) : List Char :=
  let b := Binary64.ofFloat x
  let sign := if b.neg then ['-'] else []
  if Binary64.IsFinite x then sign ++ l.magnitude b
  else if x.isNaN then l.nan.toList
  else sign ++ l.infinity.toList

/-- Numbers in messages are always positional, and an integral one has no point. -/
def plain : Layout where
  positionalFrom := -400
  positionalTo := 400
  pointZero := false
  exponentWidth := 1
  tie := .away
  nan := "NaN"
  infinity := "inf"

/-- Numbers in the text of a value are positional from `0.0001` to below `1e+16`;
other exponents have at least two digits. -/
def spelled : Layout where
  positionalFrom := -4
  positionalTo := 15
  pointZero := true
  exponentWidth := 2
  tie := .away
  nan := "nan"
  infinity := "inf"

/-- Numbers in JSON are positional from `0.00001` to below `1e+16`. -/
def json : Layout where
  positionalFrom := -5
  positionalTo := 15
  pointZero := true
  exponentWidth := 1
  tie := .toEven
  nan := "null"
  infinity := "null"

end Decimal

end Allotment
