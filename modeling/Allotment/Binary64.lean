/-!
# Finite floating-point numbers as integers

A finite `Float` is `m * 2 ^ q` up to its sign.  Floor, truncation and rounding
to an integer are computed on these integers, exactly.
-/

namespace Allotment

/-- A finite binary64 value: `m * 2 ^ q`, negated if `neg` holds. -/
structure Binary64 where
  neg : Bool
  m : Nat
  /-- The exponent of the last place. -/
  q : Int
  /-- The gap to the next smaller magnitude is half the gap to the next larger one. -/
  narrowBelow : Bool
deriving DecidableEq, Repr

namespace Binary64

/-- The eleven exponent bits. -/
def exponentBits (x : Float) : Nat := ((x.toBits >>> 52) &&& 0x7FF).toNat

/-- Neither infinite nor a NaN. -/
def IsFinite (x : Float) : Prop := exponentBits x ≠ 0x7FF

instance (x : Float) : Decidable (IsFinite x) := inferInstanceAs (Decidable (_ ≠ _))

/-- The parts of a finite value.  (For other values they mean nothing.) -/
def ofFloat (x : Float) : Binary64 :=
  let e := exponentBits x
  let f := (x.toBits &&& 0xFFFFFFFFFFFFF).toNat
  let neg := x.toBits >>> 63 == 1
  if e == 0 then ⟨neg, f, -1074, false⟩
  else ⟨neg, 0x10000000000000 + f, (e : Int) - 1075, f == 0 && e > 1⟩

/-- The significand with its sign. -/
def signed (b : Binary64) : Int := if b.neg then -(b.m : Int) else b.m

/-- The greatest integer that is not above the value. -/
def floor (b : Binary64) : Int :=
  if 0 ≤ b.q then b.signed * Nat.pow 2 b.q.toNat else Int.fdiv b.signed (Nat.pow 2 (-b.q).toNat)

/-- The value without its fraction. -/
def truncate (b : Binary64) : Int :=
  if 0 ≤ b.q then b.signed * Nat.pow 2 b.q.toNat else Int.tdiv b.signed (Nat.pow 2 (-b.q).toNat)

/-- The value has no fraction. -/
def isIntegral (b : Binary64) : Bool := 0 ≤ b.q || b.m % Nat.pow 2 (-b.q).toNat == 0

/-- The nearest integer; of two equally near ones the even one. -/
def roundEven (b : Binary64) : Int :=
  if 0 ≤ b.q then b.signed * Nat.pow 2 b.q.toNat
  else
    let unit : Nat := Nat.pow 2 (-b.q).toNat
    let below := b.floor
    -- Twice the distance from the integer below, in units of the last place.
    let twice := 2 * (b.signed - below * unit)
    if twice < unit then below
    else if unit < twice then below + 1
    else if below % 2 = 0 then below else below + 1

end Binary64

/-- The greatest integral value that is not above `x`, with the sign of a zero kept. -/
def floorFloat (x : Float) : Float :=
  if Binary64.IsFinite x then
    let b := Binary64.ofFloat x
    let n := b.floor
    if n = 0 then (if b.neg then -0.0 else 0.0) else Float.ofInt n
  else x

end Allotment
