import Allotment.Fault

/-!
# Operands

The numbers that the operators compute with.  An integer of a signed 64-bit word
stays exact; arithmetic that leaves that range goes on in floating point, and so
does every computation with a floating-point operand.  Truth values count as one
and zero.
-/

namespace Allotment

/-- A number inside a computation. -/
inductive Operand where
  | int (n : Signed)
  | float (x : Float)

namespace Operand

/-- A JSON number as an operand; an integer beyond the signed range becomes a float. -/
def ofNumber : Json.Number → Operand
  | .int n =>
      match Bounded.ofInt? _ _ n.val with
      | some s => .int s
      | none => .float (Float.ofInt n.val)
  | .real x => .float x.val

/-- A truth value as an operand. -/
def ofBool (b : Bool) : Operand :=
  .int (if b then ⟨1, by decide, by decide⟩ else ⟨0, by decide, by decide⟩)

/-- A value as an operand. -/
def ofJson : Json → Except TypeFault Operand
  | .number n => .ok (ofNumber n)
  | .bool b => .ok (ofBool b)
  | other => .error (.notNumber other)

/-- All values as operands. -/
def ofItems : List Json → Except TypeFault (List Operand)
  | [] => .ok []
  | v :: rest =>
      match ofJson v with
      | .error e => .error e
      | .ok n =>
          match ofItems rest with
          | .error e => .error e
          | .ok ns => .ok (n :: ns)

/-- The operand in floating point; an integer goes to the nearest float. -/
def toFloat : Operand → Float
  | .int n => Float.ofInt n.val
  | .float x => x

/-- The operand as a JSON number, or null if it is not finite. -/
def toJson : Operand → Json
  | .int n => Json.ofSigned n
  | .float x => Json.ofFloat x

/-- The exact integer if it is in range, and the float otherwise. -/
def exactOr (n : Int) (x : Float) : Operand :=
  match Bounded.ofInt? _ _ n with
  | some s => .int s
  | none => .float x

/-- Combines integers exactly as long as the result is in range, and in floating point otherwise. -/
def combine (onInts : Int → Int → Int) (onFloats : Float → Float → Float) (a b : Operand) :
    Operand :=
  match a, b with
  | .int m, .int n => exactOr (onInts m.val n.val) (onFloats a.toFloat b.toFloat)
  | _, _ => .float (onFloats a.toFloat b.toFloat)

/-- The sum of two operands. -/
def add : Operand → Operand → Operand := combine (· + ·) (· + ·)

/-- The product of two operands. -/
def mul : Operand → Operand → Operand := combine (· * ·) (· * ·)

/-- The order of two floats; a NaN has none. -/
def orderFloats (x y : Float) : Option Ordering :=
  if x < y then some .lt else if x == y then some .eq else if y < x then some .gt else none

/-- The order of two operands: of integers exactly, otherwise in floating point. -/
def order (a b : Operand) : Option Ordering :=
  match a, b with
  | .int m, .int n => some (compare m.val n.val)
  | _, _ => orderFloats a.toFloat b.toFloat

/-- The operand is zero. -/
def isZero (a : Operand) : Bool := a.toFloat == 0.0

/-- The operand as an integer, if it has no fraction; a float beyond the signed range goes
to the nearest end of it. -/
def toInteger : Operand → Except TypeFault Signed
  | .int n => .ok n
  | .float x =>
      if Binary64.IsFinite x ∧ (Binary64.ofFloat x).isIntegral then
        .ok (Signed.clamp (Binary64.ofFloat x).truncate)
      else .error (.notInteger x)

/-- The nearest integer; of two equally near ones the even one. -/
def round : Operand → Except TypeFault Signed
  | .int n => .ok n
  | .float x =>
      if Binary64.IsFinite x then .ok (Signed.clamp (Binary64.ofFloat x).roundEven)
      else .error (.notRoundable x)

end Operand

end Allotment
