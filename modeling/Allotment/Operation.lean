import Allotment.Expr.Basic
import Allotment.Operand

/-!
# Operations on values

What the operators without a draw do to values that are already computed.
-/

namespace Allotment

namespace Json

/-- Null, false, zero, and an empty string, list or object are false; all else is true. -/
def truthy : Json → Bool
  | .null => false
  | .bool b => b
  | .number n => !(n.toFloat == 0.0)
  | .string s => s != ""
  | .array items => !items.isEmpty
  | .object fields => !fields.isEmpty

/-- The value as a number. -/
def asNumber (v : Json) : Except TypeFault Operand := Operand.ofJson v

/-- The value as an integer. -/
def asInteger (v : Json) : Except TypeFault Signed :=
  match Operand.ofJson v with
  | .ok n => n.toInteger
  | .error e => .error e

/-- The value as a list. -/
def asList : Json → Except TypeFault (List Json)
  | .array items => .ok items
  | other => .error (.notList other)

/-- The value as a list of numbers. -/
def asNumbers (v : Json) : Except TypeFault (List Operand) :=
  match asList v with
  | .ok items => Operand.ofItems items
  | .error e => .error e

/-- Numbers and truth values are equal if they have the same order. -/
def sameNumber (a b : Operand) : Bool := a.order b == some .eq

mutual

/-- Equality of values, in which `1`, `1.0` and `true` are the same. -/
def same : Json → Json → Bool
  | .null, .null => true
  | .bool a, .bool b => a == b
  | .bool a, .number n => sameNumber (Operand.ofBool a) (Operand.ofNumber n)
  | .number m, .bool b => sameNumber (Operand.ofNumber m) (Operand.ofBool b)
  | .number m, .number n => sameNumber (Operand.ofNumber m) (Operand.ofNumber n)
  | .string a, .string b => a == b
  | .array a, .array b => sameItems a b
  | .object a, .object b => a.length == b.length && sameFields a b
  | _, _ => false

/-- Equality of lists, item by item. -/
def sameItems : List Json → List Json → Bool
  | [], [] => true
  | v :: vs, w :: ws => same v w && sameItems vs ws
  | _, _ => false

/-- Every entry has an equal one of the same name in `other`. -/
def sameFields : List (String × Json) → Dict Json → Bool
  | [], _ => true
  | (k, v) :: rest, other =>
      (match Dict.get? other k with
        | some w => same v w
        | none => false) && sameFields rest other

end

/-- The order of two values: strings by code points, otherwise as numbers. -/
def order (v w : Json) : Except TypeFault (Option Ordering) :=
  match v, w with
  | .string a, .string b => .ok (some (compare a b))
  | _, _ =>
      match Operand.ofJson v with
      | .error e => .error e
      | .ok a =>
          match Operand.ofJson w with
          | .error e => .error e
          | .ok b => .ok (a.order b)

/-- An item of a list at a position or an entry of an object under a name; null if there is none. -/
def pick (base index : Json) : Except TypeFault Json :=
  match base with
  | .array items =>
      match asInteger index with
      | .error e => .error e
      | .ok i => .ok (if i.val < 0 then .null else items.getD i.val.toNat .null)
  | .object fields =>
      match index with
      | .string k => .ok ((Dict.get? fields k).getD .null)
      | other => .error (.indexNotString other)
  | other => .error (.notIndexable other)

/-- The number of items, characters or entries. -/
def length : Json → Except TypeFault Nat
  | .array items => .ok items.length
  | .string s => .ok s.length
  | .object fields => .ok fields.length
  | other => .error (.notMeasurable other)

end Json

/-- The orders with which a comparison holds. -/
def Comparison.accepts : Comparison → Ordering → Bool
  | .equal, o => o == .eq
  | .greater, o => o == .gt
  | .less, o => o == .lt
  | .atLeast, o => o != .lt
  | .atMost, o => o != .gt

/-- Whether a comparison holds; where there is no order it does not. -/
def Comparison.apply (c : Comparison) (v w : Json) : Except TypeFault Bool :=
  match c with
  | .equal => .ok (Json.same v w)
  | c => (Json.order v w).map fun o => o.any c.accepts

/-- The extremum of `best` and the numbers, where a number replaces the best one if it stands
in the order `wanted` to it. -/
def extremum (wanted : Ordering) (best : Operand) (ns : List Operand) : Operand :=
  ns.foldl (fun best n => if n.order best == some wanted then n else best) best

/-- An aggregate of numbers; the extremum of no numbers does not exist. -/
def Aggregate.apply? (a : Aggregate) (ns : List Operand) : Option Operand :=
  match a, ns with
  | .sum, ns => some (ns.foldl Operand.add (Operand.ofBool false))
  | .product, ns => some (ns.foldl Operand.mul (Operand.ofBool true))
  | .min, n :: ns => some (extremum .lt n ns)
  | .max, n :: ns => some (extremum .gt n ns)
  | _, [] => none

/-- The remainder in the word, with the quotient rounded towards zero. -/
def Signed.remainder (m n : Signed) : Signed := .wrap (Int.tmod m.val n.val)

/-- The remainder in the word, with the quotient rounded down.  Where the remainder for the
quotient rounded towards zero has the other sign than the divisor, the divisor is added. -/
def Signed.modulo (m n : Signed) : Signed :=
  let r := m.remainder n
  if r.val ≠ 0 ∧ ¬ (r.val < 0 ↔ n.val < 0) then .wrap (r.val + n.val) else r

/-- The remainder of floating-point division with the quotient rounded down. -/
def floatModulo (x y : Float) : Float := x - y * floorFloat (x / y)

/-- The value of an operation on two numbers. -/
def Arithmetic.apply (a : Arithmetic) (m n : Operand) : Except TypeFault Json :=
  if n.isZero then .error .divisionByZero
  else
    match a, m, n with
    | .modulo, .int m, .int n => .ok (.ofSigned (m.modulo n))
    | .modulo, m, n => .ok (.ofFloat (floatModulo m.toFloat n.toFloat))
    | .quotient, m, n => .ok (.ofFloat (m.toFloat / n.toFloat))

/-- The number with the other sign. -/
def Operand.neg : Operand → Operand
  | .int n => exactOr (-n.val) (-(Float.ofInt n.val))
  | .float x => .float (-x)

/-- The value of an operation on one value. -/
def Unary.apply (u : Unary) (v : Json) : Except TypeFault Json :=
  match u with
  | .not => .ok (.bool (!v.truthy))
  | .negative => (Operand.ofJson v).map fun n => n.neg.toJson
  | .round =>
      match Operand.ofJson v with
      | .ok n => n.round.map Json.ofSigned
      | .error e => .error e
  | .length => v.length.map Json.ofNat

end Allotment
