import Allotment.Dict
import Allotment.Bounded
import Allotment.Binary64

/-!
# JSON values

A number is either an integer of a signed or unsigned 64-bit word or a finite
floating-point number; the two kinds are never equal, so `2` and `2.0` differ.
An object is a dictionary.

**Results.**
* `Number.ofInt?_eq_some_iff`: which integers are numbers.
-/

namespace Allotment

namespace Json

/-- A finite floating-point number. -/
structure Real where
  val : Float
  /-- It is neither infinite nor a NaN. -/
  finite : Binary64.IsFinite val
deriving DecidableEq

/-- Floating-point numbers are compared as numbers: the two zeros are equal. -/
instance : BEq Real := ⟨fun x y => x.val == y.val⟩

/-- The floating-point number as a member of the finite ones, if it is one. -/
def Real.ofFloat? (x : Float) : Option Real :=
  if h : Binary64.IsFinite x then some ⟨x, h⟩ else none

/-- A JSON number. -/
inductive Number where
  | int (n : Whole)
  | real (x : Real)
deriving DecidableEq

namespace Number

instance : BEq Number where
  beq
    | .int m, .int n => m == n
    | .real x, .real y => x == y
    | _, _ => false

/-- The integer as a number, if a 64-bit word holds it. -/
def ofInt? (n : Int) : Option Number := (Bounded.ofInt? _ _ n).map .int

/-- The floating-point number as a number, if it is finite. -/
def ofFloat? (x : Float) : Option Number := (Real.ofFloat? x).map .real

theorem ofInt?_eq_some_iff {n : Int} {b : Whole} : ofInt? n = some (.int b) ↔ b.val = n := by
  simp [ofInt?, Bounded.ofInt?_eq_some_iff]

/-- The number as a floating-point number; an integer goes to the nearest one. -/
def toFloat : Number → Float
  | .int n => Float.ofInt n.val
  | .real x => x.val

end Number

end Json

/-- A JSON value. -/
inductive Json where
  | null
  | bool (b : Bool)
  | number (n : Json.Number)
  | string (s : String)
  | array (items : List Json)
  /-- Values under names. -/
  | object (fields : List (String × Json))
deriving BEq, Inhabited

namespace Json

/-- The integer as a value; one beyond 64 bits becomes null. -/
def ofInt (n : Int) : Json := ((Number.ofInt? n).map .number).getD .null

/-- The natural number as a value; one beyond 64 bits becomes null. -/
def ofNat (n : Nat) : Json := ofInt n

/-- The floating-point number as a value; one that is not finite becomes null. -/
def ofFloat (x : Float) : Json := ((Number.ofFloat? x).map .number).getD .null

/-- A signed integer as a value. -/
def ofSigned (n : Signed) : Json := .number (.int n.toWhole)

/-- An unsigned 64-bit integer as a value. -/
def ofWord (n : UInt64) : Json :=
  .number (.int ⟨n.toNat, by omega, by have := n.toNat_lt; omega⟩)

/-- A string or null. -/
def ofString? : Option String → Json
  | some s => .string s
  | none => .null

/-- The object with these entries. -/
def ofFields (fields : List (String × Json)) : Json := .object (Dict.ofList fields)

/-- The entry of an object under a name; other values have none. -/
def field? : Json → String → Option Json
  | .object fields, k => Dict.get? fields k
  | _, _ => none

/-- The value as an unsigned 64-bit integer. -/
def toWord? : Json → Option UInt64
  | .number (.int n) => if 0 ≤ n.val then some (UInt64.ofNat n.val.toNat) else none
  | _ => none

mutual

/-- In every object of the value the names strictly ascend. -/
def Canonical : Json → Prop
  | .array items => CanonicalItems items
  | .object fields => Dict.Ascending fields ∧ CanonicalFields fields
  | _ => True

/-- Every item is canonical. -/
def CanonicalItems : List Json → Prop
  | [] => True
  | v :: rest => Canonical v ∧ CanonicalItems rest

/-- Every entry is canonical. -/
def CanonicalFields : List (String × Json) → Prop
  | [] => True
  | (_, v) :: rest => Canonical v ∧ CanonicalFields rest

end

mutual

/-- No floating-point number occurs in the value. -/
def FloatFree : Json → Prop
  | .number (.real _) => False
  | .array items => FloatFreeItems items
  | .object fields => FloatFreeFields fields
  | _ => True

/-- No floating-point number occurs in an item. -/
def FloatFreeItems : List Json → Prop
  | [] => True
  | v :: rest => FloatFree v ∧ FloatFreeItems rest

/-- No floating-point number occurs in an entry. -/
def FloatFreeFields : List (String × Json) → Prop
  | [] => True
  | (_, v) :: rest => FloatFree v ∧ FloatFreeFields rest

end

end Json

end Allotment
