import Allotment.Json.Basic

/-!
# Expressions

The language in which an experiment says what a unit receives.  A definition is a
tree of operators over JSON values.  `Expr.set` binds a variable, `Expr.ret` ends
the evaluation, and the random operators draw for a unit.
-/

namespace Allotment

/-- A comparison of two values. -/
inductive Comparison where
  | equal
  | greater
  | less
  | atLeast
  | atMost
deriving DecidableEq, Repr

namespace Comparison

/-- The name of the comparison in a definition. -/
def name : Comparison → String
  | .equal => "equals"
  | .greater => "greaterThan"
  | .less => "lessThan"
  | .atLeast => "greaterThanOrEqualTo"
  | .atMost => "lessThanOrEqualTo"

end Comparison

/-- A number computed from a list of numbers. -/
inductive Aggregate where
  | sum
  | product
  | min
  | max
deriving DecidableEq, Repr

namespace Aggregate

/-- The name of the aggregate in a definition. -/
def name : Aggregate → String
  | .sum => "sum"
  | .product => "product"
  | .min => "min"
  | .max => "max"

end Aggregate

/-- An operation on two numbers. -/
inductive Arithmetic where
  /-- The remainder of division with the quotient rounded down. -/
  | modulo
  /-- The quotient, a floating-point number. -/
  | quotient
deriving DecidableEq, Repr

namespace Arithmetic

/-- The name of the operation in a definition. -/
def name : Arithmetic → String
  | .modulo => "%"
  | .quotient => "/"

end Arithmetic

/-- An operation on one value. -/
inductive Unary where
  /-- The opposite of the value's truth. -/
  | not
  /-- The number with the other sign. -/
  | negative
  /-- The nearest integer. -/
  | round
  /-- The number of items, characters or entries. -/
  | length
deriving DecidableEq, Repr

namespace Unary

/-- The name of the operation in a definition. -/
def name : Unary → String
  | .not => "not"
  | .negative => "negative"
  | .round => "round"
  | .length => "length"

end Unary

universe u

/-- What a random operator draws, over operands of type `α`. -/
inductive Lottery (α : Type u) where
  /-- One of the choices. -/
  | uniformChoice (choices : α)
  /-- One of the choices, in proportion to their weights. -/
  | weightedChoice (choices weights : α)
  /-- One with probability `p`, otherwise zero. -/
  | bernoulliTrial (p : α)
  /-- The choices that succeed, each with probability `p`. -/
  | bernoulliFilter (p choices : α)
  /-- A floating-point number between two bounds. -/
  | randomFloat (min max : α)
  /-- An integer between two bounds. -/
  | randomInteger (min max : α)
  /-- The choices shuffled, or as many of them as are to be drawn. -/
  | sample (choices : α) (draws : Option α)
deriving BEq

namespace Lottery

variable {α : Type u}

/-- The name of the operator in a definition. -/
def name : Lottery α → String
  | .uniformChoice _ => "uniformChoice"
  | .weightedChoice _ _ => "weightedChoice"
  | .bernoulliTrial _ => "bernoulliTrial"
  | .bernoulliFilter _ _ => "bernoulliFilter"
  | .randomFloat _ _ => "randomFloat"
  | .randomInteger _ _ => "randomInteger"
  | .sample _ _ => "sample"

end Lottery

/-- An expression of a definition. -/
inductive Expr where
  /-- A JSON value that stands for itself. -/
  | value (v : Json)
  /-- A bare list of expressions. -/
  | list (items : List Expr)
  /-- The operator whose value is taken as it stands. -/
  | literal (v : Json)
  /-- The value of a variable or an input. -/
  | get (var : String)
  | set (var : String) (value : Expr)
  /-- Evaluates the expressions in turn; the last value counts. -/
  | seq (body : List Expr)
  /-- Ends the evaluation; the unit takes part if the value is true. -/
  | ret (value : Expr)
  /-- The first branch whose condition is true. -/
  | cond (branches : List (Expr × Expr))
  /-- A value that has to be a list. -/
  | array (values : Expr)
  /-- An object with these entries. -/
  | map (entries : List (String × Expr))
  /-- An item of a list or an entry of an object. -/
  | index (base index : Expr)
  /-- The first value that is not null. -/
  | coalesce (values : List Expr)
  | all (values : List Expr)
  | any (values : List Expr)
  | compare (c : Comparison) (left right : Expr)
  /-- Combines a list of numbers. -/
  | aggregate (a : Aggregate) (values : Expr)
  | arithmetic (a : Arithmetic) (left right : Expr)
  | unary (u : Unary) (value : Expr)
  /-- Draws for a unit.  The full salt, if given, is the whole salt of the draw. -/
  | random (draw : Lottery Expr) (unit : Expr) (salt fullSalt : Option String)
deriving BEq, Inhabited

namespace Expr

/-- The name of the operator at the root, if there is one. -/
def operator? : Expr → Option String
  | .value _ => none
  | .list _ => none
  | .literal _ => some "literal"
  | .get _ => some "get"
  | .set _ _ => some "set"
  | .seq _ => some "seq"
  | .ret _ => some "return"
  | .cond _ => some "cond"
  | .array _ => some "array"
  | .map _ => some "map"
  | .index _ _ => some "index"
  | .coalesce _ => some "coalesce"
  | .all _ => some "and"
  | .any _ => some "or"
  | .compare c _ _ => some c.name
  | .aggregate a _ => some a.name
  | .arithmetic a _ _ => some a.name
  | .unary u _ => some u.name
  | .random draw _ _ _ => some draw.name

end Expr

end Allotment
