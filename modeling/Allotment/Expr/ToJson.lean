import Allotment.Expr.Basic

/-!
# Written expressions

The definition of an expression as a JSON value, the inverse of `Expr.ofJson`.
-/

namespace Allotment

namespace Expr

/-- The object of an operator with its fields. -/
def operatorJson (name : String) (fields : List (String × Json)) : Json :=
  Json.ofFields (("op", .string name) :: fields)

/-- A text field that may be absent. -/
def textField? (key : String) : Option String → List (String × Json)
  | some s => [(key, .string s)]
  | none => []

mutual

/-- An expression as a JSON value. -/
def toJson : Expr → Json
  | .value v => v
  | .list items => .array (toItems items)
  | .literal v => operatorJson "literal" [("value", v)]
  | .get x => operatorJson "get" [("var", .string x)]
  | .set x e => operatorJson "set" [("var", .string x), ("value", toJson e)]
  | .seq es => operatorJson "seq" [("seq", .array (toItems es))]
  | .ret e => operatorJson "return" [("value", toJson e)]
  | .cond bs => operatorJson "cond" [("cond", .array (toBranches bs))]
  | .array e => operatorJson "array" [("values", toJson e)]
  | .map entries => operatorJson "map" (toEntries entries)
  | .index b i => operatorJson "index" [("base", toJson b), ("index", toJson i)]
  | .coalesce es => operatorJson "coalesce" [("values", .array (toItems es))]
  | .all es => operatorJson "and" [("values", .array (toItems es))]
  | .any es => operatorJson "or" [("values", .array (toItems es))]
  | .compare c l r => operatorJson c.name [("left", toJson l), ("right", toJson r)]
  | .aggregate a e => operatorJson a.name [("values", toJson e)]
  | .arithmetic a l r => operatorJson a.name [("left", toJson l), ("right", toJson r)]
  | .unary u e => operatorJson u.name [("value", toJson e)]
  | .random draw unit salt fullSalt =>
      operatorJson draw.name
        (toFields draw ++ ("unit", toJson unit) ::
          (textField? "salt" salt ++ textField? "full_salt" fullSalt))

/-- The items of a list. -/
def toItems : List Expr → List Json
  | [] => []
  | e :: rest => toJson e :: toItems rest

/-- The entries of a map. -/
def toEntries : List (String × Expr) → List (String × Json)
  | [] => []
  | (k, e) :: rest => (k, toJson e) :: toEntries rest

/-- The branches of a conditional. -/
def toBranches : List (Expr × Expr) → List Json
  | [] => []
  | (c, e) :: rest => Json.ofFields [("if", toJson c), ("then", toJson e)] :: toBranches rest

/-- The fields of a draw. -/
def toFields : Lottery Expr → List (String × Json)
  | .uniformChoice c => [("choices", toJson c)]
  | .weightedChoice c w => [("choices", toJson c), ("weights", toJson w)]
  | .bernoulliTrial p => [("p", toJson p)]
  | .bernoulliFilter p c => [("p", toJson p), ("choices", toJson c)]
  | .randomFloat lo hi => [("min", toJson lo), ("max", toJson hi)]
  | .randomInteger lo hi => [("min", toJson lo), ("max", toJson hi)]
  | .sample c none => [("choices", toJson c)]
  | .sample c (some n) => [("choices", toJson c), ("draws", toJson n)]

end

end Expr

end Allotment
