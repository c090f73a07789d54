import Allotment.Expr.Basic
import Allotment.Fault

/-!
# Reading expressions

An object with the entry `op` is an operator, a list is a list of expressions, and
any other value stands for itself.  The fields of an operator are described by a
form, which says in order how each is read; a field that the form does not name
is an error, and so is a required one that is absent.

**Implementation notes.**  `Field` offers the readings of a field as functions, so
that a form decides which of them is carried out while the recursion stays on the
value.
-/

namespace Allotment

universe u v

/-- A field of an operator with the ways to read it. -/
structure Field where
  /-- The value as it is. -/
  value : Json
  /-- The value read as an expression. -/
  expr : Unit → Except Fault Expr
  /-- The value, if it is a list, read as expressions. -/
  exprs? : Option (Unit → Except Fault (List Expr))
  /-- The value, if it is a list, read as branches. -/
  branches? : Option (Unit → Except Fault (List (Expr × Expr)))

/-- The description of an operator's fields, in the order in which they are read. -/
structure Form (α : Type u) where
  keys : List String
  /-- Reads the fields of the operator of the given name. -/
  read : String → List (String × Field) → Except Fault α

namespace Form

variable {α : Type u} {β : Type v}

/-- Fields of one form and then of another. -/
protected def seq (f : Form (α → β)) (x : Form α) : Form β where
  keys := f.keys ++ x.keys
  read op fields :=
    match f.read op fields with
    | .error e => .error e
    | .ok g =>
        match x.read op fields with
        | .error e => .error e
        | .ok a => .ok (g a)

/-- A form whose result is transformed. -/
protected def map (g : α → β) (x : Form α) : Form β where
  keys := x.keys
  read op fields := (x.read op fields).map g

/-- A form with one required field. -/
def required (key : String) (f : String → Field → Except Fault α) : Form α where
  keys := [key]
  read op fields :=
    match Dict.get? fields key with
    | none => .error (.invalidOperator (.missingField op key))
    | some field => f op field

/-- A form with one optional field. -/
def optional (key : String) (f : String → Field → Except Fault α) : Form (Option α) where
  keys := [key]
  read op fields :=
    match Dict.get? fields key with
    | none => .ok none
    | some field => (f op field).map some

/-- Reads a field as text. -/
def asText (key op : String) (field : Field) : Except Fault String :=
  match field.value with
  | .string s => .ok s
  | other => .error (.invalidOperator (.fieldNotString op key other))

/-- A field that is taken as it is. -/
def json (key : String) : Form Json := required key fun _ field => .ok field.value

/-- A text field. -/
def text (key : String) : Form String := required key (asText key)

/-- A text field that may be absent. -/
def text? (key : String) : Form (Option String) := optional key (asText key)

/-- A field that holds an expression. -/
def expr (key : String) : Form Expr := required key fun _ field => field.expr ()

/-- A field that holds an expression and may be absent. -/
def expr? (key : String) : Form (Option Expr) := optional key fun _ field => field.expr ()

/-- A field that holds a list of expressions. -/
def exprs (key : String) : Form (List Expr) :=
  required key fun op field =>
    match field.exprs? with
    | some read => read ()
    | none => .error (.invalidOperator (.fieldNotList op key field.value))

/-- A field that holds a list of branches. -/
def branches (key : String) : Form (List (Expr × Expr)) :=
  required key fun op field =>
    match field.branches? with
    | some read => read ()
    | none => .error (.invalidOperator (.fieldNotList op key field.value))

/-- The fields of a random operator: those of its draw, and then the unit and the salts. -/
def random (draw : Form (Lottery Expr)) : Form Expr :=
  (((draw.map Expr.random).seq (expr "unit")).seq (text? "salt")).seq (text? "full_salt")

/-- The form of a comparison. -/
def compare (c : Comparison) : Form Expr := ((expr "left").map (Expr.compare c)).seq (expr "right")

/-- The form of an aggregate. -/
def aggregate (a : Aggregate) : Form Expr := (expr "values").map (Expr.aggregate a)

/-- The form of an operation on two numbers. -/
def arithmetic (a : Arithmetic) : Form Expr :=
  ((expr "left").map (Expr.arithmetic a)).seq (expr "right")

/-- The form of an operation on one value. -/
def unary (u : Unary) : Form Expr := (expr "value").map (Expr.unary u)

/-- The form of the operator of a name. -/
def ofName? : String → Option (Form Expr)
  | "literal" => some ((json "value").map .literal)
  | "get" => some ((text "var").map .get)
  | "set" => some (((text "var").map .set).seq (expr "value"))
  | "seq" => some ((exprs "seq").map .seq)
  | "return" => some ((expr "value").map .ret)
  | "cond" => some ((branches "cond").map .cond)
  | "array" => some ((expr "values").map .array)
  | "index" => some (((expr "base").map .index).seq (expr "index"))
  | "coalesce" => some ((exprs "values").map .coalesce)
  | "and" => some ((exprs "values").map .all)
  | "or" => some ((exprs "values").map .any)
  | "equals" => some (compare .equal)
  | "greaterThan" => some (compare .greater)
  | "lessThan" => some (compare .less)
  | "greaterThanOrEqualTo" => some (compare .atLeast)
  | "lessThanOrEqualTo" => some (compare .atMost)
  | "sum" => some (aggregate .sum)
  | "product" => some (aggregate .product)
  | "min" => some (aggregate .min)
  | "max" => some (aggregate .max)
  | "%" => some (arithmetic .modulo)
  | "/" => some (arithmetic .quotient)
  | "not" => some (unary .not)
  | "negative" => some (unary .negative)
  | "round" => some (unary .round)
  | "length" => some (unary .length)
  | "uniformChoice" => some (random ((expr "choices").map .uniformChoice))
  | "weightedChoice" =>
      some (random (((expr "choices").map .weightedChoice).seq (expr "weights")))
  | "bernoulliTrial" => some (random ((expr "p").map .bernoulliTrial))
  | "bernoulliFilter" => some (random (((expr "p").map .bernoulliFilter).seq (expr "choices")))
  | "randomFloat" => some (random (((expr "min").map .randomFloat).seq (expr "max")))
  | "randomInteger" => some (random (((expr "min").map .randomInteger).seq (expr "max")))
  | "sample" => some (random (((expr "choices").map .sample).seq (expr? "draws")))
  | _ => none

/-- Reads the operator of a name from its fields, the entry `op` among them. -/
def build (name : String) (fields : List (String × Field)) : Except Fault Expr :=
  match ofName? name with
  | none => .error (.invalidOperator (.unknownOperator name))
  | some form =>
      match form.read name fields with
      | .error e => .error e
      | .ok e =>
          match fields.find? fun x => x.1 != "op" && !form.keys.contains x.1 with
          | some x => .error (.invalidOperator (.unknownField name x.1))
          | none => .ok e

end Form

namespace Expr

/-- One part of a branch. -/
def branchPart (part : String) (fields : List (String × Field)) : Except Fault Expr :=
  match Dict.get? fields part with
  | some field => field.expr ()
  | none => .error (.invalidOperator (.branchMissing part))

mutual

/-- Reads an expression. -/
def ofJson : Json → Except Fault Expr
  | .array items =>
      match ofItems items with
      | .error e => .error e
      | .ok es => .ok (.list es)
  | .object fields =>
      match Dict.get? fields "op" with
      | none => .ok (.value (.object fields))
      | some (.string name) =>
          if name = "map" then
            -- The entries of a map may have any name but `op`.
            match ofEntries fields with
            | .error e => .error e
            | .ok entries => .ok (.map entries)
          else Form.build name (readings fields)
      | some other => .error (.invalidOperator (.nameNotString other))
  | v => .ok (.value v)

/-- Reads the items of a list. -/
def ofItems : List Json → Except Fault (List Expr)
  | [] => .ok []
  | v :: rest =>
      match ofJson v with
      | .error e => .error e
      | .ok x =>
          match ofItems rest with
          | .error e => .error e
          | .ok xs => .ok (x :: xs)

/-- Reads the entries of an object but the one named `op`. -/
def ofEntries : List (String × Json) → Except Fault (List (String × Expr))
  | [] => .ok []
  | (k, v) :: rest =>
      if k = "op" then ofEntries rest
      else
        match ofJson v with
        | .error e => .error e
        | .ok x =>
            match ofEntries rest with
            | .error e => .error e
            | .ok xs => .ok ((k, x) :: xs)

/-- The fields of an operator with the ways to read them. -/
def readings : List (String × Json) → List (String × Field)
  | [] => []
  | (k, v) :: rest => (k, ⟨v, fun _ => ofJson v, itemsOf v, branchesOf v⟩) :: readings rest

/-- The reading of a list as expressions. -/
def itemsOf : Json → Option (Unit → Except Fault (List Expr))
  | .array items => some fun _ => ofItems items
  | _ => none

/-- The reading of a list as branches. -/
def branchesOf : Json → Option (Unit → Except Fault (List (Expr × Expr)))
  | .array items => some fun _ => ofBranches items
  | _ => none

/-- Reads the branches of a conditional. -/
def ofBranches : List Json → Except Fault (List (Expr × Expr))
  | [] => .ok []
  | v :: rest =>
      match ofBranch v with
      | .error e => .error e
      | .ok x =>
          match ofBranches rest with
          | .error e => .error e
          | .ok xs => .ok (x :: xs)

/-- Reads a branch: an object with the parts `if` and `then`, and no others. -/
def ofBranch : Json → Except Fault (Expr × Expr)
  | .object fields =>
      match fields.find? fun x => x.1 != "if" && x.1 != "then" with
      | some x => .error (.invalidOperator (.branchUnknownField x.1))
      | none =>
          match branchPart "if" (readings fields) with
          | .error e => .error e
          | .ok c =>
              match branchPart "then" (readings fields) with
              | .error e => .error e
              | .ok x => .ok (c, x)
  | other => .error (.invalidOperator (.branchNotObject other))

end

end Expr

end Allotment
