import Allotment.Eval
import Allotment.Expr.OfJson
import Allotment.Expr.Outputs
import Allotment.Expr.ToJson
import Allotment.Json.Reader

/-!
# Definitions

The definition of an experiment is an expression that is evaluated for its
bindings.  A new experiment has the empty sequence, to which variables are appended.
-/

namespace Allotment

/-- What an experiment evaluates for each unit. -/
structure Definition where
  root : Expr
deriving BEq, Inhabited

namespace Definition

/-- The definition without variables. -/
def empty : Definition := ⟨.seq []⟩

/-- Reads a definition. -/
def ofJson (v : Json) : Except Fault Definition := (Expr.ofJson v).map Definition.mk

/-- Reads a definition from a JSON text. -/
def parse (text : String) : Except Fault Definition :=
  match Json.parse? text with
  | some v => ofJson v
  | none => .error .json

/-- The definition as a JSON value. -/
def toJson (d : Definition) : Json := d.root.toJson

/-- The definition as a compact JSON text. -/
def text (d : Definition) : String := d.toJson.compact

/-- Appends the setting of a variable to a sequence. -/
def appendSet (d : Definition) (x : String) (v : Json) : Except Fault Definition :=
  match Expr.ofJson v with
  | .error e => .error e
  | .ok e =>
      match d.root with
      | .seq body => .ok ⟨.seq (body ++ [.set x e])⟩
      | root =>
          match root.operator? with
          | some op => .error (.invalidOperator (.appendToOperator op))
          | none => .error (.invalidOperator .appendToValue)

/-- The variables that the definition can bind. -/
def outputs (d : Definition) : List String := d.root.outputs

/-- Evaluates the definition. -/
def run (d : Definition) : Run Json := eval none d.root

/-- The variables that the definition binds for the inputs. -/
def params (d : Definition) (salt : String) (inputs : Dict Json) : Except Fault (Dict Json) :=
  match d.run { salt, inputs } with
  | .ok _ env => .ok env.bindings
  | .error e _ => .error e

end Definition

end Allotment
