import Allotment.Fault
import Allotment.Operation

/-!
# Environments

The state of one evaluation: the salt, the inputs, the variables bound so far, and
whether a return has ended the evaluation.  An overridden variable keeps its value.

**Results.**
* `Env.get?_bind`: what is read after a variable is bound.
-/

namespace Allotment

/-- The state of an evaluation. -/
structure Env where
  salt : String
  inputs : Dict Json
  /-- The variables with a fixed value. -/
  overrides : Dict Json := []
  /-- The variables bound so far. -/
  bindings : Dict Json := []
  /-- The verdict of the return that ended the evaluation. -/
  halted : Option Bool := none

namespace Env

/-- The variable that replaces the salt for the rest of an evaluation. -/
def saltVariable : String := "experiment_salt"

/-- Fixes variables. -/
def withOverrides (env : Env) (overrides : Dict Json) : Env :=
  { env with bindings := Dict.override env.bindings overrides, overrides := overrides }

/-- The value of a name: of a variable, or else of an input. -/
def get? (env : Env) (x : String) : Option Json :=
  match Dict.get? env.bindings x with
  | some v => some v
  | none => Dict.get? env.inputs x

/-- The variable has a fixed value. -/
def isOverridden (env : Env) (x : String) : Bool := Dict.contains env.overrides x

/-- Binds a variable that is not overridden. -/
def bind (env : Env) (x : String) (v : Json) : Env :=
  if env.isOverridden x then env else { env with bindings := Dict.insert env.bindings x v }

/-- A return has ended the evaluation. -/
def isHalted (env : Env) : Bool := env.halted.isSome

/-- The unit takes part, unless a return says otherwise. -/
def takesPart (env : Env) : Bool := env.halted.getD true

/-- Ends the evaluation. -/
def halt (env : Env) (verdict : Bool) : Env := { env with halted := some verdict }

/-- The text of a value as a salt: a string bare, any other value as JSON. -/
def saltText : Json → String
  | .string s => s
  | v => v.compact

/-- The effect of a setting: the variable is bound and, if it is the one of the salt, the salt
is replaced.  After a return nothing happens. -/
def assign (env : Env) (x : String) (v : Json) : Env :=
  if env.isHalted then env
  else if x = saltVariable then { env with salt := saltText v }.bind x v
  else env.bind x v

/-- What is read after a variable is bound. -/
theorem get?_bind (env : Env) (x y : String) (v : Json) :
    (env.bind x v).get? y =
      if y = x ∧ env.isOverridden x = false then some v else env.get? y := by
  unfold bind
  cases h : env.isOverridden x
  · by_cases hy : y = x
    · simp [get?, hy, Dict.get?_insert]
    · simp [get?, hy, Dict.get?_insert]
  · simp

end Env

end Allotment
