import Allotment.Expr.Basic

/-!
# Outputs of an expression

The variables that a definition can bind, found without evaluating it.  Both
parts of a branch count, whichever of them a unit takes.  The search goes through
the operators that pass control on, and not into the operands of a computation.
-/

namespace Allotment

namespace Expr

mutual

/-- The variables of the settings in an expression, in their order, with repeats. -/
def settings : Expr → List String
  | .list es => settingsAll es
  | .set x e => x :: settings e
  | .seq es => settingsAll es
  | .ret e => settings e
  | .cond bs => settingsBranches bs
  | .array e => settings e
  | .coalesce es => settingsAll es
  | .all es => settingsAll es
  | .any es => settingsAll es
  | _ => []

/-- The variables of the settings in some expressions. -/
def settingsAll : List Expr → List String
  | [] => []
  | e :: rest => settings e ++ settingsAll rest

/-- The variables of the settings in some branches. -/
def settingsBranches : List (Expr × Expr) → List String
  | [] => []
  | (c, e) :: rest => settings c ++ (settings e ++ settingsBranches rest)

end

/-- The variables that an expression can bind, each at its first setting. -/
def outputs (e : Expr) : List String := (settings e).eraseDups

end Expr

end Allotment
