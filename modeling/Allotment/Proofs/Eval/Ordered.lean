import Allotment.Proofs.Dict
import Allotment.Proofs.Eval.Simulation

/-!
# Bindings in the order of their names

Every binding is written into the dictionary of the bindings, so an evaluation that starts
with its bindings in the order of their names ends with them in that order.

**Results.**
* `ascending_bindings`: the bindings after an evaluation.
-/

namespace Allotment

open Stateful

namespace Env

theorem ascending_bind
    {env : Env} (h : Dict.Ascending env.bindings) (x : String) (v : Json) :
    Dict.Ascending (env.bind x v).bindings := by
  unfold bind
  split
  · exact h
  · exact h.insert x v

theorem ascending_assign
    {env : Env} (h : Dict.Ascending env.bindings) (x : String) (v : Json) :
    Dict.Ascending (env.assign x v).bindings := by
  unfold assign
  split
  · exact h
  · split
    · have hsalt : Dict.Ascending { env with salt := saltText v }.bindings := h
      exact ascending_bind hsalt x v
    · exact ascending_bind h x v

theorem ascending_withOverrides
    {env : Env} (h : Dict.Ascending env.bindings) (overrides : Dict Json) :
    Dict.Ascending (env.withOverrides overrides).bindings :=
  h.override overrides

end Env

/-- An evaluation keeps the bindings in the order of their names. -/
theorem ascending_bindings
    (name : Option String) (e : Expr) {env : Env}
    (h : Dict.Ascending env.bindings) :
    Dict.Ascending (endState (eval name e env)).bindings := by
  refine eval_keeps (P := fun env => Dict.Ascending env.bindings) name ?_ ?_ h
  · intro env x d v _ henv
    exact Env.ascending_assign henv x v
  · intro env d verdict _ henv
    exact henv

end Allotment
