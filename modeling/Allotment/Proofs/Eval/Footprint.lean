import Allotment.Proofs.Eval.Recording

/-!
# The footprint of an evaluation

What an evaluation binds is said by its changes, and by name already by the settings of the
expression.  Every other variable keeps its binding.

**Results.**
* `Env.get?_replay`: changes leave alone what they do not bind.
* `get?_eval_of_not_assigned`: an evaluation leaves alone what no setting names.
-/

namespace Allotment

open Stateful

namespace Expr

/-- The variable of a setting. -/
def assigned? : Expr → Option String
  | .set x _ => some x
  | _ => none

/-- The variables of all settings in an expression. -/
def assigned (e : Expr) : List String := e.nodes.filterMap assigned?

theorem mem_assigned {e : Expr} {x : String} :
    x ∈ e.assigned ↔ ∃ d, .set x d ∈ e.nodes := by
  constructor
  · intro h
    obtain ⟨n, hn, hx⟩ := List.mem_filterMap.1 h
    cases n with
    | set y d =>
        obtain rfl : y = x := Option.some.inj hx
        exact ⟨d, hn⟩
    | _ => contradiction
  · rintro ⟨d, hd⟩
    exact List.mem_filterMap.2 ⟨_, hd, rfl⟩

end Expr

/-- The variables that are bound by changes, in their order. -/
def boundVariables (cs : List Change) : List String := cs.filterMap Change.bound?

theorem boundVariables_cons (c : Change) (cs : List Change) :
    boundVariables (c :: cs) = c.bound?.toList ++ boundVariables cs := by
  cases c <;> rfl

theorem mem_boundVariables
    {cs : List Change} {x : String} (h : x ∈ boundVariables cs) :
    ∃ v, .bind x v ∈ cs := by
  obtain ⟨c, hc, hx⟩ := List.mem_filterMap.1 h
  cases c with
  | bind y v =>
      obtain rfl : y = x := Option.some.inj hx
      exact ⟨v, hc⟩
  | halt v => contradiction

namespace Env

variable {env : Env} {y : String}

theorem get?_bindings_bind {x : String} (v : Json) (h : y ≠ x) :
    Dict.get? (env.bind x v).bindings y = Dict.get? env.bindings y := by
  unfold bind
  split
  · rfl
  · exact Dict.get?_insert_of_ne _ v h

theorem get?_change {c : Change} (h : y ∉ c.bound?) :
    Dict.get? (env.change c).bindings y = Dict.get? env.bindings y := by
  cases c with
  | bind x v =>
      have hy : y ≠ x := fun hyx => h (congrArg some hyx.symm)
      unfold change
      rw [get?_bindings_bind v hy]
      split
      · rfl
      · rfl
  | halt v => rfl

/-- Changes leave alone what they do not bind. -/
theorem get?_replay
    {cs : List Change} (h : y ∉ boundVariables cs) :
    Dict.get? (env.replay cs).bindings y = Dict.get? env.bindings y := by
  induction cs generalizing env with
  | nil => rfl
  | cons c cs ih =>
      rw [boundVariables_cons, List.mem_append, not_or, Option.mem_toList] at h
      rw [replay_cons, ih h.2, get?_change h.1]

end Env

section Evaluation

variable {e : Expr} {name : Option String} {env : Env} {y : String}

/-- What an evaluation does not bind, it leaves alone. -/
theorem get?_eval_of_not_bound
    (h : y ∉ boundVariables (changes name e env)) :
    Dict.get? (endState (eval name e env)).bindings y = Dict.get? env.bindings y := by
  have hrecorded := eval_records e name (List.Subset.refl e.nodes) env
  rw [← hrecorded.replay]
  exact Env.get?_replay h

/-- What an evaluation binds is the variable of a setting. -/
theorem assigned_of_bound
    (h : y ∈ boundVariables (changes name e env)) :
    y ∈ e.assigned := by
  have hrecorded := eval_records e name (List.Subset.refl e.nodes) env
  obtain ⟨v, hv⟩ := mem_boundVariables h
  exact Expr.mem_assigned.2 (hrecorded.origin _ hv)

/-- What no setting names, an evaluation leaves alone. -/
theorem get?_eval_of_not_assigned
    (h : y ∉ e.assigned) :
    Dict.get? (endState (eval name e env)).bindings y = Dict.get? env.bindings y :=
  get?_eval_of_not_bound fun hy => h (assigned_of_bound hy)

end Evaluation

end Allotment
