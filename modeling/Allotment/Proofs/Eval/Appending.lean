import Allotment.Proofs.Eval.Footprint
import Allotment.Proofs.Eval.Halting
import Allotment.Record.Experiment

/-!
# Appended variables

A variable that is appended to a definition is set last.  A run that fails or ends by a return
does not get there, and any other run has bound all earlier variables by then.  So nobody's
assignment changes when an experiment is given more variables.

**Results.**
* `evalSeq_append`: a sequence is evaluated up to a place and then from there.
* `Definition.appended_keeps_assignments`: runs before and after variables are appended.
* `Experiment.addVariables_goesOn`: the same for an experiment that is given variables.
-/

namespace Allotment

open Stateful
open EStateM (Result)

section Sequence

variable {e : Expr} {rest : List Expr} {last v : Json} {env env' : Env} {fault : Fault}

theorem evalSeq_cons_of_ok (h : eval none e env = .ok v env') :
    evalSeq last (e :: rest) env =
      if env'.isHalted then .ok v env' else evalSeq v rest env' := by
  have hcons : evalSeq last (e :: rest) env =
      (do if (← get).isHalted then return v else evalSeq v rest : Run Json) env' :=
    bind_of_ok h _
  rw [hcons]
  show (if env'.isHalted then pure v else evalSeq v rest : Run Json) env' = _
  split
  · rfl
  · rfl

theorem evalSeq_cons_of_error (h : eval none e env = .error fault env') :
    evalSeq last (e :: rest) env = .error fault env' :=
  bind_of_error h _

theorem endState_evalSeq_singleton (last : Json) (e : Expr) (env : Env) :
    endState (evalSeq last [e] env) = endState (eval none e env) := by
  cases h : eval none e env with
  | ok v env' =>
      rw [evalSeq_cons_of_ok h]
      split
      · rfl
      · rfl
  | error fault env' =>
      rw [evalSeq_cons_of_error h]

/-- A sequence is evaluated up to a place and, if there is neither a fault nor a halt, from there
on with the value that it had. -/
theorem evalSeq_append (es fs : List Expr) (last : Json) (henv : env.isHalted = false) :
    evalSeq last (es ++ fs) env =
      match evalSeq last es env with
      | .ok v env' => if env'.isHalted then .ok v env' else evalSeq v fs env'
      | .error fault env' => .error fault env' := by
  -- Without a first expression it is the start that has to be without a halt.
  induction es generalizing last env with
  | nil =>
      show evalSeq last fs env = if env.isHalted then .ok last env else evalSeq last fs env
      rw [henv, if_neg Bool.false_ne_true]
  | cons e es ih =>
      rw [List.cons_append]
      cases h : eval none e env with
      | error fault env' =>
          rw [evalSeq_cons_of_error h, evalSeq_cons_of_error h]
      | ok v env' =>
          rw [evalSeq_cons_of_ok h, evalSeq_cons_of_ok h]
          cases hhalted : env'.isHalted with
          | true => simp [hhalted]
          | false => simpa using ih v hhalted

end Sequence

/-- The second result goes on from the first one: from a fault or a halt not at all, and from any
other value to whatever leaves the bindings of all but some variables. -/
inductive GoesOn (others : List String) :
    Result Fault Env Json → Result Fault Env Json → Prop
  | failed (fault : Fault) (env : Env) :
      GoesOn others (.error fault env) (.error fault env)
  | ended (v : Json) {env : Env} (h : env.isHalted = true) :
      GoesOn others (.ok v env) (.ok v env)
  | further (v : Json) {env : Env} {r : Result Fault Env Json} (h : env.isHalted = false)
      (hkeeps : ∀ y, y ∉ others →
        Dict.get? (endState r).bindings y = Dict.get? env.bindings y) :
      GoesOn others (.ok v env) r

namespace GoesOn

variable {others more : List String} {r q s : Result Fault Env Json}

theorem refl (r : Result Fault Env Json) : GoesOn others r r := by
  cases r with
  | error fault env => exact .failed fault env
  | ok v env =>
      cases h : env.isHalted with
      | true => exact .ended v h
      | false => exact .further v h fun _ _ => rfl

theorem trans (h : GoesOn others r q) (h' : GoesOn more q s) :
    GoesOn (others ++ more) r s := by
  -- Where the first run is over, so is the second, and the third can only be the same.
  cases h with
  | failed fault env =>
      cases h' with
      | failed => exact .failed fault env
  | @ended v env hhalted =>
      cases h' with
      | ended => exact .ended v hhalted
      | further _ hlive _ =>
          rw [hhalted] at hlive
          contradiction
  | further v hlive hkeeps =>
      refine .further v hlive fun y hy => ?_
      rw [List.mem_append, not_or] at hy
      rw [← hkeeps y hy.1]
      cases h' with
      | failed => rfl
      | ended => rfl
      | further _ _ hkeeps' => exact hkeeps' y hy.2

end GoesOn

/-- The variables of entries that are appended: their own and those that are set inside their
values. -/
def appendedVariables (entries : List (String × Json)) : List String :=
  entries.flatMap fun entry => entry.1 ::
    match Expr.ofJson entry.2 with
    | .ok e => e.assigned
    | .error _ => []

theorem appendedVariables_cons (entry : String × Json) (rest : List (String × Json)) :
    appendedVariables (entry :: rest) = appendedVariables [entry] ++ appendedVariables rest := by
  simp [appendedVariables]

namespace Definition

variable {d d' : Definition} {x : String} {v : Json} {entries : List (String × Json)}

/-- Appends the settings of some variables, one after the other. -/
def appendSets (d : Definition) (entries : List (String × Json)) : Except Fault Definition :=
  entries.foldlM (fun d entry => d.appendSet entry.1 entry.2) d

/-- What is appended to is a sequence. -/
theorem of_appendSet_eq_ok (h : d.appendSet x v = .ok d') :
    ∃ body e, d = ⟨.seq body⟩ ∧ Expr.ofJson v = .ok e ∧ d' = ⟨.seq (body ++ [.set x e])⟩ := by
  obtain ⟨root⟩ := d
  unfold appendSet at h
  cases he : Expr.ofJson v with
  | error fault =>
      rw [he] at h
      contradiction
  | ok e =>
      rw [he] at h
      cases root with
      | seq body =>
          cases h
          exact ⟨body, e, rfl, rfl, rfl⟩
      | _ => simp [Expr.operator?] at h

theorem run_appendSet (h : d.appendSet x v = .ok d') (env : Env) :
    GoesOn (appendedVariables [(x, v)]) (d.run env) (d'.run env) := by
  obtain ⟨body, e, rfl, he, rfl⟩ := of_appendSet_eq_ok h
  have hnames : appendedVariables [(x, v)] = (Expr.set x e).assigned := by
    simp [appendedVariables, he, Expr.assigned, Expr.nodes, Expr.assigned?]
  rw [hnames]
  cases henv : env.isHalted with
  | true =>
      have hrun : ∀ d : Definition, d.run env = .ok .null env :=
        fun d => eval_of_halted none d.root henv
      rw [hrun, hrun]
      exact .refl _
  | false =>
      have hrun : ∀ es, run ⟨.seq es⟩ env = evalSeq .null es env :=
        fun es => Run.unlessHalted_of_live henv _
      rw [hrun, hrun, evalSeq_append body _ .null henv]
      cases evalSeq .null body env with
      | error fault env' => exact .failed fault env'
      | ok w env' =>
          cases hlive : env'.isHalted with
          | true => simpa [hlive] using GoesOn.ended w hlive
          | false =>
              refine .further w hlive fun y hy => ?_
              simp only [hlive, Bool.false_eq_true, if_false]
              rw [endState_evalSeq_singleton]
              exact get?_eval_of_not_assigned hy

/-- Appended variables keep all assignments: a run that fails, or ends by a return, is the same
as before, and any other one leaves every variable as it was that is neither appended nor set
inside an appended value. -/
theorem appended_keeps_assignments (h : d.appendSets entries = .ok d') (env : Env) :
    GoesOn (appendedVariables entries) (d.run env) (d'.run env) := by
  induction entries generalizing d with
  | nil =>
      cases h
      exact .refl _
  | cons entry rest ih =>
      unfold appendSets at h
      rw [List.foldlM_cons] at h
      cases hfirst : d.appendSet entry.1 entry.2 with
      | error fault =>
          rw [hfirst] at h
          contradiction
      | ok next =>
          rw [hfirst] at h
          rw [appendedVariables_cons]
          exact (run_appendSet hfirst env).trans (ih h)

/-- A shirt gets a fit, whose value sets a size besides, and a cut. -/
theorem sample_appended :
    let fit : Json :=
      .object [("op", .string "set"), ("value", .string "big"), ("var", .string "size")]
    let d : Definition := ⟨.seq [.set "color" (.value (.string "red"))]⟩
    let d' : Definition := ⟨.seq [.set "color" (.value (.string "red")),
      .set "fit" (.set "size" (.value (.string "big"))), .set "cut" (.value (.string "slim"))]⟩
    let env : Env := { salt := "s", inputs := [] }
    d.appendSets [("fit", fit), ("cut", .string "slim")] = .ok d' ∧
      appendedVariables [("fit", fit), ("cut", .string "slim")] = ["fit", "size", "cut"] ∧
      Dict.get? (endState (d'.run env)).bindings "color" = some (.string "red") := by
  intro fit d d' env
  have happend : d.appendSets [("fit", fit), ("cut", .string "slim")] = .ok d' := rfl
  have hnames : appendedVariables [("fit", fit), ("cut", .string "slim")] =
      ["fit", "size", "cut"] := rfl
  have hrun : d.run env = .ok .null { env with bindings := [("color", .string "red")] } := rfl
  refine ⟨happend, hnames, ?_⟩
  have hon := appended_keeps_assignments happend env
  rw [hrun, hnames] at hon
  cases hon with
  | further _ _ hkeeps => exact hkeeps "color" (by decide)

end Definition

/-- An experiment that is given variables keeps its assignments, also where a value is refused
and the variables before it stay appended. -/
theorem Experiment.addVariables_goesOn (e : Experiment) (vars : List (String × Json)) (env : Env) :
    GoesOn (appendedVariables vars) (e.definition.run env)
      ((e.addVariables vars).1.definition.run env) := by
  induction vars generalizing e with
  | nil => exact .refl _
  | cons entry rest ih =>
      obtain ⟨x, v⟩ := entry
      unfold addVariables addVariable
      rw [appendedVariables_cons]
      cases h : e.definition.appendSet x v with
      | error fault => exact .refl _
      | ok d => exact (Definition.run_appendSet h env).trans (ih { e with definition := d })

end Allotment
