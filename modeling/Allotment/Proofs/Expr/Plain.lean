import Allotment.Expr.ToJson
import Allotment.Proofs.Eval.Appending
import Allotment.Proofs.Expr.Fields

/-!
# Values that stand for themselves

In a definition an object with the entry `op` is an operator, also inside lists, and what is
inside an operator or another object is none of its own.  A value without operators, even if it
has such objects deeper inside, stands for itself: it is read as an expression that is written
as the value and evaluated to it.

**Results.**
* `Json.exists_quote`: a value without operators stands for itself.
* `run_quote`: a definition that sets one variable to such a value binds it to the value.
-/

namespace Allotment

open Stateful

namespace Json

mutual

/-- The value is an operator, or holds one in a list. -/
def holdsOperator : Json → Bool
  | .array items => anyOperator items
  | .object fields => Dict.contains fields "op"
  | _ => false

/-- A value of the list is an operator, or holds one in a list. -/
def anyOperator : List Json → Bool
  | [] => false
  | v :: rest => holdsOperator v || anyOperator rest

end

end Json

namespace Expr

/-- The expression stands for the value. -/
structure Quotes (x : Expr) (v : Json) : Prop where
  read : ofJson v = .ok x
  written : x.toJson = v
  evaluated : ∀ (name : Option String) (env : Env), env.isHalted = false →
    eval name x env = .ok v env

/-- The expressions stand for the values of a list. -/
structure QuotesAll (xs : List Expr) (vs : List Json) : Prop where
  read : ofItems vs = .ok xs
  written : toItems xs = vs
  evaluated : ∀ env : Env, env.isHalted = false → evalItems xs env = .ok vs env

theorem Quotes.of_value
    {v : Json} (h : ofJson v = .ok (.value v)) :
    (Expr.value v).Quotes v where
  read := h
  written := by rw [toJson]
  evaluated name env henv := by
    rw [eval]
    exact Run.unlessHalted_of_live henv _

theorem QuotesAll.nil : QuotesAll [] [] where
  read := by rw [ofItems]
  written := by rw [toItems]
  evaluated env _ := by
    rw [evalItems]
    rfl

theorem QuotesAll.cons
    {x : Expr} {v : Json} {xs : List Expr} {vs : List Json}
    (hx : x.Quotes v) (hxs : QuotesAll xs vs) :
    QuotesAll (x :: xs) (v :: vs) where
  read := by
    rw [ofItems, hx.read]
    simp only [hxs.read]
  written := by rw [toItems, hx.written, hxs.written]
  evaluated env henv := by
    rw [evalItems, bind_of_ok (hx.evaluated none env henv),
      bind_of_ok (hxs.evaluated env henv)]
    rfl

theorem QuotesAll.list
    {xs : List Expr} {vs : List Json} (h : QuotesAll xs vs) :
    (Expr.list xs).Quotes (.array vs) where
  read := by
    rw [ofJson_array, h.read]
    rfl
  written := by rw [toJson, h.written]
  evaluated name env henv := by
    rw [eval, Run.unlessHalted_of_live henv, bind_of_ok (h.evaluated env henv)]
    rfl

end Expr

namespace Json

mutual

/-- A value without operators stands for itself. -/
theorem exists_quote :
    ∀ v : Json, v.holdsOperator = false → ∃ x : Expr, x.Quotes v
  | .null, _ => ⟨_, .of_value rfl⟩
  | .bool b, _ => ⟨_, .of_value rfl⟩
  | .number n, _ => ⟨_, .of_value rfl⟩
  | .string s, _ => ⟨_, .of_value rfl⟩
  | .array items, h => by
      rw [holdsOperator] at h
      obtain ⟨xs, hxs⟩ := exists_quotes items h
      exact ⟨.list xs, hxs.list⟩
  | .object fields, h => by
      -- Without the entry `op` the object is read as a whole, whatever is inside.
      rw [holdsOperator, Dict.contains, Option.isSome_eq_false_iff, Option.isNone_iff_eq_none] at h
      exact ⟨_, .of_value (Expr.ofJson_plain h)⟩

theorem exists_quotes :
    ∀ vs : List Json, anyOperator vs = false → ∃ xs : List Expr, Expr.QuotesAll xs vs
  | [], _ => ⟨[], .nil⟩
  | v :: rest, h => by
      rw [anyOperator, Bool.or_eq_false_iff] at h
      obtain ⟨x, hx⟩ := exists_quote v h.1
      obtain ⟨xs, hxs⟩ := exists_quotes rest h.2
      exact ⟨x :: xs, .cons hx hxs⟩

end

end Json

section Binding

variable {x : Expr} {v : Json} {key : String} {env : Env}

theorem eval_set_of_ok
    {env' : Env} (name : Option String) (hlive : env.isHalted = false)
    (hfree : env.isOverridden key = false) (h : eval (some key) x env = .ok v env') :
    eval name (.set key x) env = .ok .null (env'.assign key v) := by
  have hget : (get : Run Env) env = .ok env env := rfl
  rw [eval, Run.unlessHalted_of_live hlive]
  unfold Run.unlessOverridden
  rw [bind_of_ok hget, hfree]
  exact (bind_of_ok h _).trans rfl

/-- Without a halt and without overrides, an assignment binds. -/
theorem Env.bindings_assign
    (hlive : env.isHalted = false) (hfree : env.isOverridden key = false) (v : Json) :
    (env.assign key v).bindings = Dict.insert env.bindings key v ∧
      (env.assign key v).halted = env.halted := by
  unfold assign
  rw [hlive]
  have hsalt : ∀ salt, isOverridden { env with salt := salt } key = false := fun _ => hfree
  by_cases hkey : key = saltVariable
  · simp [hkey, bind, hkey ▸ hsalt]
  · simp [hkey, bind, hfree]

/-- A definition that sets one variable to a value that stands for itself binds the variable to
the value, and everybody takes part. -/
theorem run_quote
    (hx : x.Quotes v) (key : String) (salt : String) (inputs : Dict Json) :
    ∃ w env', Definition.run ⟨.seq [.set key x]⟩ { salt, inputs } = .ok w env' ∧
      env'.bindings = [(key, v)] ∧ env'.takesPart = true := by
  let env : Env := { salt, inputs }
  have hlive : env.isHalted = false := rfl
  have hfree : env.isOverridden key = false := rfl
  have hset : eval none (.set key x) env = .ok .null (env.assign key v) :=
    eval_set_of_ok none hlive hfree (hx.evaluated (some key) env hlive)
  obtain ⟨hbindings, hhalted⟩ := Env.bindings_assign hlive hfree v
  refine ⟨.null, env.assign key v, ?_, hbindings, ?_⟩
  · have hseq : Definition.run ⟨.seq [.set key x]⟩ env = evalSeq .null [.set key x] env :=
      Run.unlessHalted_of_live rfl _
    rw [hseq, evalSeq_cons_of_ok hset]
    split
    · rfl
    · rfl
  · unfold Env.takesPart
    rw [hhalted]
    rfl

end Binding

end Allotment
