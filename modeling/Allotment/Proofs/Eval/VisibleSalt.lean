import Allotment.Proofs.Eval.Footprint
import Allotment.Proofs.Eval.Overrides

/-!
# The salt that shows

The salt of an environment is kept twice: as what the draws hash, and as the binding of the
variable of the salt, once there is one.  A setting of the variable changes both, in one step.

Overrides bind variables without a setting.  One of the variable of the salt is bound from the
start and no setting ever replaces it, so the environment keeps the salt that it was created with.

**Results.**
* `Env.SaltShown.change`: one change that binds no overridden variable keeps the two in agreement.
* `salt_shown`: so they agree in every environment, unless the variable of the salt is overridden.
* `overridden_salt_hidden`: an overridden variable of the salt does not show the salt.
-/

namespace Allotment

open Stateful

namespace Dict

variable {α : Type}

/-- What is not written over a dictionary is read as before. -/
theorem get?_override_of_not_mem
    {d e : Dict α} {x : String} (h : x ∉ keys e) :
    get? (override d e) x = get? d x := by
  unfold override
  induction e generalizing d with
  | nil => rfl
  | cons y rest ih =>
      obtain ⟨hy, hrest⟩ := not_or.1 (mt List.mem_cons.2 h)
      rw [List.foldl_cons, ih hrest, get?_insert_of_ne d y.2 hy]

end Dict

namespace Env

/-- What a client has an evaluator do in an environment. -/
inductive Call where
  | evaluate (e : Expr)
  | run (d : Definition)

namespace Call

/-- The expression that is evaluated. -/
def root : Call → Expr
  | evaluate e => e
  | run d => d.root

/-- The call carried out. -/
def perform : Call → Run Json
  | evaluate e => eval none e
  | run d => d.run

theorem perform_eq (c : Call) : c.perform = eval none c.root := by
  cases c with
  | evaluate e => rfl
  | run d => rfl

end Call

/-- The environment after calls, one after the other, whether they came to values or to faults. -/
def afterCalls (env : Env) (calls : List Call) : Env :=
  calls.foldl (fun env c => endState (c.perform env)) env

/-- The salt that the bindings show: what the variable of the salt is bound to, a string bare and
any other value as compact JSON; if it is not bound, the initial one. -/
def visibleSalt (initial : String) (env : Env) : String :=
  match Dict.get? env.bindings saltVariable with
  | some (.string s) => s
  | some v => v.compact
  | none => initial

section Visible

variable {initial : String} {env : Env}

theorem visibleSalt_of_bound
    {v : Json} (h : Dict.get? env.bindings saltVariable = some v) :
    env.visibleSalt initial = saltText v := by
  unfold visibleSalt
  rw [h]
  cases v <;> rfl

theorem visibleSalt_of_unbound
    (h : Dict.get? env.bindings saltVariable = none) :
    env.visibleSalt initial = initial := by
  unfold visibleSalt
  rw [h]

theorem visibleSalt_congr
    {env' : Env}
    (h : Dict.get? env'.bindings saltVariable = Dict.get? env.bindings saltVariable) :
    env'.visibleSalt initial = env.visibleSalt initial := by
  unfold visibleSalt
  rw [h]

end Visible

/-- The environment has these overrides.  Its salt is the one that shows or, if the variable of
the salt is overridden, the initial one. -/
structure SaltShown (initial : String) (overrides : Dict Json) (env : Env) : Prop where
  fixed : env.overrides = overrides
  salt : env.salt =
    if Dict.contains overrides saltVariable then initial else env.visibleSalt initial

theorem saltShown_withOverrides (initial : String) (inputs overrides : Dict Json) :
    (withOverrides { salt := initial, inputs } overrides).SaltShown initial overrides where
  fixed := rfl
  salt := by
    show initial = _
    split
    · rfl
    · rename_i hfree
      rw [Dict.contains_iff_mem_keys] at hfree
      exact (visibleSalt_of_unbound (Dict.get?_override_of_not_mem hfree)).symm

namespace SaltShown

variable {initial : String} {overrides : Dict Json} {env : Env}

/-- Where the variable of the salt is bound, the salt is replaced by the text of its value. -/
theorem bindSalt
    (h : env.SaltShown initial overrides) (hfree : env.isOverridden saltVariable = false)
    (v : Json) :
    (env.change (.bind saltVariable v)).SaltShown initial overrides where
  fixed := (overrides_bind _ _ v).trans h.fixed
  salt := by
    have hbound : Dict.get? (env.change (.bind saltVariable v)).bindings saltVariable = some v := by
      have hfree' : isOverridden { env with salt := saltText v } saltVariable = false := hfree
      simp only [change, if_true, bind, hfree', Bool.false_eq_true, if_false]
      exact Dict.get?_insert_self _ _ v
    have hsalt : (env.change (.bind saltVariable v)).salt = saltText v := by
      simp only [change, if_true, bind]
      split
      · rfl
      · rfl
    rw [isOverridden, h.fixed] at hfree
    rw [hsalt, hfree, visibleSalt_of_bound hbound]
    rfl

/-- Where another variable is bound, the salt stays, and so does its variable. -/
theorem bindOther
    (h : env.SaltShown initial overrides) {x : String} (hx : x ≠ saltVariable) (v : Json) :
    (env.change (.bind x v)).SaltShown initial overrides where
  fixed := by
    simp only [change, if_neg hx]
    exact (overrides_bind env x v).trans h.fixed
  salt := by
    have hsalt : (env.change (.bind x v)).salt = env.salt := by
      simp only [change, if_neg hx, bind]
      split
      · rfl
      · rfl
    have hkept : saltVariable ∉ (Change.bind x v).bound? := by
      rintro heq
      exact hx (Option.some.inj heq)
    rw [hsalt, h.salt, visibleSalt_congr (get?_change hkept)]

theorem change
    (h : env.SaltShown initial overrides) {c : Change}
    (hfree : ∀ x ∈ c.bound?, env.isOverridden x = false) :
    (env.change c).SaltShown initial overrides := by
  cases c with
  | bind x v =>
      by_cases hx : x = saltVariable
      · subst hx
        exact h.bindSalt (hfree _ rfl) v
      · exact h.bindOther hx v
  | halt v => exact ⟨h.fixed, h.salt⟩

/-- The salt shows at every moment of an evaluation. -/
theorem course
    (h : env.SaltShown initial overrides) (name : Option String) (e : Expr) :
    ∀ moment ∈ env.course (changes name e env), moment.SaltShown initial overrides := by
  have hrecorded := eval_records e name (List.Subset.refl e.nodes) env
  refine forall_mem_course h fun c hc moment hmoment => hmoment.change fun x hx => ?_
  have hfree := hrecorded.free c hc x hx
  rw [isOverridden, h.fixed] at hfree
  rw [isOverridden, hmoment.fixed]
  exact hfree

theorem call
    (h : env.SaltShown initial overrides) (c : Call) :
    (endState (c.perform env)).SaltShown initial overrides := by
  rw [c.perform_eq]
  exact h.course none c.root _ (List.mem_of_getLast? (getLast?_course none c.root env))

/-- The salt shows after any calls. -/
theorem afterCalls
    (h : env.SaltShown initial overrides) (calls : List Call) :
    (env.afterCalls calls).SaltShown initial overrides := by
  induction calls generalizing env with
  | nil => exact h
  | cons c rest ih => exact ih (h.call c)

end SaltShown

end Env

/-- In an environment that was created with a salt, inputs and any overrides, and has gone through
any calls, be they successful or not, the salt is the one that shows: the text of what the
variable of the salt is bound to, or the initial one if it is not bound.  If the variable is
overridden, the salt is the initial one.  The same holds at every moment of one more call, from
the environment in which it begins to the one that it leaves. -/
theorem salt_shown
    (initial : String) (inputs overrides : Dict Json) (earlier : List Env.Call) (c : Env.Call) :
    let start := (Env.withOverrides { salt := initial, inputs } overrides).afterCalls earlier
    let moments := start.course (changes none c.root start)
    moments.head? = some start ∧ moments.getLast? = some (endState (c.perform start)) ∧
    ∀ moment ∈ moments, moment.salt =
      if Dict.contains overrides Env.saltVariable then initial
      else moment.visibleSalt initial := by
  intro start moments
  have hstart : start.SaltShown initial overrides :=
    (Env.saltShown_withOverrides initial inputs overrides).afterCalls earlier
  refine ⟨List.head?_scanl, ?_, fun moment hmoment => (hstart.course none c.root _ hmoment).salt⟩
  rw [c.perform_eq]
  exact getLast?_course none c.root start

/-- The salt is set to a list by a call that ends with a fault, and to a string by the next one.
The list shows after the fault.  That another variable is overridden is of no account. -/
theorem sample_salt_shown :
    let overrides : Dict Json := [("color", .string "red")]
    let first : Expr := .seq [.set "experiment_salt" (.list [.value (.string "a"), .value .null]),
      .get "size"]
    let start := (Env.withOverrides { salt := "s", inputs := [] } overrides).afterCalls
      [.evaluate first]
    let c : Env.Call := .run ⟨.seq [.set "color" (.value .null),
      .set "experiment_salt" (.get "color")]⟩
    start.salt = "[\"a\",null]" ∧ (endState (c.perform start)).salt = "red" ∧
    (endState (c.perform start)).visibleSalt "s" = "red" := by
  intro overrides first start c
  obtain ⟨hhead, hlast, hshown⟩ := salt_shown "s" [] overrides [.evaluate first] c
  have hstart := hshown _ (List.mem_of_head? hhead)
  have hend := hshown _ (List.mem_of_getLast? hlast)
  exact ⟨hstart.trans rfl, hend.trans rfl, rfl⟩

/-- An overridden variable of the salt is bound, and the salt is another one: that of the
environment's creation. -/
theorem overridden_salt_hidden :
    ¬ ∀ (initial : String) (inputs overrides : Dict Json) (calls : List Env.Call),
      let env := (Env.withOverrides { salt := initial, inputs } overrides).afterCalls calls
      env.salt = env.visibleSalt initial := by
  intro hall
  have hfixed : "s" = "fixed" := hall "s" [] [("experiment_salt", .string "fixed")] []
  exact absurd hfixed (by decide)

end Allotment
