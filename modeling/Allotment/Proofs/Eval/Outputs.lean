import Allotment.Definition
import Allotment.Proofs.Eval.Footprint
import Allotment.Proofs.Expr.Parts

/-!
# Outputs and what a run binds

A run binds a variable wherever a setting of it is evaluated.  The outputs are the variables of
the settings to which a search from the root comes, and the search does not enter the operands of
a computation.  So a run can bind more than the outputs say, by settings among such operands and
by no others.

**Results.**
* `Expr.mem_outputs`: an output is the variable of a setting that is in sight.
* `Expr.inSight_of_mem_nodes`: with settings in the open, all of them are in sight.
* `Definition.bound_in_outputs_iff`: which of the variables that a run binds are outputs.
-/

namespace Allotment

open Stateful

namespace Expr

/-- The search for outputs does not enter the parts. -/
def hides : Expr → Bool
  | .map _ => true
  | .index _ _ => true
  | .compare _ _ _ => true
  | .aggregate _ _ => true
  | .arithmetic _ _ _ => true
  | .unary _ _ => true
  | .random _ _ _ _ => true
  | _ => false

/-- The search from the root comes to the node. -/
inductive InSight (root : Expr) : Expr → Prop
  | root : InSight root root
  | part {n p : Expr} (h : InSight root n) (hopen : n.hides = false) (hp : p ∈ n.parts) :
      InSight root p

theorem settingsAll_eq (es : List Expr) : settingsAll es = es.flatMap settings := by
  induction es with
  | nil => rfl
  | cons e es ih => rw [settingsAll, ih, List.flatMap_cons]

theorem settingsBranches_eq (bs : List (Expr × Expr)) :
    settingsBranches bs = (bs.flatMap fun b => [b.1, b.2]).flatMap settings := by
  induction bs with
  | nil => rfl
  | cons b bs ih => simp [settingsBranches, ih]

theorem settings_eq (e : Expr) :
    settings e = e.assigned?.toList ++ if e.hides then [] else e.parts.flatMap settings := by
  cases e <;>
    simp [settings, assigned?, hides, parts, settingsAll_eq, settingsBranches_eq]

theorem mem_settings {e : Expr} {x : String} :
    x ∈ settings e ↔
      e.assigned? = some x ∨ e.hides = false ∧ ∃ p ∈ e.parts, x ∈ settings p := by
  rw [settings_eq, List.mem_append, Option.mem_toList]
  cases e.hides with
  | true => simp
  | false => simp

theorem assigned?_eq_some {e : Expr} {x : String} (h : e.assigned? = some x) :
    ∃ d, e = .set x d := by
  cases e with
  | set y d => exact ⟨d, congrArg (Expr.set · d) (Option.some.inj h)⟩
  | _ => contradiction

namespace InSight

variable {e p n : Expr}

/-- What is in sight from a part is in sight from the whole. -/
theorem of_part
    (hopen : e.hides = false) (hp : p ∈ e.parts) (h : p.InSight n) :
    e.InSight n := by
  induction h with
  | root => exact .part .root hopen hp
  | part _ hn hq ih => exact .part ih hn hq

theorem settings_subset (h : e.InSight n) : settings n ⊆ settings e := by
  induction h with
  | root => exact List.Subset.refl _
  | part _ hn hp ih => exact fun x hx => ih (mem_settings.2 (Or.inr ⟨hn, _, hp, hx⟩))

end InSight

/-- An output is the variable of a setting that is in sight. -/
theorem mem_outputs {e : Expr} {x : String} :
    x ∈ e.outputs ↔ ∃ d, e.InSight (.set x d) := by
  unfold outputs
  rw [List.mem_eraseDups]
  constructor
  · intro hx
    induction e using induction_on_parts with
    | step e ih =>
        rcases mem_settings.1 hx with hset | ⟨hopen, p, hp, hx⟩
        · obtain ⟨d, rfl⟩ := assigned?_eq_some hset
          exact ⟨d, .root⟩
        · obtain ⟨d, hd⟩ := ih p hp hx
          exact ⟨d, hd.of_part hopen hp⟩
  · rintro ⟨d, hd⟩
    exact hd.settings_subset (mem_settings.2 (Or.inl rfl))

end Expr

/-- Among the nodes, no setting stands inside an operator whose parts the search for outputs
does not enter. -/
def SetsOpenly (nodes : List Expr) : Prop :=
  ∀ n ∈ nodes, n.hides = true → n.assigned = []

instance (nodes : List Expr) : Decidable (SetsOpenly nodes) :=
  inferInstanceAs (Decidable (∀ n ∈ nodes, n.hides = true → n.assigned = []))

/-- With settings in the open, all of them are in sight. -/
theorem Expr.inSight_of_mem_nodes
    {e d : Expr} {x : String} (hsets : SetsOpenly e.nodes) (hd : .set x d ∈ e.nodes) :
    e.InSight (.set x d) := by
  induction e using induction_on_parts with
  | step e ih =>
      rcases mem_nodes.1 hd with rfl | ⟨p, hp, hdp⟩
      · exact .root
      · have hsub : p.nodes ⊆ e.nodes := fun n hn => mem_nodes.2 (Or.inr ⟨p, hp, hn⟩)
        -- An expression that hides its parts has no setting, and this one has.
        have hopen : e.hides = false := by
          refine Bool.eq_false_iff.2 fun hhides => ?_
          have hx : x ∈ e.assigned := mem_assigned.2 ⟨d, hd⟩
          rw [hsets e (mem_nodes_self e) hhides] at hx
          contradiction
        exact (ih p hp (fun n hn => hsets n (hsub hn)) hdp).of_part hopen hp

namespace Definition

/-- The variables that a run binds, in the order in which it does. -/
def bound (d : Definition) (env : Env) : List String :=
  boundVariables (changes none d.root env)

/-- A variable that a run binds is an output exactly if a setting of it is in sight, and so all of
them are where settings stand in the open.  What the run does not bind it leaves alone. -/
theorem bound_in_outputs_iff (d : Definition) (env : Env) :
    (∀ x, x ∉ d.bound env →
      Dict.get? (endState (d.run env)).bindings x = Dict.get? env.bindings x) ∧
    ∀ x ∈ d.bound env,
      (x ∈ d.outputs ↔ ∃ e, d.root.InSight (.set x e)) ∧
      (SetsOpenly d.root.nodes → x ∈ d.outputs) := by
  refine ⟨fun x hx => get?_eval_of_not_bound hx, fun x hx => ⟨Expr.mem_outputs, fun hsets => ?_⟩⟩
  obtain ⟨e, he⟩ := Expr.mem_assigned.1 (assigned_of_bound hx)
  exact Expr.mem_outputs.2 ⟨e, Expr.inSight_of_mem_nodes hsets he⟩

/-- Settings in a branch and in the value of another setting. -/
theorem sample_bound_in_outputs :
    let d : Definition := ⟨.seq [.cond [(.get "left", .seq [.set "color" (.value .null)])],
      .set "fit" (.set "size" (.value (.string "big")))]⟩
    let env : Env := { salt := "s", inputs := [("left", .bool true)] }
    d.bound env = ["color", "size", "fit"] ∧ SetsOpenly d.root.nodes ∧
      ∀ x ∈ d.bound env, x ∈ d.outputs := by
  intro d env
  have hsets : SetsOpenly d.root.nodes := by decide
  refine ⟨rfl, hsets, fun x hx => ?_⟩
  exact ((bound_in_outputs_iff d env).2 x hx).2 hsets

/-- A setting among the entries of a map binds a variable that is no output. -/
theorem bound_outside_outputs :
    ¬ ∀ (d : Definition) (env : Env), env.overrides = [] → ∀ x,
      Dict.get? (endState (d.run env)).bindings x ≠ Dict.get? env.bindings x →
        x ∈ d.outputs := by
  intro hall
  let d : Definition := ⟨.map [("a", .set "x" (.value (.bool true)))]⟩
  let env : Env := { salt := "s", inputs := [] }
  have hbound : Dict.get? (endState (d.run env)).bindings "x" = some (.bool true) := rfl
  have houtputs : d.outputs = [] := rfl
  have hx := hall d env rfl "x" (by rw [hbound]; exact Option.some_ne_none _)
  rw [houtputs] at hx
  contradiction

end Definition

end Allotment
