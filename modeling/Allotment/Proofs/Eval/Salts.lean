import Allotment.Definition
import Allotment.Proofs.Eval.Simulation

/-!
# Salts of draws by name

A draw that stands directly as the value of a setting may do without a salt: it then has the name
of the variable.  Writing these names into the definition as salts changes nothing about what the
definition does.

**Results.**
* `eval_withSalts`: an expression comes to the same with its salts written out.
* `Definition.salts_are_names`: so does a definition, which then has no draw without a salt as the
  value of a setting.
-/

namespace Allotment

open Stateful

namespace Expr

/-- A draw with the name as its salt, if it has none; any other expression as it is. -/
def salted (x : String) : Expr → Expr
  | .random draw unit none fullSalt => .random draw unit (some x) fullSalt
  | e => e

/-- The expression in which every draw that is the value of a setting has a salt: its own one or
else the name of the variable. -/
def withSalts (e : Expr) : Expr := e.revise salted

theorem salted_ne_unsalted
    (x : String) (e : Expr) (draw : Lottery Expr) (unit : Expr) (fullSalt : Option String) :
    salted x e ≠ .random draw unit none fullSalt := by
  cases e with
  | random draw unit salt fullSalt => cases salt <;> simp [salted]
  | _ => simp [salted]

/-- No setting comes in by a salt. -/
theorem mem_nodes_of_salted
    {x y : String} {d e : Expr} (h : .set y d ∈ (salted x e).nodes) :
    .set y d ∈ e.nodes := by
  cases e with
  | random draw unit salt fullSalt =>
      cases salt with
      | none =>
          rcases List.mem_cons.1 h with heq | h
          · cases heq
          · exact List.mem_cons_of_mem _ h
      | some salt => exact h
  | _ => exact h

theorem not_mem_nodes_withSalts
    (e : Expr) (x : String) (draw : Lottery Expr) (unit : Expr) (fullSalt : Option String) :
    .set x (.random draw unit none fullSalt) ∉ e.withSalts.nodes := by
  induction e using induction_on_parts with
  | step e ih =>
      intro hmem
      rcases mem_nodes.1 hmem with heq | ⟨p, hp, hpart⟩
      · cases e with
        | set y d =>
            injection heq with _ hvalue
            exact salted_ne_unsalted _ _ _ _ _ hvalue.symm
        | _ => cases heq
      · rw [withSalts, parts_revise] at hp
        split at hp
        · rename_i y d
          rw [List.mem_singleton.1 hp] at hpart
          exact ih d List.mem_cons_self (mem_nodes_of_salted hpart)
        · obtain ⟨q, hq, rfl⟩ := List.mem_map.1 hp
          exact ih q hq hpart

end Expr

theorem eval_salted (x : String) (e : Expr) :
    eval (some x) (e.salted x) = eval (some x) e := by
  cases e with
  | random draw unit salt fullSalt => cases salt <;> rfl
  | _ => rfl

theorem unnoticed_salted : Unnoticed (fun a b => a = b ∧ True) Expr.salted := by
  rintro a b - x e
  rw [eval, eval, eval_salted]

/-- With its salts written out, an expression comes to the same. -/
theorem eval_withSalts (name : Option String) (e : Expr) (env : Env) :
    eval name e.withSalts env = eval name e env := by
  have hrespects : Respects (fun a b => a = b ∧ True) e.nodes :=
    .of_kept (fun _ _ _ _ _ _ => trivial) (fun _ _ _ _ _ => trivial)
  have hstep := eval_revised unnoticed_salted e name hrespects
  exact ((hstep env env ⟨rfl, trivial⟩).eq fun h => h.1).symm

namespace Definition

/-- The definition with the salts of its draws written out. -/
def withSalts (d : Definition) : Definition := ⟨d.root.withSalts⟩

/-- The salts that are not written are the names of the variables: with all of them written out a
definition comes to the same value or fault, in the same environment, and nowhere has a setting a
draw without a salt as its value any more. -/
theorem salts_are_names (d : Definition) :
    (∀ env : Env, d.withSalts.run env = d.run env) ∧
    ∀ x draw unit fullSalt, .set x (.random draw unit none fullSalt) ∉ d.withSalts.root.nodes :=
  ⟨eval_withSalts none d.root, d.root.not_mem_nodes_withSalts⟩

/-- A salt is written out where a draw is the value itself, at every depth, and not where it is
deeper inside the value. -/
example :
    let draw (salt : Option String) : Expr :=
      .random (.uniformChoice (.get "choices")) (.get "userid") salt none
    withSalts ⟨.cond [(.set "a" (draw none), .set "b" (.list [draw none, .set "c" (draw none)])),
      (draw none, .set "d" (draw (some "s")))]⟩ =
    ⟨.cond [(.set "a" (draw (some "a")), .set "b" (.list [draw none, .set "c" (draw (some "c"))])),
      (draw none, .set "d" (draw (some "s")))]⟩ :=
  rfl

end Definition

end Allotment
