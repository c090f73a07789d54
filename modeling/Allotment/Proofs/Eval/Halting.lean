import Allotment.Definition
import Allotment.Proofs.Eval.Recording

/-!
# After a return

A return does not unwind: the operators around it go on, with null for every operand that is
still to come.  Its changes show what they can still do.  They complete returns of their own,
and they bind nothing.

**Results.**
* `eval_of_halted`: in a halted environment an expression comes to null and changes nothing.
* `Env.forall_mem_course`: what every change keeps, holds along a course.
* `nothing_bound_after_return`: along an evaluation, the bindings and the salt stay as they are
  from the first halted environment on.
-/

namespace Allotment

open Stateful

theorem Run.unlessHalted_of_halted
    {env : Env} (h : env.isHalted = true) (x : Run Json) :
    Run.unlessHalted x env = .ok .null env := by
  show (if env.isHalted then pure .null else x : Run Json) env = .ok .null env
  rw [if_pos h]
  rfl

theorem Run.unlessHalted_of_live
    {env : Env} (h : env.isHalted = false) (x : Run Json) :
    Run.unlessHalted x env = x env := by
  show (if env.isHalted then pure .null else x : Run Json) env = x env
  rw [h]
  rfl

/-- In a halted environment there is nothing to be evaluated. -/
theorem eval_of_halted
    (name : Option String) (e : Expr) {env : Env} (h : env.isHalted = true) :
    eval name e env = .ok .null env := by
  cases e <;> exact Run.unlessHalted_of_halted h _

theorem changes_of_halted
    (name : Option String) (e : Expr) {env : Env} (h : env.isHalted = true) :
    changes name e env = [] := by
  cases e <;> exact if_pos h

namespace Env

/-- Completed returns do not bind. -/
theorem change_of_return
    (env : Env) {c : Change} (h : c.isReturn = true) :
    (env.change c).bindings = env.bindings ∧ (env.change c).salt = env.salt := by
  cases c with
  | bind x v => contradiction
  | halt v => exact ⟨rfl, rfl⟩

theorem course_cons (env : Env) (c : Change) (cs : List Change) :
    env.course (c :: cs) = env :: (env.change c).course cs :=
  List.scanl_cons

/-- What every change keeps, holds along a course. -/
theorem forall_mem_course
    {P : Env → Prop} {env : Env} {cs : List Change} (henv : P env)
    (hcs : ∀ c ∈ cs, ∀ moment, P moment → P (moment.change c)) :
    ∀ moment ∈ env.course cs, P moment := by
  induction cs generalizing env with
  | nil => simpa [course] using henv
  | cons c cs ih =>
      rw [course_cons]
      refine List.forall_mem_cons.2 ⟨henv, ih (hcs c List.mem_cons_self env henv) ?_⟩
      exact fun d hd => hcs d (List.mem_cons_of_mem c hd)

/-- A course of completed returns from a halted environment. -/
theorem course_of_returns
    {env : Env} {cs : List Change}
    (henv : env.isHalted = true) (hcs : ∀ c ∈ cs, c.isReturn = true) :
    ∀ b ∈ env.course cs,
      b.isHalted = true ∧ b.bindings = env.bindings ∧ b.salt = env.salt := by
  refine forall_mem_course ⟨henv, rfl, rfl⟩ ?_
  rintro c hc moment ⟨hhalted, hbindings, hsalt⟩
  obtain ⟨hbindings', hsalt'⟩ := change_of_return moment (hcs c hc)
  refine ⟨?_, hbindings'.trans hbindings, hsalt'.trans hsalt⟩
  rw [isHalted_change, hhalted, Bool.true_or]

/-- If nothing is bound after a return, then bindings and salt stay from the first halted
environment of the course on. -/
theorem pairwise_course
    {env : Env} {cs : List Change}
    (henv : env.isHalted = true → ∀ c ∈ cs, c.isReturn = true)
    (hcs : cs.Pairwise fun c d => c.isReturn = true → d.isReturn = true) :
    (env.course cs).Pairwise fun a b => a.isHalted = true →
      b.isHalted = true ∧ b.bindings = a.bindings ∧ b.salt = a.salt := by
  induction cs generalizing env with
  | nil => exact List.pairwise_singleton _ _
  | cons c cs ih =>
      obtain ⟨hc, hcs⟩ := List.pairwise_cons.1 hcs
      rw [course_cons]
      refine List.pairwise_cons.2 ⟨?_, ih ?_ hcs⟩
      · intro b hb hhalted
        have hb' : b ∈ env.course (c :: cs) := by
          rw [course_cons]
          exact List.mem_cons_of_mem _ hb
        exact course_of_returns hhalted (henv hhalted) b hb'
      · intro hhalted d hd
        rw [isHalted_change, Bool.or_eq_true] at hhalted
        rcases hhalted with hhalted | hreturn
        · exact henv hhalted d (List.mem_cons_of_mem _ hd)
        · exact hc d hd hreturn

end Env

/-- An evaluation goes from its first to its last environment by its changes.  From the first
halted one on, the bindings and the salt stay as they are, whether it ends with a value or a
fault; and whatever is evaluated or run in a halted environment comes to null without a change. -/
theorem nothing_bound_after_return (name : Option String) (e : Expr) (env : Env) :
    let moments := env.course (changes name e env)
    moments.head? = some env ∧
    moments.getLast? = some (endState (eval name e env)) ∧
    (moments.Pairwise fun a b => a.isHalted = true →
      b.isHalted = true ∧ b.bindings = a.bindings ∧ b.salt = a.salt) ∧
    ∀ ended : Env, ended.isHalted = true →
      (∀ name' e', eval name' e' ended = .ok .null ended) ∧
      ∀ d : Definition, d.run ended = .ok .null ended := by
  have hrecorded := eval_records e name (List.Subset.refl e.nodes) env
  refine ⟨List.head?_scanl, ?_, ?_, ?_⟩
  · rw [← hrecorded.replay]
    exact List.getLast?_scanl
  · exact Env.pairwise_course hrecorded.halted hrecorded.sealed
  · intro ended hended
    exact ⟨fun name' e' => eval_of_halted name' e' hended,
      fun d => eval_of_halted none d.root hended⟩

end Allotment
