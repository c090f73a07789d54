import Allotment.Proofs.Eval.Ordered
import Allotment.Proofs.Trial.Steps

/-!
# Assignments in the order of the names

What a definition binds is kept in the order of the names, so an assignment has one entry for
each variable.

**Results.**
* `ascending_outcome`: the values that a definition gives.
* `Ordered.assigned`: the values of a trial at any stage.
-/

namespace Allotment

open Stateful

namespace Trial

/-- The values of the trial, if it has any, are in the order of their names. -/
def Ordered (t : Trial) : Prop :=
  ∀ a, t.stage.assignment? = some a → Dict.Ascending a.values

/-- A trial without an assignment is ordered. -/
theorem ordered_of_unevaluated
    {t : Trial} (h : t.stage = .unevaluated) :
    t.Ordered := by
  intro a ha
  simp [h, Stage.assignment?] at ha

/-- The values that a definition gives are in the order of their names. -/
theorem ascending_outcome
    {t : Trial} {a : Assignment} (h : t.outcome = .ok a) :
    Dict.Ascending a.values := by
  unfold outcome at h
  simp only at h
  let env : Env := { salt := t.salt, inputs := t.inputs }
  have hempty : Dict.Ascending env.bindings := List.Pairwise.nil
  have hstart : Dict.Ascending (env.withOverrides t.overrides).bindings :=
    Env.ascending_withOverrides hempty t.overrides
  have hend := ascending_bindings none t.experiment.definition.root hstart
  split at h
  · rename_i v env hrun
    unfold Definition.run at hrun
    rw [hrun] at hend
    cases h
    exact hend
  · cases h

theorem Ordered.assigned
    {t : Trial} (ht : t.Ordered) {a : Assignment} (h : t.assigned = .ok a) :
    Dict.Ascending a.values := by
  unfold Trial.assigned at h
  cases hs : t.stage with
  | unevaluated =>
      simp only [hs] at h
      exact ascending_outcome h
  | evaluated b =>
      simp only [hs, Except.ok.injEq] at h
      exact ht a (by simp [hs, h, Stage.assignment?])
  | exposed b =>
      simp only [hs, Except.ok.injEq] at h
      exact ht a (by simp [hs, h, Stage.assignment?])

end Trial

end Allotment
