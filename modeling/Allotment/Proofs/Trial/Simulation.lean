import Allotment.Proofs.Store.Journal
import Allotment.Proofs.Trial.Request

/-!
# Trials on stores that agree

Two stores agree if the calls that trials make come to the same in both, which may keep their
states in different ways.  A trial cannot tell such stores apart.

**Results.**
* `perform_inStep`: a request is answered in the same way on stores that agree.
* `serve_journaled`: a journal does not change what happens.
-/

namespace Allotment

open Stateful

/-- From related states the calls of trials come to the same, in states that are related. -/
structure Agree {σ τ : Type} [Store σ] [Store τ] (R : σ → τ → Prop) : Prop where
  ensureVariation (experiment : UInt64) (key value : String) :
    InStep R (Store.ensureVariation experiment key value)
      (Store.ensureVariation experiment key value)
  addExposure (experiment variation : UInt64) (unit : Subject) (circumstances : EventMeta) :
    InStep R (Store.addExposure experiment variation unit circumstances)
      (Store.addExposure experiment variation unit circumstances)
  addLog (experiment : UInt64) (data : Json) :
    InStep R (Store.addLog experiment data) (Store.addLog experiment data)
  findUser (id : UInt64) : InStep R (Store.findUser id) (Store.findUser id)

/-- A store agrees with itself under a journal. -/
theorem agree_journaled (σ : Type) [Store σ] :
    Agree fun (j : Journaled σ) s => j.store = s where
  ensureVariation _ _ _ := Journaled.noting_inStep _ _
  addExposure _ _ _ _ := Journaled.noting_inStep _ _
  addLog experiment data :=
    Journaled.noting_inStep (Store.addLog experiment data) fun _ => .other .addLog
  findUser _ := Journaled.noting_inStep _ _

namespace Trial

variable {σ τ : Type} {R : σ → τ → Prop}

/-- The trials are the same, and the stores are related. -/
def Alike (R : σ → τ → Prop) (x : Trial × σ) (y : Trial × τ) : Prop := x.1 = y.1 ∧ R x.2 y.2

theorem onStore_inStep
    {α : Type} {op : StoreM σ α} {op' : StoreM τ α} (h : InStep R op op') :
    InStep (Alike R) (onStore op) (onStore op') := by
  rintro ⟨t, s⟩ ⟨t', s'⟩ ⟨rfl, hs⟩
  have hr := h s s' hs
  unfold onStore
  simp only
  generalize op s = result at hr
  generalize op' s' = result' at hr
  cases hr with
  | ok a h' => exact .ok a ⟨rfl, h'⟩
  | error fault h' => exact .error fault ⟨rfl, h'⟩

/-- Steps are in step if they are for every trial that they may read. -/
theorem current_inStep
    {α : Type} {f : Trial → Step σ α} {g : Trial → Step τ α}
    (h : ∀ t, InStep (Alike R) (f t) (g t)) :
    InStep (Alike R) (current >>= f) (current >>= g) := by
  rintro ⟨t, s⟩ ⟨t', s'⟩ ⟨rfl, hs⟩
  exact h t (t, s) (t, s') ⟨rfl, hs⟩

theorem enter_inStep
    (stage : Stage) :
    InStep (Alike R) (enter stage) (enter stage) := by
  refine .change ?_
  rintro ⟨t, s⟩ ⟨t', s'⟩ ⟨rfl, hs⟩
  exact ⟨rfl, hs⟩

theorem evaluate_inStep :
    InStep (Alike R) (evaluate (σ := σ)) (evaluate (σ := τ)) := by
  refine current_inStep fun t => ?_
  cases t.stage with
  | unevaluated =>
      cases t.outcome with
      | ok a => exact enter_inStep _
      | error fault => exact .throw fault
  | evaluated a => exact .pure ()
  | exposed a => exact .pure ()

section Agree

variable [Store σ] [Store τ] (h : Agree R)
include h

theorem resolveUnit_inStep (t : Trial) :
    InStep R (t.resolveUnit (σ := σ)) (t.resolveUnit (σ := τ)) := by
  unfold resolveUnit
  split
  · split
    · split
      · exact .throw _
      · refine .bind (h.findUser _) fun found => ?_
        cases found with
        | none => exact .throw _
        | some user => exact .pure _
    · exact .pure _
  · exact .pure _

theorem record_inStep
    (t : Trial) (now : Time) (unit : Option Subject) (values : List (String × Json)) :
    InStep R (t.record (σ := σ) now unit values) (t.record (σ := τ) now unit values) := by
  induction values with
  | nil => exact .pure ()
  | cons x rest ih =>
      obtain ⟨key, v⟩ := x
      refine .bind (h.ensureVariation t.experiment.id key v.label) fun w => ?_
      cases unit with
      | none => exact ih
      | some u =>
          exact .bind (h.addExposure t.experiment.id w.id u (t.circumstances now)) fun _ => ih

theorem logExposure_inStep (now : Time) :
    InStep (Alike R) (logExposure (σ := σ) now) (logExposure (σ := τ) now) := by
  refine .bind evaluate_inStep fun _ => current_inStep fun t => ?_
  cases t.stage with
  | unevaluated => exact .pure ()
  | exposed a => exact .pure ()
  | evaluated a =>
      dsimp only
      split
      · refine .bind (onStore_inStep (resolveUnit_inStep h t)) fun unit => ?_
        exact .bind (enter_inStep (.exposed a)) fun _ =>
          onStore_inStep (record_inStep h t now unit a.values)
      · exact .pure ()

theorem prepare_inStep (now : Time) :
    InStep (Alike R) (prepare (σ := σ) now) (prepare (σ := τ) now) := by
  refine .bind evaluate_inStep fun _ => current_inStep fun t => ?_
  cases t.autoExposure with
  | false => exact .pure ()
  | true => exact logExposure_inStep h now

theorem assignment_inStep (now : Time) :
    InStep (Alike R) (assignment (σ := σ) now) (assignment (σ := τ) now) := by
  refine .bind (prepare_inStep h now) fun _ => current_inStep fun t => ?_
  cases t.stage.assignment? with
  | none => exact .pure _
  | some a => exact .pure _

theorem lookup_inStep (now : Time) (name : String) :
    InStep (Alike R) (lookup (σ := σ) now name) (lookup (σ := τ) now name) :=
  .bind (assignment_inStep h now) fun _ => .pure _

/-- A request comes to the same on stores that agree. -/
theorem perform_inStep (now : Time) (r : Request) :
    InStep (Alike R) (perform (σ := σ) now r) (perform (σ := τ) now r) := by
  cases r with
  | get name =>
      refine .bind (.bind (lookup_inStep h now name) fun found => ?_) fun _ => .pure _
      cases found with
      | none => exact .throw _
      | some v => exact .pure v
  | getOr name default =>
      exact .bind (.bind (lookup_inStep h now name) fun _ => .pure _) fun _ => .pure _
  | assignment => exact .bind (assignment_inStep h now) fun _ => .pure _
  | logExposure => exact .bind (logExposure_inStep h now) fun _ => .pure _
  | log data =>
      refine current_inStep fun t => .bind (onStore_inStep ?_) fun _ => .pure _
      exact h.addLog t.experiment.id data

/-- Stores that agree are still related after any requests to the same trial. -/
theorem serve_alike
    (requests : List (Time × Request)) {x : Trial × σ} {y : Trial × τ} (hxy : Alike R x y) :
    Alike R (serve requests x) (serve requests y) := by
  induction requests generalizing x y with
  | nil => exact hxy
  | cons r rest ih =>
      obtain ⟨now, r⟩ := r
      exact ih (endState_related (perform_inStep h now r) hxy)

end Agree

/-- What becomes of a trial and its store is the same with and without a journal. -/
theorem serve_journaled
    [Store σ] (requests : List (Time × Request)) (t : Trial) (j : Journaled σ) :
    (serve requests (t, j)).1 = (serve requests (t, j.store)).1 ∧
      (serve requests (t, j)).2.store = (serve requests (t, j.store)).2 :=
  serve_alike (agree_journaled σ) requests ⟨rfl, rfl⟩

end Trial

end Allotment
