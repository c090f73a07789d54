import Allotment.Store.Basic

/-!
# Stores that fail

A store around another one, in which chosen calls fail before they reach it.
-/

namespace Allotment

/-- The operations of a store, without their arguments. -/
inductive StoreCall where
  | ensureExperiment
  | findExperiment
  | saveExperiment
  | ensureVariation
  | addExposure
  | ensureGoal
  | attachGoal
  | addAchievement
  | variations
  | goals
  | exposures
  | achievements
  | addLog
  | findUser
deriving DecidableEq, Repr

/-- A failure to come. -/
structure Outage where
  /-- The operation that fails. -/
  call : StoreCall
  /-- The number of calls of it that still succeed before. -/
  after : Nat
  reason : String
deriving DecidableEq, Repr

/-- A store with failures to come, at most one for each operation. -/
structure Unreliable (σ : Type) where
  /-- The store that is reached by the calls that do not fail. -/
  store : σ
  /-- The failures to come. -/
  outages : List Outage := []

namespace Unreliable

variable {σ α : Type}

/-- The outages without the one of an operation. -/
def without (call : StoreCall) (outages : List Outage) : List Outage :=
  outages.filter fun o => o.call ≠ call

/-- Plans a failure, in place of the one that was planned for the same operation. -/
def plan (u : Unreliable σ) (o : Outage) : Unreliable σ :=
  { u with outages := o :: without o.call u.outages }

/-- Passes a call on to the store, unless it is the one to fail. -/
def pass (call : StoreCall) (op : StoreM σ α) : StoreM (Unreliable σ) α := fun u =>
  let forward (outages : List Outage) : EStateM.Result Fault (Unreliable σ) α :=
    match op u.store with
    | .ok a s => .ok a ⟨s, outages⟩
    | .error fault s => .error fault ⟨s, outages⟩
  match u.outages.find? fun o => o.call = call with
  | none => forward u.outages
  | some o =>
      let others := without call u.outages
      if o.after = 0 then .error (.storage o.reason) ⟨u.store, others⟩
      else forward ({ o with after := o.after - 1 } :: others)

instance [Store σ] : Store (Unreliable σ) where
  ensureExperiment name := pass .ensureExperiment (Store.ensureExperiment name)
  findExperiment name := pass .findExperiment (Store.findExperiment name)
  saveExperiment e := pass .saveExperiment (Store.saveExperiment e)
  ensureVariation experiment key value :=
    pass .ensureVariation (Store.ensureVariation experiment key value)
  addExposure experiment variation unit circumstances :=
    pass .addExposure (Store.addExposure experiment variation unit circumstances)
  ensureGoal name := pass .ensureGoal (Store.ensureGoal name)
  attachGoal experiment goal := pass .attachGoal (Store.attachGoal experiment goal)
  addAchievement goal unit value related circumstances :=
    pass .addAchievement (Store.addAchievement goal unit value related circumstances)
  variations experiment := pass .variations (Store.variations experiment)
  goals experiment := pass .goals (Store.goals experiment)
  exposures variation := pass .exposures (Store.exposures variation)
  achievements goal := pass .achievements (Store.achievements goal)
  addLog experiment data := pass .addLog (Store.addLog experiment data)
  findUser id := pass .findUser (Store.findUser id)

end Unreliable

end Allotment
