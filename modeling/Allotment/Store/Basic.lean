import Allotment.Record.Event
import Allotment.Record.Experiment

/-!
# Stores

What trials and results ask of the place where experiments and events are kept.  Each
operation changes the store and may fail with a fault, after which the store is
whatever the operation left behind.
-/

namespace Allotment

/-- An operation on a store of type `σ`. -/
abbrev StoreM (σ : Type) := EStateM Fault σ

/-- The operations of a store. -/
class Store (σ : Type) where
  /-- The experiment of a name, which is created if there is none, and whether it was. -/
  ensureExperiment : String → StoreM σ (Experiment × Bool)
  /-- The experiment of a name, if there is one. -/
  findExperiment : String → StoreM σ (Option Experiment)
  /-- Replaces the experiment of the same name. -/
  saveExperiment : Experiment → StoreM σ Unit
  /-- The variation of an experiment with a variable and the label of a value, which is
  created if there is none. -/
  ensureVariation (experiment : UInt64) (key value : String) : StoreM σ Variation
  /-- Adds the exposure of a unit to a variation of an experiment. -/
  addExposure (experiment variation : UInt64) (unit : Subject) (circumstances : EventMeta) :
    StoreM σ Exposure
  /-- The goal of a name, which is created if there is none. -/
  ensureGoal : String → StoreM σ Goal
  /-- Attaches a goal to an experiment. -/
  attachGoal (experiment goal : UInt64) : StoreM σ Unit
  /-- Adds the achievement of a goal by a unit. -/
  addAchievement (goal : UInt64) (unit : Subject) (value : Float) (related : Option Related)
    (circumstances : EventMeta) : StoreM σ Achievement
  /-- The variations of an experiment, oldest first. -/
  variations (experiment : UInt64) : StoreM σ (List Variation)
  /-- The goals that are attached to an experiment, in the order of attachment. -/
  goals (experiment : UInt64) : StoreM σ (List Goal)
  /-- The exposures to a variation, oldest first. -/
  exposures (variation : UInt64) : StoreM σ (List Exposure)
  /-- The achievements of a goal, oldest first. -/
  achievements (goal : UInt64) : StoreM σ (List Achievement)
  /-- Adds an entry to the log of an experiment. -/
  addLog (experiment : UInt64) (data : Json) : StoreM σ LogEntry
  /-- The user of a number, if there is one. -/
  findUser (id : UInt64) : StoreM σ (Option User)

end Allotment
