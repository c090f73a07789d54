import Allotment.Results
import Allotment.Trial

/-!
# The laboratory

The configuration and the current time, and what can be done with them and a store:
make experiments, give their values to units, and report on their goals.
-/

namespace Allotment

/-- A configuration at a time. -/
structure Lab where
  config : Config
  now : Time

namespace Lab

variable {σ : Type} [Store σ]

/-- The experiment of a name.  A new one is given the variables of the control value. -/
def experiment (name : String) (control : Json) : StoreM σ Experiment := do
  let (e, created) ← Store.ensureExperiment name
  if created then
    match e.setFromControl control with
    | (_, some fault) => throw fault
    | (e, none) =>
        Store.saveExperiment e
        return e
  else return e

/-- A trial with the settings of the configuration. -/
def trial (lab : Lab) (e : Experiment) (inputs : Dict Json) : Trial where
  experiment := e
  inputs := inputs
  autoExposure := lab.config.autoExposure
  internalType := lab.config.internalType
  dataSource := lab.config.dataSource
  appVersion := lab.config.appVersion

/-- A trial for a unit, whose inputs replace others of the same name. -/
def trialFor (lab : Lab) (e : Experiment) (unit : Subject) (inputs : Dict Json) : Trial :=
  lab.trial e (Dict.override inputs (unit.inputs lab.config.internalType))

/-- The value that an experiment gives a variable for a unit.  A new experiment sets the
variable to the control value.  The control value is also the answer where the definition does
not bind the variable, and without a complete unit, for which nothing is evaluated. -/
def value (lab : Lab) (name key : String) (unit : Option Subject) (control : Json)
    (inputs : Dict Json) : StoreM σ Json := do
  let e ← experiment name (.object [(key, control)])
  match unit.filter Subject.isComplete with
  | some u => (lab.trialFor e u inputs).once (Trial.getOr lab.now key control)
  | none => return control

/-- The circumstances of the events of the laboratory. -/
def circumstances (lab : Lab) : EventMeta :=
  { seenAt := lab.now, dataSource := lab.config.dataSource, appVersion := lab.config.appVersion }

/-- Records that a unit achieved a goal, unless the unit is incomplete. -/
def achieve (lab : Lab) (goal : String) (unit : Subject) (value : Float)
    (related : Option Related) : StoreM σ (Option Achievement) := do
  if unit.isComplete then
    let g ← Store.ensureGoal goal
    return some (← Store.addAchievement g.id unit value related lab.circumstances)
  else return none

/-- The experiment of a name, which has to be there. -/
def existing (name : String) : StoreM σ Experiment := do
  match ← Store.findExperiment name with
  | some e => return e
  | none => throw (.experimentNotFound name)

/-- Attaches a goal to an experiment. -/
def attachGoal (experiment goal : String) : StoreM σ Goal := do
  let e ← existing experiment
  let g ← Store.ensureGoal goal
  Store.attachGoal e.id g.id
  return g

/-- The outcomes for the goals of an experiment. -/
def results (lab : Lab) (experiment : String) : StoreM σ (List (Goal × List Outcome)) := do
  let e ← existing experiment
  Results.ofExperiment e.id lab.now

/-- How many of the units get which value of a variable. -/
def preview (experiment key : String) (units : List Json) : StoreM σ (Dict Nat) := do
  let e ← existing experiment
  match e.preview key units with
  | .ok counts => return counts
  | .error fault => throw fault

end Lab

end Allotment
