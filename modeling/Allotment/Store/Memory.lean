import Allotment.Store.Basic

/-!
# The store in memory

All records in lists, in the order of their creation.  One counter numbers them, and
it goes on when the store is cleared, so no number is given out twice before the counter
of 64 bits starts over.

Experiments are found by name.  Their numbers lead to their names through an index of
its own, to which an entry is added when an experiment is created.
-/

namespace Allotment

/-- The records of a store. -/
structure Memory where
  now : Time
  /-- The number of the next record. -/
  nextId : UInt64 := 1
  /-- The experiments, one of each name. -/
  experiments : List Experiment := []
  /-- The names that experiments were created under, by their numbers. -/
  names : List (UInt64 × String) := []
  /-- The variations, one of each experiment, variable and label. -/
  variations : List Variation := []
  exposures : List Exposure := []
  /-- The goals, one of each name. -/
  goals : List Goal := []
  achievements : List Achievement := []
  logs : List LogEntry := []
  /-- The registered users, one of each number. -/
  users : List User := []

namespace Memory

/-- The experiment of a name. -/
def experiment? (m : Memory) (name : String) : Option Experiment :=
  m.experiments.find? fun e => e.name = name

/-- The experiment of a name, which is created if there is none, and whether it was. -/
def ensureExperiment (m : Memory) (name : String) : (Experiment × Bool) × Memory :=
  match m.experiment? name with
  | some e => ((e, false), m)
  | none =>
      let e := Experiment.new m.nextId name m.now
      ((e, true), { m with
        nextId := m.nextId + 1
        experiments := m.experiments ++ [e]
        names := m.names ++ [(e.id, name)] })

/-- Replaces the experiment of the same name. -/
def putExperiment (m : Memory) (e : Experiment) : Memory :=
  { m with experiments := m.experiments.map fun old => if old.name = e.name then e else old }

/-- Replaces the experiment of the same name, which has to be there, and notes the time. -/
def saveExperiment (m : Memory) (e : Experiment) : Except Fault Memory :=
  match m.experiment? e.name with
  | some _ => .ok (m.putExperiment (e.touch m.now))
  | none => .error (.experimentNotFound e.name)

/-- The variation of an experiment, a variable and a label, which is created if there is none. -/
def ensureVariation (m : Memory) (experiment : UInt64) (key value : String) : Variation × Memory :=
  let isIt (v : Variation) : Bool := v.experimentId = experiment ∧ v.key = key ∧ v.value = value
  match m.variations.find? isIt with
  | some v => (v, m)
  | none =>
      let v : Variation := ⟨m.nextId, experiment, key, value, m.now⟩
      (v, { m with nextId := m.nextId + 1, variations := m.variations ++ [v] })

/-- Adds an exposure. -/
def addExposure (m : Memory) (experiment variation : UInt64) (unit : Subject)
    (circumstances : EventMeta) : Exposure × Memory :=
  let e : Exposure := ⟨m.nextId, experiment, variation, unit, circumstances⟩
  (e, { m with nextId := m.nextId + 1, exposures := m.exposures ++ [e] })

/-- The goal of a name, which is created if there is none. -/
def ensureGoal (m : Memory) (name : String) : Goal × Memory :=
  match m.goals.find? fun g => g.name = name with
  | some g => (g, m)
  | none =>
      let g : Goal := ⟨m.nextId, name, ""⟩
      (g, { m with nextId := m.nextId + 1, goals := m.goals ++ [g] })

/-- The goal of a number. -/
def goal? (m : Memory) (id : UInt64) : Option Goal := m.goals.find? fun g => g.id = id

/-- The experiment that was created with a number: the one that has its name now. -/
def experimentById (m : Memory) (id : UInt64) : Except Fault Experiment :=
  match m.names.find? fun x => x.1 = id with
  | none => .error (.experimentNotFound ("id " ++ wordText id))
  | some x =>
      match m.experiment? x.2 with
      | none => .error (.experimentNotFound x.2)
      | some e => .ok e

/-- Attaches a goal, which has to be there, to the experiment of a number. -/
def attachGoal (m : Memory) (experiment goal : UInt64) : Except Fault Memory :=
  match m.goal? goal with
  | none => .error (.storage ("unknown goal id " ++ wordText goal))
  | some _ =>
      match m.experimentById experiment with
      | .error fault => .error fault
      | .ok e => .ok (m.putExperiment ((e.attachGoal goal).touch m.now))

/-- Adds an achievement. -/
def addAchievement (m : Memory) (goal : UInt64) (unit : Subject) (value : Float)
    (related : Option Related) (circumstances : EventMeta) : Achievement × Memory :=
  let a : Achievement := ⟨m.nextId, goal, unit, value, related, circumstances⟩
  (a, { m with nextId := m.nextId + 1, achievements := m.achievements ++ [a] })

/-- The variations of an experiment. -/
def variationsOf (m : Memory) (experiment : UInt64) : List Variation :=
  m.variations.filter fun v => v.experimentId = experiment

/-- The goals that are attached to an experiment. -/
def goalsOf (m : Memory) (experiment : UInt64) : Except Fault (List Goal) :=
  (m.experimentById experiment).map fun e => e.goalIds.filterMap m.goal?

/-- The exposures to a variation. -/
def exposuresOf (m : Memory) (variation : UInt64) : List Exposure :=
  m.exposures.filter fun e => e.variationId = variation

/-- The achievements of a goal. -/
def achievementsOf (m : Memory) (goal : UInt64) : List Achievement :=
  m.achievements.filter fun a => a.goalId = goal

/-- The entries of the log of an experiment. -/
def logsOf (m : Memory) (experiment : UInt64) : List LogEntry :=
  m.logs.filter fun l => l.experimentId = experiment

/-- Adds an entry to the log of an experiment. -/
def addLog (m : Memory) (experiment : UInt64) (data : Json) : LogEntry × Memory :=
  let l : LogEntry := ⟨m.nextId, experiment, data, m.now⟩
  (l, { m with nextId := m.nextId + 1, logs := m.logs ++ [l] })

/-- The user of a number. -/
def user? (m : Memory) (id : UInt64) : Option User := m.users.find? fun u => u.id = id

/-- Registers a user, in place of the one of the same number. -/
def putUser (m : Memory) (u : User) : Memory :=
  { m with users := u :: m.users.filter fun old => old.id ≠ u.id }

/-- There are no experiments, goals and events. -/
def isEmpty (m : Memory) : Bool :=
  m.experiments.isEmpty && m.goals.isEmpty && m.exposures.isEmpty && m.achievements.isEmpty &&
    m.logs.isEmpty

/-- Forgets everything but the users. -/
def clear (m : Memory) : Memory := { now := m.now, nextId := m.nextId, users := m.users }

/-- An operation that cannot fail. -/
def sure {α : Type} (f : Memory → α × Memory) : StoreM Memory α := fun m =>
  let (a, m) := f m
  .ok a m

/-- An operation that changes the store unless it fails. -/
def change (f : Memory → Except Fault Memory) : StoreM Memory Unit := fun m =>
  match f m with
  | .ok m => .ok () m
  | .error fault => .error fault m

/-- An operation that only reads. -/
def view {α : Type} (f : Memory → Except Fault α) : StoreM Memory α := fun m =>
  match f m with
  | .ok a => .ok a m
  | .error fault => .error fault m

instance : Store Memory where
  ensureExperiment name := sure fun m => m.ensureExperiment name
  findExperiment name := view fun m => .ok (m.experiment? name)
  saveExperiment e := change fun m => m.saveExperiment e
  ensureVariation experiment key value := sure fun m => m.ensureVariation experiment key value
  addExposure experiment variation unit circumstances :=
    sure fun m => m.addExposure experiment variation unit circumstances
  ensureGoal name := sure fun m => m.ensureGoal name
  attachGoal experiment goal := change fun m => m.attachGoal experiment goal
  addAchievement goal unit value related circumstances :=
    sure fun m => m.addAchievement goal unit value related circumstances
  variations experiment := view fun m => .ok (m.variationsOf experiment)
  goals experiment := view fun m => m.goalsOf experiment
  exposures variation := view fun m => .ok (m.exposuresOf variation)
  achievements goal := view fun m => .ok (m.achievementsOf goal)
  addLog experiment data := sure fun m => m.addLog experiment data
  findUser id := view fun m => .ok (m.user? id)

end Memory

end Allotment
