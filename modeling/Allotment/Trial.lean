import Allotment.Config
import Allotment.Store.Basic

/-!
# Trials

A trial evaluates the definition of an experiment for one unit, at most once and not
before a value is asked for, and then records that the unit was exposed to the values.

A unit that a return excludes is not exposed.  Without a known unit only the variations
are recorded.
-/

namespace Allotment

/-- What an evaluation gave a unit. -/
structure Assignment where
  values : Dict Json
  /-- The unit takes part in the experiment. -/
  takesPart : Bool
deriving BEq

/-- How far a trial has come. -/
inductive Stage where
  /-- Nothing has been evaluated. -/
  | unevaluated
  /-- The assignment is known. -/
  | evaluated (a : Assignment)
  /-- The assignment is known, and recording the exposures has begun. -/
  | exposed (a : Assignment)
deriving BEq

namespace Stage

/-- The assignment, once it is known. -/
def assignment? : Stage → Option Assignment
  | .unevaluated => none
  | .evaluated a => some a
  | .exposed a => some a

end Stage

/-- An experiment on one unit. -/
structure Trial where
  experiment : Experiment
  /-- The inputs of the evaluation, the unit among them. -/
  inputs : Dict Json
  salt : String := experiment.salt
  /-- The variables with a fixed value. -/
  overrides : Dict Json := []
  /-- Exposures are recorded as soon as a value is asked for. -/
  autoExposure : Bool := true
  /-- The type of the identifiers of registered users. -/
  internalType : String := Config.defaultInternalType
  /-- Where events come from. -/
  dataSource : Option String := none
  appVersion : Option String := none
  /-- How far the trial has come. -/
  stage : Stage := .unevaluated

namespace Trial

/-- The trial in words. -/
def describe (t : Trial) : String := s!"Trial {t.salt} of {t.experiment.name}"

/-- The assignment that the definition gives. -/
def outcome (t : Trial) : Except Fault Assignment :=
  let env : Env := { salt := t.salt, inputs := t.inputs }
  match t.experiment.definition.run (env.withOverrides t.overrides) with
  | .ok _ env => .ok ⟨env.bindings, env.takesPart⟩
  | .error fault _ => .error fault

/-- The circumstances of the events of the trial. -/
def circumstances (t : Trial) (now : Time) : EventMeta :=
  { seenAt := now, dataSource := t.dataSource, appVersion := t.appVersion }

/-- An input that is there and not null. -/
def given (t : Trial) (name : String) : Option Json :=
  match Dict.get? t.inputs name with
  | some .null => none
  | found => found

/-- The number that a run of digits denotes, if it is a word of 64 bits. -/
def digitsToId? (cs : List Char) : Option UInt64 :=
  if cs ≠ [] ∧ cs.all Char.isDigit = true then
    let n := Decimal.ofDigits cs
    if n < UInt64.size then some (UInt64.ofNat n) else none
  else none

/-- The number of a user: a natural number, or its digits with or without a plus sign. -/
def userId? : Json → Option UInt64
  | .string s =>
      match s.toList with
      | '+' :: cs => digitsToId? cs
      | cs => digitsToId? cs
  | v => v.toWord?

variable {σ : Type} [Store σ]

/-- The unit of the inputs, if they have one.  An identifier of the internal type has to be
that of a registered user. -/
def resolveUnit (t : Trial) : StoreM σ (Option Subject) := do
  match t.given Subject.typeInput, t.given Subject.unitInput with
  | some type, some identifier =>
      if type.label = t.internalType then
        match userId? identifier with
        | none => throw (.userNotFound identifier.label)
        | some id =>
            match ← Store.findUser id with
            | none => throw (.userNotFound (wordText id))
            | some user => return some (.user user)
      else return some (.external identifier.label type.label)
  | _, _ => return none

/-- Records the variations of the values and, for a unit, its exposures to them.  The clocks of the
trial and of the store stand still during a call, so its exposures have one time, and so have the
variations that are new. -/
def record (t : Trial) (now : Time) (unit : Option Subject) :
    List (String × Json) → StoreM σ Unit
  | [] => return ()
  | (key, v) :: rest => do
      let variation ← Store.ensureVariation t.experiment.id key v.label
      match unit with
      | some u =>
          let _ ← Store.addExposure t.experiment.id variation.id u (t.circumstances now)
          record t now unit rest
      | none => record t now unit rest

/-- A step of a trial, which changes the trial and the store. -/
abbrev Step (σ : Type) := EStateM Fault (Trial × σ)

/-- An operation of the store as a step. -/
def onStore {α : Type} (op : StoreM σ α) : Step σ α := fun (t, s) =>
  match op s with
  | .ok a s => .ok a (t, s)
  | .error fault s => .error fault (t, s)

/-- The trial as it is. -/
def current : Step σ Trial := return (← get).1

/-- Moves the trial on to a stage. -/
def enter (stage : Stage) : Step σ Unit := modify fun (t, s) => ({ t with stage }, s)

/-- Evaluates the definition, unless that has been done. -/
def evaluate : Step σ Unit := do
  let t ← current
  match t.stage with
  | .unevaluated =>
      match t.outcome with
      | .ok a => enter (.evaluated a)
      | .error fault => throw fault
  | _ => return ()

/-- Records the exposures, unless that has begun before or the unit is excluded.  Once the unit
is known the trial counts as exposed, whatever becomes of the records. -/
def logExposure (now : Time) : Step σ Unit := do
  evaluate
  let t ← current
  match t.stage with
  | .evaluated a =>
      if a.takesPart then do
        let unit ← onStore t.resolveUnit
        enter (.exposed a)
        onStore (t.record now unit a.values)
      else return ()
  | _ => return ()

/-- Evaluates and, if the trial does so by itself, records the exposures. -/
def prepare (now : Time) : Step σ Unit := do
  evaluate
  if (← current).autoExposure then logExposure now else return ()

/-- The values of all variables. -/
def assignment (now : Time) : Step σ (Dict Json) := do
  prepare now
  match (← current).stage.assignment? with
  | some a => return a.values
  | none => return []

/-- The value of a variable, if it has one. -/
def lookup (now : Time) (name : String) : Step σ (Option Json) := do
  return Dict.get? (← assignment now) name

/-- The value of a variable. -/
def get (now : Time) (name : String) : Step σ Json := do
  match ← lookup now name with
  | some v => return v
  | none => throw (.undefinedVariable name)

/-- The value of a variable, or a default if it has none. -/
def getOr (now : Time) (name : String) (default : Json) : Step σ Json := do
  return (← lookup now name).getD default

/-- Adds an entry to the log of the experiment. -/
def log (t : Trial) (data : Json) : StoreM σ LogEntry := Store.addLog t.experiment.id data

/-- Carries out a step of a new trial, which is then forgotten. -/
def once {α : Type} (t : Trial) (step : Step σ α) : StoreM σ α := fun s =>
  match step (t, s) with
  | .ok a (_, s) => .ok a s
  | .error fault (_, s) => .error fault s

end Trial

end Allotment
