import Allotment.Definition
import Allotment.Json.Decoder

/-!
# Experiments

A named definition.  The name is also the salt, so an experiment draws differently
from any other one.
-/

namespace Allotment

open Json (Decoder Fields)

/-- A named definition. -/
structure Experiment where
  id : UInt64
  /-- The name, which is also the salt. -/
  name : String
  /-- What is evaluated for each unit. -/
  definition : Definition
  /-- The goals for which results are reported. -/
  goalIds : List UInt64
  createdAt : Time
  modifiedAt : Time
deriving BEq

namespace Experiment

/-- A new experiment with the empty definition. -/
def new (id : UInt64) (name : String) (now : Time) : Experiment :=
  ⟨id, name, .empty, [], now, now⟩

/-- The salt of the experiment's draws. -/
def salt (e : Experiment) : String := e.name

/-- Notes the time of a modification. -/
def touch (e : Experiment) (now : Time) : Experiment := { e with modifiedAt := now }

/-- Attaches a goal, unless it is attached already. -/
def attachGoal (e : Experiment) (goal : UInt64) : Experiment :=
  if goal ∈ e.goalIds then e else { e with goalIds := e.goalIds ++ [goal] }

/-- Appends a variable to the definition. -/
def addVariable (e : Experiment) (key : String) (v : Json) : Except Fault Experiment :=
  (e.definition.appendSet key v).map fun d => { e with definition := d }

/-- The variable of a control value that is no object. -/
def singleVariable : String := "single_value"

/-- The variables that a control value stands for: the entries of an object, or a single one. -/
def controlVariables : Json → List (String × Json)
  | .object fields => fields
  | v => [(singleVariable, v)]

/-- Appends variables up to the first one that fails: the experiment then, and the failure. -/
def addVariables (e : Experiment) : List (String × Json) → Experiment × Option Fault
  | [] => (e, none)
  | (k, v) :: rest =>
      match e.addVariable k v with
      | .ok e => addVariables e rest
      | .error fault => (e, some fault)

/-- Appends the variables of a control value. -/
def setFromControl (e : Experiment) (control : Json) : Experiment × Option Fault :=
  e.addVariables (controlVariables control)

/-- The variables that the definition can bind. -/
def outputs (e : Experiment) : List String := e.definition.outputs

/-- The variables that the definition binds for the inputs. -/
def params (e : Experiment) (inputs : Dict Json) : Except Fault (Dict Json) :=
  e.definition.params e.salt inputs

/-- The definition that a document denotes. -/
def definitionDecoder : Decoder Definition :=
  Decoder.any.filterMap fun v => (Definition.ofJson v).toOption

/-- The fields of an experiment. -/
def fields : Fields Experiment :=
  Fields.pure Experiment.mk
    |>.required "id" Decoder.word
    |>.required "name" Decoder.text
    |>.required "definition" definitionDecoder
    |>.required "goal_ids" Decoder.word.list
    |>.required "created_at" Record.decoder
    |>.required "modified_at" Record.decoder

instance : Record Experiment where
  toJson e := .ofFields [("id", .ofWord e.id), ("name", .string e.name),
    ("definition", e.definition.toJson), ("goal_ids", .array (e.goalIds.map Json.ofWord)),
    ("created_at", Record.toJson e.createdAt), ("modified_at", Record.toJson e.modifiedAt)]
  decoder := fields.decoder false

end Experiment

/-- A value that an experiment was seen to give a variable. -/
structure Variation where
  id : UInt64
  experimentId : UInt64
  /-- The variable. -/
  key : String
  /-- The label of the value. -/
  value : String
  /-- When the variation was seen first. -/
  createdAt : Time
deriving DecidableEq, Repr

namespace Variation

/-- The variation in words. -/
def describe (v : Variation) : String :=
  s!"'{v.key}' = '{v.value}' on experiment " ++ wordText v.experimentId

/-- The fields of a variation. -/
def fields : Fields Variation :=
  Fields.pure Variation.mk
    |>.required "id" Decoder.word
    |>.required "experiment_id" Decoder.word
    |>.required "key" Decoder.text
    |>.required "value" Decoder.text
    |>.required "created_at" Record.decoder

instance : Record Variation where
  toJson v := .ofFields [("id", .ofWord v.id), ("experiment_id", .ofWord v.experimentId),
    ("key", .string v.key), ("value", .string v.value), ("created_at", Record.toJson v.createdAt)]
  decoder := fields.decoder false

end Variation

end Allotment
