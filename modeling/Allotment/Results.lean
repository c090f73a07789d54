import Allotment.Record.Outcome
import Allotment.Store.Basic

/-!
# Results

What the variations of an experiment bring for its goals, computed from the events.
An achievement counts for a variation if its unit was exposed to it.

**Results.**
* `mem_exposedKeys`: the keys of the exposed units are those of the units that were exposed.
-/

namespace Allotment

/-- The totals of one variation for one goal. -/
structure Totals where
  exposures : UInt64
  /-- The number of achievements by exposed units. -/
  achievements : UInt64
  /-- The sum of what these achievements are worth. -/
  value : Float
deriving BEq

namespace Totals

/-- The unit was exposed. -/
def isExposed (exposures : List Exposure) (unit : Subject) : Bool :=
  exposures.any fun e => e.unit.sameUnit unit

/-- The keys of the units that were exposed, each once. -/
def exposedKeys (exposures : List Exposure) : List Subject.Key :=
  (exposures.map fun e => e.unit.key).eraseDups

/-- The unit was exposed exactly if its key is among those of the exposed units. -/
@[simp] theorem mem_exposedKeys {exposures : List Exposure} {unit : Subject} :
    unit.key ∈ exposedKeys exposures ↔ isExposed exposures unit = true := by
  simp [exposedKeys, isExposed, Subject.sameUnit_iff]

/-- The achievements by exposed units. -/
def counted (exposures : List Exposure) (achievements : List Achievement) : List Achievement :=
  let exposed := exposedKeys exposures
  achievements.filter fun a => a.unit.key ∈ exposed

/-- The number of some achievements and the sum of what they are worth, in one pass. -/
def countAndSum (achievements : List Achievement) : UInt64 × Float :=
  achievements.foldl (fun (count, value) a => (count + 1, value + a.value)) (0, 0.0)

/-- The totals of the exposures to a variation and the achievements of a goal. -/
def ofEvents (exposures : List Exposure) (achievements : List Achievement) : Totals :=
  let (count, value) := countAndSum (counted exposures achievements)
  ⟨UInt64.ofNat exposures.length, count, value⟩

/-- The value per exposure. -/
def rate (t : Totals) : Float := successRate t.exposures t.value

/-- The value per hundred exposures. -/
def percentage (t : Totals) : Float := t.rate * 100.0

/-- The totals as an outcome. -/
def outcome (t : Totals) (v : Variation) (g : Goal) (now : Time) : Outcome :=
  ⟨v.experimentId, g.id, v.id, t.exposures, t.achievements, t.value, now⟩

variable {σ : Type} [Store σ]

/-- The totals of a variation for a goal. -/
def compute (v : Variation) (g : Goal) : StoreM σ Totals := do
  let exposures ← Store.exposures v.id
  let achievements ← Store.achievements g.id
  return ofEvents exposures achievements

end Totals

namespace Results

variable {σ : Type} [Store σ]

/-- The outcomes of variations for a goal with these achievements. -/
def ofVariations (g : Goal) (achievements : List Achievement) (now : Time) :
    List Variation → StoreM σ (List Outcome)
  | [] => return []
  | v :: rest => do
      let exposures ← Store.exposures v.id
      let outcomes ← ofVariations g achievements now rest
      return (Totals.ofEvents exposures achievements).outcome v g now :: outcomes

/-- The outcomes of the variations of an experiment for a goal. -/
def forGoal (experiment : UInt64) (now : Time) (g : Goal) : StoreM σ (List Outcome) := do
  let achievements ← Store.achievements g.id
  ofVariations g achievements now (← Store.variations experiment)

/-- The outcomes for each of some goals. -/
def forGoals (experiment : UInt64) (now : Time) :
    List Goal → StoreM σ (List (Goal × List Outcome))
  | [] => return []
  | g :: rest => do
      let outcomes ← forGoal experiment now g
      let others ← forGoals experiment now rest
      return (g, outcomes) :: others

/-- The outcomes for the goals that are attached to an experiment. -/
def ofExperiment (experiment : UInt64) (now : Time) : StoreM σ (List (Goal × List Outcome)) := do
  forGoals experiment now (← Store.goals experiment)

end Results

namespace Experiment

/-- The label of what the experiment gives a variable for a unit, if it gives anything. -/
def labelFor (e : Experiment) (key : String) (unit : Json) : Except Fault (Option String) :=
  (e.params [(Subject.unitInput, unit)]).map fun values => (Dict.get? values key).map Json.label

/-- The labels of what the experiment gives a variable for some units. -/
def labelsFor (e : Experiment) (key : String) : List Json → Except Fault (List String)
  | [] => .ok []
  | unit :: rest =>
      match e.labelFor key unit with
      | .error fault => .error fault
      | .ok label =>
          match labelsFor e key rest with
          | .error fault => .error fault
          | .ok labels => .ok (label.toList ++ labels)

/-- How often each label occurs. -/
def tally (labels : List String) : Dict Nat :=
  labels.foldl (fun d x => Dict.alter d x fun n => n.getD 0 + 1) []

/-- How many of the units get which value of a variable, without any record of it. -/
def preview (e : Experiment) (key : String) (units : List Json) : Except Fault (Dict Nat) :=
  (e.labelsFor key units).map tally

end Experiment

end Allotment
