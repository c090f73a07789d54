import Allotment.Json.Decoder

/-!
# Outcomes

What a variation has brought for a goal, at some time.
-/

namespace Allotment

open Json (Decoder Fields)

/-- A value per exposure, and zero without exposures. -/
def successRate (exposures : UInt64) (value : Float) : Float :=
  if exposures = 0 then 0.0 else value / Float.ofNat exposures.toNat

/-- The totals of a variation for a goal. -/
structure Outcome where
  experimentId : UInt64
  goalId : UInt64
  variationId : UInt64
  exposures : UInt64
  /-- The number of achievements by exposed units. -/
  achievements : UInt64
  /-- The sum of what these achievements are worth. -/
  value : Float
  computedAt : Time
deriving BEq

namespace Outcome

/-- The value per exposure. -/
def rate (o : Outcome) : Float := successRate o.exposures o.value

/-- The value per hundred exposures. -/
def percentage (o : Outcome) : Float := o.rate * 100.0

/-- The fields of an outcome. -/
def fields : Fields Outcome :=
  Fields.pure Outcome.mk
    |>.required "experiment_id" Decoder.word
    |>.required "goal_id" Decoder.word
    |>.required "variation_id" Decoder.word
    |>.required "total_exposures" Decoder.word
    |>.required "total_goal_achievements" Decoder.word
    |>.required "success_value" Decoder.float
    |>.required "computed_at" Record.decoder

instance : Record Outcome where
  toJson o := .ofFields [("experiment_id", .ofWord o.experimentId), ("goal_id", .ofWord o.goalId),
    ("variation_id", .ofWord o.variationId), ("total_exposures", .ofWord o.exposures),
    ("total_goal_achievements", .ofWord o.achievements), ("success_value", .ofFloat o.value),
    ("computed_at", Record.toJson o.computedAt)]
  decoder := fields.decoder false

end Outcome

end Allotment
