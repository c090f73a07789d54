import Allotment.Subject

/-!
# Events

What happens to units: they are exposed to variations and achieve goals.  Events are
only ever added.
-/

namespace Allotment

open Json (Decoder Fields)

/-- The circumstances of an event. -/
structure EventMeta where
  seenAt : Time
  /-- Where the event came from. -/
  dataSource : Option String := none
  appVersion : Option String := none
  data : Json := .object []
deriving BEq

namespace EventMeta

/-- The fields of the circumstances. -/
def fields : Fields EventMeta :=
  Fields.pure EventMeta.mk
    |>.required "seen_at" Record.decoder
    |>.optional "data_source" Decoder.text
    |>.optional "app_version" Decoder.text
    |>.required "data_meta" Decoder.any

instance : Record EventMeta where
  toJson m := .ofFields [("seen_at", Record.toJson m.seenAt),
    ("data_source", .ofString? m.dataSource), ("app_version", .ofString? m.appVersion),
    ("data_meta", m.data)]
  decoder := fields.decoder false

end EventMeta

/-- A unit was shown a variation. -/
structure Exposure where
  id : UInt64
  experimentId : UInt64
  variationId : UInt64
  unit : Subject
  circumstances : EventMeta
deriving BEq

namespace Exposure

/-- The exposure in words. -/
def describe (e : Exposure) : String :=
  s!"{e.unit.describe} exposed to variation " ++ wordText e.variationId

/-- The fields of an exposure. -/
def fields : Fields Exposure :=
  Fields.pure Exposure.mk
    |>.required "id" Decoder.word
    |>.required "experiment_id" Decoder.word
    |>.required "variation_id" Decoder.word
    |>.required "unit" Record.decoder
    |>.required "meta" Record.decoder

instance : Record Exposure where
  toJson e := .ofFields [("id", .ofWord e.id), ("experiment_id", .ofWord e.experimentId),
    ("variation_id", .ofWord e.variationId), ("unit", Record.toJson e.unit),
    ("meta", Record.toJson e.circumstances)]
  decoder := fields.decoder false

end Exposure

/-- Something that units may achieve. -/
structure Goal where
  id : UInt64
  name : String
  /-- The goal in more words. -/
  description : String
deriving DecidableEq, Repr

namespace Goal

/-- The fields of a goal. -/
def fields : Fields Goal :=
  Fields.pure Goal.mk
    |>.required "id" Decoder.word
    |>.required "name" Decoder.text
    |>.required "description" Decoder.text

instance : Record Goal where
  toJson g := .ofFields [("id", .ofWord g.id), ("name", .string g.name),
    ("description", .string g.description)]
  decoder := fields.decoder false

end Goal

/-- An object of the application to which an achievement belongs. -/
structure Related where
  contentType : String
  objectId : UInt64
deriving DecidableEq, Repr

namespace Related

/-- The fields of a related object. -/
def fields : Fields Related :=
  Fields.pure Related.mk
    |>.required "content_type" Decoder.text
    |>.required "object_id" Decoder.word

instance : Record Related where
  toJson r := .ofFields [("content_type", .string r.contentType), ("object_id", .ofWord r.objectId)]
  decoder := fields.decoder false

end Related

/-- A unit achieved a goal. -/
structure Achievement where
  id : UInt64
  goalId : UInt64
  unit : Subject
  /-- What the achievement is worth. -/
  value : Float
  /-- The object to which it belongs. -/
  related : Option Related
  circumstances : EventMeta
deriving BEq

namespace Achievement

/-- The worth of an achievement for which none is given. -/
def defaultValue : Float := 1.0

/-- The achievement in words. -/
def describe (a : Achievement) : String :=
  s!"{a.unit.describe} achieved goal " ++ wordText a.goalId ++ " " ++ plainText a.value

/-- The fields of an achievement. -/
def fields : Fields Achievement :=
  Fields.pure Achievement.mk
    |>.required "id" Decoder.word
    |>.required "goal_id" Decoder.word
    |>.required "unit" Record.decoder
    |>.required "value" Decoder.float
    |>.optional "related" Record.decoder
    |>.required "meta" Record.decoder

/-- A related object or null. -/
def relatedJson : Option Related → Json
  | some r => Record.toJson r
  | none => .null

instance : Record Achievement where
  toJson a := .ofFields [("id", .ofWord a.id), ("goal_id", .ofWord a.goalId),
    ("unit", Record.toJson a.unit), ("value", .ofFloat a.value), ("related", relatedJson a.related),
    ("meta", Record.toJson a.circumstances)]
  decoder := fields.decoder false

end Achievement

/-- An entry of the log of an experiment. -/
structure LogEntry where
  id : UInt64
  experimentId : UInt64
  data : Json
  createdAt : Time
deriving BEq

namespace LogEntry

/-- The fields of an entry. -/
def fields : Fields LogEntry :=
  Fields.pure LogEntry.mk
    |>.required "id" Decoder.word
    |>.required "experiment_id" Decoder.word
    |>.required "data" Decoder.any
    |>.required "created_at" Record.decoder

instance : Record LogEntry where
  toJson l := .ofFields [("id", .ofWord l.id), ("experiment_id", .ofWord l.experimentId),
    ("data", l.data), ("created_at", Record.toJson l.createdAt)]
  decoder := fields.decoder false

end LogEntry

end Allotment
