import Allotment.Json.Decoder

/-!
# Configuration

Settings that all trials share.  A setting that is absent keeps its default.
-/

namespace Allotment

open Json (Decoder Fields)

/-- The settings. -/
structure Config where
  /-- The type of the identifiers of registered users. -/
  internalType : String := "django_user_db_id"
  /-- Exposures are recorded as soon as a value is asked for. -/
  autoExposure : Bool := true
  /-- Where events come from. -/
  dataSource : Option String := none
  /-- The version of the application. -/
  appVersion : Option String := none
deriving DecidableEq, Repr

namespace Config

/-- The default type of the identifiers of registered users. -/
def defaultInternalType : String := ({} : Config).internalType

/-- The fields of a configuration. -/
def fields : Fields Config :=
  Fields.pure Config.mk
    |>.withDefault "internal_identifier_type" Decoder.text defaultInternalType
    |>.withDefault "auto_exposure_log" Decoder.bool true
    |>.optional "data_source" Decoder.text
    |>.optional "app_version" Decoder.text

instance : Record Config where
  toJson c := .ofFields [("internal_identifier_type", .string c.internalType),
    ("auto_exposure_log", .bool c.autoExposure), ("data_source", .ofString? c.dataSource),
    ("app_version", .ofString? c.appVersion)]
  decoder := fields.decoder true

/-- The configuration, if the type of internal identifiers is not blank. -/
def validate (c : Config) : Except Fault Config :=
  if Text.allBlank c.internalType then
    .error (.invalidConfig "internal_identifier_type must not be empty")
  else .ok c

/-- Reads a configuration that is valid. -/
def parse (text : String) : Except Fault Config :=
  match Record.parse text with
  | .ok c => validate c
  | .error e => .error e

end Config

end Allotment
