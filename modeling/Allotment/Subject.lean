import Allotment.Json.Decoder

/-!
# Units

The unit of an experiment, to which a variation is assigned and for which events
are recorded.  It is a registered user, or an identifier from outside with the kind
of identifier that it is.

**Results.**
* `sameUnit_iff`: two units are the same exactly if they have the same key.
-/

namespace Allotment

open Json (Decoder Fields)

/-- A registered user. -/
structure User where
  id : UInt64
  /-- The name of the user, which plays no part in the identity. -/
  username : String
deriving DecidableEq, Repr

namespace User

/-- The fields of a user. -/
def fields : Fields User :=
  Fields.pure User.mk
    |>.required "id" Decoder.word
    |>.required "username" Decoder.text

instance : Record User where
  toJson u := .ofFields [("id", .ofWord u.id), ("username", .string u.username)]
  decoder := fields.decoder false

end User

/-- A unit of an experiment. -/
inductive Subject where
  | user (user : User)
  /-- An identifier of some type. -/
  | external (identifier identifierType : String)
deriving DecidableEq, Repr

namespace Subject

/-- What tells units apart. -/
inductive Key where
  | user (id : UInt64)
  | external (identifier identifierType : String)
deriving DecidableEq, Repr

/-- The key of a unit. -/
def key : Subject → Key
  | .user u => .user u.id
  | .external identifier identifierType => .external identifier identifierType

/-- The two are the same unit. -/
def sameUnit (a b : Subject) : Bool := a.key == b.key

theorem sameUnit_iff {a b : Subject} : a.sameUnit b = true ↔ a.key = b.key := by
  simp [sameUnit]

/-- Nothing of the identity is missing. -/
def isComplete : Subject → Bool
  | .user _ => true
  | .external identifier identifierType => identifier != "" && identifierType != ""

/-- The unit as a user, if it is one. -/
def user? : Subject → Option User
  | .user u => some u
  | .external _ _ => none

/-- The unit in words. -/
def describe : Subject → String
  | .user u => u.username
  | .external identifier identifierType => s!"{identifierType}: {identifier}"

/-- The input that holds the unit. -/
def unitInput : String := "user_id"

/-- The input that holds the type of the unit's identifier. -/
def typeInput : String := "user_identifier_type"

/-- The inputs that stand for a unit.  The identifiers of users are of the internal type. -/
def inputs (unit : Subject) (internalType : String) : Dict Json :=
  match unit with
  | .user u => Dict.ofList [(unitInput, .ofWord u.id), (typeInput, .string internalType)]
  | .external identifier identifierType =>
      Dict.ofList [(unitInput, .string identifier), (typeInput, .string identifierType)]

/-- The fields of a user unit. -/
def userFields : Fields Subject :=
  Fields.pure Subject.user
    |>.required "user" Record.decoder

/-- The fields of an external unit. -/
def externalFields : Fields Subject :=
  Fields.pure Subject.external
    |>.required "identifier" Decoder.text
    |>.required "identifier_type" Decoder.text

/-- The fields of a unit of the given kind. -/
def fieldsOf? : String → Option (Fields Subject)
  | "user" => some userFields
  | "external" => some externalFields
  | _ => none

/-- Reads a unit: an object with the kind among its members, or a list that starts with it.
All of it has to denote a value. -/
def decode : Decoder Subject
  | depth, .object members => do
      let _ ← Decoder.any depth (.object members)
      let tag ← Fields.known? ["kind"] members
      let kind ← (Fields.find? tag "kind").bind (Decoder.text depth)
      (← fieldsOf? kind).decoder false depth (.object members)
  | depth, .array (tag :: items) => do
      let _ ← Decoder.any depth (.array items)
      let kind ← Decoder.text depth tag
      (← fieldsOf? kind).decoder false depth (.array items)
  | _, _ => none

instance : Record Subject where
  toJson
    | .user u => .ofFields [("kind", .string "user"), ("user", Record.toJson u)]
    | .external identifier identifierType =>
        .ofFields [("kind", .string "external"), ("identifier", .string identifier),
          ("identifier_type", .string identifierType)]
  decoder := decode

end Subject

end Allotment
