import Allotment.Json.Reader
import Allotment.Fault
import Allotment.Time.Text

/-!
# Decoders

A decoder reads a value of some type from a document.  It works on the document
and not on the value that the document denotes, because a record says more about
its text than a free value does: a field that it knows may be written once only,
and what it does not know it does not look into.

A record is written as an object, or as the list of its fields in their order.
-/

namespace Allotment

namespace Json

/-- A way to read a document with at most the given number of arrays and objects inside one
another. -/
abbrev Decoder (α : Type) := Nat → Document → Option α

namespace Decoder

variable {α : Type} {β : Type}

/-- Any value. -/
def any : Decoder Json := Document.value?

/-- A string. -/
def text : Decoder String
  | _, .string s => s
  | _, _ => none

/-- A truth value. -/
def bool : Decoder Bool
  | _, .bool b => some b
  | _, _ => none

/-- An integer of an unsigned 64-bit word. -/
def word : Decoder UInt64
  | _, .number (some n) => Json.toWord? (.number n)
  | _, _ => none

/-- A number as a float. -/
def float : Decoder Float
  | _, .number (some n) => some n.toFloat
  | _, _ => none

/-- Null, or what another decoder reads. -/
def nullable (d : Decoder α) : Decoder (Option α)
  | _, .null => some none
  | depth, doc => (d depth doc).map some

/-- A list. -/
def list (d : Decoder α) : Decoder (List α)
  | depth + 1, .array items => items.mapM (d depth)
  | _, _ => none

/-- What another decoder reads, transformed, if it is fit for that. -/
def filterMap (d : Decoder α) (f : α → Option β) : Decoder β :=
  fun depth doc => (d depth doc).bind f

end Decoder

/-- The fields of a record, in the order of its list form, and how they are read. -/
structure Fields (α : Type) where
  names : List String
  /-- Reads the fields from the document under each name. -/
  read : Nat → (String → Option Document) → Option α

namespace Fields

variable {α : Type} {β : Type}

/-- No field. -/
protected def pure (a : α) : Fields α := ⟨[], fun _ _ => some a⟩

/-- One more field, which has to be there. -/
def required (f : Fields (α → β)) (name : String) (d : Decoder α) : Fields β where
  names := f.names ++ [name]
  read depth at? := do
    let g ← f.read depth at?
    let doc ← at? name
    return g (← d depth doc)

/-- One more field, which has a value also if it is absent. -/
def withDefault (f : Fields (α → β)) (name : String) (d : Decoder α) (default : α) :
    Fields β where
  names := f.names ++ [name]
  read depth at? := do
    let g ← f.read depth at?
    match at? name with
    | none => return g default
    | some doc => return g (← d depth doc)

/-- One more field, which may be null or absent. -/
def optional (f : Fields (Option α → β)) (name : String) (d : Decoder α) : Fields β :=
  f.withDefault name d.nullable none

/-- The document under a name among named documents. -/
def find? (members : List (String × Document)) (name : String) : Option Document :=
  (members.find? fun m => m.1 = name).map (·.2)

/-- The members of an object that have one of the names, unless a name of the object is no
string or one of these is there twice. -/
def known? (names : List String) (members : List (Option String × Document)) :
    Option (List (String × Document)) := do
  let named ← members.mapM fun m => m.1.map fun k => (k, m.2)
  let known := named.filter fun m => m.1 ∈ names
  if (known.map (·.1)).Nodup then return known else none

/-- A record with these fields.  If `lenient` holds, its list form may leave out the last ones. -/
def decoder (f : Fields α) (lenient : Bool) : Decoder α
  | depth + 1, .object members => do
      let known ← known? f.names members
      f.read depth (find? known)
  | depth + 1, .array items =>
      if items.length = f.names.length ∨ (lenient = true ∧ items.length ≤ f.names.length) then
        f.read depth (find? (f.names.zip items))
      else none
  | _, _ => none

end Fields

end Json

/-- A type whose values are written as JSON and read back. -/
class Record (α : Type) where
  toJson : α → Json
  /-- How a value is read. -/
  decoder : Json.Decoder α

namespace Record

variable {α : Type} [Record α]

/-- The record that a text denotes. -/
def parse? (text : String) : Option α :=
  match Json.Document.read? text.toList with
  | some doc => decoder Json.maxDepth doc
  | none => none

/-- The record that a text denotes. -/
def parse (text : String) : Except Fault α :=
  match parse? text with
  | some a => .ok a
  | none => .error .json

/-- The record as a compact text. -/
def text (a : α) : String := (toJson a).compact

end Record

instance : Record Time where
  toJson t := .string t.text
  decoder := Json.Decoder.text.filterMap fun s => Time.read? s.toList

end Allotment
