import Allotment.Json.Basic

/-!
# JSON documents

A document is a JSON text as it was written: members in their order, repeated
names kept, and every token with its value if it has one.  A string has none if
its escapes leave a surrogate unpaired, a number has none if it overflows.

A document denotes a value when all its tokens do and its nesting stays within a
budget; of repeated members the last one counts.
-/

namespace Allotment

namespace Json

/-- A JSON text as a tree. -/
inductive Document where
  /-- The word `null`. -/
  | null
  /-- One of the words `true` and `false`. -/
  | bool (b : Bool)
  /-- A number token. -/
  | number (n : Option Number)
  /-- A string token. -/
  | string (s : Option String)
  /-- An array. -/
  | array (items : List Document)
  /-- An object, as written. -/
  | object (members : List (Option String × Document))
deriving Inhabited

namespace Document

mutual

/-- The value of a document with at most `depth` arrays and objects inside one another. -/
def value? : Nat → Document → Option Json
  | _, .null => some .null
  | _, .bool b => some (.bool b)
  | _, .number n => n.map .number
  | _, .string s => s.map .string
  | 0, .array _ => none
  | 0, .object _ => none
  | depth + 1, .array items => (values? depth items).map .array
  | depth + 1, .object members => (entries? depth members).map Json.ofFields

/-- The values of the items. -/
def values? : Nat → List Document → Option (List Json)
  | _, [] => some []
  | depth, d :: rest => do
      let v ← value? depth d
      let vs ← values? depth rest
      return v :: vs

/-- The entries in the order of the text. -/
def entries? : Nat → List (Option String × Document) → Option (List (String × Json))
  | _, [] => some []
  | depth, (k, d) :: rest => do
      let k ← k
      let v ← value? depth d
      let vs ← entries? depth rest
      return (k, v) :: vs

end

mutual

/-- The document of a value. -/
def ofJson : Json → Document
  | .null => .null
  | .bool b => .bool b
  | .number n => .number (some n)
  | .string s => .string (some s)
  | .array items => .array (ofItems items)
  | .object fields => .object (ofFields fields)

/-- The documents of the items. -/
def ofItems : List Json → List Document
  | [] => []
  | v :: rest => ofJson v :: ofItems rest

/-- The members for the entries. -/
def ofFields : List (String × Json) → List (Option String × Document)
  | [] => []
  | (k, v) :: rest => (some k, ofJson v) :: ofFields rest

end

end Document

end Json

end Allotment
