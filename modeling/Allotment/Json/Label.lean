import Allotment.Json.Writer
import Allotment.Text.Quoted

/-!
# Labels of values

The text under which a value is hashed and counted.  A string is its own label;
any other value is spelled out, with the strings inside it quoted.

The spelling uses `None`, `True` and `False`, decimal integers, shortest floats,
`[a, b]` for lists and `{k: v}` for objects.
-/

namespace Allotment

namespace Json

/-- A number spelled out. -/
def spellNumber : Number → List Char
  | .int n => writeInt n.val
  | .real x => Decimal.spelled.write x.val

mutual

/-- A value spelled out, every string in quotes. -/
def spell : Json → List Char
  | .null => "None".toList
  | .bool true => "True".toList
  | .bool false => "False".toList
  | .number n => spellNumber n
  | .string s => Text.quote s
  | .array items => '[' :: (spellItems items ++ [']'])
  | .object fields => '\x7b' :: (spellFields fields ++ ['\x7d'])

/-- Items with a comma and a blank between them. -/
def spellItems : List Json → List Char
  | [] => []
  | [v] => spell v
  | v :: rest => spell v ++ ',' :: ' ' :: spellItems rest

/-- Entries with a comma and a blank between them. -/
def spellFields : List (String × Json) → List Char
  | [] => []
  | [(k, v)] => Text.quote k ++ ':' :: ' ' :: spell v
  | (k, v) :: rest => Text.quote k ++ ':' :: ' ' :: (spell v ++ ',' :: ' ' :: spellFields rest)

end

/-- A value spelled out. -/
def spelling (v : Json) : String := String.ofList (spell v)

/-- The label of a value: a string bare, any other value spelled out. -/
def label : Json → String
  | .string s => s
  | v => spelling v

end Json

end Allotment
