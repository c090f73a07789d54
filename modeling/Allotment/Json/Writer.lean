import Allotment.Json.Basic
import Allotment.Decimal.Layout
import Allotment.Text.Hex

/-!
# Written JSON

The compact text of a value: no blanks, entries in the order of the object, and
escapes only where the grammar demands them.  It stands for the compact writer of
the package `serde_json`.
-/

namespace Allotment

namespace Json

/-- A character inside a written string: the quote, the backslash and the control
characters below U+0020 are escaped. -/
def escapeChar (c : Char) : List Char :=
  if c = '"' then ['\\', '"']
  else if c = '\\' then ['\\', '\\']
  else if c.toNat = 8 then ['\\', 'b']
  else if c.toNat = 12 then ['\\', 'f']
  else if c = '\n' then ['\\', 'n']
  else if c = '\r' then ['\\', 'r']
  else if c = '\t' then ['\\', 't']
  else if c.toNat < 32 then
    ['\\', 'u', '0', '0'] ++ Text.hexPair c.toNat
  else [c]

/-- A written string. -/
def writeString (s : String) : List Char := '"' :: (s.toList.flatMap escapeChar ++ ['"'])

/-- An integer in decimal. -/
def writeInt (n : Int) : List Char :=
  if n < 0 then '-' :: Decimal.digitsOf n.natAbs else Decimal.digitsOf n.natAbs

/-- A written number. -/
def writeNumber : Number → List Char
  | .int n => writeInt n.val
  | .real x => Decimal.json.write x.val

mutual

/-- The compact text of a value. -/
def write : Json → List Char
  | .null => "null".toList
  | .bool true => "true".toList
  | .bool false => "false".toList
  | .number n => writeNumber n
  | .string s => writeString s
  | .array items => '[' :: (writeItems items ++ [']'])
  | .object fields => '\x7b' :: (writeFields fields ++ ['\x7d'])

/-- The items, separated by commas. -/
def writeItems : List Json → List Char
  | [] => []
  | [v] => write v
  | v :: rest => write v ++ ',' :: writeItems rest

/-- The entries, separated by commas. -/
def writeFields : List (String × Json) → List Char
  | [] => []
  | [(k, v)] => writeString k ++ ':' :: write v
  | (k, v) :: rest => writeString k ++ ':' :: (write v ++ ',' :: writeFields rest)

end

/-- The compact text of a value. -/
def compact (v : Json) : String := String.ofList (write v)

end Json

end Allotment
