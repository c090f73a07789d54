import Allotment.Text.Hex

/-!
# Quoted strings

A quoted string stands between single quotes, or between double quotes if it
holds a single quote and no double quote.  The backslash and the quote in use are
escaped, and so are the control characters.
-/

namespace Allotment

namespace Text

/-- The quote for a text: double exactly if it holds a single quote and no double quote. -/
def quoteFor (cs : List Char) : Char :=
  if cs.contains '\'' && !cs.contains '"' then '"' else '\''

/-- The character is a control character, that is, of the general category Cc. -/
def isControl (c : Char) : Bool := c.toNat < 0x20 || (0x7F ≤ c.toNat && c.toNat ≤ 0x9F)

/-- A character between the quotes `q`. -/
def quoteChar (q c : Char) : List Char :=
  if c = '\\' then ['\\', '\\']
  else if c = '\n' then ['\\', 'n']
  else if c = '\r' then ['\\', 'r']
  else if c = '\t' then ['\\', 't']
  else if c = q then ['\\', c]
  else if isControl c then ['\\', 'x'] ++ hexPair c.toNat
  else [c]

/-- A text between quotes. -/
def quote (s : String) : List Char :=
  let cs := s.toList
  let q := quoteFor cs
  q :: (cs.flatMap (quoteChar q) ++ [q])

end Text

end Allotment
