import Allotment.Decimal.Digits
import Allotment.Json.Document
import Allotment.Text.Hex

/-!
# Reading JSON

A strict recursive-descent reader.  Blanks are the space, the tab and the two
line ends; numbers have no leading zeros; strings hold no control characters
below U+0020; nothing follows the document.

It stands for the reader of the package `serde_json` with its default features,
which reads numbers faster than exactly.  A word of 64 bits takes the digits in
front, and the floating-point number of the word is scaled by a power of ten.
Both may round, so a number may be read as a neighbour of the nearest one, and
what is written of a floating-point number need not be read as that number.

**Implementation notes.**  The three functions for documents call one another with
a decreasing bound.  At most two calls are made before a character is consumed,
so twice the length of the text is enough.
-/

namespace Allotment

namespace Json

namespace Reader

/-- The blanks between tokens. -/
def isBlank (c : Char) : Bool := c == ' ' || c == '\t' || c == '\n' || c == '\r'

/-- The text from its first character that is no blank. -/
def skip (cs : List Char) : List Char := cs.dropWhile isBlank

/-- The number of four hexadecimal digits. -/
def hex4? (a b c d : Char) : Option Nat := do
  let values ← [a, b, c, d].mapM Text.hexValue?
  return values.foldl (fun n v => 16 * n + v) 0

/-- The character that a backslash and a letter stand for. -/
def unescape? : Char → Option Nat
  | '"' => some 34
  | '\\' => some 92
  | '/' => some 47
  | 'b' => some 8
  | 'f' => some 12
  | 'n' => some 10
  | 'r' => some 13
  | 't' => some 9
  | _ => none

/-- The code units of a string up to its closing quote, and what follows the quote.
An escape gives a 16-bit unit, any other character its code point. -/
def units? : List Char → Option (List Nat × List Char)
  | [] => none
  | '"' :: rest => some ([], rest)
  | '\\' :: 'u' :: a :: b :: c :: d :: rest => do
      let u ← hex4? a b c d
      let (us, rest) ← units? rest
      return (u :: us, rest)
  | '\\' :: e :: rest => do
      let u ← unescape? e
      let (us, rest) ← units? rest
      return (u :: us, rest)
  | c :: rest =>
      if c.toNat < 32 then none
      else do
        let (us, rest) ← units? rest
        return (c.toNat :: us, rest)

/-- The characters of the units, with surrogates joined in pairs. -/
def chars? : List Nat → Option (List Char)
  | [] => some []
  | [u] => if 0xD800 ≤ u ∧ u < 0xE000 then none else some [Char.ofNat u]
  | u :: v :: rest =>
      if 0xD800 ≤ u ∧ u < 0xDC00 then
        if 0xDC00 ≤ v ∧ v < 0xE000 then
          (chars? rest).map (Char.ofNat (0x10000 + (u - 0xD800) * 0x400 + (v - 0xDC00)) :: ·)
        else none
      else if 0xDC00 ≤ u ∧ u < 0xE000 then none
      else (chars? (v :: rest)).map (Char.ofNat u :: ·)

/-- A string token after its opening quote. -/
def string? (cs : List Char) : Option (Option String × List Char) := do
  let (us, rest) ← units? cs
  return ((chars? us).map String.ofList, rest)

/-- The longest run of digits in front. -/
def digits (cs : List Char) : List Char × List Char :=
  (cs.takeWhile Char.isDigit, cs.dropWhile Char.isDigit)

/-- A word that digits are appended to as long as there is room for them in 64 bits, and the
digits from the first one on that there is no room for. -/
def intoWord (n : Nat) : List Char → Nat × List Char
  | [] => (n, [])
  | d :: ds =>
      let longer := 10 * n + (d.toNat - '0'.toNat)
      if longer < 0x10000000000000000 then intoWord longer ds else (n, d :: ds)

/-- A power of ten, up to the greatest one that is a floating-point number, `10 ^ 308`. -/
def powerOfTen (n : Nat) : Float := Float.ofScientific 1 false (min n 308)

/-- The floating-point number of a word times `10 ^ e`, or `none` if the power is out of range.
A word is divided by two powers if one does not suffice, and nothing would be left of it for a
third one. -/
def scaled? (word : Nat) (e : Int) : Option Float :=
  let x := Float.ofNat word
  match e with
  | .ofNat n => if n ≤ 308 ∨ word = 0 then some (x * powerOfTen n) else none
  | .negSucc n => some (x / powerOfTen (n + 1) / powerOfTen (n + 1 - 308))

/-- The floating-point number of the digits before and after the point and of the exponent, or
`none` if it overflows.  The digits that a word has room for are scaled by a power of ten, and
each of the steps rounds, so this is not always the nearest number. -/
def realOf? (neg : Bool) (whole places : List Char) (exponent : Int) : Option Real := do
  let (front, left) := intoWord 0 whole
  let (word, dropped) := intoWord front places
  let taken := places.length - dropped.length
  let x ← scaled? word (exponent + left.length - taken)
  Real.ofFloat? (if neg then -x else x)

/-- The number of an integer token: an integer if a 64-bit word holds it, otherwise a
floating-point number.  Minus zero is a floating-point number. -/
def wholeOf? (neg : Bool) (ds : List Char) : Option Number :=
  let n := Decimal.ofDigits ds
  if neg && n == 0 then (realOf? true ds [] 0).map .real
  else
    match Number.ofInt? (if neg then -(n : Int) else n) with
    | some found => some found
    | none => (realOf? neg ds [] 0).map .real

/-- The whole part of a number: a single zero, or digits that do not start with one. -/
def wholePart? (cs : List Char) : Option (List Char × List Char) :=
  match digits cs with
  | ([], _) => none
  | (d :: ds, rest) => if d = '0' ∧ ds ≠ [] then none else some (d :: ds, rest)

/-- A fraction, if one follows; it has at least one digit. -/
def fraction? : List Char → Option (Option (List Char) × List Char)
  | '.' :: cs =>
      match digits cs with
      | ([], _) => none
      | (ds, rest) => some (some ds, rest)
  | cs => some (none, cs)

/-- The sign and the digits of an exponent. -/
def exponentDigits? (neg : Bool) (cs : List Char) : Option (Option Int × List Char) :=
  match digits cs with
  | ([], _) => none
  | (ds, rest) =>
      let e : Int := Decimal.ofDigits ds
      some (some (if neg then -e else e), rest)

/-- An exponent, if one follows; it has at least one digit. -/
def exponent? : List Char → Option (Option Int × List Char)
  | c :: cs =>
      if c = 'e' ∨ c = 'E' then
        match cs with
        | '+' :: cs => exponentDigits? false cs
        | '-' :: cs => exponentDigits? true cs
        | cs => exponentDigits? false cs
      else some (none, c :: cs)
  | [] => some (none, [])

/-- A number token after its sign. -/
def number? (neg : Bool) (cs : List Char) : Option (Option Number × List Char) := do
  let (whole, cs) ← wholePart? cs
  let (fraction, cs) ← fraction? cs
  let (exponent, cs) ← exponent? cs
  match fraction, exponent with
  | none, none => return (wholeOf? neg whole, cs)
  | _, _ => return ((realOf? neg whole (fraction.getD []) (exponent.getD 0)).map .real, cs)

/-- A fixed word. -/
def word? (word : List Char) (d : Document) (cs : List Char) : Option (Document × List Char) :=
  if word.isPrefixOf cs then some (d, cs.drop word.length) else none

mutual

/-- A document in front of the text, and what follows it. -/
def document? : Nat → List Char → Option (Document × List Char)
  | 0, _ => none
  | bound + 1, cs =>
      match skip cs with
      | [] => none
      | '"' :: rest => do
          let (s, rest) ← string? rest
          return (.string s, rest)
      | '[' :: rest =>
          match skip rest with
          | ']' :: rest => some (.array [], rest)
          | rest => do
              let (items, rest) ← items? bound rest
              return (.array items, rest)
      | '\x7b' :: rest =>
          match skip rest with
          | '\x7d' :: rest => some (.object [], rest)
          | rest => do
              let (members, rest) ← members? bound rest
              return (.object members, rest)
      | '-' :: rest => do
          let (n, rest) ← number? true rest
          return (.number n, rest)
      | c :: rest =>
          if c.isDigit then do
            let (n, rest) ← number? false (c :: rest)
            return (.number n, rest)
          else if c = 'n' then word? "null".toList .null (c :: rest)
          else if c = 't' then word? "true".toList (.bool true) (c :: rest)
          else if c = 'f' then word? "false".toList (.bool false) (c :: rest)
          else none

/-- The items of an array and its closing bracket. -/
def items? : Nat → List Char → Option (List Document × List Char)
  | 0, _ => none
  | bound + 1, cs => do
      let (d, cs) ← document? bound cs
      match skip cs with
      | ']' :: rest => return ([d], rest)
      | ',' :: rest =>
          let (ds, rest) ← items? bound rest
          return (d :: ds, rest)
      | _ => none

/-- The members of an object and its closing brace. -/
def members? : Nat → List Char → Option (List (Option String × Document) × List Char)
  | 0, _ => none
  | bound + 1, cs =>
      match skip cs with
      | '"' :: rest => do
          let (k, rest) ← string? rest
          match skip rest with
          | ':' :: rest =>
              let (d, rest) ← document? bound rest
              match skip rest with
              | '\x7d' :: rest => return ([(k, d)], rest)
              | ',' :: rest =>
                  let (ds, rest) ← members? bound rest
                  return ((k, d) :: ds, rest)
              | _ => none
          | _ => none
      | _ => none

end

end Reader

/-- The document that a text holds, with nothing but blanks around it. -/
def Document.read? (text : List Char) : Option Document := do
  let (d, rest) ← Reader.document? (2 * text.length + 2) text
  if Reader.skip rest = [] then return d else none

/-- The number of arrays and objects that may stand inside one another in a text. -/
def maxDepth : Nat := 127

/-- The value that a text denotes. -/
def parse? (text : String) : Option Json := do
  let d ← Document.read? text.toList
  d.value? maxDepth

end Json

end Allotment
