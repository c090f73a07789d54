import Allotment.Decimal.Digits
import Allotment.Text.Blank
import Allotment.Time.Basic

/-!
# Times as text

Times are written in the Internet format of ISO 8601, in universal time and with
as many of 0, 3, 6 or 9 fraction digits as they need.

The reader is lenient about blanks, the width of numbers and the letter between
date and time, and takes any offset from universal time of less than a day.

Both stand for what the package `chrono` does with a time in universal time.
-/

namespace Allotment

namespace Time

/-- A number in at least two digits. -/
def two (n : Nat) : List Char := Decimal.padLeft 2 (Decimal.digitsOf n)

/-- A year: four digits, or a sign and at least four digits if these do not suffice. -/
def writeYear (year : Int) : List Char :=
  let digits := Decimal.padLeft 4 (Decimal.digitsOf year.natAbs)
  if year < 0 then '-' :: digits else if year ≤ 9999 then digits else '+' :: digits

/-- The fraction of a second, in the fewest groups of three digits. -/
def writeFraction (nanos : Nat) : List Char :=
  if nanos = 0 then []
  else if nanos % 1000000 = 0 then '.' :: Decimal.padLeft 3 (Decimal.digitsOf (nanos / 1000000))
  else if nanos % 1000 = 0 then '.' :: Decimal.padLeft 6 (Decimal.digitsOf (nanos / 1000))
  else '.' :: Decimal.padLeft 9 (Decimal.digitsOf nanos)

/-- A time in universal time.  A leap second has the number 60. -/
def write (t : Time) : List Char :=
  let d := t.date
  let s := t.secondOfDay
  let leap := t.nanos / 1000000000
  writeYear d.year ++ '-' :: two d.month ++ '-' :: two d.day ++
    'T' :: two (s / 3600) ++ ':' :: two (s / 60 % 60) ++ ':' :: two (s % 60 + leap) ++
    writeFraction (t.nanos % 1000000000) ++ ['Z']

/-- A time as text. -/
def text (t : Time) : String := String.ofList t.write

namespace Reader

/-- A number of one up to `width` digits, and what follows it. -/
def number? (width : Nat) (cs : List Char) : Option (Nat × List Char) :=
  let ds := (cs.take width).takeWhile Char.isDigit
  if ds = [] then none else some (Decimal.ofDigits ds, cs.drop ds.length)

/-- A number of any length. -/
def longNumber? (cs : List Char) : Option (Nat × List Char) := number? cs.length cs

/-- A year: up to four digits, or any number of digits after a sign. -/
def year? (cs : List Char) : Option (Int × List Char) :=
  match Text.trimLeft cs with
  | '-' :: rest => (longNumber? rest).map fun x => (-(x.1 : Int), x.2)
  | '+' :: rest => (longNumber? rest).map fun x => (x.1, x.2)
  | rest => (number? 4 rest).map fun x => (x.1, x.2)

/-- A number of one or two digits after any blanks, from `lo` to `hi`. -/
def part? (lo hi : Nat) (cs : List Char) : Option (Nat × List Char) := do
  let (n, rest) ← number? 2 (Text.trimLeft cs)
  if lo ≤ n ∧ n ≤ hi then return (n, rest) else none

/-- A character, after any blanks. -/
def mark? (c : Char) (cs : List Char) : Option (List Char) :=
  match Text.trimLeft cs with
  | d :: rest => if d = c then some rest else none
  | [] => none

/-- The nanoseconds of a fraction, if one follows.  Digits after the ninth do not count. -/
def fraction? : List Char → Option (Nat × List Char)
  | '.' :: cs =>
      let ds := cs.takeWhile Char.isDigit
      if ds = [] then none
      else
        let nine := ds.take 9
        some (Decimal.ofDigits nine * Nat.pow 10 (9 - nine.length), cs.drop ds.length)
  | cs => some (0, cs)

/-- A character between the hours and the minutes of an offset. -/
def isSeparator (c : Char) : Bool := c == ':' || Text.isBlank c

/-- The hours and minutes of an offset, in seconds. -/
def hoursMinutes? : List Char → Option (Nat × List Char)
  | a :: b :: rest =>
      match rest.dropWhile isSeparator with
      | c :: d :: rest =>
          if a.isDigit && b.isDigit && c.isDigit && d.isDigit && c.toNat < 54 then
            some (3600 * Decimal.ofDigits [a, b] + 60 * Decimal.ofDigits [c, d], rest)
          else none
      | _ => none
  | _ => none

/-- The word for universal time, in any case. -/
def isUniversal (a b c : Char) : Bool :=
  (a == 'U' || a == 'u') && (b == 'T' || b == 't') && (c == 'C' || c == 'c')

/-- An offset from universal time with its sign, in seconds. -/
def signedOffset? : List Char → Option (Int × List Char)
  | '+' :: rest => (hoursMinutes? rest).map fun x => ((x.1 : Int), x.2)
  | '-' :: rest => (hoursMinutes? rest).map fun x => (-(x.1 : Int), x.2)
  | '\u2212' :: rest => (hoursMinutes? rest).map fun x => (-(x.1 : Int), x.2)
  | 'Z' :: rest => some (0, rest)
  | 'z' :: rest => some (0, rest)
  | _ => none

/-- An offset from universal time, in seconds. -/
def offset? : List Char → Option (Int × List Char)
  | a :: b :: c :: rest =>
      if isUniversal a b c then some (0, rest) else signedOffset? (a :: b :: c :: rest)
  | cs => signedOffset? cs

/-- A date. -/
def date? (cs : List Char) : Option (Date × List Char) := do
  let (year, cs) ← year? cs
  let cs ← mark? '-' cs
  let (month, cs) ← part? 1 12 cs
  let cs ← mark? '-' cs
  let (day, cs) ← part? 1 31 cs
  return (⟨year, month, day⟩, cs)

/-- The letter or blank between a date and a time. -/
def divider? : List Char → Option (List Char)
  | c :: rest => if c = 'T' ∨ c = 't' ∨ c = ' ' then some rest else none
  | [] => none

/-- A time of the day, in seconds and nanoseconds.  Second 60 is a leap second. -/
def clock? (cs : List Char) : Option (Nat × Nat × List Char) := do
  let (hour, cs) ← part? 0 23 cs
  let cs ← mark? ':' cs
  let (minute, cs) ← part? 0 59 cs
  let cs ← mark? ':' cs
  let (second, cs) ← part? 0 60 cs
  let (nanos, cs) ← fraction? cs
  let leap := second / 60
  return (3600 * hour + 60 * minute + (second - leap), nanos + leap * 1000000000, Text.trimLeft cs)

end Reader

/-- The time that a text denotes. -/
def read? (cs : List Char) : Option Time := do
  let (date, cs) ← Reader.date? cs
  let cs ← Reader.divider? cs
  let (seconds, nanos, cs) ← Reader.clock? cs
  let (offset, cs) ← Reader.offset? cs
  let t : Time := ⟨date.toDays * daySeconds + seconds - offset, nanos⟩
  if date.isValid && offset.natAbs < 86400 && cs.all Text.isBlank && t.isValid then return t
  else none

end Time

end Allotment
