import Allotment.Proofs.Time.Calendar
import Allotment.Time.Text

/-!
# Times read from their texts

The text of a time is a row of numbers with a mark between any two of them.  A number is read up
to the mark behind it, so the date and the clock are those that were written, and the calendar
gives the day back.

**Results.**
* `number?_append`: digits are read up to what is no digit.
* `read?_write`: a time in the range of the calendar is read from its text.
-/

namespace Allotment

namespace Text

theorem isBlank_of_isDigit {c : Char} (h : c.isDigit = true) : isBlank c = false := by
  simp only [Char.isDigit, Bool.and_eq_true, decide_eq_true_eq] at h
  have hbounds : 48 ≤ c.toNat ∧ c.toNat ≤ 57 := h
  simp [isBlank, blankRanges]
  omega

theorem trimLeft_cons {c : Char} (h : isBlank c = false) (cs : List Char) :
    trimLeft (c :: cs) = c :: cs := by
  simp [trimLeft, h]

end Text

namespace Decimal

/-- A number in digits, of which there may be more than it needs. -/
structure Denotes (ds : List Char) (n : Nat) : Prop where
  ne_nil : ds ≠ []
  digits : ∀ c ∈ ds, c.isDigit = true
  value : ofDigits ds = n

theorem denotes_padLeft (width n : Nat) : Denotes (padLeft width (digitsOf n)) n where
  ne_nil := by
    have hne : digitsOf n ≠ [] := Nat.toDigits_ne_nil
    simp [padLeft, hne]
  digits c hc := by
    rcases List.mem_append.1 hc with hc | hc
    · rw [List.eq_of_mem_replicate hc]
      rfl
    · exact isDigit_of_mem_digitsOf hc
  value := by rw [ofDigits_padLeft, ofDigits_digitsOf]

theorem length_padLeft
    {width n : Nat} (hwidth : 0 < width) (h : n < Nat.pow 10 width) :
    (padLeft width (digitsOf n)).length = width := by
  have hle : (digitsOf n).length ≤ width := (Nat.length_toDigits_le_iff (by decide) hwidth).2 h
  rw [padLeft, List.length_append, List.length_replicate, Nat.sub_add_cancel hle]

namespace Denotes

variable {ds : List Char} {n : Nat} (h : Denotes ds n)
include h

theorem trimLeft_append (rest : List Char) : Text.trimLeft (ds ++ rest) = ds ++ rest := by
  cases ds with
  | nil => exact absurd rfl h.ne_nil
  | cons c ds =>
      have hdigit := h.digits c List.mem_cons_self
      exact Text.trimLeft_cons (Text.isBlank_of_isDigit hdigit) _

/-- The digits end in front of what is no digit. -/
theorem takeWhile_append
    {rest : List Char} (hrest : ∀ c ∈ rest.head?, c.isDigit = false) :
    (ds ++ rest).takeWhile Char.isDigit = ds := by
  have hnone : rest.takeWhile Char.isDigit = [] := by
    cases rest with
    | nil => rfl
    | cons c rest => simp [hrest c rfl]
  rw [List.takeWhile_append_of_pos h.digits, hnone, List.append_nil]

end Denotes

end Decimal

namespace Time

open Decimal (Denotes padLeft digitsOf)

namespace Reader

/-- The text does not go on with a digit. -/
def Stops (rest : List Char) : Prop := ∀ c ∈ rest.head?, c.isDigit = false

theorem stops_cons {c : Char} (h : c.isDigit = false) (rest : List Char) : Stops (c :: rest) := by
  intro d hd
  cases hd
  exact h

theorem stops_writeFraction (nanos : Nat) (rest : List Char) :
    Stops (writeFraction nanos ++ 'Z' :: rest) := by
  unfold writeFraction
  split
  · exact stops_cons rfl _
  · split
    · exact stops_cons rfl _
    · split
      · exact stops_cons rfl _
      · exact stops_cons rfl _

/-- Digits are read up to what is no digit. -/
theorem number?_append
    {ds rest : List Char} {n width : Nat} (h : Denotes ds n) (hwidth : ds.length ≤ width)
    (hrest : Stops rest) :
    number? width (ds ++ rest) = some (n, rest) := by
  have htake : ((ds ++ rest).take width).takeWhile Char.isDigit = ds := by
    rw [List.take_append, List.take_of_length_le hwidth]
    refine h.takeWhile_append fun c hc => hrest c ?_
    rw [List.head?_take] at hc
    split at hc
    · cases hc
    · exact hc
  unfold number?
  simp only [htake, if_neg h.ne_nil, h.value, List.drop_left]

theorem longNumber?_append
    {ds rest : List Char} {n : Nat} (h : Denotes ds n)
    (hrest : Stops rest) :
    longNumber? (ds ++ rest) = some (n, rest) :=
  number?_append h (by simp) hrest

theorem mark?_cons (c : Char) (h : Text.isBlank c = false) (rest : List Char) :
    mark? c (c :: rest) = some rest := by
  rw [mark?, Text.trimLeft_cons h]
  exact if_pos rfl

theorem part?_two
    {lo hi n : Nat} (hlo : lo ≤ n) (hhi : n ≤ hi) (hn : n < 100) {rest : List Char}
    (hrest : Stops rest) :
    part? lo hi (two n ++ rest) = some (n, rest) := by
  have hdenotes : Denotes (two n) n := Decimal.denotes_padLeft 2 n
  have hlength : (two n).length = 2 := Decimal.length_padLeft (by decide) hn
  unfold part?
  rw [hdenotes.trimLeft_append, number?_append hdenotes (Nat.le_of_eq hlength) hrest]
  exact if_pos ⟨hlo, hhi⟩

theorem year?_of_digit
    {cs rest : List Char} {c : Char} (h : Text.trimLeft cs = c :: rest) (hc : c.isDigit = true) :
    year? cs = (number? 4 (c :: rest)).map fun x => ((x.1 : Int), x.2) := by
  unfold year?
  rw [h]
  split
  · rename_i heq
    cases heq
    contradiction
  · rename_i heq
    cases heq
    contradiction
  · rfl

theorem year?_write (year : Int) (rest : List Char) :
    year? (writeYear year ++ '-' :: rest) = some (year, '-' :: rest) := by
  have hdenotes : Denotes (padLeft 4 (digitsOf year.natAbs)) year.natAbs :=
    Decimal.denotes_padLeft 4 year.natAbs
  have hrest : Stops ('-' :: rest) := stops_cons rfl rest
  unfold writeYear
  by_cases hneg : year < 0
  · have hyear : -((year.natAbs : Nat) : Int) = year := by omega
    rw [if_pos hneg, List.cons_append, year?, Text.trimLeft_cons rfl]
    simp only [longNumber?_append hdenotes hrest, Option.map_some, hyear]
  · have hyear : ((year.natAbs : Nat) : Int) = year := by omega
    rw [if_neg hneg]
    by_cases hfour : year ≤ 9999
    · have hlt : year.natAbs < 10000 := by omega
      have hlength : (padLeft 4 (digitsOf year.natAbs)).length = 4 :=
        Decimal.length_padLeft (by decide) hlt
      rw [if_pos hfour]
      generalize padLeft 4 (digitsOf year.natAbs) = ds at *
      cases ds with
      | nil => exact absurd rfl hdenotes.ne_nil
      | cons c ds =>
          have hdigit := hdenotes.digits c List.mem_cons_self
          have hnumber := number?_append hdenotes (Nat.le_of_eq hlength) hrest
          have htrim := Text.trimLeft_cons (Text.isBlank_of_isDigit hdigit) (ds ++ '-' :: rest)
          rw [List.cons_append] at hnumber
          rw [List.cons_append, year?_of_digit htrim hdigit, hnumber]
          simp only [Option.map_some, hyear]
    · rw [if_neg hfour, List.cons_append, year?, Text.trimLeft_cons rfl]
      simp only [longNumber?_append hdenotes hrest, Option.map_some, hyear]

/-- A fraction in groups of three digits. -/
theorem fraction?_group
    (unit width : Nat) (hwidth : 0 < width ∧ width ≤ 9)
    (hunit : Nat.pow 10 (9 - width) = unit ∧ unit * Nat.pow 10 width = 1000000000)
    {nanos : Nat} (hnanos : nanos < 1000000000) (hdvd : nanos % unit = 0) :
    fraction? ('.' :: padLeft width (digitsOf (nanos / unit)) ++ ['Z']) = some (nanos, ['Z']) := by
  have hdenotes := Decimal.denotes_padLeft width (nanos / unit)
  have hlength : (padLeft width (digitsOf (nanos / unit))).length = width := by
    refine Decimal.length_padLeft hwidth.1 (Nat.div_lt_of_lt_mul ?_)
    rw [hunit.2]
    exact hnanos
  have htake : (padLeft width (digitsOf (nanos / unit)) ++ ['Z']).takeWhile Char.isDigit =
      padLeft width (digitsOf (nanos / unit)) :=
    hdenotes.takeWhile_append (stops_cons rfl [])
  have hvalue : nanos / unit * unit = nanos := Nat.div_mul_cancel (Nat.dvd_of_mod_eq_zero hdvd)
  have hnine : (padLeft width (digitsOf (nanos / unit))).take 9 =
      padLeft width (digitsOf (nanos / unit)) :=
    List.take_of_length_le (Nat.le_trans (Nat.le_of_eq hlength) hwidth.2)
  rw [List.cons_append, fraction?, htake]
  simp only [if_neg hdenotes.ne_nil, hnine, hdenotes.value, List.drop_left]
  rw [hlength, hunit.1, hvalue]

theorem fraction?_write
    {nanos : Nat} (h : nanos < 1000000000) :
    fraction? (writeFraction nanos ++ ['Z']) = some (nanos, ['Z']) := by
  unfold writeFraction
  split
  · rename_i hzero
    rw [hzero]
    rfl
  · split
    · exact fraction?_group 1000000 3 (by decide) (by decide) h ‹_›
    · split
      · exact fraction?_group 1000 6 (by decide) (by decide) h ‹_›
      · have hgroup := fraction?_group 1 9 (by decide) (by decide) h (Nat.mod_one nanos)
        rwa [Nat.div_one] at hgroup

theorem date?_write
    {date : Date} (hmonth : 1 ≤ date.month ∧ date.month ≤ 12) (hday : 1 ≤ date.day ∧ date.day ≤ 31)
    {rest : List Char} (hrest : Stops rest) :
    date? (writeYear date.year ++ '-' :: (two date.month ++ '-' :: (two date.day ++ rest))) =
      some (date, rest) := by
  unfold date?
  rw [year?_write, Option.bind_eq_bind, Option.bind_some]
  simp only [mark?_cons '-' rfl, Option.bind_eq_bind, Option.bind_some]
  rw [part?_two hmonth.1 hmonth.2 (by omega) (stops_cons rfl _)]
  simp only [mark?_cons '-' rfl, Option.bind_some]
  rw [part?_two hday.1 hday.2 (by omega) hrest]
  rfl

/-- A leap second is read as the last second of a minute with a second more of nanoseconds. -/
theorem clock?_write
    {second nanos : Nat} (hsecond : second < 86400) (hnanos : nanos < 2000000000)
    (hleap : 1000000000 ≤ nanos → second % 60 = 59) :
    clock? (two (second / 3600) ++ ':' :: (two (second / 60 % 60) ++ ':' ::
      (two (second % 60 + nanos / 1000000000) ++
        (writeFraction (nanos % 1000000000) ++ ['Z'])))) =
      some (second, nanos, ['Z']) := by
  have hlast : second % 60 + nanos / 1000000000 ≤ 60 := by omega
  unfold clock?
  rw [part?_two (Nat.zero_le _) (by omega) (by omega) (stops_cons rfl _)]
  simp only [mark?_cons ':' rfl, Option.bind_eq_bind, Option.bind_some]
  rw [part?_two (Nat.zero_le _) (by omega) (by omega) (stops_cons rfl _)]
  simp only [mark?_cons ':' rfl, Option.bind_some]
  rw [part?_two (Nat.zero_le _) hlast (by omega) (stops_writeFraction _ _)]
  simp only [fraction?_write (Nat.mod_lt nanos (by decide : 0 < 1000000000)), Option.bind_some]
  have hclock : 3600 * (second / 3600) + 60 * (second / 60 % 60) +
      (second % 60 + nanos / 1000000000 - (second % 60 + nanos / 1000000000) / 60) = second := by
    omega
  have hrest :
      nanos % 1000000000 + (second % 60 + nanos / 1000000000) / 60 * 1000000000 = nanos := by
    omega
  rw [hclock, hrest]
  rfl

end Reader

/-- The time lies in the range of the calendar, and has a leap second at the end of a minute
only. -/
structure Proper (t : Time) : Prop where
  valid : t.isValid = true
  nanos_lt : t.nanos < 2000000000
  leap : 1000000000 ≤ t.nanos → t.secondOfDay % 60 = 59

theorem secondOfDay_lt (t : Time) : t.secondOfDay < 86400 := by
  unfold secondOfDay daySeconds
  rw [Int.fmod_eq_emod_of_nonneg _ (by decide)]
  omega

theorem daySeconds_split (t : Time) :
    t.seconds.fdiv daySeconds * daySeconds + t.secondOfDay = t.seconds := by
  unfold secondOfDay daySeconds
  rw [Int.fmod_eq_emod_of_nonneg _ (by decide), Int.fdiv_eq_ediv_of_nonneg _ (by decide)]
  omega

/-- A time is read from its text. -/
theorem read?_write {t : Time} (h : t.Proper) : read? t.write = some t := by
  obtain ⟨hmonth, hday, hlast⟩ : (1 ≤ t.date.month ∧ t.date.month ≤ 12) ∧ 1 ≤ t.date.day ∧
      t.date.day ≤ Date.daysIn t.date.year t.date.month :=
    Date.exists_ofDays _
  have hday' : t.date.day ≤ 31 := Nat.le_trans hlast (Date.daysIn_le _ _)
  have hseconds : t.date.toDays * daySeconds + t.secondOfDay - 0 = t.seconds := by
    rw [Int.sub_zero, date, Date.toDays_ofDays, daySeconds_split]
  have hvalid := h.valid
  have hdate : t.date.isValid = true := by
    simp only [isValid, Bool.and_eq_true] at hvalid
    simp [Date.isValid, hvalid, hmonth, hday, hlast]
  unfold read? write
  simp only [List.append_assoc, List.cons_append]
  rw [Reader.date?_write hmonth ⟨hday, hday'⟩ (Reader.stops_cons rfl _)]
  show (Reader.clock? _).bind _ = some t
  rw [Reader.clock?_write t.secondOfDay_lt h.nanos_lt h.leap]
  show (if (t.date.isValid && true && true &&
    isValid ⟨t.date.toDays * daySeconds + t.secondOfDay - 0, t.nanos⟩) = true then some _
    else none) = some t
  simp [hseconds, hdate, hvalid]

end Time

end Allotment
