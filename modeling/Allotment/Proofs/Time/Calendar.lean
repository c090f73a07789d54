import Allotment.Time.Basic

/-!
# The calendar

Days are counted in eras of 400 years that start in March, as in `Date.toDays` and `Date.ofDays`.
A day of an era falls into one of its years, and a day of a year into one of its months.

**Results.**
* `toDays_ofDays`: the date at a number of days is that many days away.
* `exists_ofDays`: it is a date of the calendar.
-/

namespace Allotment

namespace Date

/-- The year of an era in which a day of the era falls. -/
def yearOfEra (day : Int) : Int := (day - day / 1460 + day / 36524 - day / 146096) / 365

/-- The days of an era before one of its years. -/
def yearStart (year : Int) : Int := 365 * year + year / 4 - year / 100

/-- The month in which a day of a year falls, counted from March. -/
def monthOfYear (day : Int) : Int := (5 * day + 2) / 153

/-- The days of a year before one of its months. -/
def monthStart (month : Int) : Int := (153 * month + 2) / 5

/-- A date by its month, counted from March, of a year that starts there. -/
def ofMarch (year month day : Int) : Date :=
  let m := if month < 10 then month + 3 else month - 9
  ⟨if m ≤ 2 then year + 1 else year, m.toNat, day.toNat⟩

section March

variable {month day : Int} (hmonth : 0 ≤ month ∧ month < 12)
include hmonth

theorem month_ofMarch (year day : Int) :
    ((ofMarch year month day).month : Int) = if month < 10 then month + 3 else month - 9 := by
  show ((if month < 10 then month + 3 else month - 9 : Int).toNat : Int) = _
  omega

theorem year_ofMarch (year day : Int) :
    (ofMarch year month day).year = if month < 10 then year else year + 1 := by
  show (if (if month < 10 then month + 3 else month - 9 : Int) ≤ 2 then year + 1 else year) = _
  omega

theorem toDays_ofMarch (year : Int) (hday : 1 ≤ day) :
    (ofMarch year month day).toDays =
      year / 400 * eraDays + yearStart (year % 400) + monthStart month + day - 1 - epochDays := by
  have hm := month_ofMarch hmonth year day
  have hshifted : (((ofMarch year month day).month : Int) + 9) % 12 = month := by omega
  have hyear : (if (ofMarch year month day).month ≤ 2 then (ofMarch year month day).year - 1
      else (ofMarch year month day).year) = year := by
    rw [year_ofMarch hmonth]
    omega
  have hd : ((ofMarch year month day).day : Int) = day :=
    Int.toNat_of_nonneg (Int.le_trans (by decide) hday)
  have hera : year - year / 400 * 400 = year % 400 := by omega
  unfold toDays
  simp only [hyear, hshifted, hd, Int.fdiv_eq_ediv_of_nonneg _ (by decide : (0 : Int) ≤ 400), hera]
  unfold yearStart monthStart
  omega

end March

/-- Four years make a block of 1461 days, of which the last one of a century lacks a day. -/
theorem yearOfEra_block
    {century block day : Int} (hcentury : 0 ≤ century ∧ century < 4)
    (hblock : 0 ≤ block ∧ block < 25) (hday : 0 ≤ day ∧ day < 1461)
    (hlast : block = 24 → day < 1460) :
    yearOfEra (36524 * century + 1461 * block + day) =
      100 * century + 4 * block + min 3 (day / 365) := by
  have hblocks : (36524 * century + 1461 * block + day) / 1460 =
      25 * century + block + (24 * century + block + day) / 1460 := by omega
  have hcenturies : (36524 * century + 1461 * block + day) / 36524 = century := by omega
  have hera : (36524 * century + 1461 * block + day) / 146096 = 0 := by omega
  unfold yearOfEra
  rw [hblocks, hcenturies, hera]
  omega

theorem yearStart_block
    {century block year : Int} (hblock : 0 ≤ block ∧ block < 25) (hyear : 0 ≤ year ∧ year < 4) :
    yearStart (100 * century + 4 * block + year) =
      36524 * century + 1461 * block + 365 * year := by
  have hblocks : (100 * century + 4 * block + year) / 4 = 25 * century + block := by omega
  have hcenturies : (100 * century + 4 * block + year) / 100 = century := by omega
  unfold yearStart
  rw [hblocks, hcenturies]
  omega

/-- The day is one of the year of an era, which starts in March.  The year has a day more at its
end, in February, if the next one is a leap year. -/
structure DayOf (year day : Int) : Prop where
  year_bounds : 0 ≤ year ∧ year < 400
  day_bounds : 0 ≤ day ∧ day < 366
  leap : day = 365 → (year + 1) % 4 = 0 ∧ ((year + 1) % 100 ≠ 0 ∨ year = 399)

theorem dayOf_yearOfEra
    {day : Int} (h : 0 ≤ day ∧ day < eraDays) :
    DayOf (yearOfEra day) (day - yearStart (yearOfEra day)) := by
  unfold eraDays at h
  by_cases hend : day = 146096
  · subst hend
    constructor <;> decide
  · obtain ⟨c, k, s, hday, hc, hk, hs, hlast⟩ : ∃ c k s : Int,
        day = 36524 * c + 1461 * k + s ∧ (0 ≤ c ∧ c < 4) ∧ (0 ≤ k ∧ k < 25) ∧
          (0 ≤ s ∧ s < 1461) ∧ (k = 24 → s < 1460) :=
      ⟨day / 36524, day % 36524 / 1461, day % 36524 % 1461, by omega⟩
    have hyear : 0 ≤ min 3 (s / 365) ∧ min 3 (s / 365) < 4 := by omega
    rw [hday, yearOfEra_block hc hk hs hlast, yearStart_block hk hyear]
    constructor <;> omega

theorem monthOfYear_bounds
    {day : Int} (h : 0 ≤ day ∧ day < 366) :
    (0 ≤ monthOfYear day ∧ monthOfYear day < 12) ∧
      monthStart (monthOfYear day) ≤ day ∧ day < monthStart (monthOfYear day + 1) := by
  unfold monthStart monthOfYear
  omega

/-- The era, the year and the day of the year at a number of days. -/
theorem ofDays_eq
    (n : Int) :
    ∃ era year day, DayOf year day ∧ n + epochDays = era * eraDays + yearStart year + day ∧
      ofDays n = ofMarch (year + era * 400) (monthOfYear day)
        (day - monthStart (monthOfYear day) + 1) := by
  have hday : 0 ≤ n + epochDays - (n + epochDays).fdiv eraDays * eraDays ∧
      n + epochDays - (n + epochDays).fdiv eraDays * eraDays < eraDays := by
    rw [Int.fdiv_eq_ediv_of_nonneg _ (by decide)]
    unfold eraDays
    omega
  exact ⟨_, _, _, dayOf_yearOfEra hday, by omega, rfl⟩

/-- The date at a number of days is that many days away. -/
theorem toDays_ofDays (n : Int) : (ofDays n).toDays = n := by
  obtain ⟨era, year, day, hday, hn, hdate⟩ := ofDays_eq n
  obtain ⟨hmonth, hstart, -⟩ := monthOfYear_bounds hday.day_bounds
  have hera : (year + era * 400) / 400 = era ∧ (year + era * 400) % 400 = year := by
    have := hday.year_bounds
    omega
  rw [hdate, toDays_ofMarch hmonth _ (by omega), hera.1, hera.2]
  omega

theorem isLeap_iff (year : Int) :
    isLeap year = true ↔ year % 4 = 0 ∧ (year % 100 ≠ 0 ∨ year % 400 = 0) := by
  simp [isLeap]

theorem daysIn_le (year : Int) (month : Nat) : daysIn year month ≤ 31 := by
  unfold daysIn
  split
  · split
    · decide
    · decide
  · split
    · decide
    · decide

/-- The date at a number of days is one of the calendar. -/
theorem exists_ofDays (n : Int) :
    (1 ≤ (ofDays n).month ∧ (ofDays n).month ≤ 12) ∧
      1 ≤ (ofDays n).day ∧ (ofDays n).day ≤ daysIn (ofDays n).year (ofDays n).month := by
  obtain ⟨era, year, day, hday, -, hdate⟩ := ofDays_eq n
  obtain ⟨hmonth, hstart, hend⟩ := monthOfYear_bounds hday.day_bounds
  have hyear := hday.year_bounds
  have hbounds := hday.day_bounds
  have hleap := hday.leap
  rw [hdate]
  generalize monthOfYear day = month at *
  have hm := month_ofMarch hmonth (year + era * 400) (day - monthStart month + 1)
  have hy := year_ofMarch hmonth (year + era * 400) (day - monthStart month + 1)
  have hd : (ofMarch (year + era * 400) month (day - monthStart month + 1)).day =
      (day - monthStart month + 1).toNat := rfl
  rw [hd]
  generalize ofMarch (year + era * 400) month (day - monthStart month + 1) = date at *
  unfold monthStart at *
  refine ⟨by omega, by omega, ?_⟩
  unfold daysIn
  split
  · split
    · omega
    · rename_i h
      rw [isLeap_iff, hy] at h
      omega
  · split
    · omega
    · omega

end Date

end Allotment
