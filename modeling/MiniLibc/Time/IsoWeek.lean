import Mathlib
import MiniLibc.Time.Gmtime
/-!
# Week dates

`isoWeekFields` knows the day of the week and the day of the year only. Its
quotient counts the Thursdays of the calendar year, and where it leaves that year
the neighbour takes over.
-/

namespace MiniLibc.Time

open Checked Gregorian

/-! ## The source -/

def weekdayForDate (year month day : Int) : Option Int := do
  i32 (← floorMod (← i64 ((← daysFromCivil year month day) + 4)) 7)

def isoWeeksInYear (year : Int) : Option Int := do
  let jan1 ← weekdayForDate year 1 1
  some (if jan1 = 4 ∨ (jan1 = 3 ∧ isLeapYear year) then 53 else 52)

/-- The year and the week that are stored. -/
def isoWeekFields (timeptr : Tm) : Option (Int × Int) := do
  let year ← i32 (timeptr.tmYear.toInt + 1900)
  let isoWday := if timeptr.tmWday.toInt = 0 then 7 else timeptr.tmWday.toInt
  let dividend ← i32 ((← i32 ((← i32 (timeptr.tmYday.toInt + 1)) - isoWday)) + 10)
  let week := dividend.tdiv 7
  if week < 1 then do
    let year ← i32 (year - 1)
    let week ← isoWeeksInYear year
    some (year, week)
  else do
    let weeks ← isoWeeksInYear year
    if week > weeks then do
      let year ← i32 (year + 1)
      some (year, 1)
    else some (year, week)

/-! ## Weeks of a year -/

theorem isoWeeksInYear_eq {y : Int} (h : -1000000 ≤ y ∧ y ≤ 1000000) :
    ∃ first, isoWeeksInYear y = some ((yearStart (y + 1) - 1 - first) / 7 + 1) ∧ weekday first = 4 ∧
      yearStart y ≤ first ∧ first < yearStart y + 7 := by
  have hlength := yearStart_succ y
  obtain ⟨start, hs⟩ : ∃ start, yearStart y = start := ⟨_, rfl⟩
  have hbounds : -1000000000 ≤ start ∧ start ≤ 1000000000 := by
    unfold yearStart at hs
    omega
  have hjan : weekdayForDate y 1 1 = some ((start + 4) % 7) := by
    unfold weekdayForDate
    rw [bind_of_eq (daysFromCivil_newYear (by omega)), hs, i64_bind (by omega),
      bind_of_eq (floorMod_eq (by omega) (by omega)), i32_eq (by omega) (by omega)]
  refine ⟨start + (4 - (start + 4) % 7) % 7, ?_, by unfold weekday; omega, by omega, by omega⟩
  unfold isoWeeksInYear
  rw [bind_of_eq hjan, hlength, hs]
  congr 1
  by_cases hleap : IsLeap y
  · simp only [(isLeapYear_iff y).2 hleap, and_true, yearLength, hleap, if_true]
    split <;> omega
  · have hcommon : isLeapYear y = false := Bool.eq_false_iff.2 (mt (isLeapYear_iff y).1 hleap)
    simp only [hcommon, Bool.false_eq_true, and_false, or_false, yearLength, hleap, if_false]
    split <;> omega

/-! ## The week of a date -/

/-- The fields that `isoWeekFields` reads agree with the date. -/
structure Dated (tm : Tm) (d : Date) : Prop where
  year : tm.tmYear.toInt + 1900 = d.year
  wday : tm.tmWday.toInt = weekday d.number
  yday : tm.tmYday.toInt = d.yearDay

theorem isoWeekFields_spec {tm : Tm} {d : Date} (h : Dated tm d) (hyear : 0 ≤ d.year ∧ d.year ≤ 9999) :
    ∃ (y : Int) (w : Nat), isoWeekFields tm = some (y, (w : Int)) ∧ WeekDate d.number y w := by
  have hday := d.number_year
  have hlength := yearLength_bounds d.year
  have hnext := yearStart_succ d.year
  obtain ⟨n, hn⟩ : ∃ n, d.number = n := ⟨_, rfl⟩
  obtain ⟨y, hy⟩ : ∃ y, d.year = y := ⟨_, rfl⟩
  have hwday := h.wday
  have hyday := h.yday
  have htmYear := h.year
  unfold Date.yearDay at hyday
  unfold weekday at hwday
  rw [hn, hy] at hyday
  rw [hn] at hwday hday ⊢
  rw [hy] at hday hyear hlength hnext htmYear
  have hisoWday : (if tm.tmWday.toInt = 0 then (7 : Int) else tm.tmWday.toInt) = (n + 3) % 7 + 1 := by
    split <;> omega
  have hthursday : thursday n = n - (n + 3) % 7 + 3 := rfl
  have hdividend : n - yearStart y + 1 - ((n + 3) % 7 + 1) + 10 = thursday n - yearStart y + 7 := by omega
  unfold isoWeekFields
  rw [htmYear, i32_bind (by omega), hisoWday, hyday, i32_bind (by omega), i32_bind (by omega), i32_bind (by omega),
    hdividend, Int.tdiv_eq_ediv_of_nonneg (by omega)]
  dsimp only
  by_cases hbefore : thursday n < yearStart y
  · -- The Thursday lies in the year before, as its last one.
    obtain ⟨first, hweeks, hfirst, hlow, hhigh⟩ := isoWeeksInYear_eq (y := y - 1) (by omega)
    have hprevious := yearStart_succ (y - 1)
    have hbounds := yearLength_bounds (y - 1)
    rw [sub_add_cancel] at hweeks hprevious
    unfold weekday at hfirst
    rw [if_pos (by omega), i32_bind (by omega), bind_of_eq hweeks]
    refine ⟨y - 1, ((yearStart y - 1 - first) / 7 + 1).toNat, by rw [Int.toNat_of_nonneg (by omega)], ?_⟩
    rw [weekDate_iff, Int.toNat_of_nonneg (by omega), sub_add_cancel]
    omega
  · obtain ⟨first, hweeks, hfirst, hlow, hhigh⟩ := isoWeeksInYear_eq (y := y) (by omega)
    unfold weekday at hfirst
    rw [if_neg (by omega), bind_of_eq hweeks]
    by_cases hafter : yearStart (y + 1) ≤ thursday n
    · -- The Thursday is the first one of the year after.
      have hsecond := yearStart_succ (y + 1)
      have hbounds := yearLength_bounds (y + 1)
      rw [if_pos (by omega), i32_bind (by omega)]
      refine ⟨y + 1, 1, rfl, ?_⟩
      rw [weekDate_iff]
      omega
    · rw [if_neg (by omega)]
      refine ⟨y, ((thursday n - yearStart y + 7) / 7).toNat, by rw [Int.toNat_of_nonneg (by omega)], ?_⟩
      rw [weekDate_iff, Int.toNat_of_nonneg (by omega)]
      omega

/-- `isoWeekFields` computes the week date. So the days of a week share a pair, the
next week has the next pair, and a week 53 has 53 Thursdays in its year. -/
theorem isoWeekFields_weekDate {tm tm' : Tm} {d d' : Date} (h : Dated tm d) (hyear : 0 ≤ d.year ∧ d.year ≤ 9999)
    (h' : Dated tm' d') (hyear' : 0 ≤ d'.year ∧ d'.year ≤ 9999) :
    ∃ (y y' : Int) (w w' : Nat), isoWeekFields tm = some (y, (w : Int)) ∧ isoWeekFields tm' = some (y', (w' : Int)) ∧
      WeekDate d.number y w ∧
      (thursday d'.number = thursday d.number → y' = y ∧ w' = w) ∧
      (thursday d'.number = thursday d.number + 7 →
        (y' = y ∧ w' = w + 1) ∨ (y' = y + 1 ∧ w' = 1 ∧ w = weeksOf y)) ∧
      (w = 53 → weeksOf y = 53) := by
  obtain ⟨y, w, hfields, hweek⟩ := isoWeekFields_spec h hyear
  obtain ⟨y', w', hfields', hweek'⟩ := isoWeekFields_spec h' hyear'
  refine ⟨y, y', w, w', hfields, hfields', hweek, hweek'.unique hweek, hweek.next hweek', fun hw => ?_⟩
  have hle := hweek.le_weeksOf
  have hmax := weeksOf_le y
  omega

/-- Friday 1 January 2021 and the Monday after it. -/
theorem isoWeekFields_weekDate_2021 :
    ∃ (y y' : Int) (w w' : Nat), isoWeekFields ⟨0, 0, 0, 1, 0, 121, 5, 0, 0⟩ = some (y, (w : Int)) ∧
      isoWeekFields ⟨0, 0, 0, 4, 0, 121, 1, 3, 0⟩ = some (y', (w' : Int)) ∧ WeekDate 18628 y w ∧
      (thursday 18631 = thursday 18628 → y' = y ∧ w' = w) ∧
      (thursday 18631 = thursday 18628 + 7 → (y' = y ∧ w' = w + 1) ∨ (y' = y + 1 ∧ w' = 1 ∧ w = weeksOf y)) ∧
      (w = 53 → weeksOf y = 53) :=
  @isoWeekFields_weekDate _ _ ⟨2021, 1, 1, by decide, by decide⟩ ⟨2021, 1, 4, by decide, by decide⟩
    ⟨by decide, by decide, by decide⟩ (by decide) ⟨by decide, by decide, by decide⟩ (by decide)

end MiniLibc.Time
