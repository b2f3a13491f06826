import Mathlib
import MiniLibc.Time.Calendar
/-!
# Broken-down time

`gmtime` and `mktime` go through `calendarFromEpoch`, which is proved to give the
one decomposition of a second count that the calendar has, or to report `ERANGE`
and to leave the object alone.
-/

namespace MiniLibc.Time

open Checked Gregorian

/-! ## The source -/

/-- Whether the call succeeded, the object afterwards, and `errno`. -/
def calendarFromEpoch (timer : Int64) (out : Tm) (errno : Nat) : Option (Bool × Tm × Nat) := do
  let seconds := timer.toInt
  let quotient ← div64 seconds 86400
  let remainder := seconds.tmod 86400
  let days ← (if remainder < 0 then i64 (quotient - 1) else some quotient)
  let secondOfDay ← (if remainder < 0 then i64 (remainder + 86400) else some remainder)
  let (year, month, day) ← civilFromDays days
  let yearOffset ← i64 (year - 1900)
  if yearOffset < -2147483648 ∨ yearOffset > 2147483647 then some (false, out, erange)
  else
    let yearStart ← daysFromCivil year 1 1
    let tmSec ← int32 (secondOfDay.tmod 60)
    let tmMin ← int32 ((secondOfDay.tdiv 60).tmod 60)
    let tmHour ← int32 (secondOfDay.tdiv 3600)
    let tmMday ← int32 day
    let tmMon ← int32 (← i32 (month - 1))
    let tmYear ← int32 yearOffset
    let tmWday ← int32 (← floorMod (← i64 (days + 4)) 7)
    let tmYday ← int32 (← i64 (days - yearStart))
    some (true, ⟨tmSec, tmMin, tmHour, tmMday, tmMon, tmYear, tmWday, tmYday, 0⟩, errno)

/-- Whether the result points to the static object, that object, and `errno`. -/
def gmtime (timer : Option Int64) (calendarTm : Tm) (errno : Nat) : Option (Bool × Tm × Nat) :=
  match timer with
  | none => some (false, calendarTm, einval)
  | some timer => calendarFromEpoch timer calendarTm errno

/-! ## The decomposition of a second count -/

/-- The fields denote the date `d` and a time of that day, which is `t` seconds
after the epoch. -/
structure Decomposes (tm : Tm) (t : Int) (d : Date) : Prop where
  sec : 0 ≤ tm.tmSec.toInt ∧ tm.tmSec.toInt < 60
  min : 0 ≤ tm.tmMin.toInt ∧ tm.tmMin.toInt < 60
  hour : 0 ≤ tm.tmHour.toInt ∧ tm.tmHour.toInt < 24
  mday : tm.tmMday.toInt = d.day
  mon : tm.tmMon.toInt + 1 = d.month
  year : tm.tmYear.toInt + 1900 = d.year
  wday : tm.tmWday.toInt = weekday d.number
  yday : tm.tmYday.toInt = d.yearDay
  isdst : tm.tmIsdst = 0
  seconds : t = d.number * 86400 + tm.tmHour.toInt * 3600 + tm.tmMin.toInt * 60 + tm.tmSec.toInt

/-- A year of the calendar that the field `tm_year` can hold. -/
def YearFits (y : Int) : Prop := -2147483648 ≤ y - 1900 ∧ y - 1900 ≤ 2147483647

theorem int32_eq {v : Int} (h : -2147483648 ≤ v ∧ v < 2147483648) : int32 v = some (Int32.ofInt v) := by
  unfold int32
  rw [i32_eq h.1 h.2]
  rfl

theorem int32_bind {α : Type} {v : Int} {f : Int32 → Option α} (h : -2147483648 ≤ v ∧ v < 2147483648) :
    (int32 v >>= f) = f (Int32.ofInt v) :=
  bind_of_eq (int32_eq h)

theorem Decomposes.day {tm : Tm} {t : Int} {d : Date} (h : Decomposes tm t d) : d.number = t / 86400 := by
  obtain ⟨hs, hm, hh, -, -, -, -, -, -, ht⟩ := h
  omega

/-- A second count has one decomposition at most. -/
theorem Decomposes.unique {tm tm' : Tm} {t : Int} {d d' : Date} (h : Decomposes tm t d) (h' : Decomposes tm' t d') :
    tm = tm' := by
  have hd : d = d' := Date.number_injective (h.day.trans h'.day.symm)
  subst hd
  obtain ⟨hs, hm, hh, hmday, hmon, hyear, hwday, hyday, hdst, ht⟩ := h
  obtain ⟨hs', hm', hh', hmday', hmon', hyear', hwday', hyday', hdst', ht'⟩ := h'
  cases tm
  cases tm'
  simp only [Tm.mk.injEq, ← Int32.toInt_inj] at *
  omega

/-! ## Every time value -/

theorem int32_toInt {v : Int} (h : -2147483648 ≤ v ∧ v < 2147483648) : (Int32.ofInt v).toInt = v :=
  Int32.toInt_ofInt_of_le h.1 (by omega)

/-- Dates that a 64-bit second count reaches. -/
theorem year_bounds {d : Date} (h : -200000000000000 ≤ d.number ∧ d.number ≤ 200000000000000) :
    -1000000000000 ≤ d.year ∧ d.year ≤ 1000000000000 := by
  have hyear := d.number_year
  unfold yearStart at hyear
  omega

theorem calendarFromEpoch_spec (timer : Int64) (out : Tm) (errno : Nat) {d : Date}
    (hd : d.number = timer.toInt / 86400) :
    (YearFits d.year →
      ∃ tm, Decomposes tm timer.toInt d ∧ calendarFromEpoch timer out errno = some (true, tm, errno)) ∧
    (¬YearFits d.year → calendarFromEpoch timer out errno = some (false, out, erange)) := by
  have hlow := timer.le_toInt
  have hhigh := timer.toInt_lt
  have hnumber : -200000000000000 ≤ d.number ∧ d.number ≤ 200000000000000 := by omega
  have hyear := year_bounds hnumber
  have hquotient : div64 timer.toInt 86400 = some (timer.toInt.tdiv 86400) := div64_eq (by omega) (by omega) (by omega)
  have hdays := @floorDiv_eq timer.toInt 86400 (by omega) (by omega) (by omega)
  have hsecond := @floorMod_eq timer.toInt 86400 (by omega) (by omega)
  unfold floorDiv at hdays
  unfold floorMod at hsecond
  rw [bind_of_eq hquotient] at hdays
  obtain ⟨second, hs⟩ : ∃ second, timer.toInt % 86400 = second := ⟨_, rfl⟩
  have hrange : 0 ≤ second ∧ second < 86400 := by omega
  have hday := d.day_mem
  have hlength := monthLength_bounds d.year d.month
  have hmonth := d.month_mem
  have hyearDay := d.number_year
  have hend := yearLength_bounds d.year
  rw [yearStart_succ] at hyearDay
  unfold calendarFromEpoch
  dsimp only at hdays hsecond ⊢
  rw [bind_of_eq hquotient, bind_of_eq hdays, bind_of_eq hsecond, ← hd, hs, bind_of_eq (civilFromDays_eq d hnumber)]
  dsimp only
  rw [i64_bind (by omega)]
  constructor
  · intro hfits
    unfold YearFits at hfits
    rw [if_neg (by omega), bind_of_eq (daysFromCivil_newYear hyear), Int.tmod_eq_emod_of_nonneg hrange.1,
      Int.tdiv_eq_ediv_of_nonneg hrange.1, Int.tdiv_eq_ediv_of_nonneg hrange.1,
      Int.tmod_eq_emod_of_nonneg (by omega), int32_bind (by omega), int32_bind (by omega), int32_bind (by omega),
      int32_bind (by omega), i32_bind (by omega), int32_bind (by omega), int32_bind (by omega), i64_bind (by omega),
      bind_of_eq (floorMod_eq (by omega) (by omega)), int32_bind (by omega), i64_bind (by omega), int32_bind (by omega)]
    refine ⟨_, ?_, rfl⟩
    exact
      { sec := by rw [int32_toInt (by omega)]; omega
        min := by rw [int32_toInt (by omega)]; omega
        hour := by rw [int32_toInt (by omega)]; omega
        mday := int32_toInt (by omega)
        mon := by rw [int32_toInt (by omega)]; omega
        year := by rw [int32_toInt (by omega)]; omega
        wday := int32_toInt (by omega)
        yday := int32_toInt (by omega)
        isdst := rfl
        seconds := by
          rw [int32_toInt (by omega), int32_toInt (by omega), int32_toInt (by omega)]
          omega }
  · intro hfits
    unfold YearFits at hfits
    rw [if_pos (by omega)]

/-- The days that a 64-bit time reaches. -/
def Reachable (n : Int) : Prop := ∃ timer : Int64, n = timer.toInt / 86400

theorem Reachable.bounds {n : Int} (h : Reachable n) : -200000000000000 ≤ n ∧ n ≤ 200000000000000 := by
  obtain ⟨timer, rfl⟩ := h
  have hlow := timer.le_toInt
  have hhigh := timer.toInt_lt
  omega

/-- `gmtime` gives the calendar's decomposition of every time value, which is the
only one, or reports `ERANGE` for a year that does not fit and keeps the object.
The civil conversions are inverse to each other. Nothing overflows. -/
theorem gmtime_decomposes (timer : Int64) (calendarTm : Tm) (errno : Nat) :
    (∃ d : Date, d.number = timer.toInt / 86400 ∧
      (YearFits d.year → ∃ tm, gmtime (some timer) calendarTm errno = some (true, tm, errno) ∧
        Decomposes tm timer.toInt d ∧ ∀ tm' d', Decomposes tm' timer.toInt d' → tm' = tm) ∧
      (¬YearFits d.year → gmtime (some timer) calendarTm errno = some (false, calendarTm, erange))) ∧
    (∀ n, Reachable n → ∃ d : Date, d.number = n ∧ civilFromDays n = some (d.year, (d.month : Int), d.day) ∧
      daysFromCivil d.year d.month d.day = some n) ∧
    ∀ d : Date, Reachable d.number → daysFromCivil d.year d.month d.day = some d.number ∧
      civilFromDays d.number = some (d.year, (d.month : Int), d.day) := by
  refine ⟨?_, ?_, ?_⟩
  · obtain ⟨d, hd⟩ := Date.number_surjective (timer.toInt / 86400)
    obtain ⟨hfits, hrange⟩ := calendarFromEpoch_spec timer calendarTm errno hd
    refine ⟨d, hd, fun h => ?_, hrange⟩
    obtain ⟨tm, htm, hcall⟩ := hfits h
    exact ⟨tm, hcall, htm, fun tm' d' h' => h'.unique htm⟩
  · intro n hn
    obtain ⟨d, rfl, hciv⟩ := civilFromDays_exists hn.bounds
    exact ⟨d, rfl, hciv, daysFromCivil_date d (year_bounds hn.bounds)⟩
  · intro d hd
    exact ⟨daysFromCivil_date d (year_bounds hd.bounds), civilFromDays_eq d hd.bounds⟩

end MiniLibc.Time
