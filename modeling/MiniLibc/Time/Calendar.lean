import Mathlib
import MiniLibc.Lib.Checked
import MiniLibc.Lib.Gregorian
/-!
# Calendar arithmetic

The civil conversions of the calendar runtime, in checked arithmetic, and what
they compute: `daysFromCivil` the number of a date, `civilFromDays` the date of a
number.
-/

namespace MiniLibc.Time

open Checked Gregorian

def einval : Nat := 22

def erange : Nat := 34

structure Tm where
  tmSec : Int32
  tmMin : Int32
  tmHour : Int32
  tmMday : Int32
  tmMon : Int32
  tmYear : Int32
  tmWday : Int32
  tmYday : Int32
  tmIsdst : Int32
deriving DecidableEq

/-- A conversion to `int` that must keep the value. -/
def int32 (v : Int) : Option Int32 := (i32 v).map Int32.ofInt

/-! ## The source -/

def floorDiv (value divisor : Int) : Option Int := do
  let quotient ← div64 value divisor
  let remainder := value.tmod divisor
  if remainder < 0 then i64 (quotient - 1) else some quotient

def floorMod (value divisor : Int) : Option Int :=
  let remainder := value.tmod divisor
  if remainder < 0 then i64 (remainder + divisor) else some remainder

def isLeapYear (year : Int) : Bool :=
  year.tmod 4 = 0 && (year.tmod 100 ≠ 0 || year.tmod 400 = 0)

def daysFromCivil (year month day : Int) : Option Int := do
  let year ← i64 (year - if month ≤ 2 then 1 else 0)
  let era ← floorDiv year 400
  let yearOfEra ← u32 (← i64 (year - (← i64 (era * 400))))
  let marchMonth ← u32 (if month > 2 then month - 3 else month + 9)
  let monthDays := (← u32 ((← u32 (153 * marchMonth)) + 2)) / 5
  let dayOfYear ← u32 ((← u32 (monthDays + day)) - 1)
  let yearDays ← u32 ((← u32 ((← u32 (yearOfEra * 365)) + yearOfEra / 4)) - yearOfEra / 100)
  let dayOfEra ← u32 (yearDays + dayOfYear)
  i64 ((← i64 ((← i64 (era * 146097)) + dayOfEra)) - 719468)

def civilFromDays (days : Int) : Option (Int × Int × Int) := do
  let z ← i64 (days + 719468)
  let era ← floorDiv z 146097
  let dayOfEra ← u32 (← i64 (z - (← i64 (era * 146097))))
  let shortened ← u32 ((← u32 ((← u32 (dayOfEra - dayOfEra / 1460)) + dayOfEra / 36524)) - dayOfEra / 146096)
  let yearOfEra := shortened / 365
  let y ← i64 (yearOfEra + (← i64 (era * 400)))
  let yearDays ← u32 ((← u32 ((← u32 (365 * yearOfEra)) + yearOfEra / 4)) - yearOfEra / 100)
  let dayOfYear ← u32 (dayOfEra - yearDays)
  let monthPrime := (← u32 ((← u32 (5 * dayOfYear)) + 2)) / 153
  let monthDays := (← u32 ((← u32 (153 * monthPrime)) + 2)) / 5
  let d ← u32 ((← u32 (dayOfYear - monthDays)) + 1)
  let m ← u32 (if monthPrime < 10 then monthPrime + 3 else monthPrime - 9)
  let y ← i64 (y + if m ≤ 2 then 1 else 0)
  some (y, m, d)

/-! ## Floor division -/

theorem floorDiv_eq {v d : Int} (hd : 0 < d) (h₀ : -9223372036854775808 ≤ v) (h₁ : v < 9223372036854775808) :
    floorDiv v d = some (v / d) := by
  have hdiv := div64_eq hd h₀ h₁
  have hle : v ≤ v / d ∨ 0 ≤ v / d := by
    rcases lt_or_ge v 0 with h | h
    · exact .inl ((Int.le_ediv_iff_mul_le hd).2 (by nlinarith))
    · exact .inr (Int.ediv_nonneg h hd.le)
  have hlt : v / d < 9223372036854775808 := Int.ediv_lt_of_lt_mul hd (by nlinarith)
  rw [tdiv_eq hd] at hdiv
  unfold floorDiv
  rw [hdiv]
  show (if v.tmod d < 0 then _ else _) = _
  split
  · rw [i64_eq (by omega) (by omega)]
    simp
  · rfl

theorem floorDiv_bind {α : Type} {v d : Int} {f : Int → Option α} (hd : 0 < d)
    (h : -9223372036854775808 ≤ v ∧ v < 9223372036854775808) : (floorDiv v d >>= f) = f (v / d) :=
  bind_of_eq (floorDiv_eq hd h.1 h.2)

theorem floorMod_eq {v d : Int} (hd : 0 < d) (hd' : d < 9223372036854775808) : floorMod v d = some (v % d) := by
  have hpos := Int.emod_nonneg v hd.ne'
  have hlt := Int.emod_lt_of_pos v hd
  have htmod := Int.tmod_eq_emod (a := v) (b := d)
  unfold floorMod
  dsimp only
  by_cases h : 0 ≤ v ∨ d ∣ v
  · rw [if_pos h, Nat.cast_zero, sub_zero] at htmod
    rw [htmod, if_neg (by omega)]
  · rw [if_neg h] at htmod
    rw [if_pos (by omega), i64_eq (by omega) (by omega)]
    congr 1
    omega

theorem isLeapYear_iff (year : Int) : isLeapYear year = true ↔ IsLeap year := by
  have htmod : ∀ d : Int, year.tmod d = 0 ↔ year % d = 0 := fun d => by
    rw [← Int.dvd_iff_tmod_eq_zero, ← Int.dvd_iff_emod_eq_zero]
  unfold isLeapYear IsLeap
  simp [htmod]

/-! ## The number of a date

The source counts the years from March, so that the leap day is the last one. -/

/-- The first of March, by the eras of 400 years. -/
theorem marchStart (y : Int) :
    y / 400 * 146097 + ((y - y / 400 * 400) * 365 + (y - y / 400 * 400) / 4 - (y - y / 400 * 400) / 100) - 719468 =
      yearStart (y + 1) - 306 := by
  unfold yearStart
  omega

/-- The months from March on have 153 days for each five. -/
theorem monthStart_march (y : Int) {m : Nat} (hm : 1 ≤ m ∧ m ≤ 12) :
    monthStart y m = yearStart (y - (if (m : Int) ≤ 2 then 1 else 0) + 1) - 306 +
      (153 * (if (m : Int) > 2 then (m : Int) - 3 else m + 9) + 2) / 5 := by
  obtain ⟨h₁, h₂⟩ := hm
  have hyear := yearStart_succ y
  by_cases hleap : IsLeap y <;> interval_cases m <;>
    simp [monthStart, monthLength, yearLength, hleap] at hyear ⊢ <;> omega

theorem daysFromCivil_eq {y d : Int} {m : Nat} (hm : 1 ≤ m ∧ m ≤ 12) (hd : 1 ≤ d ∧ d ≤ 31)
    (hy : -1000000000000 ≤ y ∧ y ≤ 1000000000000) :
    daysFromCivil y m d = some (monthStart y m + (d - 1)) := by
  have hmarch := monthStart_march y hm
  have hstart := marchStart (y - if (m : Int) ≤ 2 then 1 else 0)
  have hmonth : 0 ≤ (if (m : Int) > 2 then (m : Int) - 3 else m + 9) ∧
      (if (m : Int) > 2 then (m : Int) - 3 else m + 9) ≤ 11 := by split <;> omega
  have hyear : y - 1 ≤ (y - if (m : Int) ≤ 2 then 1 else 0) ∧ (y - if (m : Int) ≤ 2 then 1 else 0) ≤ y := by
    split <;> omega
  unfold daysFromCivil
  generalize (if (m : Int) > 2 then (m : Int) - 3 else m + 9) = march at hmarch hmonth ⊢
  generalize (y - if (m : Int) ≤ 2 then 1 else 0) = year at hmarch hstart hyear ⊢
  have heraBounds : -2500000002 ≤ year / 400 ∧ year / 400 ≤ 2500000002 := by omega
  have hyoe : 0 ≤ year - year / 400 * 400 ∧ year - year / 400 * 400 < 400 := by omega
  generalize hera : year / 400 = era at heraBounds hyoe hstart
  generalize hy' : year - era * 400 = yoe at hyoe hstart
  have hdays : 0 ≤ (153 * march + 2) / 5 ∧ (153 * march + 2) / 5 ≤ 337 := by omega
  rw [i64_bind (by omega), floorDiv_bind (by omega) (by omega), hera, i64_bind (by omega), i64_bind (by omega), hy', u32_bind (by omega),
    u32_bind (by omega), u32_bind (by omega), u32_bind (by omega), u32_bind (by omega), u32_bind (by omega),
    u32_bind (by omega), u32_bind (by omega), u32_bind (by omega), u32_bind (by omega), i64_bind (by omega),
    i64_bind (by omega), i64_eq (by omega) (by omega)]
  congr 1
  omega

/-! ## The date of a number -/

/-- The day `s` of four years that begin with a common one: the last day belongs
to the fourth year. -/
def fourYears (s : Int) : Int := if s = 1460 then 3 else s / 365

/-- A day of the era by its century, its four years and its day in them. -/
theorem dayOfEra_split {doe : Int} (h : 0 ≤ doe ∧ doe < 146097) :
    ∃ c q s : Int, doe = 36524 * c + 1461 * q + s ∧ (0 ≤ c ∧ c ≤ 3) ∧ (0 ≤ q ∧ q ≤ 24) ∧ (0 ≤ s ∧ s ≤ 1460) ∧
      (q = 24 → s = 1460 → c = 3) := by
  by_cases hlast : doe = 146096
  · exact ⟨3, 24, 1460, by omega, by omega, by omega, by omega, fun _ _ => rfl⟩
  · exact ⟨doe / 36524, doe % 36524 / 1461, doe % 36524 % 1461, by omega, by omega, by omega, by omega, by omega⟩

/-- The year of the era: the divisions take away the leap days before the day. -/
theorem yearOfEra_eq {c q s : Int} (hc : 0 ≤ c ∧ c ≤ 3) (hq : 0 ≤ q ∧ q ≤ 24) (hs : 0 ≤ s ∧ s ≤ 1460)
    (hlast : q = 24 → s = 1460 → c = 3) {doe : Int} (h : doe = 36524 * c + 1461 * q + s) :
    (doe - doe / 1460 + doe / 36524 - doe / 146096) / 365 = 100 * c + 4 * q + fourYears s := by
  have hcentury : doe / 36524 - doe / 146096 = c := by
    by_cases hend : doe = 146096
    · omega
    · have hcount : doe / 146096 = 0 := by omega
      rw [hcount]
      omega
  have hfour : doe / 1460 = 25 * c + q + if 24 * c + q + s < 1460 then 0 else 1 := by split <;> omega
  have hsum : doe - doe / 1460 + doe / 36524 - doe / 146096 =
      365 * (100 * c + 4 * q) + (s - if 24 * c + q + s < 1460 then 0 else 1) := by omega
  have hyear : (s - if 24 * c + q + s < 1460 then 0 else 1) / 365 = fourYears s := by
    unfold fourYears
    split <;> split <;> omega
  rw [hsum, ← hyear]
  omega

/-- The day of the March year, from the same parts. -/
theorem dayOfYear_spec {c q s : Int} (hc : 0 ≤ c ∧ c ≤ 3) (hq : 0 ≤ q ∧ q ≤ 24) (hs : 0 ≤ s ∧ s ≤ 1460)
    (hlast : q = 24 → s = 1460 → c = 3) {yoe : Int} (h : yoe = 100 * c + 4 * q + fourYears s) :
    (0 ≤ yoe ∧ yoe < 400) ∧ 365 * yoe + yoe / 4 - yoe / 100 = 36524 * c + 1461 * q + 365 * fourYears s ∧
      0 ≤ s - 365 * fourYears s ∧ s - 365 * fourYears s < yearLength (yoe + 1) := by
  have hbounds := yearLength_bounds (yoe + 1)
  by_cases hs' : s = 1460
  · -- The leap day: the next year has a February of 29 days.
    rw [fourYears, if_pos hs'] at h ⊢
    have hleap : IsLeap (yoe + 1) := by
      unfold IsLeap
      omega
    rw [yearLength, if_pos hleap]
    omega
  · rw [fourYears, if_neg hs'] at h ⊢
    omega

/-- The month of a day of the March year, and that the day lies in it. -/
theorem monthPrime_spec (y : Int) {doy mp : Int} (h : 0 ≤ doy ∧ doy < yearLength (y + 1)) (hmp : mp = (5 * doy + 2) / 153) :
    ∃ m : Nat, (1 ≤ m ∧ m ≤ 12) ∧ (if mp < 10 then mp + 3 else mp - 9) = m ∧
      monthStart (y + if (m : Int) ≤ 2 then 1 else 0) m = yearStart (y + 1) - 306 + (153 * mp + 2) / 5 ∧
      (153 * mp + 2) / 5 ≤ doy ∧
      doy - (153 * mp + 2) / 5 + 1 ≤ monthLength (y + if (m : Int) ≤ 2 then 1 else 0) m := by
  have hlength := yearLength_bounds (y + 1)
  have hrange : 0 ≤ mp ∧ mp ≤ 11 := by omega
  obtain ⟨m, hm⟩ : ∃ m : Nat, (if mp < 10 then mp + 3 else mp - 9) = m :=
    Int.eq_ofNat_of_zero_le (by split <;> omega)
  have hmem : 1 ≤ m ∧ m ≤ 12 := by split at hm <;> omega
  have hmarch := monthStart_march (y + if (m : Int) ≤ 2 then 1 else 0) hmem
  have hprime : (if (m : Int) > 2 then (m : Int) - 3 else m + 9) = mp := by
    split at hm <;> split <;> omega
  rw [add_sub_cancel_right, hprime] at hmarch
  refine ⟨m, hmem, hm, hmarch, by omega, ?_⟩
  obtain ⟨h₁, h₂⟩ := hmem
  by_cases hleap : IsLeap (y + 1) <;> simp only [yearLength, hleap, if_true, if_false] at h <;>
    interval_cases m <;> simp at hprime <;> subst hprime <;> simp [monthLength, hleap] <;> omega

theorem civilFromDays_exists {n : Int} (h : -200000000000000 ≤ n ∧ n ≤ 200000000000000) :
    ∃ d : Date, d.number = n ∧ civilFromDays n = some (d.year, (d.month : Int), d.day) := by
  obtain ⟨era, hera⟩ : ∃ era, (n + 719468) / 146097 = era := ⟨_, rfl⟩
  obtain ⟨doe, hdoe⟩ : ∃ doe, n + 719468 - era * 146097 = doe := ⟨_, rfl⟩
  have hdoeRange : 0 ≤ doe ∧ doe < 146097 := by omega
  have heraBounds : -2000000000 ≤ era ∧ era ≤ 2000000000 := by omega
  obtain ⟨c, q, s, hsplit, hc, hq, hs, hlast⟩ := dayOfEra_split hdoeRange
  obtain ⟨yoe, hyoe⟩ : ∃ yoe, (doe - doe / 1460 + doe / 36524 - doe / 146096) / 365 = yoe := ⟨_, rfl⟩
  obtain ⟨hyoeRange, hyearDays, hfirst, hyearEnd⟩ :=
    dayOfYear_spec hc hq hs hlast (hyoe.symm.trans (yearOfEra_eq hc hq hs hlast hsplit))
  obtain ⟨doy, hdoy⟩ : ∃ doy, doe - (365 * yoe + yoe / 4 - yoe / 100) = doy := ⟨_, rfl⟩
  have hdoyRange : 0 ≤ doy ∧ doy < yearLength (yoe + era * 400 + 1) := by
    rw [show yoe + era * 400 + 1 = yoe + 1 + era * 400 by ring, yearLength_era]
    omega
  obtain ⟨mp, hmp⟩ : ∃ mp, (5 * doy + 2) / 153 = mp := ⟨_, rfl⟩
  obtain ⟨m, hm, hmonth, hstart, hbefore, hend⟩ := monthPrime_spec (yoe + era * 400) hdoyRange hmp.symm
  have hmarch := marchStart (yoe + era * 400)
  refine ⟨⟨yoe + era * 400 + (if (m : Int) ≤ 2 then 1 else 0), m, doy - (153 * mp + 2) / 5 + 1, hm, by omega, hend⟩,
    ?_, ?_⟩
  · have heraOf : (yoe + era * 400) / 400 = era := by omega
    rw [heraOf, add_sub_cancel_right] at hmarch
    show monthStart _ m + (doy - (153 * mp + 2) / 5 + 1 - 1) = n
    rw [hstart]
    omega
  · have hlength := yearLength_bounds (yoe + era * 400 + 1)
    unfold civilFromDays
    rw [i64_bind (by omega), floorDiv_bind (by omega) (by omega), hera, i64_bind (by omega),
      i64_bind (by omega), hdoe, u32_bind (by omega), u32_bind (by omega), u32_bind (by omega), u32_bind (by omega), hyoe,
      i64_bind (by omega), i64_bind (by omega), u32_bind (by omega), u32_bind (by omega), u32_bind (by omega), hdoy,
      u32_bind (by omega), u32_bind (by omega), u32_bind (by omega), hmp, u32_bind (by omega), u32_bind (by omega),
      u32_bind (by omega), u32_bind (by omega), hmonth, u32_bind (by omega), i64_bind (by omega)]

theorem civilFromDays_eq (d : Date) (h : -200000000000000 ≤ d.number ∧ d.number ≤ 200000000000000) :
    civilFromDays d.number = some (d.year, (d.month : Int), d.day) := by
  obtain ⟨e, hnumber, he⟩ := civilFromDays_exists h
  rwa [Date.number_injective hnumber] at he

theorem daysFromCivil_date (d : Date) (h : -1000000000000 ≤ d.year ∧ d.year ≤ 1000000000000) :
    daysFromCivil d.year d.month d.day = some d.number := by
  have hlength := monthLength_bounds d.year d.month
  have hday := d.day_mem
  exact daysFromCivil_eq d.month_mem (by omega) h

theorem daysFromCivil_newYear {y : Int} (h : -1000000000000 ≤ y ∧ y ≤ 1000000000000) :
    daysFromCivil y 1 1 = some (yearStart y) := by
  have hfirst := @daysFromCivil_eq y 1 1 (by omega) (by omega) h
  rwa [monthStart_one, sub_self, add_zero] at hfirst

end MiniLibc.Time
