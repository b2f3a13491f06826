import Mathlib
import MiniLibc.Time.Gmtime
/-!
# Normalisation

`mktime` reads its fields as one linear count of seconds, whatever their values,
and goes back from that count to the fields.
-/

namespace MiniLibc.Time

open Checked Gregorian

/-! ## The source -/

/-- The returned count, the caller's object afterwards, and `errno`. -/
def mktime (timeptr : Option Tm) (errno : Nat) : Option (Int64 × Option Tm × Nat) :=
  match timeptr with
  | none => some (-1, none, einval)
  | some tm => do
    let year ← i64 (tm.tmYear.toInt + 1900)
    let monthIndex := tm.tmMon.toInt
    let monthYears ← floorDiv monthIndex 12
    let year ← i64 (year + monthYears)
    let month ← u32 ((← u32 (← i64 (monthIndex - (← i64 (monthYears * 12))))) + 1)
    let days ← i64 ((← daysFromCivil year month 1) + (← i64 (tm.tmMday.toInt - 1)))
    let clock ← i64 ((← i64 (tm.tmHour.toInt * 3600)) + (← i64 (tm.tmMin.toInt * 60)))
    let secondOfDay ← i64 (clock + tm.tmSec.toInt)
    let dayAdjust ← floorDiv secondOfDay 86400
    let normalizedSecond ← i64 (secondOfDay - (← i64 (dayAdjust * 86400)))
    let days ← i64 (days + dayAdjust)
    let total ← i64 ((← i64 (days * 86400)) + normalizedSecond)
    -- The local object is not read unless the call has filled it.
    let (ok, normalized, errno) ← calendarFromEpoch (Int64.ofInt total) tm errno
    if ok then some (Int64.ofInt total, some normalized, errno) else some (-1, some tm, errno)

/-! ## The linear count -/

/-- The seconds that the fields denote, the months being counted through the years. -/
def linear (tm : Tm) : Int :=
  (monthStart (tm.tmYear.toInt + 1900 + tm.tmMon.toInt / 12) ((tm.tmMon.toInt % 12).toNat + 1) +
    (tm.tmMday.toInt - 1)) * 86400 + tm.tmHour.toInt * 3600 + tm.tmMin.toInt * 60 + tm.tmSec.toInt

/-- The date of the linear count, if the object can hold it. -/
theorem mktime_spec (tm : Tm) (errno : Nat) :
    ∃ d : Date, d.number = linear tm / 86400 ∧
      (YearFits d.year → ∃ r tm', mktime (some tm) errno = some (r, some tm', errno) ∧ r.toInt = linear tm ∧
        Decomposes tm' (linear tm) d) ∧
      (¬YearFits d.year → mktime (some tm) errno = some (-1, some tm, erange)) := by
  have hsec := tm.tmSec.le_toInt
  have hsec' := tm.tmSec.toInt_lt
  have hmin := tm.tmMin.le_toInt
  have hmin' := tm.tmMin.toInt_lt
  have hhour := tm.tmHour.le_toInt
  have hhour' := tm.tmHour.toInt_lt
  have hmday := tm.tmMday.le_toInt
  have hmday' := tm.tmMday.toInt_lt
  have hmon := tm.tmMon.le_toInt
  have hmon' := tm.tmMon.toInt_lt
  have hyear := tm.tmYear.le_toInt
  have hyear' := tm.tmYear.toInt_lt
  obtain ⟨total, htotal⟩ : ∃ total, linear tm = total := ⟨_, rfl⟩
  unfold linear at htotal
  obtain ⟨y, hy⟩ : ∃ y, tm.tmYear.toInt + 1900 + tm.tmMon.toInt / 12 = y := ⟨_, rfl⟩
  obtain ⟨m, hm⟩ : ∃ m : Nat, tm.tmMon.toInt - tm.tmMon.toInt / 12 * 12 + 1 = m :=
    Int.eq_ofNat_of_zero_le (by omega)
  have hmonth : (tm.tmMon.toInt % 12).toNat + 1 = m := by omega
  rw [hy, hmonth] at htotal
  have hlength := monthLength_bounds y m
  have hfirst := Date.number_year ⟨y, m, 1, by omega, by omega⟩
  obtain ⟨start, hstart⟩ : ∃ start, monthStart y m = start := ⟨_, rfl⟩
  have hbounds : -1000000000000 ≤ start ∧ start ≤ 1000000000000 := by
    unfold Date.number yearStart at hfirst
    dsimp only at hfirst
    omega
  have hday := @daysFromCivil_eq y 1 m (by omega) (by omega) (by omega)
  rw [sub_self, add_zero, hstart] at hday
  rw [hstart] at htotal
  obtain ⟨clock, hclock⟩ :
      ∃ clock, tm.tmHour.toInt * 3600 + tm.tmMin.toInt * 60 + tm.tmSec.toInt = clock := ⟨_, rfl⟩
  obtain ⟨adjust, hadjust⟩ : ∃ adjust, clock / 86400 = adjust := ⟨_, rfl⟩
  have hsum : (start + (tm.tmMday.toInt - 1) + adjust) * 86400 + (clock - adjust * 86400) = total := by omega
  have hcount : linear tm = total := by
    unfold linear
    rw [hy, hmonth, hstart, htotal]
  obtain ⟨d, hd⟩ := Date.number_surjective (total / 86400)
  have hround : (Int64.ofInt total).toInt = total := Int64.toInt_ofInt_of_le (by omega) (by omega)
  have hspec := calendarFromEpoch_spec (Int64.ofInt total) tm errno (hd.trans (by rw [hround]))
  rw [hround] at hspec
  refine ⟨d, hcount ▸ hd, ?_⟩
  unfold mktime
  dsimp only
  rw [i64_bind (by omega), floorDiv_bind (by omega) (by omega), i64_bind (by omega), i64_bind (by omega),
    i64_bind (by omega), u32_bind (by omega), u32_bind (by omega), hy, hm, bind_of_eq hday, i64_bind (by omega),
    i64_bind (by omega), i64_bind (by omega), i64_bind (by omega), i64_bind (by omega), i64_bind (by omega), hclock,
    floorDiv_bind (by omega) (by omega), hadjust, i64_bind (by omega), i64_bind (by omega), i64_bind (by omega),
    i64_bind (by omega), i64_bind (by omega), hsum]
  constructor
  · intro hfits
    obtain ⟨tm', htm', hcall⟩ := hspec.1 hfits
    rw [bind_of_eq hcall]
    exact ⟨_, tm', rfl, hround.trans hcount.symm, hcount ▸ htm'⟩
  · intro hfits
    rw [bind_of_eq (hspec.2 hfits)]
    rfl

/-! ## The linear count of a decomposition -/

theorem Decomposes.linear {tm : Tm} {t : Int} {d : Date} (h : Decomposes tm t d) : linear tm = t := by
  have hmonth := d.month_mem
  have hmon := h.mon
  have hindex : (tm.tmMon.toInt % 12).toNat + 1 = d.month := by omega
  have hyear : tm.tmYear.toInt + 1900 + tm.tmMon.toInt / 12 = d.year := by
    have := h.year
    omega
  unfold Time.linear
  rw [hindex, hyear, h.mday, h.seconds]
  rfl

theorem Decomposes.yearFits {tm : Tm} {t : Int} {d : Date} (h : Decomposes tm t d) : YearFits d.year := by
  have hlow := tm.tmYear.le_toInt
  have hhigh := tm.tmYear.toInt_lt
  have hyear := h.year
  unfold YearFits
  omega

/-- A decomposition is already normal. -/
theorem mktime_decomposes {tm : Tm} {t : Int} {d : Date} (h : Decomposes tm t d) (errno : Nat) :
    ∃ r, mktime (some tm) errno = some (r, some tm, errno) ∧ r.toInt = t := by
  obtain ⟨e, he, hfits, -⟩ := mktime_spec tm errno
  rw [h.linear] at he hfits
  have hdate : e = d := Date.number_injective (he.trans h.day.symm)
  subst hdate
  obtain ⟨r, tm', hcall, hr, htm'⟩ := hfits h.yearFits
  rw [htm'.unique h] at hcall
  exact ⟨r, hcall, hr⟩

/-! ## Shifts -/

/-- The fields that have a fixed length. -/
inductive Field where
  | sec
  | min
  | hour
  | mday

namespace Field

/-- The length of the field's unit. -/
def seconds : Field → Int
  | sec => 1
  | min => 60
  | hour => 3600
  | mday => 86400

def get (tm : Tm) : Field → Int32
  | sec => tm.tmSec
  | min => tm.tmMin
  | hour => tm.tmHour
  | mday => tm.tmMday

def set (tm : Tm) (v : Int32) : Field → Tm
  | sec => { tm with tmSec := v }
  | min => { tm with tmMin := v }
  | hour => { tm with tmHour := v }
  | mday => { tm with tmMday := v }

end Field

theorem linear_set (tm : Tm) (v : Int32) (f : Field) :
    linear (f.set tm v) = linear tm + (v.toInt - (f.get tm).toInt) * f.seconds := by
  cases f <;> unfold linear Field.set Field.get Field.seconds <;> dsimp only <;> ring

/-- A call that keeps `errno` at zero has returned the linear count. -/
theorem mktime_linear {tm tm' : Tm} {r : Int64} (h : mktime (some tm) 0 = some (r, some tm', 0)) : r.toInt = linear tm := by
  obtain ⟨d, -, hfits, hrange⟩ := mktime_spec tm 0
  by_cases hyear : YearFits d.year
  · obtain ⟨r', tm'', hcall, hr, -⟩ := hfits hyear
    rw [h] at hcall
    cases hcall
    exact hr
  · rw [hrange hyear] at h
    cases h

/-- `mktime` returns the linear count of its fields and puts the decomposition of
that count in their place, or fails and keeps them, and nothing overflows. It
keeps its own results, goes back from those of `gmtime`, and moves by `k` units
when a field does. -/
theorem mktime_normalises (tm : Tm) (errno : Nat) :
    (∃ d : Date, d.number = linear tm / 86400 ∧
      (YearFits d.year → ∃ r tm', mktime (some tm) errno = some (r, some tm', errno) ∧ r.toInt = linear tm ∧
        Decomposes tm' (linear tm) d) ∧
      (¬YearFits d.year → mktime (some tm) errno = some (-1, some tm, erange))) ∧
    (∀ r tm', mktime (some tm) errno = some (r, some tm', errno) →
      mktime (some tm') errno = some (r, some tm', errno)) ∧
    (∀ timer calendarTm tm', gmtime (some timer) calendarTm errno = some (true, tm', errno) →
      mktime (some tm') errno = some (timer, some tm', errno)) ∧
    ∀ (f : Field) (k : Int), -2147483648 ≤ (f.get tm).toInt + k → (f.get tm).toInt + k ≤ 2147483647 →
      ∀ r r' tm₁ tm₂, mktime (some tm) 0 = some (r, some tm₁, 0) →
        mktime (some (f.set tm (Int32.ofInt ((f.get tm).toInt + k)))) 0 = some (r', some tm₂, 0) →
        r'.toInt = r.toInt + k * f.seconds := by
  refine ⟨mktime_spec tm errno, ?_, ?_, ?_⟩
  · intro r tm' hcall
    obtain ⟨d, -, hfits, hrange⟩ := mktime_spec tm errno
    by_cases hyear : YearFits d.year
    · obtain ⟨r', tm'', hcall', hr, htm''⟩ := hfits hyear
      rw [hcall] at hcall'
      cases hcall'
      obtain ⟨r', hagain, hr'⟩ := mktime_decomposes htm'' errno
      rw [hagain, Int64.toInt_inj.1 (hr'.trans hr.symm)]
    · have hfailed := hrange hyear
      rw [hcall] at hfailed
      cases hfailed
      exact hcall
  · intro timer calendarTm tm' hcall
    obtain ⟨d, hd⟩ := Date.number_surjective (timer.toInt / 86400)
    obtain ⟨hfits, hrange⟩ := calendarFromEpoch_spec timer calendarTm errno hd
    change calendarFromEpoch timer calendarTm errno = _ at hcall
    by_cases hyear : YearFits d.year
    · obtain ⟨tm'', htm'', hcall'⟩ := hfits hyear
      rw [hcall] at hcall'
      cases hcall'
      obtain ⟨r, hback, hr⟩ := mktime_decomposes htm'' errno
      rw [hback, Int64.toInt_inj.1 hr]
    · rw [hrange hyear] at hcall
      cases hcall
  · intro f k hlow hhigh r r' tm₁ tm₂ hr hr'
    rw [mktime_linear hr', mktime_linear hr, linear_set, int32_toInt (by omega), add_sub_cancel_left]

end MiniLibc.Time
