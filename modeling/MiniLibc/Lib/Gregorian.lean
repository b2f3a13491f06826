import Mathlib
/-!
# The proleptic Gregorian calendar

Days are numbered by the integers, day 0 being 1 January 1970. A year is known by
the number of its first day, and a date by its year, its month and its day in the
month; `Date.number` puts the dates in one-to-one order with the integers. The
weeks start on Monday, and a week belongs to the year of its Thursday.
-/

namespace MiniLibc.Gregorian

/-! ## Years and months -/

def IsLeap (y : Int) : Prop := y % 4 = 0 ∧ (y % 100 ≠ 0 ∨ y % 400 = 0)

instance (y : Int) : Decidable (IsLeap y) := inferInstanceAs (Decidable (_ ∧ _))

def yearLength (y : Int) : Int := if IsLeap y then 366 else 365

def monthLength (y : Int) (m : Nat) : Int :=
  match m with
  | 2 => if IsLeap y then 29 else 28
  | 4 | 6 | 9 | 11 => 30
  | _ => 31

/-- The first day of a year. `yearStart_epoch` and `yearStart_succ` say that no
other function counts the years so. -/
def yearStart (y : Int) : Int := 365 * (y - 1970) + ((y - 1) / 4 - (y - 1) / 100 + (y - 1) / 400) - 477

/-- The first day of a month, the months being counted from one. -/
def monthStart (y : Int) : Nat → Int
  | 0 => yearStart y
  | 1 => yearStart y
  | m + 2 => monthStart y (m + 1) + monthLength y (m + 1)

theorem yearStart_succ (y : Int) : yearStart (y + 1) = yearStart y + yearLength y := by
  by_cases h : IsLeap y
  · rw [yearLength, if_pos h]
    unfold IsLeap at h
    unfold yearStart
    omega
  · rw [yearLength, if_neg h]
    unfold IsLeap at h
    unfold yearStart
    omega

theorem yearLength_bounds (y : Int) : 365 ≤ yearLength y ∧ yearLength y ≤ 366 := by
  unfold yearLength
  split <;> omega

/-- The leap years repeat after 400 years. -/
theorem yearLength_era (y era : Int) : yearLength (y + era * 400) = yearLength y := by
  have hleap : IsLeap (y + era * 400) ↔ IsLeap y := by
    unfold IsLeap
    omega
  unfold yearLength
  simp only [hleap]

theorem monthLength_bounds (y : Int) (m : Nat) : 28 ≤ monthLength y m ∧ monthLength y m ≤ 31 := by
  unfold monthLength
  repeat' split
  all_goals omega

theorem yearStart_strictMono : StrictMono yearStart := by
  apply strictMono_int_of_lt_succ
  intro y
  have := yearLength_bounds y
  rw [yearStart_succ]
  omega

@[simp] theorem monthStart_one (y : Int) : monthStart y 1 = yearStart y := rfl

theorem monthStart_succ (y : Int) (k : Nat) :
    monthStart y (k + 1 + 1) = monthStart y (k + 1) + monthLength y (k + 1) := rfl

theorem monthStart_strictMono (y : Int) : StrictMono fun k => monthStart y (k + 1) := by
  apply strictMono_nat_of_lt_succ
  intro k
  have := monthLength_bounds y (k + 1)
  show monthStart y (k + 1) < monthStart y (k + 1 + 1)
  rw [monthStart_succ]
  omega

/-- Twelve months make a year. -/
theorem monthStart_end (y : Int) : monthStart y 13 = yearStart (y + 1) := by
  rw [yearStart_succ]
  simp only [monthStart, monthLength, yearLength]
  split <;> omega

/-! ## Slots

An increasing sequence cuts the integers from its first term on into slots, and
each integer lies in one of them. -/

theorem slot_unique {ι : Type} [LinearOrder ι] [Add ι] [One ι] [SuccAddOrder ι] [NoMaxOrder ι] {f : ι → Int}
    (hf : StrictMono f) {a b : ι} {n : Int} (ha : f a ≤ n) (ha' : n < f (a + 1)) (hb : f b ≤ n)
    (hb' : n < f (b + 1)) : a = b := by
  apply le_antisymm
  · exact Order.lt_add_one_iff.1 (hf.lt_iff_lt.1 (ha.trans_lt hb'))
  · exact Order.lt_add_one_iff.1 (hf.lt_iff_lt.1 (hb.trans_lt ha'))

theorem slot_exists (f : Nat → Int) {n : Int} (k : Nat) (h₀ : f 0 ≤ n) (hk : n < f k) :
    ∃ i < k, f i ≤ n ∧ n < f (i + 1) := by
  induction k with
  | zero => omega
  | succ k ih =>
    by_cases h : n < f k
    · obtain ⟨i, hi, hslot⟩ := ih h
      exact ⟨i, by omega, hslot⟩
    · exact ⟨k, by omega, not_lt.1 h, hk⟩

/-- Each day lies in a year. -/
theorem exists_year (n : Int) : ∃ y, yearStart y ≤ n ∧ n < yearStart (y + 1) := by
  have hbounded : ∃ b, ∀ y, yearStart y ≤ n → y ≤ b := by
    refine ⟨max n 0 / 365 + 1974, fun y hy => ?_⟩
    unfold yearStart at hy
    omega
  have hinhabited : ∃ y, yearStart y ≤ n := by
    refine ⟨min n 0, ?_⟩
    unfold yearStart
    omega
  obtain ⟨y, hy, hmax⟩ := Int.exists_greatest_of_bdd hbounded hinhabited
  refine ⟨y, hy, not_le.1 fun h => ?_⟩
  have := hmax (y + 1) h
  omega

/-! ## Dates -/

/-- A date of the calendar. -/
structure Date where
  year : Int
  month : Nat
  day : Int
  month_mem : 1 ≤ month ∧ month ≤ 12
  day_mem : 1 ≤ day ∧ day ≤ monthLength year month
deriving DecidableEq

namespace Date

/-- The number of the day. -/
def number (d : Date) : Int := monthStart d.year d.month + (d.day - 1)

/-- The day in the year, from zero. -/
def yearDay (d : Date) : Int := d.number - yearStart d.year

theorem monthStart_next (d : Date) : monthStart d.year (d.month + 1) = monthStart d.year d.month + monthLength d.year d.month := by
  obtain ⟨k, hk⟩ := Nat.exists_eq_add_of_le' d.month_mem.1
  rw [hk]
  exact monthStart_succ d.year k

theorem number_month (d : Date) : monthStart d.year d.month ≤ d.number ∧ d.number < monthStart d.year (d.month + 1) := by
  have := d.day_mem
  rw [monthStart_next]
  unfold number
  omega

theorem number_year (d : Date) : yearStart d.year ≤ d.number ∧ d.number < yearStart (d.year + 1) := by
  obtain ⟨k, hk⟩ := Nat.exists_eq_add_of_le' d.month_mem.1
  have hlast := d.month_mem.2
  have hmonth := d.number_month
  have hfirst := (monthStart_strictMono d.year).monotone (Nat.zero_le k)
  have hnext := (monthStart_strictMono d.year).monotone (show k + 1 ≤ 12 by omega)
  rw [hk] at hmonth
  rw [← monthStart_end]
  exact ⟨hfirst.trans hmonth.1, hmonth.2.trans_le hnext⟩

/-- Two dates with one number are the same date. -/
theorem number_injective : Function.Injective number := by
  intro d e h
  have hy : d.year = e.year :=
    slot_unique yearStart_strictMono (h ▸ d.number_year.1) (h ▸ d.number_year.2) e.number_year.1 e.number_year.2
  obtain ⟨i, hi⟩ := Nat.exists_eq_add_of_le' d.month_mem.1
  obtain ⟨j, hj⟩ := Nat.exists_eq_add_of_le' e.month_mem.1
  have hd := d.number_month
  have he := e.number_month
  rw [hi] at hd
  rw [hj] at he
  have hm : d.month = e.month := by
    rw [hi, hj, slot_unique (monthStart_strictMono d.year) hd.1 hd.2 (h ▸ hy ▸ he.1) (h ▸ hy ▸ he.2)]
  have hn : d.day = e.day := by
    unfold number at h
    rw [hy, hm] at h
    omega
  cases d
  cases e
  cases hy
  cases hm
  cases hn
  rfl

/-- Each day has a date. -/
theorem number_surjective : Function.Surjective number := by
  intro n
  obtain ⟨y, hy, hy'⟩ := exists_year n
  rw [← monthStart_end] at hy'
  obtain ⟨k, hk, hm, hm'⟩ := slot_exists (fun k => monthStart y (k + 1)) 12 hy hy'
  rw [monthStart_succ] at hm'
  refine ⟨⟨y, k + 1, n - monthStart y (k + 1) + 1, ⟨by omega, by omega⟩, ⟨by omega, by omega⟩⟩, ?_⟩
  show monthStart y (k + 1) + (n - monthStart y (k + 1) + 1 - 1) = n
  omega

end Date

/-! ## Weeks -/

/-- The day of the week, Sunday being zero. Day 0 was a Thursday. -/
def weekday (n : Int) : Int := (n + 4) % 7

/-- The Thursday of the week of a day; its Monday is `(n + 3) % 7` days back. -/
def thursday (n : Int) : Int := n - (n + 3) % 7 + 3

/-- The Thursdays of a year up to a day. -/
noncomputable def thursdays (y n : Int) : Finset Int := (Finset.Icc (yearStart y) n).filter fun k => weekday k = 4

/-- The week date of a day: the year of its Thursday, and which Thursday of that
year it is. -/
def WeekDate (n y : Int) (w : Nat) : Prop :=
  (yearStart y ≤ thursday n ∧ thursday n < yearStart (y + 1)) ∧ w = (thursdays y (thursday n)).card

theorem weekday_thursday (n : Int) : weekday (thursday n) = 4 := by
  unfold weekday thursday
  omega

theorem mem_thursdays {y n d : Int} : d ∈ thursdays y n ↔ (yearStart y ≤ d ∧ d ≤ n) ∧ weekday d = 4 := by
  unfold thursdays
  rw [Finset.mem_filter, Finset.mem_Icc]

/-- One Thursday for each seven days since the first of January. -/
theorem card_thursdays {y t : Int} (h : yearStart y ≤ t) (ht : weekday t = 4) :
    ((thursdays y t).card : Int) = (t - yearStart y) / 7 + 1 := by
  obtain ⟨k, hk⟩ : ∃ k : Nat, (t - yearStart y) / 7 = k := Int.eq_ofNat_of_zero_le (by omega)
  have himage : thursdays y t = (Finset.range (k + 1)).image fun i : Nat => t - 7 * i := by
    ext d
    rw [mem_thursdays, Finset.mem_image]
    simp only [weekday, Finset.mem_range] at ht ⊢
    constructor
    · rintro ⟨⟨hlow, hhigh⟩, hday⟩
      exact ⟨((t - d) / 7).toNat, by omega, by omega⟩
    · rintro ⟨i, hi, rfl⟩
      omega
  have hinj : Function.Injective fun i : Nat => t - 7 * (i : Int) := fun a b hab => by
    dsimp only at hab
    omega
  rw [himage, Finset.card_image_of_injective _ hinj, Finset.card_range, hk]
  rfl

/-- The week number as a quotient. -/
theorem weekDate_iff {n y : Int} {w : Nat} :
    WeekDate n y w ↔ (yearStart y ≤ thursday n ∧ thursday n < yearStart (y + 1)) ∧
      (w : Int) = (thursday n - yearStart y) / 7 + 1 := by
  constructor
  · rintro ⟨hyear, hw⟩
    exact ⟨hyear, by rw [hw, card_thursdays hyear.1 (weekday_thursday n)]⟩
  · rintro ⟨hyear, hw⟩
    rw [← card_thursdays hyear.1 (weekday_thursday n)] at hw
    exact ⟨hyear, Int.ofNat_inj.1 hw⟩

/-- The days of a week have one week date. -/
theorem WeekDate.unique {n n' y y' : Int} {w w' : Nat} (h : WeekDate n y w) (h' : WeekDate n' y' w')
    (hweek : thursday n = thursday n') : y = y' ∧ w = w' := by
  obtain ⟨hyear, hw⟩ := h
  obtain ⟨hyear', hw'⟩ := h'
  rw [← hweek] at hyear' hw'
  have hy : y = y' := slot_unique yearStart_strictMono hyear.1 hyear.2 hyear'.1 hyear'.2
  subst hy
  exact ⟨rfl, hw.trans hw'.symm⟩

/-- The number of Thursdays of a year. -/
noncomputable def weeksOf (y : Int) : Nat := (thursdays y (yearStart (y + 1) - 1)).card

/-- No Thursday of the year comes after the last one. -/
theorem weeksOf_last {y t : Int} (h : yearStart y ≤ t ∧ t < yearStart (y + 1)) (ht : weekday t = 4)
    (hlast : yearStart (y + 1) ≤ t + 7) : weeksOf y = (thursdays y t).card := by
  unfold weeksOf
  congr 1
  ext d
  rw [mem_thursdays, mem_thursdays]
  unfold weekday at ht ⊢
  omega

theorem weeksOf_le (y : Int) : weeksOf y ≤ 53 := by
  have hlength := yearStart_succ y
  have hbounds := yearLength_bounds y
  obtain ⟨t, ht, hday⟩ : ∃ t, (yearStart y ≤ t ∧ t < yearStart (y + 1) ∧ yearStart (y + 1) ≤ t + 7) ∧ weekday t = 4 := by
    refine ⟨yearStart (y + 1) - 1 - (yearStart (y + 1) - 1) % 7, ?_, ?_⟩
    · omega
    · unfold weekday
      omega
  have hcard := card_thursdays ht.1 hday
  rw [weeksOf_last ⟨ht.1, ht.2.1⟩ hday ht.2.2]
  omega

/-- The week after a week has the next number, or is the first week of the next
year when no Thursday is left in this one. -/
theorem WeekDate.next {n n' y y' : Int} {w w' : Nat} (h : WeekDate n y w) (h' : WeekDate n' y' w')
    (hweek : thursday n' = thursday n + 7) : (y' = y ∧ w' = w + 1) ∨ (y' = y + 1 ∧ w' = 1 ∧ w = weeksOf y) := by
  have hlast := h
  rw [weekDate_iff] at h h'
  obtain ⟨hyear, hw⟩ := h
  obtain ⟨hyear', hw'⟩ := h'
  rw [hweek] at hyear' hw'
  by_cases hin : thursday n + 7 < yearStart (y + 1)
  · left
    have hy : y' = y := slot_unique yearStart_strictMono hyear'.1 hyear'.2 (by omega) hin
    subst hy
    exact ⟨rfl, by omega⟩
  · right
    have hlength := yearStart_succ (y + 1)
    have hbounds := yearLength_bounds (y + 1)
    have hy : y' = y + 1 := slot_unique yearStart_strictMono hyear'.1 hyear'.2 (by omega) (by omega)
    subst hy
    exact ⟨rfl, by omega, hlast.2.trans (weeksOf_last hyear (weekday_thursday n) (by omega)).symm⟩

/-- A week number never exceeds the Thursdays of its year. -/
theorem WeekDate.le_weeksOf {n y : Int} {w : Nat} (h : WeekDate n y w) : w ≤ weeksOf y := by
  rw [h.2]
  apply Finset.card_le_card
  intro d hd
  have hyear := h.1
  rw [mem_thursdays] at hd ⊢
  omega

end MiniLibc.Gregorian
