import Mathlib
import MiniLibc.Lib.Binary64
/-!
# Binary formats and rounding modes

A binary format has a field of the exponent and a field of the fraction. The
finite magnitudes are whole numbers of units, the smallest of them, and the
larger ones lie on coarser grids. A rounding mode selects an integer for a
rational number; on a grid, it selects one for the number of steps.
-/

namespace MiniLibc

inductive RoundingMode where
  | toNearest
  | downward
  | upward
  | towardZero
deriving DecidableEq

structure FloatFormat where
  fractionBits : Nat
  exponentBits : Nat
  three_le : 3 ≤ exponentBits

namespace FloatFormat

def binary64 : FloatFormat := ⟨52, 11, by decide⟩

def binary32 : FloatFormat := ⟨23, 8, by decide⟩

/-! ## Magnitudes -/

section Magnitudes

variable (F : FloatFormat)

/-- The exponent field of one. -/
def bias : Nat := 2 ^ (F.exponentBits - 1) - 1

/-- The exponent field of the infinities. -/
def maxField : Nat := 2 ^ F.exponentBits - 1

def infBits : Nat := F.maxField * 2 ^ F.fractionBits

/-- The units of a finite magnitude. -/
def units (m : Nat) : Nat :=
  if m / 2 ^ F.fractionBits = 0 then m % 2 ^ F.fractionBits
  else (2 ^ F.fractionBits + m % 2 ^ F.fractionBits) * 2 ^ (m / 2 ^ F.fractionBits - 1)

/-- One is `2 ^ unitBits` units. -/
def unitBits : Nat := F.bias + F.fractionBits - 1

/-- Every finite magnitude is below `2 ^ topBits` units. -/
def topBits : Nat := 2 * F.bias + F.fractionBits

variable {F}

theorem bias_spec : 3 ≤ F.bias ∧ F.bias % 2 = 1 ∧ F.maxField = 2 * F.bias + 1 := by
  obtain ⟨k, hk⟩ := Nat.exists_eq_add_of_le F.three_le
  have hpos := Nat.one_le_two_pow (n := k)
  have hbias : F.bias = 4 * 2 ^ k - 1 := by
    unfold bias
    rw [hk, show 3 + k - 1 = 2 + k by omega, pow_add]
    rfl
  have hmax : F.maxField = 8 * 2 ^ k - 1 := by
    unfold maxField
    rw [hk, pow_add]
    rfl
  omega

/-- A magnitude by its fields; a full fraction is the next exponent. -/
theorem units_field {e g : Nat} (he : 1 ≤ e) (hg : g ≤ 2 ^ F.fractionBits) :
    F.units (e * 2 ^ F.fractionBits + g) = (2 ^ F.fractionBits + g) * 2 ^ (e - 1) := by
  have hpos := Nat.two_pow_pos F.fractionBits
  unfold units
  rcases hg.lt_or_eq with hlt | rfl
  · have hdiv : (e * 2 ^ F.fractionBits + g) / 2 ^ F.fractionBits = e := by
      rw [mul_comm, Nat.mul_add_div hpos, Nat.div_eq_of_lt hlt, add_zero]
    have hmod : (e * 2 ^ F.fractionBits + g) % 2 ^ F.fractionBits = g := by
      rw [mul_comm, Nat.mul_add_mod, Nat.mod_eq_of_lt hlt]
    rw [hdiv, hmod, if_neg (by omega)]
  · have hnext : e * 2 ^ F.fractionBits + 2 ^ F.fractionBits = (e + 1) * 2 ^ F.fractionBits := by ring
    rw [hnext, Nat.mul_div_cancel _ hpos, Nat.mul_mod_left, if_neg (by omega), add_zero, Nat.add_sub_cancel]
    obtain ⟨k, rfl⟩ := Nat.exists_eq_add_of_le' he
    rw [Nat.add_sub_cancel, pow_succ]
    ring

/-- The magnitudes that are not normal, and the first normal one. -/
theorem units_small {m : Nat} (h : m ≤ 2 ^ F.fractionBits) : F.units m = m := by
  rcases h.lt_or_eq with hlt | rfl
  · unfold units
    rw [Nat.div_eq_of_lt hlt, if_pos rfl, Nat.mod_eq_of_lt hlt]
  · have hone := @units_field F 1 0 (Nat.le_refl 1) (Nat.zero_le _)
    simpa using hone

theorem units_strictMono : StrictMono F.units := by
  apply strictMono_nat_of_lt_succ
  intro m
  have hpos := Nat.two_pow_pos F.fractionBits
  have hg : m % 2 ^ F.fractionBits < 2 ^ F.fractionBits := Nat.mod_lt _ hpos
  have hm := Nat.div_add_mod' m (2 ^ F.fractionBits)
  generalize m / 2 ^ F.fractionBits = e at hm
  generalize m % 2 ^ F.fractionBits = g at hg hm
  rw [← hm]
  by_cases he : e = 0
  · rw [he, zero_mul, zero_add, units_small hg.le, units_small hg]
    exact Nat.lt_succ_self g
  · rw [add_assoc, units_field (Nat.one_le_iff_ne_zero.2 he) hg.le, units_field (Nat.one_le_iff_ne_zero.2 he) hg]
    exact Nat.mul_lt_mul_of_pos_right (by omega) (Nat.two_pow_pos _)

theorem units_inj {m m' : Nat} : F.units m = F.units m' ↔ m = m' := units_strictMono.injective.eq_iff

/-- The infinities are where the next binade would begin. -/
theorem units_infBits : F.units F.infBits = 2 ^ F.topBits := by
  obtain ⟨hbias, -, hmax⟩ := @bias_spec F
  have hfield := @units_field F F.maxField 0 (by omega) (Nat.zero_le _)
  rw [add_zero, add_zero, ← pow_add] at hfield
  unfold infBits topBits
  rw [hfield, hmax]
  congr 1
  omega

theorem infBits_lt : F.infBits < 2 ^ (F.exponentBits + F.fractionBits) := by
  have hpos := Nat.two_pow_pos F.exponentBits
  unfold infBits maxField
  rw [pow_add]
  exact Nat.mul_lt_mul_of_pos_right (by omega) (Nat.two_pow_pos _)

theorem units_lt {m : Nat} (h : m < F.infBits) : F.units m < 2 ^ F.topBits :=
  units_infBits ▸ units_strictMono h

/-- A finite magnitude is a number of steps of a grid. -/
theorem exists_steps (m : Nat) : ∃ s k, F.units m = s * 2 ^ k ∧ s < 2 ^ (F.fractionBits + 1) ∧
    (k = 0 ∨ 2 ^ F.fractionBits ≤ s) := by
  have hg : m % 2 ^ F.fractionBits < 2 ^ F.fractionBits := Nat.mod_lt _ (Nat.two_pow_pos _)
  unfold units
  rw [pow_succ]
  split
  · exact ⟨m % 2 ^ F.fractionBits, 0, by rw [pow_zero, mul_one], by omega, .inl rfl⟩
  · exact ⟨2 ^ F.fractionBits + m % 2 ^ F.fractionBits, _, rfl, by omega, .inr (Nat.le_add_right _ _)⟩

/-- The units of the larger format. -/
theorem units_binary64 (m : Nat) : binary64.units m = Binary64.units m := rfl

end Magnitudes

end FloatFormat

/-- A bit pattern of the smaller format. -/
structure Binary32 where
  neg : Bool
  magnitude : Nat
  lt : magnitude < 2 ^ 31
deriving DecidableEq

/-! ## Values -/

/-- A magnitude with a sign. -/
def signed {α : Type} [Neg α] (neg : Bool) (v : α) : α := if neg then -v else v

/-- The number that a finite magnitude with a sign denotes. -/
def FloatFormat.value (F : FloatFormat) (neg : Bool) (m : Nat) : ℚ := signed neg ((F.units m : ℚ) / 2 ^ F.unitBits)

def Binary64.value (x : Binary64) : ℚ := FloatFormat.binary64.value x.neg x.magnitude

/-! ## Modes -/

namespace RoundingMode

/-- The nearest integer, and the even one of two. -/
def nearestEven (v : ℚ) : ℤ :=
  if v - ⌊v⌋ < 1 / 2 then ⌊v⌋ else if 1 / 2 < v - ⌊v⌋ then ⌊v⌋ + 1 else if ⌊v⌋ % 2 = 0 then ⌊v⌋ else ⌊v⌋ + 1

/-- The integer that a mode selects. -/
def select (mode : RoundingMode) (v : ℚ) : ℤ :=
  match mode with
  | toNearest => nearestEven v
  | downward => ⌊v⌋
  | upward => ⌈v⌉
  | towardZero => if 0 ≤ v then ⌊v⌋ else ⌈v⌉

/-- The magnitude that a mode selects for a quotient of naturals with a sign. -/
def roundDiv (mode : RoundingMode) (neg : Bool) (n d : Nat) : Nat :=
  if n % d = 0 then n / d
  else
    match mode with
    | upward => if neg then n / d else n / d + 1
    | downward => if neg then n / d + 1 else n / d
    | towardZero => n / d
    | toNearest => if d < 2 * (n % d) ∨ (2 * (n % d) = d ∧ n / d % 2 = 1) then n / d + 1 else n / d

theorem select_int (mode : RoundingMode) (k : ℤ) : mode.select (k : ℚ) = k := by
  cases mode <;> simp [select, nearestEven]

theorem roundDiv_bounds (mode : RoundingMode) (neg : Bool) (n d : Nat) :
    n / d ≤ mode.roundDiv neg n d ∧ mode.roundDiv neg n d ≤ n / d + 1 := by
  unfold roundDiv
  repeat' split
  all_goals omega

theorem roundDiv_exact (mode : RoundingMode) (neg : Bool) {n d : Nat} (h : n % d = 0) : mode.roundDiv neg n d = n / d :=
  if_pos h

/-- The floor of a quotient and of its opposite, where the division leaves a rest. -/
theorem floor_div {n d q r : Nat} (hd : 0 < d) (hq : n / d = q) (hr : n % d = r) (h : r ≠ 0) :
    (n : ℚ) / d = q + (r : ℚ) / d ∧ ⌊(n : ℚ) / d⌋ = q ∧ ⌊-((n : ℚ) / d)⌋ = -(q + 1 : ℤ) := by
  have hdq : (0 : ℚ) < d := by exact_mod_cast hd
  have hsplit : (n : ℚ) / d = q + (r : ℚ) / d := by
    have hn : n = q * d + r := by rw [← hq, ← hr, Nat.div_add_mod']
    rw [div_eq_iff hdq.ne', add_mul, div_mul_cancel₀ _ hdq.ne']
    exact_mod_cast hn
  have hpos : (0 : ℚ) < (r : ℚ) / d := by
    apply div_pos _ hdq
    exact_mod_cast Nat.pos_of_ne_zero h
  have hlt : (r : ℚ) / d < 1 := by
    rw [div_lt_one hdq]
    exact_mod_cast hr ▸ Nat.mod_lt n hd
  refine ⟨hsplit, ?_, ?_⟩
  · rw [hsplit, Int.floor_eq_iff]
    push_cast
    constructor <;> linarith
  · rw [hsplit, Int.floor_eq_iff]
    push_cast
    constructor <;> linarith

/-- What a mode selects for a quotient of naturals. -/
theorem select_div (mode : RoundingMode) (neg : Bool) (n : Nat) {d : Nat} (hd : 0 < d) :
    mode.select (signed neg ((n : ℚ) / d)) = signed neg (mode.roundDiv neg n d : ℤ) := by
  have hdq : (0 : ℚ) < d := by exact_mod_cast hd
  obtain ⟨q, hq⟩ : ∃ q, n / d = q := ⟨_, rfl⟩
  obtain ⟨r, hr⟩ : ∃ r, n % d = r := ⟨_, rfl⟩
  unfold roundDiv
  rw [hq, hr]
  by_cases hexact : r = 0
  · have hquotient : (n : ℚ) / d = q := by
      rw [← hq]
      exact (Nat.cast_div (Nat.dvd_of_mod_eq_zero (hr.trans hexact)) hdq.ne').symm
    rw [if_pos hexact, hquotient]
    cases neg
    · exact select_int mode q
    · have := select_int mode (-(q : ℤ))
      rwa [Int.cast_neg] at this
  · obtain ⟨hsplit, hfloor, hfloorNeg⟩ := floor_div hd hq hr hexact
    have hceil : ⌈(n : ℚ) / d⌉ = q + 1 := by
      rw [← neg_neg ((n : ℚ) / d), Int.ceil_neg, hfloorNeg, neg_neg]
    have hceilNeg : ⌈-((n : ℚ) / d)⌉ = -(q : ℤ) := by rw [Int.ceil_neg, hfloor]
    have hpos : 0 < (n : ℚ) / d := by
      rw [hsplit]
      have : (0 : ℚ) < (r : ℚ) / d := div_pos (by exact_mod_cast Nat.pos_of_ne_zero hexact) hdq
      positivity
    have hless : (r : ℚ) / d < 1 / 2 ↔ 2 * r < d := by
      rw [div_lt_div_iff₀ hdq (by norm_num)]
      norm_cast
      omega
    have hmore : 1 / 2 < (r : ℚ) / d ↔ d < 2 * r := by
      rw [div_lt_div_iff₀ (by norm_num) hdq]
      norm_cast
      omega
    rw [if_neg hexact]
    cases mode
    case toNearest =>
      have hrest : (n : ℚ) / d - q = (r : ℚ) / d := by linarith
      have hrestNeg : -((n : ℚ) / d) - ((-(q + 1) : ℤ) : ℚ) = 1 - (r : ℚ) / d := by
        push_cast
        linarith
      cases neg
      · show nearestEven ((n : ℚ) / d) = ((if d < 2 * r ∨ (2 * r = d ∧ q % 2 = 1) then q + 1 else q : Nat) : ℤ)
        rw [nearestEven, hfloor, Int.cast_natCast, hrest]
        simp only [hless, hmore]
        split_ifs <;> omega
      · show nearestEven (-((n : ℚ) / d)) = -((if d < 2 * r ∨ (2 * r = d ∧ q % 2 = 1) then q + 1 else q : Nat) : ℤ)
        have hlessNeg : 1 - (r : ℚ) / d < 1 / 2 ↔ d < 2 * r := by
          rw [← hmore]
          constructor <;> intro h <;> linarith
        have hmoreNeg : 1 / 2 < 1 - (r : ℚ) / d ↔ 2 * r < d := by
          rw [← hless]
          constructor <;> intro h <;> linarith
        rw [nearestEven, hfloorNeg, hrestNeg]
        simp only [hlessNeg, hmoreNeg]
        split_ifs <;> omega
    case downward =>
      cases neg
      · exact hfloor
      · exact hfloorNeg
    case upward =>
      cases neg
      · exact hceil
      · exact hceilNeg
    case towardZero =>
      cases neg
      · show (if 0 ≤ (n : ℚ) / d then _ else _) = _
        rw [if_pos hpos.le]
        exact hfloor
      · show (if 0 ≤ -((n : ℚ) / d) then _ else _) = _
        rw [if_neg (by linarith)]
        exact hceilNeg

end RoundingMode

/-! ## Grids -/

namespace FloatFormat

variable (F : FloatFormat)

/-- The numbers of the format around a number of units are `2 ^ k` apart. -/
def Spacing (v : ℚ) (k : Nat) : Prop :=
  (k = 0 ∨ 2 ^ (F.fractionBits + k) ≤ |v|) ∧ |v| < 2 ^ (F.fractionBits + k + 1)

/-- The mode rounds `v` units to `r` units, as if the exponents had no end. -/
def RoundsTo (mode : RoundingMode) (v r : ℚ) : Prop := ∃ k, F.Spacing v k ∧ r = mode.select (v / 2 ^ k) * 2 ^ k

variable {F}

theorem abs_signed (neg : Bool) {v : ℚ} (h : 0 ≤ v) : |signed neg v| = v := by
  cases neg
  · exact abs_of_nonneg h
  · exact (abs_neg v).trans (abs_of_nonneg h)

theorem signed_div (neg : Bool) (v w : ℚ) : signed neg v / w = signed neg (v / w) := by
  cases neg
  · rfl
  · exact neg_div w v

theorem signed_mul (neg : Bool) (v w : ℚ) : signed neg v * w = signed neg (v * w) := by
  cases neg
  · rfl
  · exact neg_mul v w

/-- A magnitude that is a whole number of steps of the grid is kept. -/
theorem roundsTo_steps (mode : RoundingMode) (neg : Bool) {s k : Nat} (hs : k = 0 ∨ 2 ^ F.fractionBits ≤ s)
    (hs' : s < 2 ^ (F.fractionBits + 1)) : F.RoundsTo mode (signed neg (s * 2 ^ k : ℚ)) (signed neg (s * 2 ^ k : ℚ)) := by
  have hpos : (0 : ℚ) < 2 ^ k := by positivity
  refine ⟨k, ⟨?_, ?_⟩, ?_⟩
  · rcases hs with rfl | hs
    · exact .inl rfl
    · right
      rw [abs_signed neg (by positivity), pow_add]
      apply mul_le_mul_of_nonneg_right _ hpos.le
      exact_mod_cast hs
  · rw [abs_signed neg (by positivity), show F.fractionBits + k + 1 = F.fractionBits + 1 + k by omega, pow_add]
    apply mul_lt_mul_of_pos_right _ hpos
    exact_mod_cast hs'
  · have hint : signed neg (s : ℚ) = ((signed neg (s : ℤ) : ℤ) : ℚ) := by cases neg <;> simp [signed]
    rw [signed_div, mul_div_cancel_right₀ _ hpos.ne', hint, RoundingMode.select_int, ← hint, signed_mul]

/-- A number of the format is its own rounding. -/
theorem roundsTo_self {mode : RoundingMode} {neg : Bool} {m : Nat} {r : ℚ}
    (h : F.RoundsTo mode (signed neg (F.units m : ℚ)) r) : r = signed neg (F.units m : ℚ) := by
  obtain ⟨k, ⟨hlow, -⟩, rfl⟩ := h
  obtain ⟨s, j, hunits, hs, -⟩ := @exists_steps F m
  have hkj : k ≤ j := by
    rcases hlow with rfl | hlow
    · exact Nat.zero_le j
    · rw [abs_signed neg (Nat.cast_nonneg _), hunits] at hlow
      have hpow : 2 ^ (F.fractionBits + k) < 2 ^ (F.fractionBits + 1 + j) := by
        rw [pow_add _ _ j]
        exact lt_of_le_of_lt (by exact_mod_cast hlow) (Nat.mul_lt_mul_of_pos_right hs (Nat.two_pow_pos j))
      have hexp := (Nat.pow_lt_pow_iff_right (by decide : 1 < 2)).1 hpow
      omega
  obtain ⟨i, rfl⟩ := Nat.exists_eq_add_of_le hkj
  have hpos : (2 : ℚ) ^ k ≠ 0 := by positivity
  have hquotient : signed neg (F.units m : ℚ) / 2 ^ k = ((signed neg (s * 2 ^ i : ℤ) : ℤ) : ℚ) := by
    rw [div_eq_iff hpos, hunits]
    cases neg <;> simp only [signed, if_true, if_false, Bool.false_eq_true] <;> push_cast <;> ring
  rw [hquotient, RoundingMode.select_int, ← hquotient, div_mul_cancel₀ _ hpos]

/-- A quotient below the second binade is rounded to an integer. -/
theorem roundsTo_units (mode : RoundingMode) (neg : Bool) {n d : Nat} (hd : 0 < d)
    (h : n < 2 ^ (F.fractionBits + 1) * d) :
    F.RoundsTo mode (signed neg ((n : ℚ) / d)) (signed neg ((mode.roundDiv neg n d : Nat) : ℚ)) := by
  have hdq : (0 : ℚ) < d := by exact_mod_cast hd
  refine ⟨0, ⟨.inl rfl, ?_⟩, ?_⟩
  · rw [abs_signed neg (by positivity), add_zero, div_lt_iff₀ hdq]
    exact_mod_cast h
  · rw [pow_zero, div_one, mul_one, RoundingMode.select_div mode neg n hd]
    cases neg <;> simp [signed]

end FloatFormat

end MiniLibc
