import MiniLibc.Math.Remainder
import MiniLibc.Math.Rint
/-!
# Integral parts

`trunc`, `floor`, `ceil` and `round` of `src/math/math.c`, and `modf` of `decompose.c`.
`trunc` clears the bits of the fraction that are worth less than one. The others compare
and add with the operations of the processor, in whatever rounding mode: the operations
are exact.
-/

namespace MiniLibc.Math

open Binary64
open FloatFormat (binary64 bias_spec exists_steps units_binary64)

/-! ## The source -/

/-- `trunc` without the sign. -/
def truncMagnitude (F : FloatFormat) (magnitude : Nat) : Nat :=
  let exponentField := magnitude >>> F.fractionBits
  if exponentField = F.maxField then magnitude
  else
    let exponent : Int := exponentField - F.bias
    if exponent < 0 then 0
    else if exponent ≥ F.fractionBits then magnitude
    else
      let mask := (1 <<< (F.fractionBits - exponent.toNat)) - 1
      -- `bits & ~mask`
      magnitude - (magnitude &&& mask)

/-- It is the rounding towards zero. -/
theorem truncMagnitude_eq {F : FloatFormat} (negative : Bool) (m : Nat) :
    truncMagnitude F m = (roundMagnitudeMode F negative m .towardZero).1 := by
  have hbias := (@bias_spec F).1
  unfold truncMagnitude roundMagnitudeMode
  dsimp only
  by_cases hmax : m >>> F.fractionBits = F.maxField
  · rw [if_pos hmax, if_pos (.inl hmax)]
  rw [if_neg hmax]
  by_cases hzero : m = 0
  · have hbelow : ((0 : Nat) : Int) - F.bias < 0 := by omega
    rw [hzero, Nat.zero_shiftRight, if_pos hbelow]
    simp
  rw [if_neg (not_or.2 ⟨hmax, hzero⟩)]
  by_cases hfield : m >>> F.fractionBits = 0
  · have hbelow : ((0 : Nat) : Int) - F.bias < 0 := by omega
    have hleast : (1 : Int) - F.bias < 0 := by omega
    rw [hfield, if_pos hbelow, if_pos rfl, if_pos hleast]
    simp
  rw [if_neg hfield]
  split_ifs <;> simp_all

def trunc (x : Binary64) : Binary64 :=
  ⟨x.neg, truncMagnitude binary64 x.magnitude, by
    rw [truncMagnitude_eq x.neg]
    exact @roundMagnitudeMode_lt binary64 (by decide) x.neg x.magnitude .towardZero x.lt⟩

@[simp] theorem trunc_neg (x : Binary64) : (trunc x).neg = x.neg := rfl

/-- `double_is_finite_bits` -/
def isFiniteBits (x : Binary64) : Bool := x.exponent ≠ binary64.maxField

/-- `1.0` -/
def one : Binary64 := pow2 0 (by decide)

theorem oneHalf_lt : 1022 * 2 ^ 52 < 2 ^ 63 := by decide

/-- `0.5` -/
def oneHalf : Binary64 := ⟨false, 1022 * 2 ^ 52, oneHalf_lt⟩

theorem noMagnitude_lt : 0 < 2 ^ 63 := by decide

/-- `double_from_bits(bits & MINI_DOUBLE_SIGN)` -/
def signOnly (x : Binary64) : Binary64 := ⟨x.neg, 0, noMagnitude_lt⟩

def floor (mode : RoundingMode) (x : Binary64) : Binary64 :=
  if !isFiniteBits x then x
  else
    let integral := trunc x
    if x.less integral then integral.subIn mode one else integral

def ceil (mode : RoundingMode) (x : Binary64) : Binary64 :=
  if !isFiniteBits x then x
  else
    let integral := trunc x
    if integral.less x then integral.addIn mode one else integral

def round (mode : RoundingMode) (x : Binary64) : Binary64 :=
  if !isFiniteBits x then x
  else
    let integral := trunc x
    let fraction := x.subIn mode integral
    if oneHalf.less fraction || oneHalf.equal fraction then integral.addIn mode one
    else if fraction.less oneHalf.negate || fraction.equal oneHalf.negate then integral.subIn mode one
    else integral

/-- `modf`: the fraction, and what it stores. -/
def modf (mode : RoundingMode) (x : Binary64) : Binary64 × Binary64 :=
  if x.exponent = binary64.maxField then
    if x.fraction ≠ 0 then (x, x) else (signOnly x, x)
  else
    let integral := trunc x
    let fractional := x.subIn mode integral
    if fractional.equal zero then (signOnly x, integral) else (fractional, integral)

/-! ## Exactness -/

section Finite

variable {x : Binary64}

theorem isFiniteBits_iff (x : Binary64) : isFiniteBits x = true ↔ x.Finite := by
  have hlt := x.lt
  have hfield : binary64.maxField = 2047 := rfl
  unfold isFiniteBits Binary64.exponent Binary64.Finite Binary64.infBits
  rw [hfield, decide_eq_true_iff]
  omega

/-- The units of a finite number: the whole ones, and the rest. -/
theorem trunc_units (hfinite : x.Finite) :
    (trunc x).Finite ∧
      (trunc x).signedUnits = signed x.neg ((units x.magnitude / 2 ^ unitBits * 2 ^ unitBits : Nat) : ℤ) := by
  have hmagnitude : (trunc x).magnitude = (roundMagnitudeMode binary64 x.neg x.magnitude .towardZero).1 :=
    truncMagnitude_eq x.neg x.magnitude
  obtain ⟨⟨m, inexact⟩, hr⟩ : ∃ r, roundMagnitudeMode binary64 x.neg x.magnitude .towardZero = r := ⟨_, rfl⟩
  have hfinite' := @roundMagnitudeMode_finite binary64 (by decide) x.neg x.magnitude .towardZero hfinite
  obtain ⟨hunits, -⟩ := roundMagnitudeMode_spec x.neg .towardZero hfinite hr
  rw [hr] at hmagnitude hfinite'
  unfold Binary64.Finite
  rw [signedUnits_eq, hmagnitude, ← units_binary64, hunits]
  refine ⟨hfinite', ?_⟩
  have hquotient : RoundingMode.roundDiv .towardZero x.neg (binary64.units x.magnitude) (2 ^ binary64.unitBits) =
      binary64.units x.magnitude / 2 ^ binary64.unitBits := by
    unfold RoundingMode.roundDiv
    split <;> rfl
  have hunitBits : binary64.unitBits = unitBits := rfl
  rw [hquotient, hunitBits, units_binary64, trunc_neg]

/-- The rest is a number. -/
theorem exists_rest (hfinite : x.Finite) :
    ∃ z : Binary64, z.Finite ∧ z.signedUnits = signed x.neg ((units x.magnitude % 2 ^ unitBits : Nat) : ℤ) := by
  obtain ⟨s, j, hsteps, hs, -⟩ := @exists_steps binary64 x.magnitude
  rw [units_binary64] at hsteps
  have hbound := units_lt hfinite
  rcases le_total unitBits j with hle | hle
  · have hrest : units x.magnitude % 2 ^ unitBits = 0 := by
      rw [hsteps]
      exact Nat.mod_eq_zero_of_dvd (Dvd.dvd.mul_left (pow_dvd_pow 2 hle) s)
    refine ⟨zero, by decide, ?_⟩
    rw [hrest, zero, zero_signedUnits]
    cases x.neg <;> rfl
  · obtain ⟨i, hi⟩ := Nat.exists_eq_add_of_le hle
    have hrest : units x.magnitude % 2 ^ unitBits = s % 2 ^ i * 2 ^ j := by
      rw [hsteps, hi, pow_add, mul_comm (2 ^ j), Nat.mul_mod_mul_right]
    have hle' : s % 2 ^ i * 2 ^ j ≤ units x.magnitude := by
      rw [hsteps]
      exact Nat.mul_le_mul_right _ (Nat.mod_le _ _)
    obtain ⟨z, hz, hunits⟩ := exists_signedUnits x.neg ((Nat.mod_le s (2 ^ i)).trans_lt hs) (hle'.trans_lt hbound)
    refine ⟨z, hz, ?_⟩
    rw [hunits, hrest]
    push_cast
    rfl

/-- A number with a rest is small, and the next whole one is a number. -/
theorem exists_next (hrest : units x.magnitude % 2 ^ unitBits ≠ 0) :
    ∃ z : Binary64, z.Finite ∧
      z.signedUnits = signed x.neg (((units x.magnitude / 2 ^ unitBits + 1) * 2 ^ unitBits : Nat) : ℤ) := by
  obtain ⟨s, j, hsteps, hs, -⟩ := @exists_steps binary64 x.magnitude
  rw [units_binary64] at hsteps
  have hj : j < unitBits := by
    by_contra hle
    apply hrest
    rw [hsteps]
    exact Nat.mod_eq_zero_of_dvd (Dvd.dvd.mul_left (pow_dvd_pow 2 (not_lt.1 hle)) s)
  have hquotient : units x.magnitude / 2 ^ unitBits < 2 ^ 52 := by
    rw [Nat.div_lt_iff_lt_mul (Nat.two_pow_pos _), hsteps, ← pow_add]
    calc s * 2 ^ j < 2 ^ (52 + 1) * 2 ^ j := Nat.mul_lt_mul_of_pos_right hs (Nat.two_pow_pos j)
      _ ≤ 2 ^ (52 + unitBits) := by
        rw [← pow_add]
        exact Nat.pow_le_pow_right (by decide) (by omega)
  have hbound : (units x.magnitude / 2 ^ unitBits + 1) * 2 ^ unitBits < 2 ^ topBits := by
    calc (units x.magnitude / 2 ^ unitBits + 1) * 2 ^ unitBits ≤ 2 ^ 52 * 2 ^ unitBits :=
          Nat.mul_le_mul_right _ hquotient
      _ < 2 ^ topBits := by
        rw [← pow_add]
        exact Nat.pow_lt_pow_right (by decide) (by decide)
  obtain ⟨z, hz, hunits⟩ := exists_signedUnits x.neg (by omega : units x.magnitude / 2 ^ unitBits + 1 < 2 ^ 53) hbound
  refine ⟨z, hz, ?_⟩
  rw [hunits]
  push_cast
  rfl

theorem addIn_neg (mode : RoundingMode) {x y : Binary64} (hx : x.Finite) (hy : y.Finite)
    (h : x.signedUnits + y.signedUnits ≠ 0) :
    (x.addIn mode y).neg = decide (x.signedUnits + y.signedUnits < 0) := by
  obtain ⟨hxnan, hxinf⟩ := hx.flags
  obtain ⟨hynan, hyinf⟩ := hy.flags
  unfold addIn
  rw [hxnan, hynan, hxinf, hyinf]
  simp only [Bool.or_self, Bool.false_eq_true, if_false]
  rw [if_neg h]
  rfl

theorem negate_finite {y : Binary64} (h : y.Finite) : y.negate.Finite := h

theorem one_spec : one.Finite ∧ one.signedUnits = (2 ^ unitBits : ℤ) := by
  refine ⟨by decide, ?_⟩
  have hunits : units one.magnitude = 2 ^ (unitBits + 0) := units_pow2 0 (by decide)
  rw [signedUnits_eq, hunits]
  push_cast
  rfl

/-- One step away from zero is exact. -/
theorem away_spec (mode : RoundingMode) (hfinite : x.Finite) (hrest : units x.magnitude % 2 ^ unitBits ≠ 0)
    {r : Binary64} (hr : r = if x.neg then (trunc x).subIn mode one else (trunc x).addIn mode one) :
    r.Finite ∧ r.neg = x.neg ∧
      r.signedUnits = signed x.neg (((units x.magnitude / 2 ^ unitBits + 1) * 2 ^ unitBits : Nat) : ℤ) := by
  obtain ⟨htrunc, hunits⟩ := trunc_units hfinite
  obtain ⟨hone, honeUnits⟩ := one_spec
  obtain ⟨z, hz, hzunits⟩ := exists_next hrest
  have hpos : (0 : ℤ) < 2 ^ unitBits := by positivity
  generalize units x.magnitude / 2 ^ unitBits = q at hunits hzunits ⊢
  push_cast at hunits hzunits ⊢
  generalize (2 ^ unitBits : ℤ) = unit at hpos hunits hzunits honeUnits ⊢
  have hnonneg : 0 ≤ (q : ℤ) * unit := mul_nonneg (Int.natCast_nonneg q) hpos.le
  subst hr
  cases hneg : x.neg with
  | false =>
    rw [hneg] at hunits hzunits
    have hsum : z.signedUnits = (trunc x).signedUnits + one.signedUnits := by
      rw [hzunits, hunits, honeUnits]
      simp only [signed, Bool.false_eq_true, if_false]
      ring
    obtain ⟨hfinite', hexact⟩ := addIn_exact mode htrunc hone hz hsum
    have hlarge : 0 < (trunc x).signedUnits + one.signedUnits := by
      rw [hunits, honeUnits]
      simp only [signed, Bool.false_eq_true, if_false]
      omega
    simp only [Bool.false_eq_true, if_false]
    refine ⟨hfinite', ?_, by rw [hexact, ← hsum, hzunits]⟩
    rw [addIn_neg mode htrunc hone (by omega)]
    simp only [decide_eq_false_iff_not, not_lt]
    omega
  | true =>
    rw [hneg] at hunits hzunits
    have hsum : z.signedUnits = (trunc x).signedUnits - one.signedUnits := by
      rw [hzunits, hunits, honeUnits]
      simp only [signed, if_true]
      ring
    obtain ⟨hfinite', hexact⟩ := subIn_exact mode htrunc hone hz hsum
    have hsmall : (trunc x).signedUnits + one.negate.signedUnits < 0 := by
      rw [negate_signedUnits, hunits, honeUnits]
      simp only [signed, if_true]
      omega
    simp only [if_true]
    refine ⟨hfinite', ?_, by rw [hexact, ← hsum, hzunits]⟩
    unfold subIn
    rw [addIn_neg mode htrunc (negate_finite hone) (by omega)]
    simpa using hsmall

/-- The fraction, exactly. -/
theorem fraction_spec (mode : RoundingMode) (hfinite : x.Finite) :
    (x.subIn mode (trunc x)).Finite ∧
      (x.subIn mode (trunc x)).signedUnits = signed x.neg ((units x.magnitude % 2 ^ unitBits : Nat) : ℤ) := by
  obtain ⟨htrunc, hunits⟩ := trunc_units hfinite
  obtain ⟨z, hz, hzunits⟩ := exists_rest hfinite
  have hsum : z.signedUnits = x.signedUnits - (trunc x).signedUnits := by
    have hsplit := Nat.div_add_mod' (units x.magnitude) (2 ^ unitBits)
    rw [hzunits, hunits, signedUnits_eq]
    generalize units x.magnitude / 2 ^ unitBits * 2 ^ unitBits = a at hsplit ⊢
    generalize units x.magnitude % 2 ^ unitBits = b at hsplit ⊢
    cases x.neg <;> simp only [signed, Bool.false_eq_true, if_false, if_true] <;> omega
  obtain ⟨hfinite', hexact⟩ := subIn_exact mode hfinite htrunc hz hsum
  exact ⟨hfinite', by rw [hexact, ← hsum, hzunits]⟩

/-! ## The functions on whole units and the rest -/

theorem floor_cases (mode : RoundingMode) (hfinite : x.Finite) :
    floor mode x = if x.neg = true ∧ units x.magnitude % 2 ^ unitBits ≠ 0 then
      (if x.neg then (trunc x).subIn mode one else (trunc x).addIn mode one) else trunc x := by
  obtain ⟨htrunc, hunits⟩ := trunc_units hfinite
  have hless : x.less (trunc x) = true ↔ x.neg = true ∧ units x.magnitude % 2 ^ unitBits ≠ 0 := by
    have hsplit := Nat.div_add_mod' (units x.magnitude) (2 ^ unitBits)
    rw [less_iff hfinite htrunc, hunits, signedUnits_eq]
    generalize units x.magnitude / 2 ^ unitBits * 2 ^ unitBits = a at hsplit ⊢
    generalize units x.magnitude % 2 ^ unitBits = b at hsplit ⊢
    cases x.neg
    · simp only [signed, Bool.false_eq_true, if_false, false_and, iff_false]
      omega
    · simp only [signed, if_true, true_and]
      omega
  unfold floor
  rw [(isFiniteBits_iff x).2 hfinite, if_neg (by simp)]
  dsimp only
  by_cases h : x.neg = true ∧ units x.magnitude % 2 ^ unitBits ≠ 0
  · rw [if_pos h, if_pos (hless.2 h), if_pos h.1]
  · rw [if_neg h, if_neg (mt hless.1 h)]

theorem ceil_cases (mode : RoundingMode) (hfinite : x.Finite) :
    ceil mode x = if x.neg = false ∧ units x.magnitude % 2 ^ unitBits ≠ 0 then
      (if x.neg then (trunc x).subIn mode one else (trunc x).addIn mode one) else trunc x := by
  obtain ⟨htrunc, hunits⟩ := trunc_units hfinite
  have hless : (trunc x).less x = true ↔ x.neg = false ∧ units x.magnitude % 2 ^ unitBits ≠ 0 := by
    have hsplit := Nat.div_add_mod' (units x.magnitude) (2 ^ unitBits)
    rw [less_iff htrunc hfinite, hunits, signedUnits_eq]
    generalize units x.magnitude / 2 ^ unitBits * 2 ^ unitBits = a at hsplit ⊢
    generalize units x.magnitude % 2 ^ unitBits = b at hsplit ⊢
    cases x.neg
    · simp only [signed, Bool.false_eq_true, if_false, true_and]
      omega
    · simp only [signed, Bool.true_eq_false, if_true, false_and, iff_false]
      omega
  unfold ceil
  rw [(isFiniteBits_iff x).2 hfinite, if_neg (by simp)]
  dsimp only
  by_cases h : x.neg = false ∧ units x.magnitude % 2 ^ unitBits ≠ 0
  · rw [if_pos h, if_pos (hless.2 h), h.1]
    simp
  · rw [if_neg h, if_neg (mt hless.1 h)]

theorem oneHalf_spec : oneHalf.Finite ∧ 2 * oneHalf.signedUnits = (2 ^ unitBits : ℤ) := by
  have hexponent : 52 + (1022 - 1) + 1 = unitBits := by decide
  have hunits : 2 * units oneHalf.magnitude = 2 ^ unitBits := by
    have hm : oneHalf.magnitude = 1022 * 2 ^ 52 + 0 := rfl
    rw [hm, units_eq _ 0 (by decide), if_neg (by omega), Nat.add_zero, ← pow_add, ← pow_succ', hexponent]
  refine ⟨by decide, ?_⟩
  have hcast := congrArg (Nat.cast : ℕ → ℤ) hunits
  rw [Nat.cast_mul, Nat.cast_pow] at hcast
  exact hcast

theorem round_cases (mode : RoundingMode) (hfinite : x.Finite) :
    round mode x = if 2 ^ unitBits ≤ 2 * (units x.magnitude % 2 ^ unitBits) then
      (if x.neg then (trunc x).subIn mode one else (trunc x).addIn mode one) else trunc x := by
  obtain ⟨hfraction, hunits⟩ := fraction_spec mode hfinite
  obtain ⟨hhalf, hhalfUnits⟩ := oneHalf_spec
  have hnegate := negate_signedUnits oneHalf
  have hpos : (0 : ℤ) < 2 ^ unitBits := by positivity
  have hcast : (2 ^ unitBits ≤ 2 * (units x.magnitude % 2 ^ unitBits)) ↔
      (2 ^ unitBits : ℤ) ≤ 2 * ((units x.magnitude % 2 ^ unitBits : Nat) : ℤ) := by
    rw [← Nat.cast_le (α := ℤ), Nat.cast_pow, Nat.cast_mul]
    rfl
  rw [if_congr hcast rfl rfl]
  have hup : (oneHalf.less (x.subIn mode (trunc x)) || oneHalf.equal (x.subIn mode (trunc x))) = true ↔
      oneHalf.signedUnits ≤ (x.subIn mode (trunc x)).signedUnits := by
    rw [Bool.or_eq_true, less_iff hhalf hfraction, equal_iff hhalf hfraction]
    omega
  have hdown : ((x.subIn mode (trunc x)).less oneHalf.negate || (x.subIn mode (trunc x)).equal oneHalf.negate) = true ↔
      (x.subIn mode (trunc x)).signedUnits ≤ -oneHalf.signedUnits := by
    rw [Bool.or_eq_true, less_iff hfraction (negate_finite hhalf), equal_iff hfraction (negate_finite hhalf), hnegate]
    omega
  unfold round
  rw [(isFiniteBits_iff x).2 hfinite, if_neg (by simp)]
  dsimp only
  rw [if_congr hup rfl rfl, if_congr hdown rfl rfl, hunits]
  generalize oneHalf.signedUnits = half at hhalfUnits
  have hrest := Int.natCast_nonneg (units x.magnitude % 2 ^ unitBits)
  generalize ((units x.magnitude % 2 ^ unitBits : Nat) : ℤ) = rest at hrest ⊢
  generalize (2 ^ unitBits : ℤ) = unit at hpos hhalfUnits ⊢
  cases x.neg
  · simp only [signed, Bool.false_eq_true, if_false]
    split_ifs <;> first | omega | rfl
  · simp only [signed, if_true]
    split_ifs <;> first | omega | rfl

/-! ## Values -/

/-- What a function makes of `x`: the integer `k`, with the sign of `x`. -/
structure IsInteger (x r : Binary64) (k : ℤ) : Prop where
  finite : r.Finite
  sign : r.neg = x.neg
  value : r.value = k

theorem isInteger_of_units {r : Binary64} (hr : r.Finite) (hneg : r.neg = x.neg) {n : Nat}
    (hunits : r.signedUnits = signed x.neg ((n * 2 ^ unitBits : Nat) : ℤ)) : IsInteger x r (signed x.neg (n : ℤ)) := by
  have hpos : (2 : ℚ) ^ binary64.unitBits ≠ 0 := by positivity
  have hunitBits : binary64.unitBits = unitBits := rfl
  refine ⟨hr, hneg, ?_⟩
  rw [value_eq, hunits, div_eq_iff hpos, hunitBits, cast_signed, cast_signed, FloatFormat.signed_mul]
  push_cast
  rfl

/-- The integer next to a value, away from zero between two. -/
def roundAway (v : ℚ) : ℤ := if 0 ≤ v then ⌊v + 1 / 2⌋ else ⌈v - 1 / 2⌉

theorem roundAway_signed (neg : Bool) (n : Nat) {d : Nat} (hd : 0 < d) :
    roundAway (signed neg ((n : ℚ) / d)) = signed neg ((if d ≤ 2 * (n % d) then n / d + 1 else n / d : Nat) : ℤ) := by
  have hdq : (0 : ℚ) < d := by exact_mod_cast hd
  have hfloor : ⌊(n : ℚ) / d + 1 / 2⌋ = ((2 * n + d) / (2 * d) : Nat) := by
    have hsum : (n : ℚ) / d + 1 / 2 = ((2 * n + d : Nat) : ℚ) / ((2 * d : Nat) : ℚ) := by
      push_cast
      field_simp
    rw [hsum, Rat.floor_natCast_div_natCast, Int.natCast_div]
  have hquotient : (2 * n + d) / (2 * d) = if d ≤ 2 * (n % d) then n / d + 1 else n / d := by
    have hsplit := Nat.div_add_mod' n d
    have hlt := Nat.mod_lt n hd
    generalize n / d = q at hsplit ⊢
    generalize n % d = r at hsplit hlt ⊢
    have hnext : (q + 1) * (2 * d) = 2 * (q * d) + 2 * d := by ring
    have hsame : q * (2 * d) = 2 * (q * d) := by ring
    rw [Nat.div_eq_iff (by omega)]
    split <;> omega
  rw [← hquotient]
  unfold roundAway
  cases neg with
  | false =>
    have hnonneg : 0 ≤ signed false ((n : ℚ) / d) := by
      simp only [signed, Bool.false_eq_true, if_false]
      positivity
    rw [if_pos hnonneg]
    exact hfloor
  | true =>
    by_cases hzero : n = 0
    · rw [hzero]
      norm_num [signed, Nat.div_eq_of_lt (show d < 2 * d by omega)]
    · have hneg : ¬0 ≤ signed true ((n : ℚ) / d) := by
        simp only [signed, if_true, not_le]
        have : (0 : ℚ) < n := by exact_mod_cast Nat.pos_of_ne_zero hzero
        have := div_pos this hdq
        linarith
      rw [if_neg hneg]
      have hminus : signed true ((n : ℚ) / d) - 1 / 2 = -((n : ℚ) / d + 1 / 2) := by
        simp only [signed, if_true]
        ring
      rw [hminus, Int.ceil_neg, hfloor]
      rfl

theorem value_units (x : Binary64) :
    x.value = signed x.neg ((units x.magnitude : ℚ) / ((2 ^ unitBits : Nat) : ℚ)) := by
  have hunitBits : binary64.unitBits = unitBits := rfl
  rw [value_eq, signedUnits_eq, cast_signed, FloatFormat.signed_div, hunitBits, Int.cast_natCast, Nat.cast_pow,
    Nat.cast_ofNat]

theorem select_units (mode : RoundingMode) (x : Binary64) :
    mode.select x.value = signed x.neg (mode.roundDiv x.neg (units x.magnitude) (2 ^ unitBits) : ℤ) := by
  rw [value_units]
  exact mode.select_div x.neg (units x.magnitude) (Nat.two_pow_pos _)

theorem trunc_integer (hfinite : x.Finite) : IsInteger x (trunc x) (RoundingMode.select .towardZero x.value) := by
  obtain ⟨htrunc, hunits⟩ := trunc_units hfinite
  rw [select_units]
  have hquotient : RoundingMode.roundDiv .towardZero x.neg (units x.magnitude) (2 ^ unitBits) =
      units x.magnitude / 2 ^ unitBits := by
    unfold RoundingMode.roundDiv
    split <;> rfl
  rw [hquotient]
  exact isInteger_of_units (x := x) htrunc (trunc_neg x) hunits

/-- A function that takes the step away from zero or not. -/
theorem integer_of_cases (mode : RoundingMode) (hfinite : x.Finite) {r : Binary64} {p : Prop} [Decidable p]
    (hrest : p → units x.magnitude % 2 ^ unitBits ≠ 0)
    (hr : r = if p then (if x.neg then (trunc x).subIn mode one else (trunc x).addIn mode one) else trunc x) :
    IsInteger x r
      (signed x.neg ((if p then units x.magnitude / 2 ^ unitBits + 1 else units x.magnitude / 2 ^ unitBits : Nat) : ℤ)) := by
  by_cases hp : p
  · rw [if_pos hp] at hr ⊢
    obtain ⟨hfinite', hneg, hunits⟩ := away_spec mode hfinite (hrest hp) hr
    exact isInteger_of_units hfinite' hneg hunits
  · rw [if_neg hp] at hr ⊢
    obtain ⟨htrunc, hunits⟩ := trunc_units hfinite
    subst hr
    exact isInteger_of_units (x := x) htrunc (trunc_neg x) hunits

theorem floor_integer (mode : RoundingMode) (hfinite : x.Finite) : IsInteger x (floor mode x) ⌊x.value⌋ := by
  have h := integer_of_cases mode hfinite (fun h => h.2) (floor_cases mode hfinite)
  have hselect : (⌊x.value⌋ : ℤ) = _ := select_units .downward x
  have hquotient : RoundingMode.roundDiv .downward x.neg (units x.magnitude) (2 ^ unitBits) =
      if x.neg = true ∧ units x.magnitude % 2 ^ unitBits ≠ 0 then units x.magnitude / 2 ^ unitBits + 1
      else units x.magnitude / 2 ^ unitBits := by
    unfold RoundingMode.roundDiv
    generalize units x.magnitude % 2 ^ unitBits = rest
    cases x.neg <;> by_cases hrest : rest = 0 <;> simp [hrest]
  rw [hselect, hquotient]
  exact h

theorem ceil_integer (mode : RoundingMode) (hfinite : x.Finite) : IsInteger x (ceil mode x) ⌈x.value⌉ := by
  have h := integer_of_cases mode hfinite (fun h => h.2) (ceil_cases mode hfinite)
  have hselect : (⌈x.value⌉ : ℤ) = _ := select_units .upward x
  have hquotient : RoundingMode.roundDiv .upward x.neg (units x.magnitude) (2 ^ unitBits) =
      if x.neg = false ∧ units x.magnitude % 2 ^ unitBits ≠ 0 then units x.magnitude / 2 ^ unitBits + 1
      else units x.magnitude / 2 ^ unitBits := by
    unfold RoundingMode.roundDiv
    generalize units x.magnitude % 2 ^ unitBits = rest
    cases x.neg <;> by_cases hrest : rest = 0 <;> simp [hrest]
  rw [hselect, hquotient]
  exact h

theorem round_integer (mode : RoundingMode) (hfinite : x.Finite) : IsInteger x (round mode x) (roundAway x.value) := by
  have hrest : 2 ^ unitBits ≤ 2 * (units x.magnitude % 2 ^ unitBits) → units x.magnitude % 2 ^ unitBits ≠ 0 := by
    intro hle hzero
    have := Nat.two_pow_pos unitBits
    omega
  have h := integer_of_cases mode hfinite hrest (round_cases mode hfinite)
  rw [value_units, roundAway_signed _ _ (Nat.two_pow_pos _)]
  exact h

/-- What `modf` makes of a finite number: its parts, both with its sign. -/
structure IsParts (x integral fraction : Binary64) : Prop where
  whole : IsInteger x integral (RoundingMode.select .towardZero x.value)
  finite : fraction.Finite
  sign : fraction.neg = x.neg
  small : |fraction.value| < 1
  sum : integral.value + fraction.value = x.value

theorem parts_of_units (hfinite : x.Finite) {fraction : Binary64} (hf : fraction.Finite) (hneg : fraction.neg = x.neg)
    (hunits : fraction.signedUnits = signed x.neg ((units x.magnitude % 2 ^ unitBits : Nat) : ℤ)) :
    IsParts x (trunc x) fraction := by
  obtain ⟨-, htrunc⟩ := trunc_units hfinite
  have hunitBits : binary64.unitBits = unitBits := rfl
  have hpos : (0 : ℚ) < 2 ^ unitBits := by positivity
  refine ⟨trunc_integer hfinite, hf, hneg, ?_, ?_⟩
  · rw [abs_value, hunits, hunitBits, div_lt_one hpos]
    have habs : (signed x.neg ((units x.magnitude % 2 ^ unitBits : Nat) : ℤ)).natAbs = units x.magnitude % 2 ^ unitBits := by
      generalize units x.magnitude % 2 ^ unitBits = rest
      cases x.neg <;> simp [signed]
    rw [habs]
    exact_mod_cast Nat.mod_lt (units x.magnitude) (Nat.two_pow_pos unitBits)
  · rw [value_eq, value_eq, value_eq, ← add_div, htrunc, hunits, signedUnits_eq]
    have hsplit := Nat.div_add_mod' (units x.magnitude) (2 ^ unitBits)
    generalize units x.magnitude / 2 ^ unitBits * 2 ^ unitBits = a at hsplit ⊢
    generalize units x.magnitude % 2 ^ unitBits = b at hsplit ⊢
    have hparts : signed x.neg (a : ℤ) + signed x.neg (b : ℤ) = signed x.neg ((units x.magnitude : Nat) : ℤ) := by
      rw [← hsplit]
      cases x.neg <;> simp only [signed, Bool.false_eq_true, if_false, if_true] <;> omega
    rw [← Int.cast_add, hparts]

theorem modf_parts (mode : RoundingMode) (hfinite : x.Finite) :
    IsParts x (modf mode x).2 (modf mode x).1 := by
  obtain ⟨hfraction, hunits⟩ := fraction_spec mode hfinite
  obtain ⟨htrunc, -⟩ := trunc_units hfinite
  have hexponent : x.exponent ≠ binary64.maxField := by
    have := (isFiniteBits_iff x).2 hfinite
    unfold isFiniteBits at this
    simpa using this
  have hzero : zero.Finite := by decide
  have hzeroUnits : zero.signedUnits = 0 := zero_signedUnits false
  have hequal := equal_iff hfraction hzero
  rw [hzeroUnits] at hequal
  unfold modf
  rw [if_neg hexponent]
  dsimp only
  split
  · rename_i heq
    have hrest := hequal.1 heq
    have hzero' : (signOnly x).Finite := by
      unfold signOnly
      cases x.neg <;> decide
    refine parts_of_units hfinite hzero' rfl ?_
    rw [← hunits, hrest]
    exact zero_signedUnits x.neg
  · rename_i hne
    have hrest := mt hequal.2 hne
    refine parts_of_units hfinite hfraction ?_ hunits
    have hsum : x.signedUnits + (trunc x).negate.signedUnits = (x.subIn mode (trunc x)).signedUnits := by
      rw [hunits, negate_signedUnits, (trunc_units hfinite).2, signedUnits_eq]
      have hsplit := Nat.div_add_mod' (units x.magnitude) (2 ^ unitBits)
      generalize units x.magnitude / 2 ^ unitBits * 2 ^ unitBits = a at hsplit ⊢
      generalize units x.magnitude % 2 ^ unitBits = b at hsplit ⊢
      cases x.neg <;> simp only [signed, Bool.false_eq_true, if_false, if_true] <;> omega
    have hneg := addIn_neg mode hfinite (negate_finite htrunc) (by rw [hsum]; exact hrest)
    rw [hsum] at hneg
    unfold subIn at hneg ⊢
    rw [hneg]
    unfold subIn at hunits hrest
    rw [hunits] at hrest ⊢
    generalize units x.magnitude % 2 ^ unitBits = rest at hrest ⊢
    cases x.neg with
    | false => simp [signed]
    | true =>
      simp only [signed, if_true] at hrest ⊢
      simp
      omega

end Finite

/-- The integral parts of every bit pattern in every rounding mode: infinities and NaNs are
kept; `trunc`, `floor`, `ceil` and `round` give the integer towards zero, below, above, and
nearest with ties away from zero, with the sign of the argument; and `modf` splits the
argument exactly into its integer towards zero and a fraction less than one, both with its
sign. -/
theorem integral_parts (mode : RoundingMode) (x : Binary64) :
    (¬x.Finite → trunc x = x ∧ floor mode x = x ∧ ceil mode x = x ∧ round mode x = x ∧ (modf mode x).2 = x ∧
      (modf mode x).1 = if x.isNan then x else signOnly x) ∧
    (x.Finite → IsInteger x (trunc x) (RoundingMode.select .towardZero x.value) ∧ IsInteger x (floor mode x) ⌊x.value⌋ ∧
      IsInteger x (ceil mode x) ⌈x.value⌉ ∧ IsInteger x (round mode x) (roundAway x.value) ∧
      IsParts x (modf mode x).2 (modf mode x).1) := by
  refine ⟨fun hspecial => ?_, fun hfinite => ⟨trunc_integer hfinite, floor_integer mode hfinite,
    ceil_integer mode hfinite, round_integer mode hfinite, modf_parts mode hfinite⟩⟩
  have hbits : isFiniteBits x = false := by
    rw [← Bool.not_eq_true, isFiniteBits_iff]
    exact hspecial
  have hexponent : x.exponent = binary64.maxField := by
    unfold isFiniteBits at hbits
    simpa using hbits
  refine ⟨?_, by simp [floor, hbits], by simp [ceil, hbits], by simp [round, hbits], ?_, ?_⟩
  · have hshift : x.magnitude >>> binary64.fractionBits = binary64.maxField := by
      rw [Nat.shiftRight_eq_div_pow]
      exact hexponent
    have hkept : truncMagnitude binary64 x.magnitude = x.magnitude := by
      unfold truncMagnitude
      rw [if_pos hshift]
    unfold trunc
    simp only [hkept]
  · unfold modf
    rw [if_pos hexponent]
    split <;> rfl
  · have hnan : x.isNan = true ↔ x.fraction ≠ 0 := by
      have hlt := x.lt
      unfold Binary64.isNan Binary64.fraction
      unfold Binary64.Finite at hspecial
      unfold Binary64.infBits at hspecial ⊢
      rw [decide_eq_true_iff]
      omega
    unfold modf
    rw [if_pos hexponent]
    by_cases hfraction : x.fraction = 0
    · simp [hfraction, mt hnan.1]
    · simp [hfraction, hnan.2 hfraction]

end MiniLibc.Math
