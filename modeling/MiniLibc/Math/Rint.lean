import Mathlib
import MiniLibc.Math.Scale
/-!
# Rounding to an integer

`round_double_mode` and `round_float_mode` are one function of the format. It
clears the bits of the fraction that are worth less than one and adds the last
bit that is left; a carry goes into the exponent.
-/

namespace MiniLibc.Math

open FloatFormat

/-! ## The source -/

/-- `round_double_mode` and `round_float_mode` without the sign; the flag is `inexact`. -/
def roundMagnitudeMode (F : FloatFormat) (negative : Bool) (magnitude : Nat) (mode : RoundingMode) : Nat × Bool :=
  let exponentField := magnitude >>> F.fractionBits
  if exponentField = F.maxField ∨ magnitude = 0 then (magnitude, false)
  else
    let exponent : Int := if exponentField = 0 then 1 - F.bias else exponentField - F.bias
    if exponent < 0 then
      let one := F.bias <<< F.fractionBits
      let half := (F.bias - 1) <<< F.fractionBits
      if mode = .upward ∧ ¬negative then (one, true)
      else if mode = .downward ∧ negative then (one, true)
      else if mode = .toNearest ∧ magnitude > half then (one, true)
      else (0, true)
    else if exponent ≥ F.fractionBits then (magnitude, false)
    else
      let unit := 1 <<< (F.fractionBits - exponent.toNat)
      let mask := unit - 1
      let discarded := magnitude &&& mask
      if discarded = 0 then (magnitude, false)
      else
        -- `magnitude & ~mask`
        let rounded := magnitude - discarded
        if (mode = .upward ∧ ¬negative) ∨ (mode = .downward ∧ negative) then (rounded + unit, true)
        else if mode = .toNearest then
          let half := unit >>> 1
          if discarded > half ∨ (discarded = half ∧ rounded &&& unit ≠ 0) then (rounded + unit, true)
          else (rounded, true)
        else (rounded, true)

/-! ## Magnitudes -/

theorem and_two_pow_ne_zero (q k : Nat) : q * 2 ^ k &&& 2 ^ k ≠ 0 ↔ q % 2 = 1 := by
  have hbit : (q * 2 ^ k).testBit k = decide (q % 2 = 1) := by
    rw [Nat.testBit_eq_decide_div_mod_eq, Nat.mul_div_cancel _ (Nat.two_pow_pos k)]
  rw [Nat.and_two_pow, hbit]
  by_cases hq : q % 2 = 1 <;> simp [hq]

section Magnitudes

variable {F : FloatFormat}

/-- The bits below the unit are rounded away. -/
theorem roundMagnitudeMode_bits (negative : Bool) {m k : Nat} (mode : RoundingMode)
    (he : m / 2 ^ F.fractionBits = F.bias + k) (hk : k < F.fractionBits) (hfinite : m < F.infBits) :
    roundMagnitudeMode F negative m mode = (mode.roundDiv negative m (2 ^ (F.fractionBits - k)) * 2 ^ (F.fractionBits - k),
      decide (m % 2 ^ (F.fractionBits - k) ≠ 0)) := by
  have hbias := (@bias_spec F).1
  have hmax : m / 2 ^ F.fractionBits < F.maxField := (Nat.div_lt_iff_lt_mul (Nat.two_pow_pos _)).2 hfinite
  have hm : m ≠ 0 := by
    rintro rfl
    rw [Nat.zero_div] at he
    omega
  obtain ⟨j, hj⟩ : ∃ j, F.fractionBits - k = j + 1 := ⟨F.fractionBits - k - 1, by omega⟩
  have hexponent : ((if F.bias + k = 0 then 1 - F.bias else (F.bias + k : Nat) - F.bias : Int)) = k := by
    rw [if_neg (by omega)]
    push_cast
    ring
  have hhalf : 2 ^ (j + 1) >>> 1 = 2 ^ j := by
    rw [Nat.shiftRight_eq_div_pow, pow_succ, pow_one, Nat.mul_div_cancel _ (by decide)]
  have hclear : m - m % 2 ^ (j + 1) = m / 2 ^ (j + 1) * 2 ^ (j + 1) := by
    have := Nat.div_add_mod' m (2 ^ (j + 1))
    omega
  unfold roundMagnitudeMode RoundingMode.roundDiv
  rw [Nat.shiftRight_eq_div_pow, he]
  dsimp only
  rw [if_neg (by omega), hexponent, if_neg (by omega), if_neg (by omega), Int.toNat_natCast, hj, Nat.one_shiftLeft,
    Nat.and_two_pow_sub_one_eq_mod, hhalf, hclear]
  by_cases hexact : m % 2 ^ (j + 1) = 0
  · rw [if_pos hexact, if_pos hexact, ← hclear, hexact]
    rfl
  · simp only [if_neg hexact, and_two_pow_ne_zero]
    have hdouble : 2 ^ (j + 1) = 2 * 2 ^ j := by ring
    rw [hdouble] at hexact ⊢
    generalize m % (2 * 2 ^ j) = r at hexact ⊢
    generalize m / (2 * 2 ^ j) = q
    generalize 2 ^ j = half
    have hup : (r > half ∨ (r = half ∧ q % 2 = 1)) ↔ 2 * half < 2 * r ∨ (2 * r = 2 * half ∧ q % 2 = 1) := by omega
    simp only [hup, decide_eq_true (show r ≠ 0 from hexact)]
    cases mode <;> cases negative <;> simp [Nat.add_mul]
    all_goals split_ifs <;> simp

/-- A multiple of twice the divisor does not change the choice. -/
theorem roundDiv_add_even (mode : RoundingMode) (neg : Bool) (n a : Nat) {d : Nat} (hd : 0 < d) :
    mode.roundDiv neg (n + 2 * a * d) d = mode.roundDiv neg n d + 2 * a := by
  unfold RoundingMode.roundDiv
  rw [Nat.add_mul_mod_self_right, Nat.add_mul_div_right _ _ hd, Nat.add_mul_mod_self_left]
  split
  · rfl
  · cases mode <;> dsimp only <;> split_ifs <;> omega

theorem roundDiv_scale (mode : RoundingMode) (neg : Bool) (n d : Nat) {c : Nat} (hc : 0 < c) :
    mode.roundDiv neg (n * c) (d * c) = mode.roundDiv neg n d := by
  have hzero : n % d * c = 0 ↔ n % d = 0 := by
    rw [Nat.mul_eq_zero, or_iff_left hc.ne']
  have hless : d * c < 2 * (n % d * c) ↔ d < 2 * (n % d) := by
    rw [← mul_assoc, Nat.mul_lt_mul_right hc]
  have heq : 2 * (n % d * c) = d * c ↔ 2 * (n % d) = d := by
    rw [← mul_assoc, Nat.mul_left_inj hc.ne']
  unfold RoundingMode.roundDiv
  rw [Nat.mul_mod_mul_right, Nat.mul_div_mul_right _ _ hc]
  simp only [hzero, hless, heq]

/-- Between one and the first number whose unit is one, the fraction is rounded. -/
theorem roundMagnitudeMode_middle (negative : Bool) {m k : Nat} (mode : RoundingMode)
    (he : m / 2 ^ F.fractionBits = F.bias + k) (hk : k < F.fractionBits) (hfinite : m < F.infBits)
    {m' : Nat} {inexact : Bool} (hr : roundMagnitudeMode F negative m mode = (m', inexact)) :
    F.units m' = mode.roundDiv negative (F.units m) (2 ^ F.unitBits) * 2 ^ F.unitBits ∧
      inexact = decide (F.units m % 2 ^ F.unitBits ≠ 0) := by
  obtain ⟨hbias, hodd, -⟩ := @bias_spec F
  have hg : m % 2 ^ F.fractionBits < 2 ^ F.fractionBits := Nat.mod_lt _ (Nat.two_pow_pos _)
  have hm := Nat.div_add_mod' m (2 ^ F.fractionBits)
  rw [roundMagnitudeMode_bits negative mode he hk hfinite] at hr
  cases hr
  rw [he] at hm
  generalize m % 2 ^ F.fractionBits = g at hm hg
  obtain ⟨j, hj⟩ : ∃ j, F.fractionBits - k = j := ⟨_, rfl⟩
  have hp : 2 ^ F.fractionBits = 2 ^ k * 2 ^ j := by
    rw [← pow_add]
    congr 1
    omega
  have hone : 2 ^ F.unitBits = 2 ^ j * 2 ^ (F.bias + k - 1) := by
    rw [← pow_add]
    congr 1
    unfold unitBits
    omega
  have hpos := Nat.two_pow_pos j
  have hunits : F.units m = (2 ^ F.fractionBits + g) * 2 ^ (F.bias + k - 1) := by
    rw [← hm, units_field (by omega) hg.le]
  -- The exponent of one is odd, so that the bit of the unit tells the parity.
  obtain ⟨a, ha⟩ : ∃ a, (F.bias + k - 1) * 2 ^ k = 2 * a := by
    rcases Nat.eq_zero_or_pos k with rfl | hkpos
    · exact ⟨(F.bias - 1) / 2, by rw [pow_zero]; omega⟩
    · obtain ⟨i, rfl⟩ := Nat.exists_eq_succ_of_ne_zero hkpos.ne'
      exact ⟨(F.bias + (i + 1) - 1) * 2 ^ i, by rw [pow_succ]; ring⟩
  have hsplit : m = 2 ^ F.fractionBits + g + 2 * a * 2 ^ j := by
    obtain ⟨b, hb⟩ : ∃ b, F.bias + k = b + 1 := ⟨F.bias + k - 1, by omega⟩
    rw [hb, Nat.add_sub_cancel] at ha
    rw [← hm, ← ha, hb, mul_assoc, ← hp]
    ring
  rw [hj, hunits, hone, roundDiv_scale mode negative _ _ (Nat.two_pow_pos _), Nat.mul_mod_mul_right]
  obtain ⟨R, hR⟩ : ∃ R, mode.roundDiv negative (2 ^ F.fractionBits + g) (2 ^ j) = R := ⟨_, rfl⟩
  have hbounds := mode.roundDiv_bounds negative (2 ^ F.fractionBits + g) (2 ^ j)
  rw [hR] at hbounds ⊢
  have hlow : 2 ^ F.fractionBits ≤ R * 2 ^ j := by
    rw [hp] at hbounds ⊢
    apply Nat.mul_le_mul_right
    apply le_trans _ hbounds.1
    rw [Nat.le_div_iff_mul_le hpos]
    exact Nat.le_add_right _ _
  have hhigh : R * 2 ^ j ≤ 2 ^ F.fractionBits + 2 ^ F.fractionBits := by
    have hquotient : (2 ^ F.fractionBits + g) / 2 ^ j < 2 ^ k + 2 ^ k := by
      rw [Nat.div_lt_iff_lt_mul hpos, add_mul, ← hp]
      omega
    have hR' : R ≤ 2 ^ k + 2 ^ k := by omega
    calc R * 2 ^ j ≤ (2 ^ k + 2 ^ k) * 2 ^ j := Nat.mul_le_mul_right _ hR'
      _ = 2 ^ F.fractionBits + 2 ^ F.fractionBits := by rw [hp, add_mul]
  obtain ⟨g', hg'⟩ := Nat.exists_eq_add_of_le hlow
  have hrounded : mode.roundDiv negative m (2 ^ j) * 2 ^ j = (F.bias + k) * 2 ^ F.fractionBits + g' := by
    obtain ⟨b, hb⟩ : ∃ b, F.bias + k = b + 1 := ⟨F.bias + k - 1, by omega⟩
    rw [hb, Nat.add_sub_cancel] at ha
    rw [hsplit, roundDiv_add_even mode negative _ a hpos, hR, ← ha, add_mul, hg', hb, mul_assoc, ← hp]
    ring
  refine ⟨?_, ?_⟩
  · rw [hrounded, units_field (by omega) (by omega), ← hg']
    ring
  · have hmod : m % 2 ^ j = (2 ^ F.fractionBits + g) % 2 ^ j := by
      rw [hsplit, Nat.add_mul_mod_self_right]
    rw [hmod]
    congr 1
    rw [ne_eq, ne_eq, Nat.mul_eq_zero, or_iff_left (Nat.two_pow_pos _).ne']

/-- Below one, there is nothing but a fraction. -/
theorem roundMagnitudeMode_below (negative : Bool) {m : Nat} (mode : RoundingMode) (h : m ≠ 0)
    (he : m / 2 ^ F.fractionBits < F.bias) {m' : Nat} {inexact : Bool}
    (hr : roundMagnitudeMode F negative m mode = (m', inexact)) :
    F.units m' = mode.roundDiv negative (F.units m) (2 ^ F.unitBits) * 2 ^ F.unitBits ∧
      inexact = decide (F.units m % 2 ^ F.unitBits ≠ 0) := by
  obtain ⟨hbias, -, hmax⟩ := @bias_spec F
  have hone : F.units (F.bias * 2 ^ F.fractionBits) = 2 ^ F.unitBits := by
    have hfield := @units_field F F.bias 0 (by omega) (Nat.zero_le _)
    rw [add_zero, add_zero, ← pow_add] at hfield
    rw [hfield]
    congr 1
    unfold unitBits
    omega
  have hhalf : 2 * F.units ((F.bias - 1) * 2 ^ F.fractionBits) = 2 ^ F.unitBits := by
    have hfield := @units_field F (F.bias - 1) 0 (by omega) (Nat.zero_le _)
    rw [add_zero, add_zero, ← pow_add] at hfield
    rw [hfield, ← pow_succ']
    congr 1
    unfold unitBits
    omega
  have hlt : F.units m < 2 ^ F.unitBits := by
    rw [← hone]
    apply units_strictMono
    rwa [Nat.div_lt_iff_lt_mul (Nat.two_pow_pos _)] at he
  have hpos : F.units m ≠ 0 := by
    have := @units_strictMono F 0 m (Nat.pos_of_ne_zero h)
    omega
  have hmore : m > (F.bias - 1) * 2 ^ F.fractionBits ↔ 2 ^ F.unitBits < 2 * F.units m := by
    rw [← hhalf, Nat.mul_lt_mul_left (by decide), units_strictMono.lt_iff_lt]
  have hexponent : (if m / 2 ^ F.fractionBits = 0 then 1 - F.bias else (m / 2 ^ F.fractionBits : Nat) - F.bias : Int) < 0 := by
    split <;> omega
  have hzero : F.units 0 = 0 := units_small (Nat.zero_le _)
  unfold roundMagnitudeMode at hr
  rw [Nat.shiftRight_eq_div_pow] at hr
  dsimp only at hr
  rw [if_neg (by omega), if_pos hexponent, Nat.shiftLeft_eq, Nat.shiftLeft_eq] at hr
  unfold RoundingMode.roundDiv
  rw [Nat.mod_eq_of_lt hlt, Nat.div_eq_of_lt hlt, if_neg hpos]
  simp only [hmore] at hr
  rw [decide_eq_true hpos]
  cases mode <;> cases negative <;> simp at hr ⊢
  case toNearest.false | toNearest.true =>
    split_ifs at hr ⊢ <;> obtain ⟨rfl, rfl⟩ := hr <;> simp [hzero, hone]
  all_goals obtain ⟨rfl, rfl⟩ := hr; simp [hzero, hone]

/-- What the rounding does to a finite magnitude. -/
theorem roundMagnitudeMode_spec (negative : Bool) {m : Nat} (mode : RoundingMode) (hfinite : m < F.infBits)
    {m' : Nat} {inexact : Bool} (hr : roundMagnitudeMode F negative m mode = (m', inexact)) :
    F.units m' = mode.roundDiv negative (F.units m) (2 ^ F.unitBits) * 2 ^ F.unitBits ∧
      inexact = decide (F.units m % 2 ^ F.unitBits ≠ 0) := by
  obtain ⟨hbias, -, -⟩ := @bias_spec F
  by_cases hzero : m = 0
  · have hunits : F.units 0 = 0 := units_small (Nat.zero_le _)
    unfold roundMagnitudeMode at hr
    dsimp only at hr
    rw [if_pos (.inr hzero), hzero] at hr
    cases hr
    rw [hzero, hunits, RoundingMode.roundDiv_exact mode negative (Nat.zero_mod _), Nat.zero_div, zero_mul, Nat.zero_mod]
    exact ⟨rfl, rfl⟩
  by_cases hbelow : m / 2 ^ F.fractionBits < F.bias
  · exact roundMagnitudeMode_below negative mode hzero hbelow hr
  obtain ⟨k, hk⟩ := Nat.exists_eq_add_of_le (not_lt.1 hbelow)
  by_cases hmiddle : k < F.fractionBits
  · exact roundMagnitudeMode_middle negative mode hk hmiddle hfinite hr
  · -- The last bit of the fraction is worth one or more.
    have hmax : m / 2 ^ F.fractionBits < F.maxField := (Nat.div_lt_iff_lt_mul (Nat.two_pow_pos _)).2 hfinite
    have hexact : F.units m % 2 ^ F.unitBits = 0 := by
      unfold units
      rw [if_neg (by omega), hk]
      apply Nat.mod_eq_zero_of_dvd
      apply Dvd.dvd.mul_left
      apply pow_dvd_pow
      unfold unitBits
      omega
    have hexponent : (if m / 2 ^ F.fractionBits = 0 then 1 - F.bias else (m / 2 ^ F.fractionBits : Nat) - F.bias : Int) = k := by
      rw [if_neg (by omega), hk]
      push_cast
      ring
    unfold roundMagnitudeMode at hr
    rw [Nat.shiftRight_eq_div_pow] at hr
    dsimp only at hr
    rw [if_neg (by omega), hexponent, if_neg (by omega), if_pos (by omega)] at hr
    cases hr
    rw [RoundingMode.roundDiv_exact mode negative hexact, hexact]
    exact ⟨(Nat.div_mul_cancel (Nat.dvd_of_mod_eq_zero hexact)).symm, rfl⟩

theorem roundMagnitudeMode_special (negative : Bool) {m : Nat} (mode : RoundingMode)
    (hm : m < 2 ^ (F.exponentBits + F.fractionBits)) (h : F.infBits ≤ m) :
    roundMagnitudeMode F negative m mode = (m, false) := by
  have hspecial : m >>> F.fractionBits = F.maxField ∨ m = 0 := by
    rcases special_fields hm (.inr h) with hinf | ⟨he, hf⟩
    · exact .inl hinf
    · have hsplit := Nat.div_add_mod' m (2 ^ F.fractionBits)
      rw [Nat.shiftRight_eq_div_pow] at he
      rw [Nat.and_two_pow_sub_one_eq_mod] at hf
      right
      rw [← hsplit, he, hf, zero_mul]
  unfold roundMagnitudeMode
  dsimp only
  rw [if_pos hspecial]

/-- The rounding does not reach the infinities when every large number is whole. -/
theorem roundMagnitudeMode_finite (hwidth : F.fractionBits ≤ F.bias) (negative : Bool) {m : Nat} (mode : RoundingMode)
    (hfinite : m < F.infBits) : (roundMagnitudeMode F negative m mode).1 < F.infBits := by
  obtain ⟨⟨m', inexact⟩, hr⟩ : ∃ r, roundMagnitudeMode F negative m mode = r := ⟨_, rfl⟩
  obtain ⟨hunits, -⟩ := roundMagnitudeMode_spec negative mode hfinite hr
  rw [hr, ← units_strictMono.lt_iff_lt, hunits, units_infBits]
  have hone : F.topBits = F.bias + 1 + F.unitBits := by
    have hbias := (@bias_spec F).1
    unfold topBits unitBits
    omega
  rw [hone, pow_add _ _ F.unitBits]
  apply Nat.mul_lt_mul_of_pos_right _ (Nat.two_pow_pos _)
  by_cases hexact : F.units m % 2 ^ F.unitBits = 0
  · rw [RoundingMode.roundDiv_exact mode negative hexact, Nat.div_lt_iff_lt_mul (Nat.two_pow_pos _), ← pow_add, ← hone]
    exact units_lt hfinite
  · obtain ⟨s, j, hsteps, hs, -⟩ := @exists_steps F m
    have hj : j < F.unitBits := by
      by_contra hle
      apply hexact
      rw [hsteps]
      exact Nat.mod_eq_zero_of_dvd (Dvd.dvd.mul_left (pow_dvd_pow 2 (not_lt.1 hle)) s)
    have hquotient : F.units m / 2 ^ F.unitBits < 2 ^ F.fractionBits := by
      rw [Nat.div_lt_iff_lt_mul (Nat.two_pow_pos _), hsteps, ← pow_add]
      calc s * 2 ^ j < 2 ^ (F.fractionBits + 1) * 2 ^ j := Nat.mul_lt_mul_of_pos_right hs (Nat.two_pow_pos j)
        _ ≤ 2 ^ (F.fractionBits + F.unitBits) := by
          rw [← pow_add]
          exact Nat.pow_le_pow_right (by decide) (by omega)
    have hbound := (mode.roundDiv_bounds negative (F.units m) (2 ^ F.unitBits)).2
    have hpow : 2 ^ F.fractionBits < 2 ^ (F.bias + 1) := Nat.pow_lt_pow_right (by decide) (by omega)
    omega

theorem roundMagnitudeMode_lt (hwidth : F.fractionBits ≤ F.bias) (negative : Bool) {m : Nat} (mode : RoundingMode)
    (hm : m < 2 ^ (F.exponentBits + F.fractionBits)) :
    (roundMagnitudeMode F negative m mode).1 < 2 ^ (F.exponentBits + F.fractionBits) := by
  rcases lt_or_ge m F.infBits with hfinite | hspecial
  · exact (roundMagnitudeMode_finite hwidth negative mode hfinite).trans infBits_lt
  · rw [roundMagnitudeMode_special negative mode hm hspecial]
    exact hm

/-- A magnitude and a flag are right for the magnitude `m` rounded to an integer. -/
structure RoundedTo (F : FloatFormat) (mode : RoundingMode) (neg : Bool) (m m' : Nat) (inexact : Bool) : Prop where
  finite : m' < F.infBits
  selected : F.value neg m' = mode.select (F.value neg m)
  inexact : inexact = true ↔ ¬∃ k : ℤ, F.value neg m = k
  integral : ∀ k : ℤ, F.value neg m = k → m' = m

/-- A number is an integer when its units are whole ones. -/
theorem integral_iff (neg : Bool) (m : Nat) :
    (∃ k : ℤ, F.value neg m = k) ↔ F.units m % 2 ^ F.unitBits = 0 := by
  have hpos : (2 : ℚ) ^ F.unitBits ≠ 0 := by positivity
  unfold value
  constructor
  · rintro ⟨k, hk⟩
    have hunits : F.units m = k.natAbs * 2 ^ F.unitBits := by
      have habs := congrArg abs hk
      rw [abs_signed neg (by positivity), div_eq_iff hpos, ← Int.cast_abs, Int.abs_eq_natAbs] at habs
      exact_mod_cast habs
    rw [hunits, Nat.mul_mod_left]
  · intro hexact
    refine ⟨signed neg ((F.units m / 2 ^ F.unitBits : Nat) : ℤ), ?_⟩
    have hquotient : (F.units m : ℚ) / 2 ^ F.unitBits = ((F.units m / 2 ^ F.unitBits : Nat) : ℚ) := by
      rw [Nat.cast_div (Nat.dvd_of_mod_eq_zero hexact) (by exact_mod_cast hpos)]
      push_cast
      rfl
    rw [hquotient]
    generalize F.units m / 2 ^ F.unitBits = q
    cases neg <;> simp [signed]

theorem select_value (mode : RoundingMode) (neg : Bool) (m : Nat) :
    mode.select (F.value neg m) = signed neg (mode.roundDiv neg (F.units m) (2 ^ F.unitBits) : ℤ) := by
  have hselect := mode.select_div neg (F.units m) (Nat.two_pow_pos F.unitBits)
  rwa [Nat.cast_pow, Nat.cast_ofNat] at hselect

theorem roundMagnitudeMode_rounded (hwidth : F.fractionBits ≤ F.bias) (mode : RoundingMode) (neg : Bool) {m : Nat}
    (hfinite : m < F.infBits) :
    RoundedTo F mode neg m (roundMagnitudeMode F neg m mode).1 (roundMagnitudeMode F neg m mode).2 := by
  have hfinite' := roundMagnitudeMode_finite hwidth neg mode hfinite
  obtain ⟨⟨m', inexact⟩, hr⟩ : ∃ r, roundMagnitudeMode F neg m mode = r := ⟨_, rfl⟩
  obtain ⟨hunits, hinexact⟩ := roundMagnitudeMode_spec neg mode hfinite hr
  rw [hr] at hfinite' ⊢
  refine ⟨hfinite', ?_, ?_, ?_⟩
  · rw [select_value]
    unfold value
    rw [hunits, Nat.cast_mul, Nat.cast_pow, Nat.cast_ofNat, mul_div_cancel_right₀ _ (by positivity)]
    cases neg <;> simp [signed]
  · rw [integral_iff, hinexact, decide_eq_true_iff]
  · intro k hk
    have hexact := (integral_iff neg m).1 ⟨k, hk⟩
    apply (@units_inj F _ _).1
    rw [hunits, RoundingMode.roundDiv_exact mode neg hexact, Nat.div_mul_cancel (Nat.dvd_of_mod_eq_zero hexact)]

end Magnitudes

/-! ## The two formats -/

def roundDoubleMode (x : Binary64) (mode : RoundingMode) : Binary64 × Bool :=
  let r := roundMagnitudeMode binary64 x.neg x.magnitude mode
  (⟨x.neg, r.1, @roundMagnitudeMode_lt binary64 (by decide) x.neg x.magnitude mode x.lt⟩, r.2)

def roundFloatMode (x : Binary32) (mode : RoundingMode) : Binary32 × Bool :=
  let r := roundMagnitudeMode binary32 x.neg x.magnitude mode
  (⟨x.neg, r.1, @roundMagnitudeMode_lt binary32 (by decide) x.neg x.magnitude mode x.lt⟩, r.2)

/-- `EDOM` for what is no number and for a mode that is none, `ERANGE` for what does not fit. -/
inductive ConversionError where
  | domain
  | range
deriving DecidableEq

/-- `MINI_INT64_LIMIT` -/
def int64Limit : Binary64 := .pow2 63 (by decide)

/-- `(long long)x` -/
def toInteger (x : Binary64) : Int := signed x.neg (x.truncate : Int)

/-- The mode of the environment is one of the four, or none of them. -/
def roundedDoubleToI64 (x : Binary64) (mode : Option RoundingMode) : Except ConversionError (Int × Bool) :=
  match mode with
  | none => .error .domain
  | some mode =>
    if x.exponent = binary64.maxField then .error .domain
    else
      let (rounded, inexact) := roundDoubleMode x mode
      if int64Limit.less rounded || int64Limit.equal rounded || rounded.less int64Limit.negate then .error .range
      else .ok (toInteger rounded, inexact)

theorem roundDoubleMode_spec {x r : Binary64} {mode : RoundingMode} {inexact : Bool}
    (h : roundDoubleMode x mode = (r, inexact)) :
    r.neg = x.neg ∧ roundMagnitudeMode binary64 x.neg x.magnitude mode = (r.magnitude, inexact) := by
  cases h
  exact ⟨rfl, rfl⟩

/-- The comparisons with the limits are those of the integers. -/
theorem int64Limit_compare {x : Binary64} (hfinite : x.Finite) {n : Nat}
    (hunits : binary64.units x.magnitude = n * 2 ^ binary64.unitBits) :
    (int64Limit.less x || int64Limit.equal x || x.less int64Limit.negate) = false ↔
      -2 ^ 63 ≤ signed x.neg (n : ℤ) ∧ signed x.neg (n : ℤ) < 2 ^ 63 := by
  obtain ⟨hnan, -⟩ := hfinite.flags
  have hlimit : binary64.units int64Limit.magnitude = 2 ^ 63 * 2 ^ binary64.unitBits := by
    have hunitBits : binary64.unitBits = Binary64.unitBits := rfl
    have hpow := Binary64.units_pow2 63 (by decide)
    rw [pow_add, mul_comm] at hpow
    rw [hunitBits, units_binary64]
    exact hpow
  have hpos := Nat.two_pow_pos binary64.unitBits
  have hbelow : x.magnitude < int64Limit.magnitude ↔ n < 2 ^ 63 := by
    rw [← (@units_strictMono binary64).lt_iff_lt, hunits, hlimit, Nat.mul_lt_mul_right hpos]
  have habove : int64Limit.magnitude < x.magnitude ↔ 2 ^ 63 < n := by
    rw [← (@units_strictMono binary64).lt_iff_lt, hunits, hlimit, Nat.mul_lt_mul_right hpos]
  have hnumber : int64Limit.isNan = false ∧ int64Limit.negate.isNan = false := by decide
  have hkey : int64Limit.key = int64Limit.magnitude ∧ int64Limit.negate.key = -int64Limit.magnitude := ⟨rfl, rfl⟩
  have hlarge : 0 < int64Limit.magnitude := by decide
  unfold Binary64.less Binary64.equal
  rw [hnan, hnumber.1, hnumber.2, hkey.1, hkey.2]
  simp only [Bool.not_false, Bool.true_and, Bool.or_eq_false_iff, decide_eq_false_iff_not, not_lt]
  generalize int64Limit.magnitude = limit at hbelow habove hlarge
  unfold Binary64.key signed
  cases x.neg
  · simp only [Bool.false_eq_true, if_false]
    omega
  · simp only [if_true]
    omega

/-- The conversion, for the mode of the environment. -/
theorem roundedDoubleToI64_iff (x : Binary64) (mode : RoundingMode) (k : Int) :
    (∃ inexact, roundedDoubleToI64 x (some mode) = .ok (k, inexact)) ↔
      x.Finite ∧ mode.select x.value = k ∧ -2 ^ 63 ≤ k ∧ k < 2 ^ 63 := by
  have hmax : x.exponent = binary64.maxField ↔ ¬x.Finite := by
    have hlt := x.lt
    have hfield : binary64.maxField = 2047 := rfl
    rw [hfield]
    unfold Binary64.exponent Binary64.Finite Binary64.infBits
    omega
  unfold roundedDoubleToI64
  dsimp only
  by_cases hfinite : x.Finite
  · obtain ⟨⟨rounded, inexact⟩, hr⟩ : ∃ r, roundDoubleMode x mode = r := ⟨_, rfl⟩
    obtain ⟨hneg, hmagnitude⟩ := roundDoubleMode_spec hr
    have hfinite' := @roundMagnitudeMode_finite binary64 (by decide) x.neg x.magnitude mode hfinite
    obtain ⟨hunits, -⟩ := roundMagnitudeMode_spec x.neg mode hfinite hmagnitude
    rw [hmagnitude] at hfinite'
    have hselect : mode.select x.value = signed x.neg
        ((mode.roundDiv x.neg (binary64.units x.magnitude) (2 ^ binary64.unitBits) : Nat) : ℤ) :=
      select_value mode x.neg x.magnitude
    generalize mode.roundDiv x.neg (binary64.units x.magnitude) (2 ^ binary64.unitBits) = n at hunits hselect
    have hcompare := int64Limit_compare hfinite' hunits
    have hinteger : toInteger rounded = signed x.neg (n : ℤ) := by
      have hunitBits : Binary64.unitBits = binary64.unitBits := rfl
      unfold toInteger Binary64.truncate
      rw [hneg, ← units_binary64, hunits, hunitBits, Nat.mul_div_cancel _ (Nat.two_pow_pos _)]
    rw [hneg] at hcompare
    rw [if_neg (fun hno => hmax.1 hno hfinite), hr, hselect, hinteger]
    dsimp only
    split
    · rename_i hrange
      constructor
      · rintro ⟨_, hno⟩
        cases hno
      · rintro ⟨-, rfl, hbounds⟩
        rw [hcompare.2 hbounds] at hrange
        cases hrange
    · rename_i hrange
      have hbounds := hcompare.1 (Bool.not_eq_true _ ▸ hrange)
      constructor
      · rintro ⟨_, hk⟩
        cases hk
        exact ⟨hfinite, rfl, hbounds⟩
      · rintro ⟨-, rfl, -⟩
        exact ⟨inexact, rfl⟩
  · rw [if_pos (hmax.2 hfinite)]
    constructor
    · rintro ⟨_, hno⟩
      cases hno
    · intro h
      exact absurd h.1 hfinite

/-- `rint` and `llrint`, for every bit pattern and every mode: NaNs and infinities
are kept; every other number becomes the integer that the mode selects, with its
sign, and the flag says whether that changed it; the conversion returns that
integer exactly when it fits. -/
theorem rint_rounds (mode : RoundingMode) :
    (∀ x : Binary64, (roundDoubleMode x mode).1.neg = x.neg ∧
      (binary64.infBits ≤ x.magnitude → roundDoubleMode x mode = (x, false)) ∧
      (x.magnitude < binary64.infBits → RoundedTo binary64 mode x.neg x.magnitude
        (roundDoubleMode x mode).1.magnitude (roundDoubleMode x mode).2)) ∧
    (∀ x : Binary32, (roundFloatMode x mode).1.neg = x.neg ∧
      (binary32.infBits ≤ x.magnitude → roundFloatMode x mode = (x, false)) ∧
      (x.magnitude < binary32.infBits → RoundedTo binary32 mode x.neg x.magnitude
        (roundFloatMode x mode).1.magnitude (roundFloatMode x mode).2)) ∧
    ∀ (x : Binary64) (k : Int), (∃ inexact, roundedDoubleToI64 x (some mode) = .ok (k, inexact)) ↔
      x.Finite ∧ mode.select x.value = k ∧ -2 ^ 63 ≤ k ∧ k < 2 ^ 63 := by
  refine ⟨fun x => ⟨rfl, ?_, ?_⟩, fun x => ⟨rfl, ?_, ?_⟩, fun x k => roundedDoubleToI64_iff x mode k⟩
  · intro h
    unfold roundDoubleMode
    simp only [@roundMagnitudeMode_special binary64 x.neg x.magnitude mode x.lt h]
  · exact roundMagnitudeMode_rounded (by decide) mode x.neg
  · intro h
    unfold roundFloatMode
    simp only [@roundMagnitudeMode_special binary32 x.neg x.magnitude mode x.lt h]
  · exact roundMagnitudeMode_rounded (by decide) mode x.neg

end MiniLibc.Math
