import Mathlib
import MiniLibc.Lib.Binary64
import MiniLibc.Lib.FloatFormat
/-!
# Scaling by a power of two

`scale_double` and `scale_float` are one function of the format. It works on the
magnitude; the sign is put back, and only the rounding looks at it.
-/

namespace MiniLibc.Math

open FloatFormat

/-! ## The source -/

inductive ScaleStatus where
  | exact
  | inexact
  | overflow
  | underflow
deriving DecidableEq

def highestBitLoop (bit : Int) (value : Nat) : Int :=
  if value = 0 then bit else highestBitLoop (bit + 1) (value >>> 1)
termination_by value
decreasing_by
  rw [Nat.shiftRight_eq_div_pow]
  omega

def highestBit (value : Nat) : Int := highestBitLoop (-1) value

/-- The rounded quotient, and whether bits were discarded. -/
def roundShiftMode (value shift : Nat) (negative : Bool) (rounding : RoundingMode) : Nat × Bool :=
  if shift = 0 then (value, false)
  else
    let quotient := if shift ≥ 64 then 0 else value >>> shift
    let remainder := if shift ≥ 64 then 0 else value &&& ((1 <<< shift) - 1)
    let discarded := if shift ≥ 64 then value ≠ 0 else remainder ≠ 0
    if ¬discarded then (quotient, false)
    else
      match rounding with
      | .upward => (if negative then quotient else quotient + 1, true)
      | .downward => (if negative then quotient + 1 else quotient, true)
      | .towardZero => (quotient, true)
      | .toNearest =>
        if shift < 64 then
          let half := 1 <<< (shift - 1)
          (if remainder > half ∨ (remainder = half ∧ quotient &&& 1 ≠ 0) then quotient + 1 else quotient, true)
        else (quotient, true)

/-- The significand with its top bit in place, and the exponent. -/
def normalize (F : FloatFormat) (exponentField fraction : Nat) : Nat × Int :=
  if exponentField ≠ 0 then (1 <<< F.fractionBits ||| fraction, exponentField - F.bias)
  else
    let top := highestBit fraction
    (fraction <<< (F.fractionBits - top).toNat, top - F.unitBits)

/-- `scale_double` and `scale_float` without the sign. -/
def scaleMagnitude (F : FloatFormat) (negative : Bool) (magnitude : Nat) (n : Int) (rounding : RoundingMode) :
    Nat × ScaleStatus :=
  let exponentField := magnitude >>> F.fractionBits
  let fraction := magnitude &&& (2 ^ F.fractionBits - 1)
  if exponentField = F.maxField ∨ (exponentField = 0 ∧ fraction = 0) then (magnitude, .exact)
  else
    let (significand, exponent) := normalize F exponentField fraction
    let target := exponent + n
    if target > F.bias then (F.infBits, .overflow)
    else if target ≥ 1 - F.bias then
      ((target + F.bias).toNat <<< F.fractionBits ||| (significand &&& (2 ^ F.fractionBits - 1)), .exact)
    else
      let shift := (-target - (F.bias - 1)).toNat
      let (rounded, discarded) := roundShiftMode significand shift negative rounding
      if rounded ≥ 1 <<< F.fractionBits then (1 <<< F.fractionBits, if discarded then .inexact else .exact)
      else (rounded, if discarded then .underflow else .exact)

/-! ## The parts -/

theorem highestBitLoop_eq (bit : Int) {value : Nat} (h : value ≠ 0) : highestBitLoop bit value = bit + 1 + value.log2 := by
  induction value using Nat.strong_induction_on generalizing bit with
  | _ value ih =>
  have hshift : value >>> 1 = value / 2 := Nat.shiftRight_eq_div_pow value 1
  rw [highestBitLoop, if_neg h, hshift]
  by_cases hhalf : value / 2 = 0
  · have hone : value = 1 := by omega
    subst hone
    rw [highestBitLoop, if_pos hhalf, show Nat.log2 1 = 0 by decide]
    simp
  · rw [ih (value / 2) (by omega) (bit + 1) hhalf, Nat.log2_def value, if_pos (by omega)]
    push_cast
    ring

theorem highestBit_eq {value : Nat} (h : value ≠ 0) : highestBit value = value.log2 := by
  unfold highestBit
  rw [highestBitLoop_eq (-1) h]
  ring

/-- The shift rounds the quotient by a power of two. -/
theorem roundShiftMode_eq {value : Nat} (h : value < 2 ^ 63) (shift : Nat) (negative : Bool) (rounding : RoundingMode) :
    roundShiftMode value shift negative rounding =
      (rounding.roundDiv negative value (2 ^ shift), decide (value % 2 ^ shift ≠ 0)) := by
  unfold roundShiftMode RoundingMode.roundDiv
  by_cases hzero : shift = 0
  · subst hzero
    rw [if_pos rfl, pow_zero, Nat.mod_one, if_pos rfl, Nat.div_one]
    rfl
  rw [if_neg hzero]
  by_cases hlarge : shift ≥ 64
  · -- The value is below a half of the divisor.
    have hpow : 2 ^ 64 ≤ 2 ^ shift := Nat.pow_le_pow_right (by decide) hlarge
    have hdiv : value / 2 ^ shift = 0 := Nat.div_eq_of_lt (by omega)
    have hmod : value % 2 ^ shift = value := Nat.mod_eq_of_lt (by omega)
    simp only [if_pos hlarge, hdiv, hmod, if_neg (show ¬shift < 64 by omega)]
    by_cases hvalue : value = 0
    · simp [hvalue]
    · cases rounding <;> simp [hvalue]
      omega
  · have hshift : value >>> shift = value / 2 ^ shift := Nat.shiftRight_eq_div_pow _ _
    have hmask : value &&& ((1 <<< shift) - 1) = value % 2 ^ shift := by
      rw [Nat.one_shiftLeft, Nat.and_two_pow_sub_one_eq_mod]
    have hhalf : 2 ^ shift = 2 * 1 <<< (shift - 1) := by
      obtain ⟨k, rfl⟩ := Nat.exists_eq_succ_of_ne_zero hzero
      rw [Nat.one_shiftLeft, Nat.succ_sub_one, Nat.pow_succ]
      ring
    simp only [if_neg hlarge, hshift, hmask, if_pos (show shift < 64 by omega), Nat.and_one_is_mod]
    generalize value / 2 ^ shift = quotient
    generalize value % 2 ^ shift = remainder
    rw [hhalf]
    generalize 1 <<< (shift - 1) = half
    by_cases hexact : remainder = 0
    · simp [hexact]
    · rw [if_neg (not_not.2 hexact), if_neg hexact]
      have hup : (remainder > half ∨ (remainder = half ∧ quotient % 2 ≠ 0)) ↔
          2 * half < 2 * remainder ∨ (2 * remainder = 2 * half ∧ quotient % 2 = 1) := by omega
      simp only [hup]
      cases rounding <;> simp [hexact]

section Magnitudes

variable {F : FloatFormat}

/-- The fields of a zero, an infinity or a NaN. -/
theorem special_fields {m : Nat} (hm : m < 2 ^ (F.exponentBits + F.fractionBits)) (h : m = 0 ∨ F.infBits ≤ m) :
    m >>> F.fractionBits = F.maxField ∨ (m >>> F.fractionBits = 0 ∧ m &&& (2 ^ F.fractionBits - 1) = 0) := by
  have hpos := Nat.two_pow_pos F.fractionBits
  rw [Nat.shiftRight_eq_div_pow]
  rcases h with rfl | h
  · right
    rw [Nat.zero_div, Nat.zero_and]
    exact ⟨rfl, rfl⟩
  · left
    have hlow : F.maxField ≤ m / 2 ^ F.fractionBits := (Nat.le_div_iff_mul_le hpos).2 h
    have hhigh : m / 2 ^ F.fractionBits < 2 ^ F.exponentBits := by
      rw [Nat.div_lt_iff_lt_mul hpos, ← pow_add]
      exact hm
    have hmax : F.maxField = 2 ^ F.exponentBits - 1 := rfl
    omega

/-- The fields of every other number. -/
theorem not_special {m : Nat} (h : m ≠ 0) (hfinite : m < F.infBits) :
    ¬(m / 2 ^ F.fractionBits = F.maxField ∨ (m / 2 ^ F.fractionBits = 0 ∧ m % 2 ^ F.fractionBits = 0)) := by
  have hmax : m / 2 ^ F.fractionBits < F.maxField := (Nat.div_lt_iff_lt_mul (Nat.two_pow_pos _)).2 hfinite
  have hsplit := Nat.div_add_mod' m (2 ^ F.fractionBits)
  rintro (hinf | ⟨he, hf⟩)
  · omega
  · rw [he, hf, zero_mul] at hsplit
    exact h hsplit.symm

/-- The fields of a finite magnitude that is not zero. -/
theorem normalize_spec {m : Nat} (h : m ≠ 0) {s : Nat} {x : Int}
    (hs : normalize F (m / 2 ^ F.fractionBits) (m % 2 ^ F.fractionBits) = (s, x)) :
    2 ^ F.fractionBits ≤ s ∧ s < 2 ^ (F.fractionBits + 1) ∧ (F.units m : ℚ) = s * 2 ^ (x + F.bias - 1) := by
  have hpos := Nat.two_pow_pos F.fractionBits
  have hf : m % 2 ^ F.fractionBits < 2 ^ F.fractionBits := Nat.mod_lt _ hpos
  have hsplit := Nat.div_add_mod' m (2 ^ F.fractionBits)
  have hbias := (@bias_spec F).1
  unfold normalize at hs
  unfold units
  generalize m / 2 ^ F.fractionBits = e at hs hsplit ⊢
  generalize m % 2 ^ F.fractionBits = f at hs hsplit hf ⊢
  by_cases he : e = 0
  · -- The fraction is shifted up to its top bit.
    have hf0 : f ≠ 0 := by
      rintro rfl
      rw [he, zero_mul] at hsplit
      exact h hsplit.symm
    have htop : f.log2 < F.fractionBits := (Nat.log2_lt hf0).2 hf
    have hlow : 2 ^ f.log2 ≤ f := Nat.log2_self_le hf0
    have hhigh : f < 2 ^ (f.log2 + 1) := Nat.lt_log2_self
    rw [if_neg (not_not.2 he), highestBit_eq hf0] at hs
    obtain ⟨k, hk⟩ := Nat.exists_eq_add_of_lt htop
    have hshift : ((F.fractionBits : Int) - f.log2).toNat = k + 1 := by omega
    rw [if_pos he]
    dsimp only at hs
    rw [hshift, Nat.shiftLeft_eq] at hs
    cases hs
    have hpow : 2 ^ F.fractionBits = 2 ^ f.log2 * 2 ^ (k + 1) := by
      rw [← pow_add]
      congr 1
    have hexponent : (f.log2 : Int) - F.unitBits + F.bias - 1 = -((k + 1 : Nat) : Int) := by
      unfold unitBits
      omega
    refine ⟨?_, ?_, ?_⟩
    · rw [hpow]
      exact Nat.mul_le_mul_right _ hlow
    · have hdouble : 2 ^ (F.fractionBits + 1) = 2 ^ (f.log2 + 1) * 2 ^ (k + 1) := by
        rw [pow_succ, hpow, pow_succ 2 f.log2]
        ring
      rw [hdouble]
      exact Nat.mul_lt_mul_of_pos_right hhigh (Nat.two_pow_pos _)
    · rw [hexponent, zpow_neg, zpow_natCast]
      push_cast
      rw [mul_assoc, mul_inv_cancel₀ (by positivity), mul_one]
  · rw [if_pos he, ← Nat.shiftLeft_add_eq_or_of_lt hf 1, Nat.one_shiftLeft] at hs
    rw [if_neg he]
    cases hs
    obtain ⟨k, rfl⟩ := Nat.exists_eq_succ_of_ne_zero he
    have hexponent : ((k + 1 : Nat) : Int) - F.bias + F.bias - 1 = (k : Int) := by
      push_cast
      ring
    refine ⟨by omega, by omega, ?_⟩
    rw [hexponent, zpow_natCast]
    push_cast
    rfl

/-- Below the normal numbers, the shifted significand is rounded once. -/
theorem subnormal_spec (negative : Bool) (rounding : RoundingMode) {s shift : Nat}
    (hs : s < 2 ^ (F.fractionBits + 1)) (hshift : shift ≠ 0) {r : Nat}
    (hr : rounding.roundDiv negative s (2 ^ shift) = r) :
    r ≤ 2 ^ F.fractionBits ∧
      F.RoundsTo rounding (signed negative ((s : ℚ) / 2 ^ shift)) (signed negative (F.units r : ℚ)) ∧
      (s % 2 ^ shift = 0 ↔ (F.units r : ℚ) = (s : ℚ) / 2 ^ shift) := by
  have hpow : (0 : ℚ) < 2 ^ shift := by positivity
  have htwo : 2 ≤ 2 ^ shift := Nat.le_self_pow hshift 2
  have hquotient : s / 2 ^ shift < 2 ^ F.fractionBits := by
    rw [Nat.div_lt_iff_lt_mul (by omega)]
    calc s < 2 ^ F.fractionBits * 2 := by rwa [← pow_succ]
      _ ≤ 2 ^ F.fractionBits * 2 ^ shift := Nat.mul_le_mul_left _ htwo
  have hbounds := rounding.roundDiv_bounds negative s (2 ^ shift)
  have hle : r ≤ 2 ^ F.fractionBits := by omega
  refine ⟨hle, ?_, ?_⟩
  · have hrounds := @roundsTo_units F rounding negative s (2 ^ shift) (by omega)
      (hs.trans_le (Nat.le_mul_of_pos_right _ (by omega)))
    rw [units_small hle, ← hr]
    rwa [Nat.cast_pow, Nat.cast_ofNat] at hrounds
  · rw [units_small hle, eq_div_iff hpow.ne']
    constructor
    · intro hexact
      rw [RoundingMode.roundDiv_exact rounding negative hexact] at hr
      rw [← hr]
      exact_mod_cast Nat.div_mul_cancel (Nat.dvd_of_mod_eq_zero hexact)
    · intro hexact
      have hmul : r * 2 ^ shift = s := by exact_mod_cast hexact
      rw [← hmul, Nat.mul_mod_left]

/-- What the scaling does to a finite magnitude that is not zero. -/
theorem scaleMagnitude_spec (hwidth : F.fractionBits < 62) (negative : Bool) {m : Nat} (h : m ≠ 0) (hfinite : m < F.infBits) (n : Int)
    (rounding : RoundingMode) {m' : Nat} {status : ScaleStatus}
    (hr : scaleMagnitude F negative m n rounding = (m', status)) :
    (2 ^ F.topBits ≤ (F.units m : ℚ) * 2 ^ n → m' = F.infBits ∧ status = .overflow) ∧
      ((F.units m : ℚ) * 2 ^ n < 2 ^ F.topBits → m' < F.infBits ∧
        F.RoundsTo rounding (signed negative ((F.units m : ℚ) * 2 ^ n)) (signed negative (F.units m' : ℚ)) ∧
        status ≠ .overflow ∧ (status = .exact ↔ (F.units m' : ℚ) = F.units m * 2 ^ n) ∧
        (status = .underflow ↔ (F.units m' : ℚ) ≠ F.units m * 2 ^ n ∧ F.units m' < 2 ^ F.fractionBits)) := by
  have hpos := Nat.two_pow_pos F.fractionBits
  have hfield : m >>> F.fractionBits = m / 2 ^ F.fractionBits := Nat.shiftRight_eq_div_pow _ _
  have hmask : ∀ v, v &&& (2 ^ F.fractionBits - 1) = v % 2 ^ F.fractionBits := fun v => Nat.and_two_pow_sub_one_eq_mod _ _
  obtain ⟨hbias, -, hmaxField⟩ := @bias_spec F
  obtain ⟨⟨s, x⟩, hs⟩ : ∃ r, normalize F (m / 2 ^ F.fractionBits) (m % 2 ^ F.fractionBits) = r := ⟨_, rfl⟩
  obtain ⟨hlow, hhigh, hunits⟩ := normalize_spec h hs
  have hscaled : (F.units m : ℚ) * 2 ^ n = s * 2 ^ (x + n + F.bias - 1) := by
    rw [hunits, mul_assoc, ← zpow_add₀ (by norm_num)]
    congr 2
    ring
  unfold scaleMagnitude at hr
  dsimp only at hr
  rw [hfield, hmask, if_neg (not_special h hfinite), hs] at hr
  dsimp only at hr
  rw [hscaled]
  generalize x + n = target at hr ⊢
  by_cases hover : target > F.bias
  · obtain ⟨k, hk⟩ : ∃ k : Nat, target + F.bias - 1 = ((2 * F.bias + k : Nat) : Int) :=
      ⟨(target - F.bias - 1).toNat, by omega⟩
    have hlarge : (2 : ℚ) ^ F.topBits ≤ s * 2 ^ (target + F.bias - 1) := by
      rw [hk, zpow_natCast]
      have htop : 2 ^ F.topBits ≤ s * 2 ^ (2 * F.bias + k) := by
        rw [topBits, add_comm, pow_add]
        exact Nat.mul_le_mul hlow (Nat.pow_le_pow_right (by decide) (Nat.le_add_right _ _))
      exact_mod_cast htop
    rw [if_pos hover] at hr
    cases hr
    exact ⟨fun _ => ⟨rfl, rfl⟩, fun hsmall => absurd hsmall (not_lt.2 hlarge)⟩
  have hsmall : (s : ℚ) * 2 ^ (target + F.bias - 1) < 2 ^ F.topBits := by
    have hexponent : (2 : ℚ) ^ (target + F.bias - 1) ≤ 2 ^ ((2 * F.bias - 1 : Nat) : Int) :=
      zpow_le_zpow_right₀ (by norm_num) (by omega)
    have htop : s * 2 ^ (2 * F.bias - 1) < 2 ^ F.topBits := by
      rw [topBits, show 2 * F.bias + F.fractionBits = F.fractionBits + 1 + (2 * F.bias - 1) by omega, pow_add]
      exact Nat.mul_lt_mul_of_pos_right hhigh (Nat.two_pow_pos _)
    rw [zpow_natCast] at hexponent
    calc (s : ℚ) * 2 ^ (target + F.bias - 1) ≤ s * 2 ^ (2 * F.bias - 1) :=
          mul_le_mul_of_nonneg_left hexponent (Nat.cast_nonneg s)
      _ < 2 ^ F.topBits := by exact_mod_cast htop
  refine ⟨fun hlarge => absurd hsmall (not_lt.2 hlarge), fun _ => ?_⟩
  rw [if_neg hover] at hr
  by_cases hnormal : target ≥ 1 - F.bias
  · -- The significand keeps all of its bits.
    obtain ⟨k, hk⟩ : ∃ k : Nat, target + F.bias - 1 = k := Int.eq_ofNat_of_zero_le (by omega)
    have hfieldOf : (target + F.bias).toNat = k + 1 := by omega
    obtain ⟨g, rfl⟩ := Nat.exists_eq_add_of_le hlow
    have hg : g < 2 ^ F.fractionBits := by
      rw [pow_succ] at hhigh
      omega
    have hsignificand : (2 ^ F.fractionBits + g) % 2 ^ F.fractionBits = g := by
      rw [Nat.add_mod_left, Nat.mod_eq_of_lt hg]
    rw [if_pos hnormal, hmask, hfieldOf, hsignificand, ← Nat.shiftLeft_add_eq_or_of_lt hg, Nat.shiftLeft_eq] at hr
    cases hr
    have hvalue : (F.units ((k + 1) * 2 ^ F.fractionBits + g) : ℚ) = (2 ^ F.fractionBits + g : Nat) * 2 ^ (k : Int) := by
      rw [units_field (Nat.le_add_left 1 k) hg.le, zpow_natCast]
      push_cast
      rfl
    rw [hk, hvalue]
    refine ⟨?_, ?_, nofun, ⟨fun _ => rfl, fun _ => rfl⟩, nofun, fun hno => absurd rfl hno.1⟩
    · calc (k + 1) * 2 ^ F.fractionBits + g < (k + 1) * 2 ^ F.fractionBits + 2 ^ F.fractionBits := by omega
        _ = (k + 2) * 2 ^ F.fractionBits := by ring
        _ ≤ F.infBits := Nat.mul_le_mul_right _ (by omega)
    · rw [zpow_natCast]
      exact roundsTo_steps rounding negative (.inr hlow) hhigh
  · obtain ⟨shift, hshift⟩ : ∃ shift : Nat, -target - (F.bias - 1) = shift := Int.eq_ofNat_of_zero_le (by omega)
    have hne : shift ≠ 0 := by omega
    have hexponent : target + F.bias - 1 = -(shift : Int) := by omega
    have hquotient : (s : ℚ) * 2 ^ (target + F.bias - 1) = s / 2 ^ shift := by
      rw [hexponent, zpow_neg, zpow_natCast, div_eq_mul_inv]
    obtain ⟨r, hrounded⟩ : ∃ r, rounding.roundDiv negative s (2 ^ shift) = r := ⟨_, rfl⟩
    obtain ⟨hle, hrounds, hexact⟩ := @subnormal_spec F negative rounding _ _ hhigh hne _ hrounded
    have hvalue : s < 2 ^ 63 := hhigh.trans_le (Nat.pow_le_pow_right (by decide) (by omega))
    have hinf : 2 ^ F.fractionBits < F.infBits := by
      have hstep : 2 * 2 ^ F.fractionBits ≤ F.infBits := Nat.mul_le_mul_right _ (by omega)
      omega
    have hunitsR : F.units r = r := units_small hle
    rw [if_neg hnormal, hshift, Int.toNat_natCast, roundShiftMode_eq hvalue, hrounded, Nat.one_shiftLeft] at hr
    dsimp only at hr
    rw [hquotient]
    have hresult : (m', status) = (r, if s % 2 ^ shift = 0 then .exact
        else if r < 2 ^ F.fractionBits then .underflow else .inexact) := by
      rw [← hr]
      by_cases hcarry : r ≥ 2 ^ F.fractionBits
      · -- The rounding has carried into the smallest normal number.
        rw [if_pos hcarry, if_neg (not_lt.2 hcarry), ← le_antisymm hle hcarry]
        by_cases hdiscarded : s % 2 ^ shift = 0 <;> simp [hdiscarded]
      · rw [if_neg hcarry, if_pos (not_le.1 hcarry)]
        by_cases hdiscarded : s % 2 ^ shift = 0 <;> simp [hdiscarded]
    cases hresult
    refine ⟨by omega, hrounds, ?_, ?_, ?_⟩
    · split_ifs <;> nofun
    · rw [← hexact]
      split_ifs <;> simp_all
    · rw [ne_eq, ← hexact, hunitsR]
      split_ifs <;> simp_all

/-- Zeros, infinities and NaNs pass through. -/
theorem scaleMagnitude_special (negative : Bool) {m : Nat} (hm : m < 2 ^ (F.exponentBits + F.fractionBits))
    (h : m = 0 ∨ F.infBits ≤ m) (n : Int) (rounding : RoundingMode) :
    scaleMagnitude F negative m n rounding = (m, .exact) := by
  unfold scaleMagnitude
  dsimp only
  rw [if_pos (special_fields hm h)]

/-- The scaling is exact where the format has the number. -/
theorem scaleMagnitude_exact (hwidth : F.fractionBits < 62) (negative : Bool) {m t : Nat} (hfinite : m < F.infBits)
    (ht : t < F.infBits) {n : Int} (hunits : (F.units m : ℚ) * 2 ^ n = F.units t) (rounding : RoundingMode) :
    scaleMagnitude F negative m n rounding = (t, .exact) := by
  by_cases h : m = 0
  · have hzero : F.units 0 = F.units t := by
      rw [h, units_small (Nat.zero_le _), Nat.cast_zero, zero_mul] at hunits
      rw [units_small (Nat.zero_le _)]
      exact_mod_cast hunits
    rw [← units_inj.1 hzero, h, scaleMagnitude_special negative (Nat.two_pow_pos _) (.inl rfl)]
  · obtain ⟨⟨r, status⟩, hr⟩ : ∃ r, scaleMagnitude F negative m n rounding = r := ⟨_, rfl⟩
    obtain ⟨-, hsmall⟩ := scaleMagnitude_spec hwidth negative h hfinite n rounding hr
    rw [hunits] at hsmall
    obtain ⟨-, hrounds, -, hexact, -⟩ := hsmall (by exact_mod_cast units_lt ht)
    have hself := roundsTo_self hrounds
    have hsame : (F.units r : ℚ) = F.units t := by
      cases negative
      · exact hself
      · exact neg_injective hself
    have hbits : r = t := units_inj.1 (by exact_mod_cast hsame)
    rw [hr, hexact.2 hsame, hbits]

theorem scaleMagnitude_lt (hwidth : F.fractionBits < 62) (negative : Bool) {m : Nat}
    (hm : m < 2 ^ (F.exponentBits + F.fractionBits)) (n : Int) (rounding : RoundingMode) :
    (scaleMagnitude F negative m n rounding).1 < 2 ^ (F.exponentBits + F.fractionBits) := by
  by_cases h : m = 0 ∨ F.infBits ≤ m
  · rw [scaleMagnitude_special negative hm h]
    exact hm
  · obtain ⟨hzero, hfinite⟩ := not_or.1 h
    obtain ⟨⟨m', status⟩, hr⟩ : ∃ r, scaleMagnitude F negative m n rounding = r := ⟨_, rfl⟩
    obtain ⟨hlarge, hsmall⟩ := scaleMagnitude_spec hwidth negative hzero (not_le.1 hfinite) n rounding hr
    rw [hr]
    rcases le_or_gt (2 ^ F.topBits) ((F.units m : ℚ) * 2 ^ n) with hq | hq
    · rw [(hlarge hq).1]
      exact infBits_lt
    · exact (hsmall hq).1.trans infBits_lt

end Magnitudes

/-! ## The two formats -/

def scaleDouble (x : Binary64) (n : Int) (rounding : RoundingMode) : Binary64 × ScaleStatus :=
  let r := scaleMagnitude binary64 x.neg x.magnitude n rounding
  (⟨x.neg, r.1, @scaleMagnitude_lt binary64 (by decide) x.neg x.magnitude x.lt n rounding⟩, r.2)

def scaleFloat (x : Binary32) (n : Int) (rounding : RoundingMode) : Binary32 × ScaleStatus :=
  let r := scaleMagnitude binary32 x.neg x.magnitude n rounding
  (⟨x.neg, r.1, @scaleMagnitude_lt binary32 (by decide) x.neg x.magnitude x.lt n rounding⟩, r.2)

/-- The magnitude `m'` and the status are right for the magnitude `m` and the
power `2 ^ n`, where the numbers are in units of the format. -/
structure Scaled (F : FloatFormat) (rounding : RoundingMode) (neg : Bool) (m : Nat) (n : Int) (m' : Nat)
    (status : ScaleStatus) : Prop where
  infinite : (2 : ℚ) ^ F.topBits ≤ F.units m * 2 ^ n → m' = F.infBits
  rounded : (F.units m : ℚ) * 2 ^ n < 2 ^ F.topBits → m' < F.infBits ∧
    F.RoundsTo rounding (signed neg ((F.units m : ℚ) * 2 ^ n)) (signed neg (F.units m' : ℚ))
  exact : status = .exact ↔ m' < F.infBits ∧ (F.units m' : ℚ) = F.units m * 2 ^ n
  overflow : status = .overflow ↔ (2 : ℚ) ^ F.topBits ≤ F.units m * 2 ^ n
  underflow : status = .underflow ↔
    m' < F.infBits ∧ (F.units m' : ℚ) ≠ F.units m * 2 ^ n ∧ F.units m' < 2 ^ F.fractionBits

theorem scaleMagnitude_scaled {F : FloatFormat} (hwidth : F.fractionBits < 62) (negative : Bool) {m : Nat} (h : m ≠ 0)
    (hfinite : m < F.infBits) (n : Int) (rounding : RoundingMode) :
    Scaled F rounding negative m n (scaleMagnitude F negative m n rounding).1
      (scaleMagnitude F negative m n rounding).2 := by
  obtain ⟨⟨m', status⟩, hr⟩ : ∃ r, scaleMagnitude F negative m n rounding = r := ⟨_, rfl⟩
  obtain ⟨hlarge, hsmall⟩ := scaleMagnitude_spec hwidth negative h hfinite n rounding hr
  rw [hr]
  rcases le_or_gt ((2 : ℚ) ^ F.topBits) (F.units m * 2 ^ n) with hq | hq
  · obtain ⟨rfl, rfl⟩ := hlarge hq
    exact ⟨fun _ => rfl, fun hlt => absurd hlt (not_lt.2 hq), ⟨nofun, fun hno => absurd hno.1 (lt_irrefl _)⟩,
      ⟨fun _ => hq, fun _ => rfl⟩, nofun, fun hno => absurd hno.1 (lt_irrefl _)⟩
  · obtain ⟨hbound, hrounds, hover, hexact, hunder⟩ := hsmall hq
    exact ⟨fun hle => absurd hq (not_lt.2 hle), fun _ => ⟨hbound, hrounds⟩,
      ⟨fun he => ⟨hbound, hexact.1 he⟩, fun he => hexact.2 he.2⟩,
      ⟨fun he => absurd he hover, fun hle => absurd hq (not_lt.2 hle)⟩,
      ⟨fun hu => ⟨hbound, hunder.1 hu⟩, fun hu => hunder.2 hu.2⟩⟩

/-- `scalbn` and `ldexp`, for every bit pattern of both formats: zeros, infinities
and NaNs are kept; every other number is scaled, rounded once in the mode, and
reported as exact, overflown or underflown exactly when it is. -/
theorem scale_rounds (n : Int) (rounding : RoundingMode) :
    (∀ x : Binary64, (scaleDouble x n rounding).1.neg = x.neg ∧
      (x.magnitude = 0 ∨ binary64.infBits ≤ x.magnitude → scaleDouble x n rounding = (x, .exact)) ∧
      (x.magnitude ≠ 0 → x.magnitude < binary64.infBits → Scaled binary64 rounding x.neg x.magnitude n
        (scaleDouble x n rounding).1.magnitude (scaleDouble x n rounding).2)) ∧
    ∀ x : Binary32, (scaleFloat x n rounding).1.neg = x.neg ∧
      (x.magnitude = 0 ∨ binary32.infBits ≤ x.magnitude → scaleFloat x n rounding = (x, .exact)) ∧
      (x.magnitude ≠ 0 → x.magnitude < binary32.infBits → Scaled binary32 rounding x.neg x.magnitude n
        (scaleFloat x n rounding).1.magnitude (scaleFloat x n rounding).2) := by
  constructor
  · intro x
    refine ⟨rfl, fun h => ?_, fun h hfinite => scaleMagnitude_scaled (by decide) x.neg h hfinite n rounding⟩
    unfold scaleDouble
    simp only [@scaleMagnitude_special binary64 x.neg x.magnitude x.lt h n rounding]
  · intro x
    refine ⟨rfl, fun h => ?_, fun h hfinite => scaleMagnitude_scaled (by decide) x.neg h hfinite n rounding⟩
    unfold scaleFloat
    simp only [@scaleMagnitude_special binary32 x.neg x.magnitude x.lt h n rounding]

end MiniLibc.Math
