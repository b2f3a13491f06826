import Mathlib
import MiniLibc.Math.Scale
/-!
# Fractions and exponents

`frexp` splits a number into a fraction of at least a half and below one, and a
power of two; `ldexp` puts the two together again without rounding.
-/

namespace MiniLibc.Math

open FloatFormat

/-! ## The source -/

/-- `frexp` without the sign. -/
def frexpMagnitude (F : FloatFormat) (magnitude : Nat) : Nat × Int :=
  let exponentField := magnitude >>> F.fractionBits
  let fraction := magnitude &&& (2 ^ F.fractionBits - 1)
  if exponentField = F.maxField ∨ (exponentField = 0 ∧ fraction = 0) then (magnitude, 0)
  else if exponentField ≠ 0 then
    ((F.bias - 1) <<< F.fractionBits ||| fraction, exponentField - (F.bias - 1))
  else
    let top := highestBit fraction
    let significand := fraction <<< (F.fractionBits - top).toNat
    ((F.bias - 1) <<< F.fractionBits ||| (significand &&& (2 ^ F.fractionBits - 1)), top - (F.unitBits - 1))

/-! ## Magnitudes -/

section Magnitudes

variable {F : FloatFormat}

/-- The fraction is the normalised significand, and the exponent is one more. -/
theorem frexpMagnitude_normalize {m : Nat} (h : m ≠ 0) (hfinite : m < F.infBits) {s : Nat} {x : Int}
    (hs : normalize F (m / 2 ^ F.fractionBits) (m % 2 ^ F.fractionBits) = (s, x)) :
    frexpMagnitude F m = ((F.bias - 1) * 2 ^ F.fractionBits + s % 2 ^ F.fractionBits, x + 1) := by
  have hpos := Nat.two_pow_pos F.fractionBits
  have hmask : ∀ v, v &&& (2 ^ F.fractionBits - 1) = v % 2 ^ F.fractionBits := fun v => Nat.and_two_pow_sub_one_eq_mod _ _
  have hor : ∀ v, (F.bias - 1) <<< F.fractionBits ||| v % 2 ^ F.fractionBits =
      (F.bias - 1) * 2 ^ F.fractionBits + v % 2 ^ F.fractionBits := by
    intro v
    rw [← Nat.shiftLeft_add_eq_or_of_lt (Nat.mod_lt v hpos), Nat.shiftLeft_eq]
  have hlt : m % 2 ^ F.fractionBits < 2 ^ F.fractionBits := Nat.mod_lt m hpos
  unfold frexpMagnitude
  dsimp only
  rw [Nat.shiftRight_eq_div_pow, hmask, if_neg (not_special h hfinite), hor, hmask, hor]
  unfold normalize at hs
  by_cases he : m / 2 ^ F.fractionBits = 0
  · rw [if_neg (not_not.2 he)] at hs ⊢
    cases hs
    congr 1
    ring
  · rw [if_pos he, ← Nat.shiftLeft_add_eq_or_of_lt hlt 1, Nat.one_shiftLeft] at hs
    cases hs
    rw [if_pos he, Nat.add_mod_left, Nat.mod_mod]
    congr 1
    ring

/-- What `frexp` does to a finite magnitude that is not zero. -/
theorem frexpMagnitude_spec {m : Nat} (h : m ≠ 0) (hfinite : m < F.infBits) {m' : Nat} {e : Int}
    (hr : frexpMagnitude F m = (m', e)) :
    m' < F.infBits ∧ 2 ^ (F.unitBits - 1) ≤ F.units m' ∧ F.units m' < 2 ^ F.unitBits ∧
      (F.units m : ℚ) = F.units m' * 2 ^ e := by
  obtain ⟨hbias, -, hmax⟩ := @bias_spec F
  obtain ⟨⟨s, x⟩, hs⟩ : ∃ r, normalize F (m / 2 ^ F.fractionBits) (m % 2 ^ F.fractionBits) = r := ⟨_, rfl⟩
  obtain ⟨hlow, hhigh, hunits⟩ := normalize_spec h hs
  rw [frexpMagnitude_normalize h hfinite hs] at hr
  cases hr
  obtain ⟨g, rfl⟩ := Nat.exists_eq_add_of_le hlow
  obtain ⟨k, hk⟩ := Nat.exists_eq_add_of_le hbias
  have hg : g < 2 ^ F.fractionBits := by
    rw [pow_succ] at hhigh
    omega
  have hone : F.unitBits = F.fractionBits + (k + 1) + 1 := by
    unfold unitBits
    omega
  have hfraction : F.units ((F.bias - 1) * 2 ^ F.fractionBits + g) = (2 ^ F.fractionBits + g) * 2 ^ (k + 1) := by
    rw [units_field (by omega) hg.le, show F.bias - 1 - 1 = k + 1 by omega]
  rw [Nat.add_mod_left, Nat.mod_eq_of_lt hg, hfraction, hone, Nat.add_sub_cancel]
  refine ⟨?_, ?_, ?_, ?_⟩
  · calc (F.bias - 1) * 2 ^ F.fractionBits + g < (F.bias - 1) * 2 ^ F.fractionBits + 2 ^ F.fractionBits := by omega
      _ = (F.bias - 1 + 1) * 2 ^ F.fractionBits := by ring
      _ ≤ F.infBits := Nat.mul_le_mul_right _ (by omega)
  · rw [pow_add]
    exact Nat.mul_le_mul_right _ hlow
  · rw [show F.fractionBits + (k + 1) + 1 = F.fractionBits + 1 + (k + 1) by omega, pow_add _ _ (k + 1)]
    exact Nat.mul_lt_mul_of_pos_right hhigh (Nat.two_pow_pos _)
  · rw [hunits, Nat.cast_mul, mul_assoc, hk]
    congr 1
    rw [Nat.cast_pow, Nat.cast_ofNat, ← zpow_natCast, ← zpow_add₀ (by norm_num)]
    congr 1
    push_cast
    ring

/-- The scaling undoes the split, in every mode. -/
theorem scaleMagnitude_frexp (hwidth : F.fractionBits < 62) (negative : Bool) (rounding : RoundingMode) {m : Nat}
    (h : m ≠ 0) (hfinite : m < F.infBits) :
    scaleMagnitude F negative (frexpMagnitude F m).1 (frexpMagnitude F m).2 rounding = (m, .exact) := by
  obtain ⟨⟨m', e⟩, hsplit⟩ : ∃ r, frexpMagnitude F m = r := ⟨_, rfl⟩
  obtain ⟨hfinite', -, -, hunits⟩ := frexpMagnitude_spec h hfinite hsplit
  rw [hsplit]
  exact scaleMagnitude_exact hwidth negative hfinite' hfinite hunits.symm rounding

theorem frexpMagnitude_lt {m : Nat} (hm : m < 2 ^ (F.exponentBits + F.fractionBits)) :
    (frexpMagnitude F m).1 < 2 ^ (F.exponentBits + F.fractionBits) := by
  by_cases h : m ≠ 0 ∧ m < F.infBits
  · obtain ⟨⟨m', e⟩, hsplit⟩ : ∃ r, frexpMagnitude F m = r := ⟨_, rfl⟩
    rw [hsplit]
    exact (frexpMagnitude_spec h.1 h.2 hsplit).1.trans infBits_lt
  · have hspecial : m = 0 ∨ F.infBits ≤ m := by omega
    unfold frexpMagnitude
    dsimp only
    rw [if_pos (special_fields hm hspecial)]
    exact hm

end Magnitudes

/-! ## The two formats -/

def frexp (x : Binary64) : Binary64 × Int :=
  let r := frexpMagnitude binary64 x.magnitude
  (⟨x.neg, r.1, @frexpMagnitude_lt binary64 x.magnitude x.lt⟩, r.2)

theorem value_frexp {F : FloatFormat} (neg : Bool) {m : Nat} (h : m ≠ 0) (hfinite : m < F.infBits) :
    1 / 2 ≤ |F.value neg (frexpMagnitude F m).1| ∧ |F.value neg (frexpMagnitude F m).1| < 1 ∧
      F.value neg m = F.value neg (frexpMagnitude F m).1 * 2 ^ (frexpMagnitude F m).2 := by
  obtain ⟨⟨m', e⟩, hsplit⟩ : ∃ r, frexpMagnitude F m = r := ⟨_, rfl⟩
  obtain ⟨-, hlow, hhigh, hunits⟩ := frexpMagnitude_spec h hfinite hsplit
  have hone : (2 : ℚ) ^ F.unitBits = 2 * 2 ^ (F.unitBits - 1) := by
    have hbias := (@bias_spec F).1
    rw [mul_comm, ← pow_succ]
    congr 1
    unfold unitBits
    omega
  have hpos : (0 : ℚ) < 2 ^ F.unitBits := by positivity
  rw [hsplit]
  unfold value
  rw [abs_signed neg (by positivity), signed_mul]
  refine ⟨?_, ?_, ?_⟩
  · rw [div_le_div_iff₀ (by norm_num) hpos, hone, one_mul, mul_comm]
    apply mul_le_mul_of_nonneg_right _ (by norm_num)
    exact_mod_cast hlow
  · rw [div_lt_one hpos]
    exact_mod_cast hhigh
  · rw [hunits, mul_div_right_comm]

/-- `frexp` of a finite number that is not zero: the fraction has its sign and is
at least a half and below one, the number is the fraction times the power of two,
and `ldexp` gives its bits back. -/
theorem frexp_ldexp {x : Binary64} (hfinite : x.Finite) (h : x.magnitude ≠ 0) (rounding : RoundingMode) :
    (frexp x).1.neg = x.neg ∧ 1 / 2 ≤ |(frexp x).1.value| ∧ |(frexp x).1.value| < 1 ∧
      x.value = (frexp x).1.value * 2 ^ (frexp x).2 ∧
      scaleDouble (frexp x).1 (frexp x).2 rounding = (x, .exact) := by
  obtain ⟨hlow, hhigh, hvalue⟩ := @value_frexp binary64 x.neg x.magnitude h hfinite
  refine ⟨rfl, hlow, hhigh, hvalue, ?_⟩
  have hscale := @scaleMagnitude_frexp binary64 (by decide) x.neg rounding x.magnitude h hfinite
  unfold scaleDouble frexp
  simp only [hscale]

theorem frexp_ldexp_least : 1 / 2 ≤ |(frexp ⟨true, 1, by decide⟩).1.value| :=
  (frexp_ldexp (show Binary64.Finite ⟨true, 1, _⟩ by decide) (by decide) .upward).2.1

end MiniLibc.Math
