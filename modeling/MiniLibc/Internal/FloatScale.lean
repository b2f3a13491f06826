import MiniLibc.Internal.FloatParse
/-!
# Scaling by powers of two

`scale_binary` multiplies or divides by the powers of its table, one for each bit
of the exponent. Every step is exact, as long as the result is. The table ends
with `2 ^ 512`: a negative exponent from -1024 on has a bit that is past it.
-/
open MiniLibc.Binary64

namespace MiniLibc.FloatParse

theorem less_eq_false {x y : Binary64} (hx : x.neg = false) (hy : y.neg = false)
    (h : units y.magnitude ≤ units x.magnitude) : x.less y = false := by
  have hm : y.magnitude ≤ x.magnitude := units_strictMono.le_iff_le.1 h
  have hkey : ¬ x.key < y.key := by
    unfold key
    rw [hx, hy, if_neg Bool.false_ne_true, if_neg Bool.false_ne_true]
    omega
  simp [less, hkey]

def maxShift : Nat := 2045

/-- The units of the largest finite number. -/
def maxUnits : Nat := (2 ^ 53 - 1) * 2 ^ maxShift

theorem doubleMax_finite : doubleMax.Finite := by
  show infBits - 1 < infBits
  decide

theorem doubleMax_units : units doubleMax.magnitude = maxUnits := by
  have hm : doubleMax.magnitude = 2046 * 2 ^ 52 + (2 ^ 52 - 1) := by decide
  have hs : 2 ^ 52 + (2 ^ 52 - 1) = 2 ^ 53 - 1 := by decide
  have he : 2046 - 1 = maxShift := by decide
  rw [hm, units_eq 2046 _ (by decide), if_neg (by decide), hs, he, maxUnits]

theorem units_le_max {x : Binary64} (hx : x.Finite) : units x.magnitude ≤ maxUnits := by
  rw [← doubleMax_units]
  apply units_strictMono.monotone
  have hlt : x.magnitude < infBits := hx
  show x.magnitude ≤ infBits - 1
  omega

/-- The overflow test passes when the product is finite. -/
theorem no_overflow {x : Binary64} (hx : x.Finite) (hneg : x.neg = false) {s j k : Nat} (hs : s < 2 ^ 53)
    (hu : units x.magnitude = s * 2 ^ j) (h : k ≤ 1023) (hbound : s * 2 ^ (j + k) < 2 ^ topBits) :
    (doubleMax.div (pow2 k h)).less x = false := by
  have hmul := mul_pow2 hx hs hu h hbound
  have hle : s * 2 ^ (j + k) ≤ maxUnits := hmul.2.2 ▸ units_le_max hmul.1
  have hmax : units doubleMax.magnitude = (2 ^ 53 - 1) * 2 ^ (maxShift - k + k) := by
    rw [doubleMax_units, Nat.sub_add_cancel (h.trans (by decide)), maxUnits]
  obtain ⟨-, hneg', hdiv⟩ := div_pow2 doubleMax_finite (by decide) hmax h
  apply less_eq_false (hneg'.trans rfl) hneg
  have hmax' : maxUnits = (2 ^ 53 - 1) * 2 ^ (maxShift - k) * 2 ^ k := by
    rw [← doubleMax_units, hmax, Nat.pow_add, ← Nat.mul_assoc]
  rw [hu, hdiv]
  refine Nat.le_of_mul_le_mul_right ?_ (Nat.two_pow_pos k)
  rw [← hmax', Nat.mul_assoc, ← Nat.pow_add]
  exact hle

/-! ## The loop over the bits -/

theorem binaryPowers_getElem? {i : Nat} (hi : i < 10) :
    ∃ h : 2 ^ i ≤ 1023, binaryPowers[i]? = some (pow2 (2 ^ i) h) := by
  refine ⟨(Nat.pow_le_pow_right Nat.two_pos (Nat.le_of_lt_succ hi)).trans (by decide), ?_⟩
  simp [binaryPowers, hi]

theorem binaryPowers_past {i : Nat} (hi : 10 ≤ i) : binaryPowers[i]? = none := by
  simp [binaryPowers, hi]

/-- One step halves the exponent that is left and doubles its weight. -/
theorem weight_step {m : Nat} (i : Nat) (hodd : m % 2 = 1) : m * 2 ^ i = 2 ^ i + m / 2 * 2 ^ (i + 1) := by
  have hm : m = 1 + m / 2 * 2 := by omega
  calc m * 2 ^ i = (1 + m / 2 * 2) * 2 ^ i := by rw [← hm]
    _ = _ := by ring

theorem weight_even {m : Nat} (i : Nat) (heven : ¬ m % 2 = 1) : m * 2 ^ i = m / 2 * 2 ^ (i + 1) := by
  have hm : m = m / 2 * 2 := by omega
  calc m * 2 ^ i = m / 2 * 2 * 2 ^ i := by rw [← hm]
    _ = _ := by ring

/-- A number of bits that is left in the table. -/
theorem index_lt {i m : Nat} (hm : m ≠ 0) (h : m * 2 ^ i < 1024) : i < 10 := by
  apply (Nat.pow_lt_pow_iff_right Nat.one_lt_two).1
  exact (Nat.le_mul_of_pos_left _ (Nat.pos_of_ne_zero hm)).trans_lt h

/-- Division by `2 ^ (m * 2 ^ i)`. -/
theorem scaleLoop_down {i m : Nat} {value : Binary64} (hv : value.Finite) {s j : Nat} (hs : s < 2 ^ 53)
    (hm : m * 2 ^ i < 1024) (hu : units value.magnitude = s * 2 ^ (j + m * 2 ^ i)) :
    ∃ y, scaleLoop binaryPowers false i m value = .done y ∧ y.Finite ∧ y.neg = value.neg ∧
      units y.magnitude = s * 2 ^ j := by
  induction m using Nat.strong_induction_on generalizing i value with
  | _ m ih =>
    unfold scaleLoop
    split
    case isTrue hz =>
      rw [hz, Nat.zero_mul, Nat.add_zero] at hu
      exact ⟨value, rfl, hv, rfl, hu⟩
    case isFalse hz =>
      have hhalf : m / 2 < m := Nat.div_lt_self (Nat.pos_of_ne_zero hz) Nat.one_lt_two
      split
      case isTrue hodd =>
        obtain ⟨hp, hpow⟩ := binaryPowers_getElem? (index_lt hz hm)
        have hw := weight_step i hodd
        have hpower := Nat.two_pow_pos i
        have hsum : j + m * 2 ^ i = j + m / 2 * 2 ^ (i + 1) + 2 ^ i := by omega
        rw [hsum] at hu
        obtain ⟨hfin, hneg, hdiv⟩ := div_pow2 hv hs hu hp
        have hrest : m / 2 * 2 ^ (i + 1) < 1024 := by omega
        obtain ⟨y, hy, hyf, hyn, hyu⟩ := ih (m / 2) hhalf hfin hrest hdiv
        refine ⟨y, ?_, hyf, hyn.trans hneg, hyu⟩
        rw [hpow]
        simpa using hy
      case isFalse heven =>
        rw [weight_even i heven] at hu hm
        exact ih (m / 2) hhalf hv hm hu

/-- Multiplication by `2 ^ (m * 2 ^ i)`. -/
theorem scaleLoop_up {i m : Nat} {value : Binary64} (hv : value.Finite) (hpos : value.neg = false) {s j : Nat}
    (hs : s < 2 ^ 53) (hm : m * 2 ^ i < 1024) (hu : units value.magnitude = s * 2 ^ j)
    (hbound : s * 2 ^ (j + m * 2 ^ i) < 2 ^ topBits) :
    ∃ y, scaleLoop binaryPowers true i m value = .done y ∧ y.Finite ∧ y.neg = false ∧
      units y.magnitude = s * 2 ^ (j + m * 2 ^ i) := by
  induction m using Nat.strong_induction_on generalizing i j value with
  | _ m ih =>
    unfold scaleLoop
    split
    case isTrue hz =>
      rw [hz, Nat.zero_mul, Nat.add_zero]
      exact ⟨value, rfl, hv, hpos, hu⟩
    case isFalse hz =>
      have hhalf : m / 2 < m := Nat.div_lt_self (Nat.pos_of_ne_zero hz) Nat.one_lt_two
      split
      case isTrue hodd =>
        obtain ⟨hp, hpow⟩ := binaryPowers_getElem? (index_lt hz hm)
        have hw := weight_step i hodd
        have hpower := Nat.two_pow_pos i
        have hsum : j + m * 2 ^ i = j + 2 ^ i + m / 2 * 2 ^ (i + 1) := by omega
        rw [hsum] at hbound ⊢
        have hstep : s * 2 ^ (j + 2 ^ i) < 2 ^ topBits := by
          refine lt_of_le_of_lt (Nat.mul_le_mul_left s ?_) hbound
          exact Nat.pow_le_pow_right Nat.two_pos (Nat.le_add_right _ _)
        obtain ⟨hfin, hneg, hmul⟩ := mul_pow2 hv hs hu hp hstep
        have hrest : m / 2 * 2 ^ (i + 1) < 1024 := by omega
        obtain ⟨y, hy, hyf, hyn, hyu⟩ := ih (m / 2) hhalf hfin (hneg.trans hpos) hrest hmul hbound
        refine ⟨y, ?_, hyf, hyn, hyu⟩
        have hover := no_overflow hv hpos hs hu hp hstep
        rw [hpow]
        simpa [hover] using hy
      case isFalse heven =>
        rw [weight_even i heven] at hbound hm ⊢
        exact ih (m / 2) hhalf hv hpos hm hu hbound

/-- An exponent of 1024 and more has a bit that is not in the table. -/
theorem scaleLoop_past {i m : Nat} (value : Binary64) (hm : 2 ^ (10 - i) ≤ m) :
    scaleLoop binaryPowers false i m value = .past := by
  induction m using Nat.strong_induction_on generalizing i value with
  | _ m ih =>
    have hpos : 0 < m := (Nat.two_pow_pos _).trans_le hm
    have hhalf : m / 2 < m := Nat.div_lt_self hpos Nat.one_lt_two
    unfold scaleLoop
    rw [dif_neg hpos.ne']
    by_cases hi : i < 10
    · have hdouble : 2 ^ (10 - i) = 2 * 2 ^ (10 - (i + 1)) := by
        rw [← pow_succ']
        congr 1
        omega
      have hnext : 2 ^ (10 - (i + 1)) ≤ m / 2 := by omega
      split
      · obtain ⟨hp, hpow⟩ := binaryPowers_getElem? hi
        rw [hpow]
        exact ih (m / 2) hhalf _ hnext
      · exact ih (m / 2) hhalf value hnext
    · split
      · rw [binaryPowers_past (Nat.le_of_not_lt hi)]
      · refine ih (m / 2) hhalf value ?_
        have hzero : 10 - (i + 1) = 0 := by omega
        rw [hzero]
        omega

/-! ## The results -/

theorem finishRange_value (value : Binary64) : (finishRange value).value = value := by
  unfold finishRange
  dsimp only
  rw [apply_ite Result.value]
  exact ite_self value

/-- The result of the loop with its sign. -/
theorem scale_done {powers : List Binary64} {bound exponent : Int} {significand : Nat} {y : Binary64} (negative : Bool)
    (hs : significand ≠ 0) (hle : exponent ≤ bound) (hge : -bound ≤ exponent)
    (hy : scaleLoop powers (0 < exponent) 0 exponent.natAbs (ofNat significand) = .done y) :
    (scale powers bound significand exponent negative).value = if negative then y.negate else y := by
  unfold scale
  rw [if_neg hs, if_neg (not_lt.2 hle), if_neg (not_lt.2 hge), hy]
  dsimp only
  split
  · rfl
  · exact finishRange_value _

/-- A number of 53 bits times a power of two, when it is a finite number and the
exponent is in the table. -/
theorem scaleBinary_exact {s j : Nat} {exponent : Int} (negative : Bool) (hs : s < 2 ^ 53) (hz : s ≠ 0)
    (hj : (unitBits : Int) + exponent = j) (hlow : -1024 < exponent) (hhigh : exponent < 1024)
    (hbound : s * 2 ^ j < 2 ^ topBits) :
    (scaleBinary s exponent negative).value.neg = negative ∧
      units (scaleBinary s exponent negative).value.magnitude = s * 2 ^ j := by
  obtain ⟨hfin, hneg, hunits⟩ := ofNat_exact hs
  have hm : exponent.natAbs * 2 ^ 0 < 1024 := by omega
  obtain ⟨y, hy, hyn, hyu⟩ : ∃ y, scaleLoop binaryPowers (0 < exponent) 0 exponent.natAbs (ofNat s) = .done y ∧
      y.neg = false ∧ units y.magnitude = s * 2 ^ j := by
    by_cases hpos : 0 < exponent
    · have hsum : unitBits + exponent.natAbs * 2 ^ 0 = j := by omega
      obtain ⟨y, hy, -, hyn, hyu⟩ := scaleLoop_up hfin hneg hs hm hunits (hsum ▸ hbound)
      rw [decide_eq_true hpos]
      exact ⟨y, hy, hyn, hsum ▸ hyu⟩
    · have hsum : unitBits = j + exponent.natAbs * 2 ^ 0 := by omega
      obtain ⟨y, hy, -, hyn, hyu⟩ := scaleLoop_down hfin hs hm (hsum ▸ hunits)
      rw [decide_eq_false hpos]
      exact ⟨y, hy, hyn.trans hneg, hyu⟩
  have hvalue := scale_done negative hz (by omega : exponent ≤ 2047) (by omega) hy
  unfold scaleBinary
  rw [hvalue]
  cases negative with
  | false => exact ⟨hyn, hyu⟩
  | true => exact ⟨by simp [negate, hyn], hyu⟩

/-- A negative exponent past the table gives a zero. -/
theorem scaleBinary_past {s : Nat} {exponent : Int} (negative : Bool) (hz : s ≠ 0) (h : exponent ≤ -1024) :
    (scaleBinary s exponent negative).value = signedZero negative := by
  unfold scaleBinary scale
  rw [if_neg hz, if_neg (by omega)]
  split
  · rfl
  · have hneg : ¬ 0 < exponent := by omega
    have hpast := scaleLoop_past (i := 0) (ofNat s) (by omega : 2 ^ (10 - 0) ≤ exponent.natAbs)
    rw [decide_eq_false hneg, hpast]
    dsimp only
    rw [if_neg hneg]

end MiniLibc.FloatParse
