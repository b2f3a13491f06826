import Mathlib
import MiniLibc.Lib.FloatFormat
/-!
# Arithmetic in a rounding mode

The operations on binary64 numbers, rounded in a mode. A quotient of naturals, in
units, lies between two magnitudes of the format that follow each other; the
rounding takes one of them, and the lower one when it is exact.
-/

namespace MiniLibc

namespace FloatFormat

/-! ## Rounding a number of units -/

/-- The steps of the grid around `n / d` units are `2 ^ gridShift` units. -/
def gridShift (F : FloatFormat) (n d : Nat) : Nat := (n / d).log2 - F.fractionBits

/-- The last magnitude that is not above `n / d` units. -/
def floorMagnitude (F : FloatFormat) (n d : Nat) : Nat :=
  F.gridShift n d * 2 ^ F.fractionBits + n / (d * 2 ^ F.gridShift n d)

/-- Too large a number becomes infinite, or the last finite one. -/
def overflowMagnitude (F : FloatFormat) (mode : RoundingMode) (neg : Bool) : Nat :=
  match mode with
  | .toNearest => F.infBits
  | .upward => if neg then F.infBits - 1 else F.infBits
  | .downward => if neg then F.infBits else F.infBits - 1
  | .towardZero => F.infBits - 1

/-- The magnitude that a mode selects for `n / d` units. -/
def roundMagnitude (F : FloatFormat) (mode : RoundingMode) (neg : Bool) (n d : Nat) : Nat :=
  let rounded := F.gridShift n d * 2 ^ F.fractionBits + mode.roundDiv neg n (d * 2 ^ F.gridShift n d)
  if rounded < F.infBits then rounded else F.overflowMagnitude mode neg

section Rounding

variable {F : FloatFormat}

/-- The grid has between `2 ^ fractionBits` and twice as many steps up to there, but
the first one starts from zero. -/
theorem gridShift_spec (n d : Nat) :
    n / (d * 2 ^ F.gridShift n d) < 2 ^ (F.fractionBits + 1) ∧
      (F.gridShift n d = 0 ∨ 2 ^ F.fractionBits ≤ n / (d * 2 ^ F.gridShift n d)) := by
  rw [← Nat.div_div_eq_div_mul]
  unfold gridShift
  generalize n / d = v
  by_cases hsmall : v.log2 ≤ F.fractionBits
  · rw [Nat.sub_eq_zero_of_le hsmall, pow_zero, Nat.div_one]
    refine ⟨?_, .inl rfl⟩
    exact (Nat.lt_log2_self).trans_le (Nat.pow_le_pow_right (by decide) (by omega))
  · obtain ⟨k, hk⟩ := Nat.exists_eq_add_of_le (not_le.1 hsmall).le
    have hv : v ≠ 0 := by
      rintro rfl
      exact hsmall (Nat.zero_le _)
    rw [hk, Nat.add_sub_cancel_left, Nat.div_lt_iff_lt_mul (Nat.two_pow_pos k), Nat.le_div_iff_mul_le (Nat.two_pow_pos k),
      ← pow_add, ← pow_add]
    refine ⟨?_, .inr ?_⟩
    · rw [show F.fractionBits + 1 + k = v.log2 + 1 by omega]
      exact Nat.lt_log2_self
    · rw [← hk]
      exact Nat.log2_self_le hv

/-- A number of steps of the grid is a magnitude. -/
theorem units_grid {k q : Nat} (hq : q ≤ 2 ^ (F.fractionBits + 1)) (hk : k = 0 ∨ 2 ^ F.fractionBits ≤ q) :
    F.units (k * 2 ^ F.fractionBits + q) = q * 2 ^ k := by
  by_cases hsmall : q ≤ 2 ^ F.fractionBits
  · rcases hk with rfl | hlow
    · rw [zero_mul, zero_add, pow_zero, mul_one, units_small hsmall]
    · obtain rfl : q = 2 ^ F.fractionBits := le_antisymm hsmall hlow
      have hfield := @units_field F (k + 1) 0 (by omega) (Nat.zero_le _)
      rw [add_mul, one_mul, add_zero, add_zero, Nat.add_sub_cancel] at hfield
      exact hfield
  · obtain ⟨g, rfl⟩ := Nat.exists_eq_add_of_le (not_le.1 hsmall).le
    rw [pow_succ] at hq
    have hfield := @units_field F (k + 1) g (by omega) (by omega)
    rw [add_mul, one_mul, add_assoc, Nat.add_sub_cancel] at hfield
    exact hfield

/-- The quotient lies between a magnitude and the next one. -/
theorem floorMagnitude_spec (n : Nat) {d : Nat} (hd : 0 < d) :
    F.units (F.floorMagnitude n d) * d ≤ n ∧ n < F.units (F.floorMagnitude n d + 1) * d := by
  obtain ⟨hq, hk⟩ := @gridShift_spec F n d
  unfold floorMagnitude
  generalize F.gridShift n d = k at hq hk ⊢
  have hpos : 0 < d * 2 ^ k := Nat.mul_pos hd (Nat.two_pow_pos k)
  rw [add_assoc, units_grid hq.le hk, units_grid hq (hk.imp_right fun h => h.trans (Nat.le_succ _))]
  have hmul : ∀ q, q * 2 ^ k * d = q * (d * 2 ^ k) := fun q => by ring
  rw [hmul, hmul]
  exact ⟨Nat.div_mul_le_self _ _, Nat.lt_mul_of_div_lt (Nat.lt_succ_self _) hpos⟩

/-- A magnitude that is not above the quotient is not above its floor. -/
theorem le_floorMagnitude {m n d : Nat} (hd : 0 < d) (h : F.units m * d ≤ n) : m ≤ F.floorMagnitude n d := by
  have hnext := (@floorMagnitude_spec F n d hd).2
  have hlt : F.units m < F.units (F.floorMagnitude n d + 1) := Nat.lt_of_mul_lt_mul_right (h.trans_lt hnext)
  exact Nat.le_of_lt_succ (units_strictMono.lt_iff_lt.1 hlt)

/-- The rounding does not fall below a finite magnitude under the quotient. -/
theorem le_roundMagnitude (mode : RoundingMode) (neg : Bool) {m n d : Nat} (hm : m < F.infBits) (hd : 0 < d)
    (h : F.units m * d ≤ n) : m ≤ F.roundMagnitude mode neg n d := by
  have hfloor := le_floorMagnitude hd h
  have hbounds := (mode.roundDiv_bounds neg n (d * 2 ^ F.gridShift n d)).1
  unfold floorMagnitude at hfloor
  unfold roundMagnitude
  dsimp only
  split
  · omega
  · unfold overflowMagnitude
    repeat' split
    all_goals omega

/-- A finite number is its own rounding, in every mode. -/
theorem roundMagnitude_units (mode : RoundingMode) (neg : Bool) {m d : Nat} (hm : m < F.infBits) (hd : 0 < d) :
    F.roundMagnitude mode neg (F.units m * d) d = m := by
  obtain ⟨hlow, hhigh⟩ := @floorMagnitude_spec F (F.units m * d) d hd
  have hfloor : F.floorMagnitude (F.units m * d) d = m := by
    apply le_antisymm _ (le_floorMagnitude hd (Nat.le_refl _))
    exact units_strictMono.le_iff_le.1 (Nat.le_of_mul_le_mul_right hlow hd)
  obtain ⟨hq, hk⟩ := @gridShift_spec F (F.units m * d) d
  have hexact : F.units m * d % (d * 2 ^ F.gridShift (F.units m * d) d) = 0 := by
    have hunits := congrArg F.units hfloor
    unfold floorMagnitude at hunits
    rw [units_grid hq.le hk] at hunits
    apply Nat.mod_eq_zero_of_dvd
    generalize F.units m * d / (d * 2 ^ F.gridShift (F.units m * d) d) = q at hunits
    apply Dvd.intro_left q
    calc q * (d * 2 ^ F.gridShift (F.units m * d) d) = q * 2 ^ F.gridShift (F.units m * d) d * d := by ring
      _ = F.units m * d := by rw [hunits]
  unfold roundMagnitude
  rw [RoundingMode.roundDiv_exact mode neg hexact]
  unfold floorMagnitude at hfloor
  dsimp only
  rw [hfloor, if_pos hm]

theorem roundMagnitude_lt (mode : RoundingMode) (neg : Bool) (n d : Nat) :
    F.roundMagnitude mode neg n d < 2 ^ (F.exponentBits + F.fractionBits) := by
  have hinf := @infBits_lt F
  unfold roundMagnitude overflowMagnitude
  dsimp only
  repeat' split
  all_goals omega

end Rounding

end FloatFormat

namespace Binary64

open FloatFormat

/-! ## Operations -/

/-- The number that a mode selects for `n / d` units. -/
def roundIn (mode : RoundingMode) (neg : Bool) (n d : Nat) : Binary64 :=
  ⟨neg, binary64.roundMagnitude mode neg n d, FloatFormat.roundMagnitude_lt mode neg n d⟩

def addIn (mode : RoundingMode) (x y : Binary64) : Binary64 :=
  if x.isNan || y.isNan then nan false
  else if x.isInf then
    if y.isInf && (x.neg ^^ y.neg) then nan true else x
  else if y.isInf then y
  else
    let sum := x.signedUnits + y.signedUnits
    if sum = 0 then ⟨if x.neg = y.neg then x.neg else mode = .downward, 0, zero.lt⟩
    else roundIn mode (sum < 0) sum.natAbs 1

def subIn (mode : RoundingMode) (x y : Binary64) : Binary64 := x.addIn mode y.negate

def mulIn (mode : RoundingMode) (x y : Binary64) : Binary64 :=
  if x.isNan || y.isNan then nan false
  else if x.isInf || y.isInf then
    if x.isZero || y.isZero then nan true else inf (x.neg ^^ y.neg)
  else roundIn mode (x.neg ^^ y.neg) (units x.magnitude * units y.magnitude) (2 ^ unitBits)

/-! ## Order -/

theorem signedUnits_eq (x : Binary64) : x.signedUnits = signed x.neg (units x.magnitude : ℤ) := rfl

theorem zero_signedUnits (neg : Bool) : (⟨neg, 0, by decide⟩ : Binary64).signedUnits = 0 := by
  rw [signedUnits_eq, units_small (show 0 < 2 ^ 53 by decide)]
  cases neg <;> rfl

theorem isZero_iff (x : Binary64) : x.isZero = true ↔ x.signedUnits = 0 := by
  have hzero : units x.magnitude = units 0 ↔ x.magnitude = 0 := units_inj
  rw [units_small (show 0 < 2 ^ 53 by decide)] at hzero
  unfold isZero
  rw [signedUnits_eq, decide_eq_true_iff, ← hzero]
  cases x.neg <;> simp [signed]

/-- The order of the bits is the order of the numbers. -/
theorem key_lt_iff (x y : Binary64) : x.key < y.key ↔ x.signedUnits < y.signedUnits := by
  have hless : ∀ m m', units m < units m' ↔ m < m' := fun m m' => units_strictMono.lt_iff_lt
  have hzero : units 0 = 0 := units_small (by decide)
  have hxy := hless x.magnitude y.magnitude
  have hyx := hless y.magnitude x.magnitude
  have hx := hless 0 x.magnitude
  have hy := hless 0 y.magnitude
  rw [hzero] at hx hy
  unfold key signedUnits
  generalize units x.magnitude = a at hxy hyx hx ⊢
  generalize units y.magnitude = b at hxy hyx hy ⊢
  cases x.neg <;> cases y.neg <;> simp only [if_true, if_false, Bool.false_eq_true] <;> omega

theorem less_iff {x y : Binary64} (hx : x.Finite) (hy : y.Finite) : x.less y = true ↔ x.signedUnits < y.signedUnits := by
  unfold less
  rw [hx.flags.1, hy.flags.1, ← key_lt_iff]
  simp

theorem equal_iff {x y : Binary64} (hx : x.Finite) (hy : y.Finite) : x.equal y = true ↔ x.signedUnits = y.signedUnits := by
  have hxy := key_lt_iff x y
  have hyx := key_lt_iff y x
  unfold equal
  rw [hx.flags.1, hy.flags.1]
  simp only [Bool.not_false, Bool.true_and, decide_eq_true_iff]
  omega

/-! ## Exact operations -/

/-- The difference of two numbers that are within a factor of two is a number. -/
theorem exists_difference {x y : Binary64} (hy : y.Finite) (h : units x.magnitude ≤ units y.magnitude)
    (h' : units y.magnitude ≤ 2 * units x.magnitude) :
    ∃ m, m < infBits ∧ units m = units y.magnitude - units x.magnitude := by
  obtain ⟨s, j, hx, hs, hj⟩ := @exists_steps binary64 x.magnitude
  obtain ⟨t, k, ht', ht, hk⟩ := @exists_steps binary64 y.magnitude
  have hfraction : binary64.fractionBits = 52 := rfl
  rw [units_binary64] at hx ht'
  rw [hfraction] at hs hj ht hk
  have hbound := units_lt hy
  rw [hx, ht'] at h h' ⊢
  rw [ht'] at hbound
  have hle : j ≤ k := by
    rcases hj with rfl | hj
    · exact Nat.zero_le k
    · have hpow : 2 ^ (52 + j) < 2 ^ (52 + 1 + k) := by
        rw [pow_add, pow_add _ _ k]
        calc 2 ^ 52 * 2 ^ j ≤ s * 2 ^ j := Nat.mul_le_mul_right _ hj
          _ ≤ t * 2 ^ k := h
          _ < 2 ^ (52 + 1) * 2 ^ k := Nat.mul_lt_mul_of_pos_right ht (Nat.two_pow_pos k)
      have := (Nat.pow_lt_pow_iff_right (by decide : 1 < 2)).1 hpow
      omega
  obtain ⟨i, rfl⟩ := Nat.exists_eq_add_of_le hle
  have hdifference : t * 2 ^ (j + i) - s * 2 ^ j = (t * 2 ^ i - s) * 2 ^ j := by
    rw [Nat.sub_mul, pow_add]
    congr 1
    ring
  have hsmall : t * 2 ^ i - s ≤ s := by
    have hcancel : t * 2 ^ i * 2 ^ j ≤ 2 * s * 2 ^ j := by
      calc t * 2 ^ i * 2 ^ j = t * 2 ^ (j + i) := by rw [pow_add]; ring
        _ ≤ 2 * (s * 2 ^ j) := h'
        _ = 2 * s * 2 ^ j := by ring
    have := Nat.le_of_mul_le_mul_right hcancel (Nat.two_pow_pos j)
    omega
  rw [hdifference]
  apply exists_units (hsmall.trans_lt hs) j
  calc (t * 2 ^ i - s) * 2 ^ j = t * 2 ^ (j + i) - s * 2 ^ j := hdifference.symm
    _ ≤ t * 2 ^ (j + i) := Nat.sub_le _ _
    _ < 2 ^ topBits := hbound

/-- A number of 53 bits times a power of two, with a sign. -/
theorem exists_signedUnits (neg : Bool) {s j : Nat} (hs : s < 2 ^ 53) (hbound : s * 2 ^ j < 2 ^ topBits) :
    ∃ z : Binary64, z.Finite ∧ z.signedUnits = signed neg (s * 2 ^ j : ℤ) := by
  obtain ⟨m, hm, hunits⟩ := exists_units hs j hbound
  refine ⟨⟨neg, m, hm.trans (by decide)⟩, hm, ?_⟩
  rw [signedUnits_eq, hunits]
  push_cast
  rfl

/-- The rounding of the units of a finite number. -/
theorem roundIn_exact (mode : RoundingMode) {neg : Bool} {z : Binary64} (hz : z.Finite) {n d : Nat} (hd : 0 < d)
    (hn : n = units z.magnitude * d) :
    (roundIn mode neg n d).Finite ∧ (roundIn mode neg n d).signedUnits = signed neg (units z.magnitude : ℤ) := by
  have hround : binary64.roundMagnitude mode neg n d = z.magnitude := by
    rw [hn, ← units_binary64]
    exact FloatFormat.roundMagnitude_units mode neg hz hd
  have hmagnitude : (roundIn mode neg n d).magnitude = z.magnitude := hround
  unfold Finite
  rw [signedUnits_eq, hmagnitude]
  exact ⟨hz, rfl⟩

/-- A sum that is a finite number is exact. -/
theorem addIn_exact (mode : RoundingMode) {x y z : Binary64} (hx : x.Finite) (hy : y.Finite) (hz : z.Finite)
    (hsum : z.signedUnits = x.signedUnits + y.signedUnits) :
    (x.addIn mode y).Finite ∧ (x.addIn mode y).signedUnits = x.signedUnits + y.signedUnits := by
  obtain ⟨hxnan, hxinf⟩ := hx.flags
  obtain ⟨hynan, hyinf⟩ := hy.flags
  unfold addIn
  rw [hxnan, hynan, hxinf, hyinf]
  simp only [Bool.or_self, Bool.false_eq_true, if_false]
  rw [← hsum]
  split
  · rename_i hzero
    rw [hzero]
    exact ⟨show 0 < infBits by decide, zero_signedUnits _⟩
  · rename_i hne
    have habs : z.signedUnits.natAbs = units z.magnitude * 1 := by
      unfold signedUnits
      split <;> omega
    obtain ⟨hfinite, hunits⟩ := @roundIn_exact mode (decide (z.signedUnits < 0)) z hz _ 1 Nat.one_pos habs
    refine ⟨hfinite, ?_⟩
    rw [hunits]
    unfold signedUnits at hne ⊢
    unfold signed
    split at hne <;> split <;> simp_all

theorem negate_signedUnits (x : Binary64) : x.negate.signedUnits = -x.signedUnits := by
  unfold negate signedUnits
  cases x.neg <;> simp

theorem subIn_exact (mode : RoundingMode) {x y z : Binary64} (hx : x.Finite) (hy : y.Finite) (hz : z.Finite)
    (hdifference : z.signedUnits = x.signedUnits - y.signedUnits) :
    (x.subIn mode y).Finite ∧ (x.subIn mode y).signedUnits = x.signedUnits - y.signedUnits := by
  rw [sub_eq_add_neg, ← negate_signedUnits] at hdifference ⊢
  exact @addIn_exact mode x y.negate z hx hy hz hdifference

/-- A double that is a finite number is exact. -/
theorem mulIn_two (mode : RoundingMode) {x z : Binary64} (hx : x.Finite) (hz : z.Finite)
    (hdouble : z.signedUnits = 2 * x.signedUnits) :
    (x.mulIn mode (pow2 1 (by decide))).Finite ∧
      (x.mulIn mode (pow2 1 (by decide))).signedUnits = 2 * x.signedUnits := by
  obtain ⟨hnan, hinf⟩ := hx.flags
  obtain ⟨hnan', hinf'⟩ := (pow2_finite 1 (by decide)).flags
  have hneg : (x.neg ^^ (pow2 1 (by decide)).neg) = x.neg := Bool.xor_false _
  have hunits : units z.magnitude = 2 * units x.magnitude := by
    unfold signedUnits at hdouble
    split at hdouble <;> split at hdouble <;> omega
  unfold mulIn
  rw [hnan, hnan', hinf, hinf', if_neg (by simp), if_neg (by simp), hneg, units_pow2]
  obtain ⟨hfinite, hsigned⟩ := @roundIn_exact mode x.neg z hz (units x.magnitude * 2 ^ (unitBits + 1)) (2 ^ unitBits)
    (Nat.two_pow_pos _) (by rw [hunits]; ring)
  refine ⟨hfinite, ?_⟩
  rw [hsigned, hunits, signedUnits_eq]
  cases x.neg <;> simp [signed]

/-- A difference that is at least a finite number is not rounded below it. -/
theorem subIn_not_less (mode : RoundingMode) {x y : Binary64} (hx : x.Finite) (hy : y.Finite) (hxneg : x.neg = false)
    (hyneg : y.neg = false) (h : 2 * units x.magnitude < units y.magnitude) : (y.subIn mode x).less x = false := by
  obtain ⟨hxnan, hxinf⟩ := hx.flags
  obtain ⟨hynan, hyinf⟩ := hy.flags
  have hnegate : x.negate.isNan = false ∧ x.negate.isInf = false := ⟨hxnan, hxinf⟩
  have hsum : y.signedUnits + x.negate.signedUnits = (units y.magnitude - units x.magnitude : Nat) := by
    rw [negate_signedUnits, signedUnits_eq, signedUnits_eq, hxneg, hyneg]
    show (units y.magnitude : ℤ) + -(units x.magnitude : ℤ) = _
    omega
  have hround : y.subIn mode x = roundIn mode false (units y.magnitude - units x.magnitude) 1 := by
    unfold subIn addIn
    rw [hynan, hnegate.1, hyinf, hnegate.2, hsum]
    simp only [Bool.or_self, Bool.false_eq_true, if_false]
    rw [if_neg (by omega), Int.natAbs_natCast, decide_eq_false (by omega)]
  have hle : x.magnitude ≤ (y.subIn mode x).magnitude := by
    rw [hround]
    apply le_roundMagnitude mode false hx Nat.one_pos
    rw [units_binary64]
    omega
  have hneg : (y.subIn mode x).neg = false := by rw [hround]; rfl
  unfold less key
  rw [hneg, hxneg]
  simp only [Bool.false_eq_true, if_false, Bool.and_eq_false_iff, decide_eq_false_iff_not, not_lt]
  right
  exact_mod_cast hle

end Binary64

end MiniLibc
