import Mathlib
import MiniLibc.Math.Reduction
/-!
# Remainders

`fmod`, `remainder` and `remquo` reduce the larger number and scale what is left, or
compare the smaller one with half of the divisor. What they return is exact; only
one difference is rounded, and that is only compared.
-/

namespace MiniLibc.Math

open FloatFormat Binary64

/-! ## The source -/

def quietNan : Binary64 := ⟨false, 0x7ff8000000000000, by decide⟩

def remainderDomain (x y : Binary64) : Bool := x.isInf || y.isZero

def signedZeroLike (x : Binary64) : Binary64 := ⟨x.neg, 0, zero.lt⟩

def fmodFinite (mode : RoundingMode) (x y : Binary64) : Binary64 :=
  let ax := absoluteDouble x
  let ay := absoluteDouble y
  if ax.less ay then x
  else if ax.equal ay then signedZeroLike x
  else
    let reduction := reducePositive mode ax ay
    let result := (scaleDouble reduction.remainderUnit reduction.divisorExponent mode).1
    let result := if x.neg then result.negate else result
    if result.isZero then signedZeroLike x else result

/-- The result before its sign, and the low bits of the quotient. -/
def nearestFinite (mode : RoundingMode) (ax ay : Binary64) : Binary64 × Nat :=
  if ax.less ay then
    let opposite := ay.subIn mode ax
    if opposite.less ax then (ax.subIn mode ay, 1) else (ax, 0)
  else if ax.equal ay then (zero, 1)
  else
    let reduction := reducePositive mode ax ay
    let twice := reduction.remainderUnit.mulIn mode two
    let quotient := reduction.quotientLow
    if reduction.divisorUnit.less twice || (twice.equal reduction.divisorUnit && quotient &&& 1 ≠ 0) then
      let remainderUnit := reduction.remainderUnit.subIn mode reduction.divisorUnit
      ((scaleDouble remainderUnit reduction.divisorExponent mode).1, (quotient + 1) &&& 0x7f)
    else ((scaleDouble reduction.remainderUnit reduction.divisorExponent mode).1, quotient)

/-- The remainder, and what is stored for the quotient. -/
def remainderFinite (mode : RoundingMode) (x y : Binary64) : Binary64 × Int :=
  let (result, quotient) := nearestFinite mode (absoluteDouble x) (absoluteDouble y)
  let result := if x.neg then result.negate else result
  let result := if result.isZero then signedZeroLike x else result
  let q : Int := (quotient &&& 0x7f : Nat)
  (result, if x.neg ≠ y.neg then -q else q)

/-- The result, and whether a domain error is signalled. -/
def fmod (mode : RoundingMode) (x y : Binary64) : Binary64 × Bool :=
  if x.isNan then (x, false)
  else if y.isNan then (y, false)
  else if remainderDomain x y then (quietNan, true)
  else if y.isInf || x.isZero then (x, false)
  else (fmodFinite mode x y, false)

def remainder (mode : RoundingMode) (x y : Binary64) : Binary64 × Bool :=
  if x.isNan then (x, false)
  else if y.isNan then (y, false)
  else if remainderDomain x y then (quietNan, true)
  else if y.isInf || x.isZero then (x, false)
  else ((remainderFinite mode x y).1, false)

/-- The last part is `*quo`, which is cleared first. -/
def remquo (mode : RoundingMode) (x y : Binary64) : Binary64 × Bool × Int :=
  if x.isNan then (x, false, 0)
  else if y.isNan then (y, false, 0)
  else if remainderDomain x y then (quietNan, true, 0)
  else if y.isInf || x.isZero then (x, false, 0)
  else
    let (result, quo) := remainderFinite mode x y
    (result, false, quo)

/-! ## The results -/

theorem absolute_less {x y : Binary64} (hx : x.Finite) (hy : y.Finite) :
    (absoluteDouble x).less (absoluteDouble y) = true ↔ Binary64.units x.magnitude < Binary64.units y.magnitude := by
  rw [@less_iff (absoluteDouble x) (absoluteDouble y) hx hy, signedUnits_eq, signedUnits_eq]
  exact Int.ofNat_lt

theorem absolute_equal {x y : Binary64} (hx : x.Finite) (hy : y.Finite) :
    (absoluteDouble x).equal (absoluteDouble y) = true ↔ Binary64.units x.magnitude = Binary64.units y.magnitude := by
  rw [@equal_iff (absoluteDouble x) (absoluteDouble y) hx hy, signedUnits_eq, signedUnits_eq]
  exact Int.ofNat_inj

theorem units_pos {m : Nat} (h : m ≠ 0) : 0 < Binary64.units m :=
  (Nat.zero_le _).trans_lt (Binary64.units_strictMono (Nat.pos_of_ne_zero h))

/-- A number that is not zero has the sign of its units. -/
theorem signed_neg {a b : Bool} {u v : Nat} (h : signed a (u : ℤ) = signed b (v : ℤ)) (hv : 0 < v) : a = b := by
  cases a <;> cases b <;> simp only [signed, if_true, if_false, Bool.false_eq_true] at h ⊢ <;> omega

/-- The last steps give the result its sign, also when it is zero. -/
theorem finish_spec (x : Binary64) {r r' result : Binary64} (hr : r.Finite) (hsigned : (if x.neg then r.negate else r) = r')
    (hresult : (if r'.isZero then signedZeroLike x else r') = result) :
    result.Finite ∧ result.signedUnits = signed x.neg r.signedUnits ∧ (r.signedUnits = 0 → result.neg = x.neg) := by
  have hr' : r'.Finite ∧ r'.signedUnits = signed x.neg r.signedUnits := by
    rw [← hsigned]
    cases x.neg
    · exact ⟨hr, rfl⟩
    · exact ⟨hr, negate_signedUnits r⟩
  rw [← hr'.2]
  by_cases hzero : r'.signedUnits = 0
  · rw [if_pos ((isZero_iff r').2 hzero)] at hresult
    rw [← hresult, hzero]
    exact ⟨show 0 < Binary64.infBits by decide, zero_signedUnits _, fun _ => rfl⟩
  · rw [if_neg (fun hno => hzero ((isZero_iff r').1 hno))] at hresult
    rw [← hresult]
    refine ⟨hr'.1, rfl, fun hno => absurd ?_ hzero⟩
    rw [hr'.2, hno]
    cases x.neg <;> rfl

section Results

variable {x y : Binary64}

theorem Reduction.bounds {a b n d : Nat} {r : MiniReduction} (h : Reduction a b r n d) :
    (a / b % 128) % 2 = a / b % 2 ∧ (d < 2 * n ↔ b < 2 * (a % b)) ∧ (2 * n = d ↔ 2 * (a % b) = b) := by
  have hscale : (0 : ℚ) < 2 ^ ((lastBit : ℤ) + r.divisorExponent) := by positivity
  have htwice : ((2 * (a % b) : Nat) : ℚ) = (2 * n : Nat) * 2 ^ ((lastBit : ℤ) + r.divisorExponent) := by
    rw [Nat.cast_mul, h.rest]
    push_cast
    ring
  have hdivides := h.divides
  generalize (2 : ℚ) ^ ((lastBit : ℤ) + r.divisorExponent) = c at hscale htwice hdivides
  refine ⟨by omega, ?_, ?_⟩
  · rw [← @Nat.cast_lt ℚ _ _ _ _ _ b, htwice, hdivides, mul_lt_mul_iff_left₀ hscale, Nat.cast_lt]
  · rw [← @Nat.cast_inj ℚ _ _ _ b, htwice, hdivides, mul_left_inj' hscale.ne', Nat.cast_inj]

theorem fmodFinite_spec (mode : RoundingMode) (hx : x.Finite) (hy : y.Finite) (hyzero : y.magnitude ≠ 0) :
    (fmodFinite mode x y).Finite ∧ (fmodFinite mode x y).signedUnits =
      signed x.neg ((Binary64.units x.magnitude % Binary64.units y.magnitude : Nat) : ℤ) ∧
      (fmodFinite mode x y).neg = x.neg := by
  unfold fmodFinite
  dsimp only
  by_cases hless : Binary64.units x.magnitude < Binary64.units y.magnitude
  · rw [if_pos ((absolute_less hx hy).2 hless), Nat.mod_eq_of_lt hless]
    exact ⟨hx, rfl, rfl⟩
  rw [if_neg (fun hno => hless ((absolute_less hx hy).1 hno))]
  by_cases hequal : Binary64.units x.magnitude = Binary64.units y.magnitude
  · rw [if_pos ((absolute_equal hx hy).2 hequal), hequal, Nat.mod_self]
    refine ⟨show 0 < Binary64.infBits by decide, ?_, rfl⟩
    unfold signedZeroLike
    rw [zero_signedUnits]
    cases x.neg <;> rfl
  rw [if_neg (fun hno => hequal ((absolute_equal hx hy).1 hno))]
  obtain ⟨n, d, hr⟩ := @reducePositive_spec (absoluteDouble x) (absoluteDouble y) mode hx hy rfl rfl hyzero (not_lt.1 hless)
  have hylt := Nat.mod_lt (Binary64.units x.magnitude) (units_pos hyzero)
  obtain ⟨hfinite, hunits⟩ := @scale_inBits mode _ n (Binary64.units x.magnitude % Binary64.units y.magnitude : Nat) _
    hr.remainder (hr.less.trans hr.bound) hr.rest (hylt.trans (Binary64.units_lt hy))
  generalize (scaleDouble (reducePositive mode (absoluteDouble x) (absoluteDouble y)).remainderUnit
    (reducePositive mode (absoluteDouble x) (absoluteDouble y)).divisorExponent mode).1 = r at hfinite hunits ⊢
  obtain ⟨hresult, hsigned, hzero⟩ := finish_spec x hfinite rfl rfl
  rw [hunits] at hsigned hzero
  refine ⟨hresult, hsigned, ?_⟩
  rcases Nat.eq_zero_or_pos (Binary64.units x.magnitude % Binary64.units y.magnitude) with hno | hpos
  · exact hzero (by exact_mod_cast hno)
  · rw [signedUnits_eq] at hsigned
    exact signed_neg hsigned hpos

/-- The nearest quotient does not depend on the sign. -/
theorem roundDiv_toNearest (neg : Bool) (n d : Nat) :
    RoundingMode.toNearest.roundDiv neg n d = RoundingMode.toNearest.roundDiv false n d := rfl

/-- The comparison of the smaller number with a difference that may be rounded. -/
theorem opposite_less (mode : RoundingMode) (hx : x.Finite) (hy : y.Finite)
    (hless : Binary64.units x.magnitude < Binary64.units y.magnitude) :
    ((absoluteDouble y).subIn mode (absoluteDouble x)).less (absoluteDouble x) = true ↔
      Binary64.units y.magnitude < 2 * Binary64.units x.magnitude := by
  by_cases hnear : Binary64.units y.magnitude ≤ 2 * Binary64.units x.magnitude
  · obtain ⟨m, hm, hunits⟩ := exists_difference hy hless.le hnear
    have hdifference : (⟨false, m, hm.trans (by decide)⟩ : Binary64).signedUnits =
        (absoluteDouble y).signedUnits - (absoluteDouble x).signedUnits := by
      rw [signedUnits_eq, hunits]
      exact Int.ofNat_sub hless.le
    obtain ⟨hfinite, hexact⟩ := @subIn_exact mode (absoluteDouble y) (absoluteDouble x)
      ⟨false, m, hm.trans (by decide)⟩ hy hx hm hdifference
    rw [@less_iff _ (absoluteDouble x) hfinite hx, hexact]
    show (Binary64.units y.magnitude : ℤ) - (Binary64.units x.magnitude : ℤ) < (Binary64.units x.magnitude : ℤ) ↔ _
    omega
  · rw [@subIn_not_less mode (absoluteDouble x) (absoluteDouble y) hx hy rfl rfl (not_le.1 hnear)]
    constructor
    · nofun
    · intro hno
      omega

/-- The nearest multiple leaves a rest, and the quotient is known by its low bits. -/
theorem nearestFinite_spec (mode : RoundingMode) (hx : x.Finite) (hy : y.Finite) (hyzero : y.magnitude ≠ 0)
    {r : Binary64} {q : Nat} (hr : nearestFinite mode (absoluteDouble x) (absoluteDouble y) = (r, q)) {n : Nat}
    (hn : RoundingMode.toNearest.roundDiv false (Binary64.units x.magnitude) (Binary64.units y.magnitude) = n) :
    r.Finite ∧ r.signedUnits = (Binary64.units x.magnitude : ℤ) - n * Binary64.units y.magnitude ∧ q = n % 128 := by
  have hypos := units_pos hyzero
  have hybound := Binary64.units_lt hy
  unfold RoundingMode.roundDiv at hn
  unfold nearestFinite at hr
  dsimp only at hn hr
  by_cases hless : Binary64.units x.magnitude < Binary64.units y.magnitude
  · rw [if_pos ((absolute_less hx hy).2 hless)] at hr
    rw [Nat.mod_eq_of_lt hless, Nat.div_eq_of_lt hless] at hn
    by_cases hup : Binary64.units y.magnitude < 2 * Binary64.units x.magnitude
    · obtain ⟨m, hm, hunits⟩ := exists_difference hy hless.le hup.le
      have hdifference : (⟨true, m, hm.trans (by decide)⟩ : Binary64).signedUnits =
          (absoluteDouble x).signedUnits - (absoluteDouble y).signedUnits := by
        rw [signedUnits_eq, hunits]
        show -((Binary64.units y.magnitude - Binary64.units x.magnitude : Nat) : ℤ) =
          (Binary64.units x.magnitude : ℤ) - (Binary64.units y.magnitude : ℤ)
        omega
      obtain ⟨hfinite, hexact⟩ := @subIn_exact mode (absoluteDouble x) (absoluteDouble y)
        ⟨true, m, hm.trans (by decide)⟩ hx hy hm hdifference
      rw [if_pos ((opposite_less mode hx hy hless).2 hup)] at hr
      rw [if_neg (by omega), if_pos (.inl hup)] at hn
      cases hr
      refine ⟨hfinite, ?_, by omega⟩
      rw [hexact, ← hn]
      show (Binary64.units x.magnitude : ℤ) - (Binary64.units y.magnitude : ℤ) = _
      push_cast
      ring
    · rw [if_neg (fun hno => hup ((opposite_less mode hx hy hless).1 hno))] at hr
      have hdown : ¬(Binary64.units y.magnitude < 2 * Binary64.units x.magnitude ∨
          (2 * Binary64.units x.magnitude = Binary64.units y.magnitude ∧ 0 % 2 = 1)) := by omega
      rw [if_neg hdown, ite_self] at hn
      cases hr
      refine ⟨hx, ?_, by omega⟩
      rw [← hn, signedUnits_eq]
      show (Binary64.units x.magnitude : ℤ) = _
      push_cast
      ring
  rw [if_neg (fun hno => hless ((absolute_less hx hy).1 hno))] at hr
  by_cases hequal : Binary64.units x.magnitude = Binary64.units y.magnitude
  · rw [if_pos ((absolute_equal hx hy).2 hequal)] at hr
    rw [hequal, Nat.mod_self, if_pos rfl, Nat.div_self hypos] at hn
    cases hr
    refine ⟨show 0 < Binary64.infBits by decide, ?_, by omega⟩
    rw [← hn, hequal, show zero.signedUnits = 0 from zero_signedUnits false]
    push_cast
    ring
  rw [if_neg (fun hno => hequal ((absolute_equal hx hy).1 hno))] at hr
  obtain ⟨k, d, hreduction⟩ := @reducePositive_spec (absoluteDouble x) (absoluteDouble y) mode hx hy rfl rfl hyzero (not_lt.1 hless)
  obtain ⟨reduction, hname⟩ : ∃ reduction, reducePositive mode (absoluteDouble x) (absoluteDouble y) = reduction := ⟨_, rfl⟩
  change Reduction (Binary64.units x.magnitude) (Binary64.units y.magnitude) _ k d at hreduction
  rw [hname] at hr hreduction
  have hkd := hreduction.less
  have hd := hreduction.bound
  have hylt := Nat.mod_lt (Binary64.units x.magnitude) hypos
  have hsplit := Nat.div_add_mod' (Binary64.units x.magnitude) (Binary64.units y.magnitude)
  obtain ⟨hparity, hmore, hhalf⟩ := hreduction.bounds
  have htwice := hreduction.remainder.double mode (hkd.trans hd)
  have hmask : ∀ v, v &&& 0x7f = v % 128 := fun v => Nat.and_two_pow_sub_one_eq_mod v 7
  have hcondition : (reduction.divisorUnit.less (reduction.remainderUnit.mulIn mode two) ||
      ((reduction.remainderUnit.mulIn mode two).equal reduction.divisorUnit && decide (reduction.quotientLow &&& 1 ≠ 0))) = true ↔
      Binary64.units y.magnitude < 2 * (Binary64.units x.magnitude % Binary64.units y.magnitude) ∨
        (2 * (Binary64.units x.magnitude % Binary64.units y.magnitude) = Binary64.units y.magnitude ∧
          Binary64.units x.magnitude / Binary64.units y.magnitude % 2 = 1) := by
    rw [Bool.or_eq_true, Bool.and_eq_true, hreduction.divisor.less_iff htwice, htwice.equal_iff hreduction.divisor,
      decide_eq_true_iff, Nat.and_one_is_mod, hreduction.quotient, hparity, ← hmore, ← hhalf]
    omega
  have hrest := hreduction.rest
  have hdivides := hreduction.divides
  have hquotient := hreduction.quotient
  obtain ⟨rest, hrestName⟩ : ∃ rest, Binary64.units x.magnitude % Binary64.units y.magnitude = rest := ⟨_, rfl⟩
  obtain ⟨low, hlowName⟩ : ∃ low, Binary64.units x.magnitude / Binary64.units y.magnitude = low := ⟨_, rfl⟩
  rw [hrestName, hlowName] at hn hcondition hsplit
  rw [hrestName] at hrest hylt
  rw [hlowName] at hquotient
  have hsplit' : (low : ℤ) * Binary64.units y.magnitude + rest = Binary64.units x.magnitude := by exact_mod_cast hsplit
  by_cases hup : Binary64.units y.magnitude < 2 * rest ∨ (2 * rest = Binary64.units y.magnitude ∧ low % 2 = 1)
  · have hn' : low + 1 = n := by
      rw [if_neg (by omega), if_pos hup] at hn
      exact hn
    rw [if_pos (hcondition.2 hup)] at hr
    cases hr
    have hdifference := hreduction.remainder.sub mode hreduction.divisor (by omega)
    have ht : ((rest - Binary64.units y.magnitude : ℤ) : ℚ) = ((k - d : ℤ) : ℚ) * 2 ^ ((lastBit : ℤ) + reduction.divisorExponent) := by
      push_cast
      rw [hrest, hdivides]
      ring
    obtain ⟨hfinite, hunits⟩ := scale_inBits mode hdifference (by omega) ht (by omega)
    refine ⟨hfinite, ?_, ?_⟩
    · rw [hunits, ← hn', ← hsplit']
      push_cast
      ring
    · rw [hmask, hquotient, ← hn']
      omega
  · have hn' : low = n := by
      rw [if_neg hup, ite_self] at hn
      exact hn
    rw [if_neg (fun hno => hup (hcondition.1 hno))] at hr
    cases hr
    obtain ⟨hfinite, hunits⟩ := @scale_inBits mode _ k rest _ hreduction.remainder (by omega) hrest (by omega)
    refine ⟨hfinite, ?_, ?_⟩
    · rw [hunits, ← hn', ← hsplit']
      ring
    · rw [hquotient, hn']

/-! ### Values -/

theorem cast_signed (neg : Bool) (n : Int) : ((signed neg n : ℤ) : ℚ) = signed neg (n : ℚ) := by
  cases neg
  · rfl
  · exact Int.cast_neg n

theorem value_eq (x : Binary64) : x.value = (x.signedUnits : ℚ) / 2 ^ binary64.unitBits := by
  rw [signedUnits_eq, cast_signed, signed_div]
  rfl

/-- The quotient that a mode selects, by the units. -/
theorem select_quotient (rounding : RoundingMode) (x : Binary64) (hyzero : y.magnitude ≠ 0) :
    rounding.select (x.value / y.value) = signed (x.neg ^^ y.neg)
      (rounding.roundDiv (x.neg ^^ y.neg) (Binary64.units x.magnitude) (Binary64.units y.magnitude) : ℤ) := by
  have hpos : (2 : ℚ) ^ binary64.unitBits ≠ 0 := by positivity
  have hquotient : x.value / y.value =
      signed (x.neg ^^ y.neg) ((Binary64.units x.magnitude : ℚ) / Binary64.units y.magnitude) := by
    rw [value_eq, value_eq, div_div_div_cancel_right₀ hpos, signedUnits_eq, signedUnits_eq, cast_signed, cast_signed]
    cases x.neg <;> cases y.neg <;> simp [signed, neg_div, div_neg]
  rw [hquotient]
  exact rounding.select_div _ _ (units_pos hyzero)

/-- `r` is what a division leaves whose quotient the rounding selects; a zero has the sign of `x`. -/
structure IsRemainder (rounding : RoundingMode) (x y r : Binary64) : Prop where
  finite : r.Finite
  value : r.value = x.value - rounding.select (x.value / y.value) * y.value
  sign : r.value = 0 → r.neg = x.neg

theorem IsRemainder.of_units {rounding : RoundingMode} {r : Binary64} (hyzero : y.magnitude ≠ 0) (hr : r.Finite) {n : Nat}
    (hn : rounding.roundDiv (x.neg ^^ y.neg) (Binary64.units x.magnitude) (Binary64.units y.magnitude) = n)
    (hunits : r.signedUnits = signed x.neg ((Binary64.units x.magnitude : ℤ) - n * Binary64.units y.magnitude))
    (hsign : r.signedUnits = 0 → r.neg = x.neg) : IsRemainder rounding x y r := by
  have hpos : (2 : ℚ) ^ binary64.unitBits ≠ 0 := by positivity
  refine ⟨hr, ?_, fun hzero => hsign ?_⟩
  · rw [select_quotient rounding x hyzero, hn, value_eq, value_eq, value_eq, hunits, signedUnits_eq, signedUnits_eq,
      cast_signed, cast_signed, cast_signed, cast_signed]
    push_cast
    cases x.neg <;> cases y.neg <;> simp only [signed, Bool.xor_false, Bool.xor_true, Bool.not_false, Bool.not_true,
      Bool.false_eq_true, if_true, if_false] <;> ring
  · rw [value_eq, div_eq_zero_iff, or_iff_left hpos] at hzero
    exact_mod_cast hzero

theorem abs_value (x : Binary64) : |x.value| = (x.signedUnits.natAbs : ℚ) / 2 ^ binary64.unitBits := by
  rw [value_eq, abs_div, abs_of_pos (show (0 : ℚ) < 2 ^ binary64.unitBits by positivity), Nat.cast_natAbs, Int.cast_abs]

theorem natAbs_signedUnits (x : Binary64) : x.signedUnits.natAbs = Binary64.units x.magnitude := by
  rw [signedUnits_eq]
  cases x.neg <;> simp [signed]

/-! ### The functions -/

/-- The checks that come first, for finite numbers. -/
theorem checks (hx : x.Finite) (hy : y.Finite) (hyzero : y.magnitude ≠ 0) :
    x.isNan = false ∧ y.isNan = false ∧ remainderDomain x y = false ∧ y.isInf = false := by
  refine ⟨hx.flags.1, hy.flags.1, ?_, hy.flags.2⟩
  unfold remainderDomain
  rw [hx.flags.2, Bool.false_or]
  exact decide_eq_false hyzero

theorem fmod_spec (mode : RoundingMode) (hx : x.Finite) (hy : y.Finite) (hyzero : y.magnitude ≠ 0) :
    ∃ r, fmod mode x y = (r, false) ∧ r.Finite ∧
      r.signedUnits = signed x.neg ((Binary64.units x.magnitude % Binary64.units y.magnitude : Nat) : ℤ) ∧
      r.neg = x.neg := by
  obtain ⟨hxnan, hynan, hdomain, hyinf⟩ := checks hx hy hyzero
  unfold fmod
  rw [hxnan, hynan, hdomain, hyinf]
  simp only [Bool.false_eq_true, if_false, Bool.false_or]
  by_cases hzero : x.isZero = true
  · have hunits : Binary64.units x.magnitude = 0 := by
      rw [← natAbs_signedUnits, (isZero_iff x).1 hzero]
      rfl
    rw [if_pos hzero]
    refine ⟨x, rfl, hx, ?_, rfl⟩
    rw [signedUnits_eq, hunits, Nat.zero_mod]
  · rw [if_neg hzero]
    exact ⟨_, rfl, fmodFinite_spec mode hx hy hyzero⟩

theorem remainder_spec (mode : RoundingMode) (hx : x.Finite) (hy : y.Finite) (hyzero : y.magnitude ≠ 0) {n : Nat}
    (hn : RoundingMode.toNearest.roundDiv false (Binary64.units x.magnitude) (Binary64.units y.magnitude) = n) :
    ∃ r, remainder mode x y = (r, false) ∧ r.Finite ∧
      r.signedUnits = signed x.neg ((Binary64.units x.magnitude : ℤ) - n * Binary64.units y.magnitude) ∧
      (r.signedUnits = 0 → r.neg = x.neg) ∧
      remquo mode x y = (r, false, signed (x.neg ^^ y.neg) ((n % 128 : Nat) : ℤ)) := by
  obtain ⟨hxnan, hynan, hdomain, hyinf⟩ := checks hx hy hyzero
  unfold remainder remquo
  rw [hxnan, hynan, hdomain, hyinf]
  simp only [Bool.false_eq_true, if_false, Bool.false_or]
  by_cases hzero : x.isZero = true
  · have hunits : Binary64.units x.magnitude = 0 := by
      rw [← natAbs_signedUnits, (isZero_iff x).1 hzero]
      rfl
    have hn' : n = 0 := by
      rw [← hn, hunits, RoundingMode.roundDiv_exact _ _ (Nat.zero_mod _), Nat.zero_div]
    rw [if_pos hzero, if_pos hzero]
    refine ⟨x, rfl, hx, ?_, fun _ => rfl, ?_⟩
    · rw [signedUnits_eq, hunits, hn', Nat.cast_zero, Int.zero_mul, sub_zero]
    · rw [hn']
      cases x.neg ^^ y.neg <;> rfl
  · rw [if_neg hzero, if_neg hzero]
    obtain ⟨⟨r, q⟩, hr⟩ : ∃ s, nearestFinite mode (absoluteDouble x) (absoluteDouble y) = s := ⟨_, rfl⟩
    obtain ⟨hfinite, hunits, hq⟩ := nearestFinite_spec mode hx hy hyzero hr hn
    obtain ⟨hresult, hsigned, hsign⟩ := finish_spec x hfinite rfl rfl
    rw [hunits] at hsigned
    have hlow : q &&& 0x7f = n % 128 := by
      have hmask : q &&& 0x7f = q % 128 := Nat.and_two_pow_sub_one_eq_mod q 7
      omega
    unfold remainderFinite
    rw [hr]
    dsimp only
    refine ⟨_, rfl, hresult, hsigned, fun hno => hsign ?_, ?_⟩
    · rw [hunits]
      rw [hsigned] at hno
      cases hneg : x.neg
      · rw [hneg] at hno
        exact hno
      · rw [hneg] at hno
        exact neg_eq_zero.1 hno
    · rw [hlow]
      cases x.neg <;> cases y.neg <;> rfl

/-- The nearest multiple is not farther than half a divisor. -/
theorem nearest_bound {a b n : Nat} (hb : 0 < b) (hn : RoundingMode.toNearest.roundDiv false a b = n) :
    2 * ((a : ℤ) - n * b).natAbs ≤ b := by
  have hsplit : (a / b : Nat) * (b : ℤ) + (a % b : Nat) = a := by exact_mod_cast Nat.div_add_mod' a b
  have hlt := Nat.mod_lt a hb
  unfold RoundingMode.roundDiv at hn
  dsimp only at hn
  generalize a / b = q at hn hsplit
  generalize a % b = r at hn hsplit hlt
  have hup : a - ((q + 1 : Nat) : ℤ) * b = (r : ℤ) - b := by
    rw [← hsplit]
    push_cast
    ring
  have hdown : (a : ℤ) - (q : Nat) * b = r := by
    rw [← hsplit]
    ring
  split_ifs at hn <;> subst hn
  · rw [hdown]
    omega
  · rw [hup]
    omega
  · rw [hdown]
    omega

/-- The subtraction and the doubling of every iteration are exact. -/
structure ExactIteration (mode : RoundingMode) (divisor : Binary64) (s : Binary64 × Nat) : Prop where
  subtraction : atLeast s.1 divisor = true → (s.1.subIn mode divisor).Finite ∧
    (s.1.subIn mode divisor).value = s.1.value - divisor.value
  doubling : ((reduceStep mode divisor s).1.mulIn mode two).Finite ∧
    ((reduceStep mode divisor s).1.mulIn mode two).value = 2 * (reduceStep mode divisor s).1.value

theorem InBits.value {z : Binary64} {n : Int} (hz : InBits z n) :
    z.value = n * 2 ^ lastBit / 2 ^ binary64.unitBits := by
  rw [value_eq, hz.2]
  push_cast
  rfl

theorem exactIteration (mode : RoundingMode) (hx : x.Finite) (hy : y.Finite) (hxneg : x.neg = false)
    (hyneg : y.neg = false) (hxzero : x.magnitude ≠ 0) (hyzero : y.magnitude ≠ 0) (i : Nat) :
    ExactIteration mode (frexp y).1 (loopHead mode (frexp y).1 ((frexp x).1, 0) i) := by
  obtain ⟨sx, hsx, hsx', hxbits, -⟩ := frexp_bits hx hxzero hxneg
  obtain ⟨sy, hsy, hsy', hybits, -⟩ := frexp_bits hy hyzero hyneg
  have hhead := loopHead_spec mode hybits hsy' hxbits (by omega) i
  have hstep := (hhead.step mode hybits hsy').bits
  obtain ⟨n, q, hn, hlt, -, -⟩ := hhead
  refine ⟨fun hle => ?_, ?_⟩
  · have hle' := (hn.atLeast_iff hybits).1 hle
    have hdifference := hn.sub mode hybits (by omega)
    refine ⟨hdifference.1, ?_⟩
    rw [hdifference.value, hn.value, hybits.value]
    push_cast
    ring
  · have hrest := Nat.mod_lt (sx * 2 ^ i) (show 0 < sy by omega)
    have hdouble := hstep.double mode (hrest.trans hsy')
    refine ⟨hdouble.1, ?_⟩
    rw [hdouble.value, hstep.value]
    push_cast
    ring

/-- The remainders of finite numbers, in every mode: what they return is exact, for
the quotient that is cut off or the nearest one; `remquo` also gives the low bits of
that quotient; and no iteration of the loop rounds. -/
theorem remainders_exact (mode : RoundingMode) (hx : x.Finite) (hy : y.Finite) (hyzero : y.magnitude ≠ 0) :
    (∃ r, fmod mode x y = (r, false) ∧ IsRemainder .towardZero x y r ∧ r.neg = x.neg ∧ |r.value| < |y.value|) ∧
    (∃ r, remainder mode x y = (r, false) ∧ IsRemainder .toNearest x y r ∧ 2 * |r.value| ≤ |y.value| ∧
      remquo mode x y = (r, false, signed (x.neg ^^ y.neg)
        (((RoundingMode.toNearest.select (x.value / y.value)).natAbs % 128 : Nat) : ℤ))) ∧
    (x.magnitude ≠ 0 → ∀ i : Nat, (i : ℤ) ≤ (frexp (absoluteDouble x)).2 - (frexp (absoluteDouble y)).2 →
      ExactIteration mode (frexp (absoluteDouble y)).1
        (loopHead mode (frexp (absoluteDouble y)).1 ((frexp (absoluteDouble x)).1, 0) i)) := by
  have hypos := units_pos hyzero
  have hunit : (0 : ℚ) < 2 ^ binary64.unitBits := by positivity
  refine ⟨?_, ?_, fun hxzero i _ => ?_⟩
  · obtain ⟨r, hr, hfinite, hunits, hneg⟩ := fmod_spec mode hx hy hyzero
    have hquotient : RoundingMode.towardZero.roundDiv (x.neg ^^ y.neg) (Binary64.units x.magnitude)
        (Binary64.units y.magnitude) = Binary64.units x.magnitude / Binary64.units y.magnitude := ite_self _
    have hsplit := Nat.div_add_mod' (Binary64.units x.magnitude) (Binary64.units y.magnitude)
    refine ⟨r, hr, IsRemainder.of_units hyzero hfinite hquotient ?_ (fun _ => hneg), hneg, ?_⟩
    · have hrest : ((Binary64.units x.magnitude % Binary64.units y.magnitude : Nat) : ℤ) = Binary64.units x.magnitude -
          (Binary64.units x.magnitude / Binary64.units y.magnitude : Nat) * Binary64.units y.magnitude := by
        rw [eq_sub_iff_add_eq, add_comm]
        exact_mod_cast hsplit
      rw [hunits, hrest]
    · rw [abs_value, abs_value, natAbs_signedUnits y, div_lt_div_iff_of_pos_right hunit, Nat.cast_lt, hunits]
      have hlt := Nat.mod_lt (Binary64.units x.magnitude) hypos
      cases x.neg <;> simp only [signed, if_true, if_false, Bool.false_eq_true] <;> omega
  · obtain ⟨n, hn⟩ : ∃ n, RoundingMode.toNearest.roundDiv false (Binary64.units x.magnitude)
        (Binary64.units y.magnitude) = n := ⟨_, rfl⟩
    obtain ⟨r, hr, hfinite, hunits, hsign, hremquo⟩ := remainder_spec mode hx hy hyzero hn
    refine ⟨r, hr, IsRemainder.of_units hyzero hfinite hn hunits hsign, ?_, ?_⟩
    · have hbound := nearest_bound hypos hn
      have habs : r.signedUnits.natAbs = ((Binary64.units x.magnitude : ℤ) - n * Binary64.units y.magnitude).natAbs := by
        rw [hunits]
        cases x.neg
        · rfl
        · exact Int.natAbs_neg _
      rw [abs_value, abs_value, natAbs_signedUnits y, habs, ← mul_div_assoc, div_le_div_iff_of_pos_right hunit]
      exact_mod_cast hbound
    · have hselect : (RoundingMode.toNearest.select (x.value / y.value)).natAbs = n := by
        rw [select_quotient .toNearest x hyzero, roundDiv_toNearest, hn]
        cases x.neg ^^ y.neg <;> simp [signed]
      rw [hselect]
      exact hremquo
  · exact @exactIteration (absoluteDouble x) (absoluteDouble y) mode hx hy rfl rfl hxzero hyzero i

end Results

theorem value_ofNat {s : Nat} (hs : s < 2 ^ 53) : (ofNat s).value = s := by
  obtain ⟨-, hneg, hunits⟩ := ofNat_exact hs
  have hvalue : (ofNat s).value =
      signed (ofNat s).neg ((Binary64.units (ofNat s).magnitude : ℚ) / 2 ^ Binary64.unitBits) := rfl
  rw [hvalue, hneg, hunits]
  generalize Binary64.unitBits = bits
  have hpow : (0 : ℚ) < 2 ^ bits := by positivity
  rw [Nat.cast_mul, Nat.cast_pow, Nat.cast_ofNat, mul_div_cancel_right₀ _ hpow.ne']
  rfl

theorem ofNat_magnitude {s : Nat} (hs : s < 2 ^ 53) (h0 : s ≠ 0) : (ofNat s).magnitude ≠ 0 := by
  intro hzero
  have hunits := (ofNat_exact hs).2.2
  rw [hzero] at hunits
  have hpos : 0 < s * 2 ^ Binary64.unitBits := Nat.mul_pos (Nat.pos_of_ne_zero h0) (Nat.two_pow_pos _)
  exact hpos.ne hunits

/-- Five goes into three once, and nearly twice. -/
theorem remainders_exact_five :
    (∃ r, fmod .upward (ofNat 5) (ofNat 3) = (r, false) ∧ r.value = 2) ∧
    (∃ r, remainder .upward (ofNat 5) (ofNat 3) = (r, false) ∧ r.value = -1 ∧
      remquo .upward (ofNat 5) (ofNat 3) = (r, false, 2)) := by
  have hfive : (ofNat 5).value = 5 := by exact_mod_cast value_ofNat (show 5 < 2 ^ 53 by decide)
  have hthree : (ofNat 3).value = 3 := by exact_mod_cast value_ofNat (show 3 < 2 ^ 53 by decide)
  have hcut : RoundingMode.towardZero.select (5 / 3) = 1 := by
    unfold RoundingMode.select
    norm_num
  have hnearest : RoundingMode.toNearest.select (5 / 3) = 2 := by
    unfold RoundingMode.select RoundingMode.nearestEven
    norm_num
  obtain ⟨⟨r, hr, hrest, -⟩, ⟨r', hr', hrest', -, hquo⟩, -⟩ :=
    remainders_exact .upward (x := ofNat 5) (y := ofNat 3) (ofNat_exact (by decide)).1 (ofNat_exact (by decide)).1
      (ofNat_magnitude (by decide) (by decide))
  have hvalue := hrest.value
  have hvalue' := hrest'.value
  rw [hfive, hthree, hcut] at hvalue
  rw [hfive, hthree, hnearest] at hvalue'
  rw [hfive, hthree, hnearest] at hquo
  refine ⟨⟨r, hr, ?_⟩, ⟨r', hr', ?_, hquo⟩⟩
  · rw [hvalue]
    norm_num
  · rw [hvalue']
    norm_num

end MiniLibc.Math
