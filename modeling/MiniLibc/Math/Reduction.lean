import Mathlib
import MiniLibc.Lib.FloatArith
import MiniLibc.Math.Frexp
/-!
# The reduction

`reduce_positive` divides the fractions of two numbers bit by bit, with a subtraction
and a doubling for each bit of the quotient. The arithmetic is that of the mode of
the environment; none of it rounds.
-/

namespace MiniLibc.Math

open FloatFormat Binary64

/-! ## The source -/

def absoluteDouble (value : Binary64) : Binary64 := { value with neg := false }

/-- `2.0` -/
def two : Binary64 := pow2 1 (by decide)

/-- `x >= y` -/
def atLeast (x y : Binary64) : Bool := y.less x || y.equal x

/-- `struct mini_reduction` -/
structure MiniReduction where
  remainderUnit : Binary64
  divisorUnit : Binary64
  divisorExponent : Int
  quotientLow : Nat

/-- The body of the loop before the doubling: the remainder and the low bits of the quotient. -/
def reduceStep (mode : RoundingMode) (divisor : Binary64) (s : Binary64 × Nat) : Binary64 × Nat :=
  let (remainder, quotient) := s
  let (remainder, bit) := if atLeast remainder divisor then (remainder.subIn mode divisor, 1) else (remainder, 0)
  (remainder, (quotient <<< 1 ||| bit) &&& 0x7f)

/-- The loop, when so many more iterations follow the first. -/
def reduceLoop (mode : RoundingMode) (divisor : Binary64) : Nat → Binary64 × Nat → Binary64 × Nat
  | 0, s => reduceStep mode divisor s
  | left + 1, s =>
    let s := reduceStep mode divisor s
    reduceLoop mode divisor left (s.1.mulIn mode two, s.2)

def reducePositive (mode : RoundingMode) (x y : Binary64) : MiniReduction :=
  let (remainder, xExponent) := frexp x
  let (divisor, yExponent) := frexp y
  let shifts := xExponent - yExponent
  let (remainder, quotient) :=
    if shifts < 0 then (remainder, 0) else reduceLoop mode divisor shifts.toNat (remainder, 0)
  ⟨remainder, divisor, yExponent, quotient⟩

/-! ## The loop -/

/-- The state at the beginning of an iteration. -/
def loopHead (mode : RoundingMode) (divisor : Binary64) (s : Binary64 × Nat) : Nat → Binary64 × Nat
  | 0 => s
  | i + 1 =>
    let s := reduceStep mode divisor (loopHead mode divisor s i)
    (s.1.mulIn mode two, s.2)

theorem loopHead_succ (mode : RoundingMode) (divisor : Binary64) (s : Binary64 × Nat) (i : Nat) :
    loopHead mode divisor s (i + 1) = loopHead mode divisor (loopHead mode divisor s 1) i := by
  induction i with
  | zero => rfl
  | succ i ih =>
    rw [loopHead, ih]
    rfl

theorem reduceLoop_eq (mode : RoundingMode) (divisor : Binary64) (left : Nat) (s : Binary64 × Nat) :
    reduceLoop mode divisor left s = reduceStep mode divisor (loopHead mode divisor s left) := by
  induction left generalizing s with
  | zero => rfl
  | succ left ih =>
    rw [loopHead_succ]
    exact ih _

/-- The last bit of a fraction of at least a half. -/
def lastBit : Nat := 1021

/-- A number in last bits of a fraction. -/
def InBits (x : Binary64) (n : Int) : Prop := x.Finite ∧ x.signedUnits = n * 2 ^ lastBit

theorem InBits.less_iff {x y : Binary64} {n k : Int} (hx : InBits x n) (hy : InBits y k) : x.less y = true ↔ n < k := by
  have hpos : (0 : ℤ) < 2 ^ lastBit := by positivity
  rw [Binary64.less_iff hx.1 hy.1, hx.2, hy.2, mul_lt_mul_iff_left₀ hpos]

theorem InBits.equal_iff {x y : Binary64} {n k : Int} (hx : InBits x n) (hy : InBits y k) : x.equal y = true ↔ n = k := by
  have hpos : (0 : ℤ) < 2 ^ lastBit := by positivity
  rw [Binary64.equal_iff hx.1 hy.1, hx.2, hy.2, mul_left_inj' hpos.ne']

theorem InBits.atLeast_iff {x y : Binary64} {n k : Int} (hx : InBits x n) (hy : InBits y k) :
    atLeast x y = true ↔ k ≤ n := by
  unfold atLeast
  rw [Bool.or_eq_true, hy.less_iff hx, hy.equal_iff hx, le_iff_lt_or_eq]

theorem bits_bound {n j : Nat} (h : n < 2 ^ 53) (hj : j ≤ 2045) : n * 2 ^ j < 2 ^ Binary64.topBits := by
  obtain ⟨k, hk, htop⟩ : ∃ k, j ≤ k ∧ Binary64.topBits = 53 + k := ⟨2045, hj, rfl⟩
  rw [htop, pow_add]
  exact Nat.mul_lt_mul_of_lt_of_le h (Nat.pow_le_pow_right (by decide) hk) (Nat.two_pow_pos _)

/-- A whole number of last bits below one is a number. -/
theorem exists_inBits {n : Int} (h : n.natAbs < 2 ^ 53) : ∃ z, InBits z n := by
  obtain ⟨z, hz, hunits⟩ := exists_signedUnits (decide (n < 0)) h (bits_bound h (show lastBit ≤ 2045 by decide))
  refine ⟨z, hz, ?_⟩
  rw [hunits]
  rcases lt_or_ge n 0 with hneg | hpos
  · rw [decide_eq_true hneg, signed, if_pos rfl, ← neg_mul]
    congr 1
    omega
  · rw [decide_eq_false (not_lt.2 hpos), signed, if_neg Bool.false_ne_true]
    congr 1
    omega

theorem InBits.sub (mode : RoundingMode) {x y : Binary64} {n k : Int} (hx : InBits x n) (hy : InBits y k)
    (h : (n - k).natAbs < 2 ^ 53) : InBits (x.subIn mode y) (n - k) := by
  obtain ⟨z, hz, hunits⟩ := exists_inBits h
  have hdifference : z.signedUnits = x.signedUnits - y.signedUnits := by
    rw [hunits, hx.2, hy.2]
    ring
  obtain ⟨hfinite, hexact⟩ := subIn_exact mode hx.1 hy.1 hz hdifference
  exact ⟨hfinite, by rw [hexact, ← hdifference, hunits]⟩

theorem InBits.double (mode : RoundingMode) {x : Binary64} {n : Nat} (hx : InBits x n) (h : n < 2 ^ 53) :
    InBits (x.mulIn mode two) (2 * n : Nat) := by
  obtain ⟨z, hz, hunits⟩ := exists_signedUnits false h (bits_bound h (show lastBit + 1 ≤ 2045 by decide))
  have hdouble : z.signedUnits = 2 * x.signedUnits := by
    rw [hunits, hx.2]
    show (n : ℤ) * 2 ^ (lastBit + 1) = _
    ring
  obtain ⟨hfinite, hexact⟩ := mulIn_two mode hx.1 hz hdouble
  refine ⟨hfinite, ?_⟩
  show (x.mulIn mode (pow2 1 (by decide))).signedUnits = _
  rw [hexact, hx.2]
  push_cast
  ring

/-- The state at the beginning of iteration `i`: the low bits of the quotient so far,
and twice what it leaves. -/
def AtHead (sx sy i : Nat) (s : Binary64 × Nat) : Prop :=
  ∃ n q : Nat, InBits s.1 n ∧ n < 2 * sy ∧ sx * 2 ^ i = 2 * q * sy + n ∧ s.2 = q % 128

/-- The state after the subtraction of iteration `i`. -/
structure Stepped (sx sy i : Nat) (s : Binary64 × Nat) : Prop where
  bits : InBits s.1 (sx * 2 ^ i % sy : Nat)
  quotient : s.2 = sx * 2 ^ i / sy % 128

theorem quotient_bit (q : Nat) {bit : Nat} (h : bit < 2) : ((q % 128) <<< 1 ||| bit) &&& 0x7f = (2 * q + bit) % 128 := by
  have hmask : ∀ v, v &&& 0x7f = v % 128 := fun v => Nat.and_two_pow_sub_one_eq_mod v 7
  rw [hmask, ← Nat.shiftLeft_add_eq_or_of_lt (show bit < 2 ^ 1 from h), Nat.shiftLeft_eq]
  omega

section Loop

variable (mode : RoundingMode) {divisor : Binary64} {sx sy : Nat}

theorem AtHead.step (hd : InBits divisor sy) (hsy : sy < 2 ^ 53) {i : Nat} {s : Binary64 × Nat} (h : AtHead sx sy i s) :
    Stepped sx sy i (reduceStep mode divisor s) := by
  obtain ⟨n, q, hn, hlt, hsplit, hq⟩ := h
  obtain ⟨r, low⟩ := s
  dsimp only at hn hq
  unfold reduceStep
  dsimp only
  rw [hq]
  by_cases hle : sy ≤ n
  · have hbits := hn.sub mode hd (by omega)
    have hsplit' : sx * 2 ^ i = (n - sy) + sy * (2 * q + 1) := by
      rw [hsplit]
      ring_nf
      omega
    have hquotient : sx * 2 ^ i / sy = 2 * q + 1 := by
      rw [hsplit', Nat.add_mul_div_left _ _ (by omega), Nat.div_eq_of_lt (by omega), zero_add]
    have hrest : sx * 2 ^ i % sy = n - sy := by
      rw [hsplit', Nat.add_mul_mod_self_left, Nat.mod_eq_of_lt (by omega)]
    rw [if_pos ((hn.atLeast_iff hd).2 (by exact_mod_cast hle))]
    dsimp only
    refine ⟨?_, ?_⟩
    · rw [hrest, Nat.cast_sub hle]
      exact hbits
    · rw [hquotient]
      exact quotient_bit q (by decide)
  · have hsplit' : sx * 2 ^ i = n + sy * (2 * q) := by
      rw [hsplit]
      ring
    have hquotient : sx * 2 ^ i / sy = 2 * q := by
      rw [hsplit', Nat.add_mul_div_left _ _ (by omega), Nat.div_eq_of_lt (by omega), zero_add]
    have hrest : sx * 2 ^ i % sy = n := by
      rw [hsplit', Nat.add_mul_mod_self_left, Nat.mod_eq_of_lt (by omega)]
    rw [if_neg (fun hno => hle (by exact_mod_cast (hn.atLeast_iff hd).1 hno))]
    dsimp only
    refine ⟨?_, ?_⟩
    · rw [hrest]
      exact hn
    · rw [hquotient]
      exact quotient_bit q (by decide)

theorem Stepped.double (hsy : sy < 2 ^ 53) (hpos : 0 < sy) {i : Nat} {s : Binary64 × Nat} (h : Stepped sx sy i s) :
    AtHead sx sy (i + 1) (s.1.mulIn mode two, s.2) := by
  have hlt := Nat.mod_lt (sx * 2 ^ i) hpos
  have hsplit := Nat.div_add_mod' (sx * 2 ^ i) sy
  refine ⟨_, _, h.bits.double mode (hlt.trans hsy), by omega, ?_, h.quotient⟩
  rw [pow_succ, ← mul_assoc]
  calc sx * 2 ^ i * 2 = (sx * 2 ^ i / sy * sy + sx * 2 ^ i % sy) * 2 := by rw [hsplit]
    _ = _ := by ring

/-- The loop divides: the state at the beginning of every iteration. -/
theorem loopHead_spec (hd : InBits divisor sy) (hsy : sy < 2 ^ 53) {x : Binary64} (hx : InBits x sx) (h : sx < 2 * sy)
    (i : Nat) : AtHead sx sy i (loopHead mode divisor (x, 0) i) := by
  induction i with
  | zero =>
    refine ⟨sx, 0, hx, h, ?_, rfl⟩
    rw [pow_zero]
    ring
  | succ i ih => exact (ih.step mode hd hsy).double mode hsy (by omega)

end Loop

/-! ## The reduction -/

/-- The fraction in last bits, and the number in units. -/
theorem frexp_bits {x : Binary64} (hx : x.Finite) (h : x.magnitude ≠ 0) (hneg : x.neg = false) :
    ∃ s : Nat, 2 ^ 52 ≤ s ∧ s < 2 ^ 53 ∧ InBits (frexp x).1 s ∧
      (Binary64.units x.magnitude : ℚ) = s * 2 ^ ((lastBit : ℤ) + (frexp x).2) := by
  obtain ⟨⟨m', e⟩, hsplit⟩ : ∃ r, frexpMagnitude binary64 x.magnitude = r := ⟨_, rfl⟩
  obtain ⟨hfinite, hlow, hhigh, hunits⟩ := @frexpMagnitude_spec binary64 x.magnitude h hx m' e hsplit
  have hmagnitude : (frexp x).1.magnitude = m' := congrArg Prod.fst hsplit
  have hexponent : (frexp x).2 = e := congrArg Prod.snd hsplit
  obtain ⟨s, k, hsteps, hs, hk⟩ := @exists_steps binary64 m'
  have hone : binary64.unitBits = 53 + lastBit := rfl
  have hfraction : binary64.fractionBits = 52 := rfl
  rw [hsteps, hone] at hlow hhigh
  rw [hfraction] at hs hk
  have hlast : k = lastBit := by
    have hle : lastBit ≤ k := by
      have hlt : 2 ^ (53 + lastBit - 1) < 2 ^ (52 + 1 + k) := by
        rw [pow_add _ _ k]
        exact hlow.trans_lt (Nat.mul_lt_mul_of_pos_right hs (Nat.two_pow_pos k))
      have := (Nat.pow_lt_pow_iff_right (by decide : 1 < 2)).1 hlt
      omega
    apply le_antisymm _ hle
    rcases hk with rfl | hk
    · exact Nat.zero_le _
    · have hlt : 2 ^ (52 + k) < 2 ^ (53 + lastBit) := by
        rw [pow_add _ _ k]
        exact (Nat.mul_le_mul_right _ hk).trans_lt hhigh
      have := (Nat.pow_lt_pow_iff_right (by decide : 1 < 2)).1 hlt
      omega
  have hs' : 2 ^ 52 ≤ s := by
    rcases hk with rfl | hk
    · cases hlast
    · exact hk
  refine ⟨s, hs', hs, ⟨?_, ?_⟩, ?_⟩
  · show (frexp x).1.magnitude < binary64.infBits
    rw [hmagnitude]
    exact hfinite
  · have hsign : (frexp x).1.neg = false := hneg
    rw [signedUnits_eq, hsign, hmagnitude, ← units_binary64, hsteps, hlast]
    show ((s * 2 ^ lastBit : Nat) : ℤ) = _
    push_cast
    rfl
  · rw [← units_binary64, hunits, hsteps, hlast, hexponent, zpow_add₀ (by norm_num), zpow_natCast]
    push_cast
    ring

/-- A division of multiples of one rational. -/
theorem div_mod_scaled {x y n d : Nat} {c : ℚ} (hc : 0 < c) (hd : 0 < d) (hx : (x : ℚ) = n * c) (hy : (y : ℚ) = d * c) :
    x / y = n / d ∧ ((x % y : Nat) : ℚ) = (n % d : Nat) * c := by
  have hlt' : n % d < d := Nat.mod_lt n hd
  have hwhole' : n / d * d + n % d = n := Nat.div_add_mod' n d
  generalize n / d = q at hwhole' ⊢
  generalize n % d = r at hwhole' hlt' ⊢
  have hrest : ((x - q * y : ℤ) : ℚ) = r * c := by
    push_cast
    rw [hx, hy, ← hwhole']
    push_cast
    ring
  have hpos : 0 ≤ (x - q * y : ℤ) := by
    have : (0 : ℚ) ≤ ((x - q * y : ℤ) : ℚ) := by
      rw [hrest]
      positivity
    exact_mod_cast this
  have hlt : (x - q * y : ℤ) < y := by
    have : ((x - q * y : ℤ) : ℚ) < y := by
      rw [hrest, hy]
      apply mul_lt_mul_of_pos_right _ hc
      exact_mod_cast hlt'
    exact_mod_cast this
  obtain ⟨t, ht⟩ := Int.eq_ofNat_of_zero_le hpos
  rw [ht] at hlt hrest
  have hwhole : x = t + y * q := by
    have : (x : ℤ) = t + y * q := by
      rw [← ht]
      ring
    exact_mod_cast this
  have hty : t < y := by exact_mod_cast hlt
  constructor
  · rw [hwhole, Nat.add_mul_div_left _ _ (by omega), Nat.div_eq_of_lt hty, zero_add]
  · rw [hwhole, Nat.add_mul_mod_self_left, Nat.mod_eq_of_lt hty, ← hrest]
    rfl

/-- What the reduction returns for `x` and `y` units: the remainder and the divisor in
last bits, which are `2 ^ divisorExponent` times the units. -/
structure Reduction (x y : Nat) (r : MiniReduction) (n d : Nat) : Prop where
  remainder : InBits r.remainderUnit n
  divisor : InBits r.divisorUnit d
  less : n < d
  bound : d < 2 ^ 53
  rest : ((x % y : Nat) : ℚ) = n * 2 ^ ((lastBit : ℤ) + r.divisorExponent)
  divides : (y : ℚ) = d * 2 ^ ((lastBit : ℤ) + r.divisorExponent)
  quotient : r.quotientLow = x / y % 128

section Reduce

variable {x y : Binary64}

/-- The larger number has the larger exponent. -/
theorem exponent_le {sx sy a b : Nat} {e f : Int} (hx : (a : ℚ) = sx * 2 ^ ((lastBit : ℤ) + e))
    (hy : (b : ℚ) = sy * 2 ^ ((lastBit : ℤ) + f)) (hsx : sx < 2 ^ 53) (hsy : 2 ^ 52 ≤ sy) (h : b ≤ a) : f ≤ e := by
  by_contra hlt
  have hstep : (2 : ℚ) ^ ((lastBit : ℤ) + e) * 2 ≤ 2 ^ ((lastBit : ℤ) + f) := by
    rw [← zpow_add_one₀ (by norm_num)]
    exact zpow_le_zpow_right₀ (by norm_num) (by omega)
  have hsx' : (sx : ℚ) < 2 ^ 53 := by exact_mod_cast hsx
  have hsy' : (2 ^ 52 : ℚ) ≤ sy := by exact_mod_cast hsy
  have hab : (b : ℚ) ≤ a := by exact_mod_cast h
  have hless : (a : ℚ) < b := by
    rw [hx, hy]
    calc (sx : ℚ) * 2 ^ ((lastBit : ℤ) + e) < 2 ^ 53 * 2 ^ ((lastBit : ℤ) + e) :=
          mul_lt_mul_of_pos_right hsx' (by positivity)
      _ = 2 ^ 52 * (2 ^ ((lastBit : ℤ) + e) * 2) := by ring
      _ ≤ sy * 2 ^ ((lastBit : ℤ) + f) := by gcongr
  exact absurd hab (not_le.2 hless)

theorem reducePositive_spec (mode : RoundingMode) (hx : x.Finite) (hy : y.Finite) (hxneg : x.neg = false)
    (hyneg : y.neg = false) (hyzero : y.magnitude ≠ 0)
    (h : Binary64.units y.magnitude ≤ Binary64.units x.magnitude) :
    ∃ n d, Reduction (Binary64.units x.magnitude) (Binary64.units y.magnitude) (reducePositive mode x y) n d := by
  have hxzero : x.magnitude ≠ 0 := by
    intro hno
    have hlt := Binary64.units_strictMono (Nat.pos_of_ne_zero hyzero)
    rw [hno] at h
    omega
  obtain ⟨sx, hsx, hsx', hxbits, hxunits⟩ := frexp_bits hx hxzero hxneg
  obtain ⟨sy, hsy, hsy', hybits, hyunits⟩ := frexp_bits hy hyzero hyneg
  obtain ⟨i, hi⟩ := Int.eq_ofNat_of_zero_le (sub_nonneg.2 (exponent_le hxunits hyunits hsx' hsy h))
  have hscaled : (Binary64.units x.magnitude : ℚ) = (sx * 2 ^ i : Nat) * 2 ^ ((lastBit : ℤ) + (frexp y).2) := by
    rw [hxunits, show (lastBit : ℤ) + (frexp x).2 = i + (lastBit + (frexp y).2) by omega, zpow_add₀ (by norm_num),
      zpow_natCast]
    push_cast
    ring
  obtain ⟨hquotient, hrest⟩ := div_mod_scaled (by positivity) (by omega) hscaled hyunits
  have hstep := (loopHead_spec mode hybits hsy' hxbits (by omega) i).step mode hybits hsy'
  have hreduce : reducePositive mode x y = ⟨(reduceLoop mode (frexp y).1 i ((frexp x).1, 0)).1, (frexp y).1,
      (frexp y).2, (reduceLoop mode (frexp y).1 i ((frexp x).1, 0)).2⟩ := by
    unfold reducePositive
    dsimp only
    rw [hi, if_neg (by omega), Int.toNat_natCast]
  rw [hreduce, reduceLoop_eq]
  exact ⟨_, sy, hstep.bits, hybits, Nat.mod_lt _ (by omega), hsy', hrest, hyunits, by rw [hquotient]; exact hstep.quotient⟩

/-- The scaling of a remainder has the units of the remainder. -/
theorem scale_inBits (mode : RoundingMode) {z : Binary64} {n : Int} {t : Int} {e : Int} (hz : InBits z n)
    (hn : n.natAbs < 2 ^ 53) (ht : (t : ℚ) = n * 2 ^ ((lastBit : ℤ) + e)) (hbound : t.natAbs < 2 ^ Binary64.topBits) :
    (scaleDouble z e mode).1.Finite ∧ (scaleDouble z e mode).1.signedUnits = t := by
  have hscale : (0 : ℚ) < 2 ^ ((lastBit : ℤ) + e) := by positivity
  have habs : (t.natAbs : ℚ) = n.natAbs * 2 ^ ((lastBit : ℤ) + e) := by
    rw [Nat.cast_natAbs, Nat.cast_natAbs, Int.cast_abs, Int.cast_abs, ht, abs_mul, abs_of_pos hscale]
  have hunits : Binary64.units z.magnitude = n.natAbs * 2 ^ lastBit := by
    have hbits := congrArg Int.natAbs hz.2
    rw [signedUnits_eq, Int.natAbs_mul, Int.natAbs_pow] at hbits
    rw [← show (2 : ℤ).natAbs = 2 from rfl, ← hbits]
    cases z.neg <;> simp [signed]
  obtain ⟨m, hm, hmt⟩ : ∃ m, m < infBits binary64 ∧ Binary64.units m = t.natAbs := by
    rcases le_or_gt 0 ((lastBit : ℤ) + e) with hpos | hneg
    · obtain ⟨k, hk⟩ := Int.eq_ofNat_of_zero_le hpos
      have hk' : t.natAbs = n.natAbs * 2 ^ k := by
        rw [hk, zpow_natCast] at habs
        exact_mod_cast habs
      rw [hk'] at hbound ⊢
      exact exists_units hn k hbound
    · have hle : t.natAbs ≤ n.natAbs := by
        have hpow : (2 : ℚ) ^ ((lastBit : ℤ) + e) ≤ 1 := zpow_le_one_of_nonpos₀ (by norm_num) hneg.le
        have hmul : (t.natAbs : ℚ) ≤ n.natAbs := by
          rw [habs]
          exact mul_le_of_le_one_right (Nat.cast_nonneg _) hpow
        exact_mod_cast hmul
      have hsmall : t.natAbs < 2 ^ 53 := by omega
      exact ⟨t.natAbs, hsmall.trans (by decide), Binary64.units_small hsmall⟩
  have hexact : scaleMagnitude binary64 z.neg z.magnitude e mode = (m, .exact) := by
    apply @scaleMagnitude_exact binary64 (by decide) z.neg z.magnitude m hz.1 hm e _ mode
    rw [units_binary64, units_binary64, hunits, hmt, habs, zpow_add₀ (by norm_num), zpow_natCast]
    push_cast
    ring
  have hmagnitude : (scaleDouble z e mode).1.magnitude = m := congrArg Prod.fst hexact
  have hneg : (scaleDouble z e mode).1.neg = z.neg := rfl
  have hsign : signed z.neg (t.natAbs : ℤ) = t := by
    have hsu := hz.2
    have hpos : (0 : ℤ) < 2 ^ lastBit := by positivity
    rw [signedUnits_eq] at hsu
    generalize (2 : ℤ) ^ lastBit = c at hsu hpos
    unfold signed at hsu ⊢
    split at hsu
    · -- The units of a negative number are not positive.
      have hle : n ≤ 0 := by nlinarith
      have hle' : (t : ℚ) ≤ 0 := by
        rw [ht]
        exact mul_nonpos_of_nonpos_of_nonneg (by exact_mod_cast hle) hscale.le
      have : t ≤ 0 := by exact_mod_cast hle'
      rw [if_pos ‹_›]
      omega
    · have hle : 0 ≤ n := by nlinarith
      have hle' : (0 : ℚ) ≤ t := by
        rw [ht]
        exact mul_nonneg (by exact_mod_cast hle) hscale.le
      have : 0 ≤ t := by exact_mod_cast hle'
      rw [if_neg ‹_›]
      omega
  refine ⟨?_, ?_⟩
  · unfold Binary64.Finite
    rw [hmagnitude]
    exact hm
  · rw [signedUnits_eq, hmagnitude, hmt, hneg, hsign]

end Reduce

end MiniLibc.Math
