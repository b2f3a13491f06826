import Mathlib
/-!
# The binary64 format

A number is its bit pattern, a sign bit and 63 more: eleven for the exponent and
52 for the fraction. Every finite number is a whole number of units of
`2 ^ (-1074)`, so an exact result is a quotient of two naturals in these units,
and an operation rounds it to the nearest number, ties to even.
-/

namespace MiniLibc

/-- A bit pattern: the sign bit, and the exponent and the fraction. -/
structure Binary64 where
  neg : Bool
  magnitude : Nat
  lt : magnitude < 2 ^ 63
deriving DecidableEq

namespace Binary64

def exponent (x : Binary64) : Nat := x.magnitude / 2 ^ 52

def fraction (x : Binary64) : Nat := x.magnitude % 2 ^ 52

/-- One is `2 ^ unitBits` units. -/
def unitBits : Nat := 1074

/-- Every finite number is below `2 ^ topBits` units. -/
def topBits : Nat := 2098

/-- The magnitude of the infinities. -/
def infBits : Nat := 2047 * 2 ^ 52

/-- The units of a finite magnitude. -/
def units (m : Nat) : Nat :=
  if m / 2 ^ 52 = 0 then m % 2 ^ 52 else (2 ^ 52 + m % 2 ^ 52) * 2 ^ (m / 2 ^ 52 - 1)

/-- The quotient to the nearest integer, ties to even. -/
def divEven (n d : Nat) : Nat :=
  if d < 2 * (n % d) ∨ (2 * (n % d) = d ∧ n / d % 2 = 1) then n / d + 1 else n / d

/-- The magnitude nearest to `n / d` units, or infinity. A magnitude of more than
53 bits is rounded to a multiple of `2 ^ shift` units. -/
def roundMagnitude (n d : Nat) : Nat :=
  let shift := (n / d).log2 - 52
  min (shift * 2 ^ 52 + divEven n (d * 2 ^ shift)) infBits

theorem roundMagnitude_lt (n d : Nat) : roundMagnitude n d < 2 ^ 63 :=
  (min_le_right _ _).trans_lt (by decide)

/-- The number nearest to `n / d` units. -/
def round (neg : Bool) (n d : Nat) : Binary64 := ⟨neg, roundMagnitude n d, roundMagnitude_lt n d⟩

def Finite (x : Binary64) : Prop := x.magnitude < infBits

instance (x : Binary64) : Decidable x.Finite := inferInstanceAs (Decidable (_ < _))

def isNan (x : Binary64) : Bool := infBits < x.magnitude

def isInf (x : Binary64) : Bool := x.magnitude = infBits

def isZero (x : Binary64) : Bool := x.magnitude = 0

def inf (neg : Bool) : Binary64 := ⟨neg, infBits, by decide⟩

def nan (neg : Bool) : Binary64 := ⟨neg, infBits + 2 ^ 51, by decide⟩

def zero : Binary64 := ⟨false, 0, by decide⟩

/-- `2 ^ k`. -/
def pow2 (k : Nat) (h : k ≤ 1023) : Binary64 := ⟨false, (k + 1023) * 2 ^ 52, by omega⟩

/-- The number nearest to an integer. -/
def ofNat (n : Nat) : Binary64 := round false (n * 2 ^ unitBits) 1

def negate (x : Binary64) : Binary64 := { x with neg := !x.neg }

def mul (x y : Binary64) : Binary64 :=
  if x.isNan || y.isNan then nan false
  else if x.isInf || y.isInf then
    if x.isZero || y.isZero then nan true else inf (x.neg ^^ y.neg)
  else round (x.neg ^^ y.neg) (units x.magnitude * units y.magnitude) (2 ^ unitBits)

def div (x y : Binary64) : Binary64 :=
  if x.isNan || y.isNan then nan false
  else if x.isInf then
    if y.isInf then nan true else inf (x.neg ^^ y.neg)
  else if y.isInf then ⟨x.neg ^^ y.neg, 0, by decide⟩
  else if y.isZero then
    if x.isZero then nan true else inf (x.neg ^^ y.neg)
  else round (x.neg ^^ y.neg) (units x.magnitude * 2 ^ unitBits) (units y.magnitude)

/-- The units of a finite number, with the sign. -/
def signedUnits (x : Binary64) : Int := if x.neg then -(units x.magnitude : Int) else units x.magnitude

def add (x y : Binary64) : Binary64 :=
  if x.isNan || y.isNan then nan false
  else if x.isInf then
    if y.isInf && (x.neg ^^ y.neg) then nan true else x
  else if y.isInf then y
  else
    let sum := x.signedUnits + y.signedUnits
    if sum = 0 then ⟨x.neg && y.neg, 0, by decide⟩ else round (sum < 0) sum.natAbs 1

def sub (x y : Binary64) : Binary64 := x.add y.negate

/-- The integer part of a finite number without a sign. -/
def truncate (x : Binary64) : Nat := units x.magnitude / 2 ^ unitBits

/-- The order of the numbers: the magnitudes are in the order of their bits. -/
def key (x : Binary64) : Int := if x.neg then -x.magnitude else x.magnitude

/-- `x < y`. -/
def less (x y : Binary64) : Bool := !x.isNan && !y.isNan && x.key < y.key

/-- `x == y`. -/
def equal (x y : Binary64) : Bool := !x.isNan && !y.isNan && x.key = y.key

/-! ## Units -/

theorem units_eq (e f : Nat) (hf : f < 2 ^ 52) :
    units (e * 2 ^ 52 + f) = if e = 0 then f else (2 ^ 52 + f) * 2 ^ (e - 1) := by
  have hdiv : (e * 2 ^ 52 + f) / 2 ^ 52 = e := by omega
  have hmod : (e * 2 ^ 52 + f) % 2 ^ 52 = f := by omega
  unfold units
  rw [hdiv, hmod]

/-- The units of a magnitude below `2 ^ 53`. -/
theorem units_small {m : Nat} (h : m < 2 ^ 53) : units m = m := by
  unfold units
  split
  · omega
  · have he : m / 2 ^ 52 = 1 := by omega
    rw [he]
    omega

/-- The next magnitude has more units. -/
theorem units_succ (m : Nat) : units m < units (m + 1) := by
  obtain ⟨e, f, hf, rfl⟩ : ∃ e f, f < 2 ^ 52 ∧ m = e * 2 ^ 52 + f :=
    ⟨m / 2 ^ 52, m % 2 ^ 52, Nat.mod_lt _ (by decide), by omega⟩
  rw [units_eq e f hf]
  by_cases hlast : f + 1 < 2 ^ 52
  · rw [Nat.add_assoc, units_eq e (f + 1) hlast]
    split
    · exact Nat.lt_succ_self f
    · exact Nat.mul_lt_mul_of_pos_right (by omega) (Nat.two_pow_pos _)
  · -- The fraction is full, and the exponent goes up.
    have hnext : e * 2 ^ 52 + f + 1 = (e + 1) * 2 ^ 52 + 0 := by omega
    rw [hnext, units_eq (e + 1) 0 (by decide), if_neg (Nat.succ_ne_zero e), Nat.add_sub_cancel]
    split
    · rename_i he
      rw [he]
      omega
    · obtain ⟨k, rfl⟩ : ∃ k, e = k + 1 := ⟨e - 1, by omega⟩
      have hdouble : (2 ^ 52 + 0) * 2 ^ (k + 1) = 2 ^ 53 * 2 ^ k := by ring
      rw [Nat.add_sub_cancel, hdouble]
      exact Nat.mul_lt_mul_of_pos_right (by omega) (Nat.two_pow_pos _)

theorem units_strictMono : StrictMono units := strictMono_nat_of_lt_succ units_succ

theorem units_inj {m m' : Nat} : units m = units m' ↔ m = m' := units_strictMono.injective.eq_iff

/-! ## Rounding is exact where it can be -/

theorem divEven_mul (n : Nat) {d : Nat} (hd : 0 < d) : divEven (n * d) d = n := by
  have hmod : n * d % d = 0 := Nat.mul_mod_left n d
  unfold divEven
  rw [hmod, if_neg (by omega), Nat.mul_div_cancel n hd]

/-- A finite magnitude is its own rounding. -/
theorem roundMagnitude_units {m d : Nat} (hm : m < infBits) (hd : 0 < d) : roundMagnitude (units m * d) d = m := by
  obtain ⟨e, f, hf, rfl⟩ : ∃ e f, f < 2 ^ 52 ∧ m = e * 2 ^ 52 + f :=
    ⟨m / 2 ^ 52, m % 2 ^ 52, Nat.mod_lt _ (by decide), by omega⟩
  unfold roundMagnitude
  rw [Nat.mul_div_cancel _ hd, units_eq e f hf]
  dsimp only
  by_cases he : e = 0
  · have hlog : f.log2 - 52 = 0 := by
      rcases Nat.eq_zero_or_pos f with hz | hp
      · rw [hz]
        rfl
      · have := (Nat.log2_lt hp.ne').2 hf
        omega
    rw [if_pos he, hlog, Nat.pow_zero, Nat.mul_one, divEven_mul f hd, he]
    omega
  · obtain ⟨k, rfl⟩ : ∃ k, e = k + 1 := ⟨e - 1, by omega⟩
    have hlog : ((2 ^ 52 + f) * 2 ^ k).log2 = 52 + k := by
      have hne : (2 ^ 52 + f) * 2 ^ k ≠ 0 := Nat.mul_ne_zero (by omega) (Nat.two_pow_pos k).ne'
      refine (Nat.log2_eq_iff hne).2 ⟨?_, ?_⟩
      · rw [Nat.pow_add]
        exact Nat.mul_le_mul_right _ (Nat.le_add_right _ _)
      · have hsucc : 2 ^ (52 + k + 1) = 2 ^ 53 * 2 ^ k := by
          rw [← Nat.pow_add]
          congr 1
          omega
        rw [hsucc]
        exact Nat.mul_lt_mul_of_pos_right (by omega) (Nat.two_pow_pos k)
    have hsub : 52 + k - 52 = k := by omega
    rw [if_neg he, Nat.add_sub_cancel, hlog, hsub, Nat.mul_assoc, Nat.mul_comm (2 ^ k) d,
      divEven_mul _ (Nat.mul_pos hd (Nat.two_pow_pos k))]
    omega

/-- A number of 53 bits times a power of two is a finite number, unless it is
too big. -/
theorem exists_units {s : Nat} (hs : s < 2 ^ 53) (j : Nat) (hbound : s * 2 ^ j < 2 ^ topBits) :
    ∃ m, m < infBits ∧ units m = s * 2 ^ j := by
  induction j generalizing s with
  | zero => exact ⟨s, hs.trans (by decide), by rw [units_small hs, Nat.pow_zero, Nat.mul_one]⟩
  | succ j ih =>
    by_cases hlt : s < 2 ^ 52
    · have hdouble : s * 2 ^ (j + 1) = 2 * s * 2 ^ j := by ring
      rw [hdouble] at hbound ⊢
      exact ih (by omega) hbound
    · have hj : j + 1 < 2046 := by
        have hpow : 2 ^ (52 + (j + 1)) < 2 ^ topBits := by
          rw [Nat.pow_add]
          exact (Nat.mul_le_mul_right _ (by omega)).trans_lt hbound
        have hlt : 52 + (j + 1) < topBits := (Nat.pow_lt_pow_iff_right (by decide : 1 < 2)).1 hpow
        unfold topBits at hlt
        omega
      refine ⟨(j + 2) * 2 ^ 52 + (s - 2 ^ 52), by unfold infBits; omega, ?_⟩
      have hs' : 2 ^ 52 + (s - 2 ^ 52) = s := by omega
      have hj' : j + 2 - 1 = j + 1 := by omega
      rw [units_eq (j + 2) (s - 2 ^ 52) (by omega), if_neg (Nat.succ_ne_zero _), hs', hj']

/-! ## Operations on finite numbers -/

theorem Finite.flags {x : Binary64} (h : x.Finite) : x.isNan = false ∧ x.isInf = false := by
  unfold Finite at h
  simp [isNan, isInf]
  omega

/-- A number is determined by its sign and its units. -/
theorem eq_of_units {x y : Binary64} (hn : x.neg = y.neg) (hu : units x.magnitude = units y.magnitude) : x = y := by
  obtain ⟨n, m, hm⟩ := x
  obtain ⟨n', m', hm'⟩ := y
  obtain rfl : n = n' := hn
  obtain rfl : m = m' := units_inj.1 hu
  rfl

/-- How many bits the units of a magnitude have. -/
theorem units_bits (e f : Nat) (hf : f < 2 ^ 52) : units (e * 2 ^ 52 + f) < 2 ^ (53 + (e - 1)) := by
  rw [units_eq e f hf, Nat.pow_add]
  split
  · exact hf.trans_le ((Nat.pow_le_pow_right (by decide) (by decide)).trans (Nat.le_mul_of_pos_right _ (Nat.two_pow_pos _)))
  · exact Nat.mul_lt_mul_of_pos_right (by omega) (Nat.two_pow_pos _)

theorem units_lt {x : Binary64} (h : x.Finite) : units x.magnitude < 2 ^ topBits := by
  obtain ⟨e, f, hf, hm⟩ : ∃ e f, f < 2 ^ 52 ∧ x.magnitude = e * 2 ^ 52 + f :=
    ⟨x.magnitude / 2 ^ 52, x.magnitude % 2 ^ 52, Nat.mod_lt _ (by decide), by omega⟩
  have htop : 53 + (e - 1) ≤ topBits := by
    unfold Finite infBits at h
    unfold topBits
    omega
  rw [hm]
  exact (units_bits e f hf).trans_le (Nat.pow_le_pow_right (by decide) htop)

/-- Rounding to units that a finite number has. -/
theorem round_exact {neg : Bool} {n d s j : Nat} (hs : s < 2 ^ 53) (hbound : s * 2 ^ j < 2 ^ topBits) (hd : 0 < d)
    (hn : n = s * 2 ^ j * d) :
    (round neg n d).Finite ∧ (round neg n d).neg = neg ∧ units (round neg n d).magnitude = s * 2 ^ j := by
  obtain ⟨m, hm, hu⟩ := exists_units hs j hbound
  have hround : (round neg n d).magnitude = m := by
    show roundMagnitude n d = m
    rw [hn, ← hu]
    exact roundMagnitude_units hm hd
  unfold Finite
  rw [hround]
  exact ⟨hm, rfl, hu⟩

theorem units_pow2 (k : Nat) (h : k ≤ 1023) : units (pow2 k h).magnitude = 2 ^ (unitBits + k) := by
  have hm : (pow2 k h).magnitude = (k + 1023) * 2 ^ 52 + 0 := (Nat.add_zero _).symm
  have hk : unitBits + k = 52 + (k + 1023 - 1) := by
    unfold unitBits
    omega
  rw [hm, units_eq _ 0 (by decide), if_neg (by omega), Nat.add_zero, hk, Nat.pow_add]

theorem pow2_finite (k : Nat) (h : k ≤ 1023) : (pow2 k h).Finite := by
  show (k + 1023) * 2 ^ 52 < infBits
  unfold infBits
  omega

theorem pow2_not_zero (k : Nat) (h : k ≤ 1023) : (pow2 k h).isZero = false := by
  simp [isZero, pow2]

/-- The product with a power of two is exact when it is not too big. -/
theorem mul_pow2 {x : Binary64} (hx : x.Finite) {s j k : Nat} (hs : s < 2 ^ 53) (hu : units x.magnitude = s * 2 ^ j)
    (h : k ≤ 1023) (hbound : s * 2 ^ (j + k) < 2 ^ topBits) :
    (x.mul (pow2 k h)).Finite ∧ (x.mul (pow2 k h)).neg = x.neg ∧
      units (x.mul (pow2 k h)).magnitude = s * 2 ^ (j + k) := by
  obtain ⟨hnan, hinf⟩ := hx.flags
  obtain ⟨hnan', hinf'⟩ := (pow2_finite k h).flags
  have hneg : (x.neg ^^ (pow2 k h).neg) = x.neg := Bool.xor_false _
  unfold mul
  rw [hnan, hnan', hinf, hinf', if_neg (by simp), if_neg (by simp), hneg]
  refine round_exact hs hbound (Nat.two_pow_pos _) ?_
  rw [hu, units_pow2]
  ring

/-- The quotient by a power of two is exact when it is a whole number of units. -/
theorem div_pow2 {x : Binary64} (hx : x.Finite) {s j k : Nat} (hs : s < 2 ^ 53)
    (hu : units x.magnitude = s * 2 ^ (j + k)) (h : k ≤ 1023) :
    (x.div (pow2 k h)).Finite ∧ (x.div (pow2 k h)).neg = x.neg ∧ units (x.div (pow2 k h)).magnitude = s * 2 ^ j := by
  obtain ⟨hnan, hinf⟩ := hx.flags
  obtain ⟨hnan', hinf'⟩ := (pow2_finite k h).flags
  have hneg : (x.neg ^^ (pow2 k h).neg) = x.neg := Bool.xor_false _
  have hbound : s * 2 ^ j < 2 ^ topBits := by
    refine lt_of_le_of_lt (Nat.mul_le_mul_left s ?_) (hu ▸ units_lt hx)
    exact Nat.pow_le_pow_right (by decide) (Nat.le_add_right j k)
  unfold div
  rw [hnan, hnan', hinf, hinf', pow2_not_zero, if_neg (by simp), if_neg (by simp), if_neg (by simp),
    if_neg (by simp), hneg]
  refine round_exact hs hbound (units_pow2 k h ▸ Nat.two_pow_pos _) ?_
  rw [hu, units_pow2]
  ring

/-- A whole number of 53 bits is exact. -/
theorem ofNat_exact {s : Nat} (hs : s < 2 ^ 53) :
    (ofNat s).Finite ∧ (ofNat s).neg = false ∧ units (ofNat s).magnitude = s * 2 ^ unitBits := by
  refine round_exact hs ?_ Nat.one_pos (Nat.mul_one _).symm
  refine (Nat.mul_lt_mul_of_pos_right hs (Nat.two_pow_pos _)).trans ?_
  rw [← Nat.pow_add]
  exact Nat.pow_lt_pow_right Nat.one_lt_two (by decide)

end Binary64

end MiniLibc
