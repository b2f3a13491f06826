import MiniLibc.Lib.Rounding
import MiniLibc.Stdio.HexRoundTrip
/-!
# What a hexadecimal text denotes

The text of `a` is a leading digit, the digits of a fraction and a power of two.
Without a precision they make the number; with one they make the number rounded to
so many digits, ties to even.
-/
open MiniLibc.Numeral MiniLibc.Binary64

namespace MiniLibc.Stdio

/-- The absolute value of a finite number. -/
def absolute (x : Binary64) : ℚ := units x.magnitude / 2 ^ unitBits

/-- A text with these digits and this exponent, which is written in decimal with its
sign. -/
structure HexText (spec : FormatSpec) (text : List Nat) (leading : Nat) (fraction : List Nat) (exponent : Int) :
    Prop where
  text_eq : ∃ exponentDigits, text = digitChar (spec.conversion = 'A'.toNat) leading ::
      ((if fraction ≠ [] ∨ spec.alternate then
          '.'.toNat :: fraction.map (digitChar (spec.conversion = 'A'.toNat)) else []) ++
        (if spec.conversion = 'A'.toNat then 'P'.toNat else 'p'.toNat) ::
        (if exponent < 0 then '-'.toNat else '+'.toNat) :: decimalChars exponentDigits) ∧
    readDigits 10 0 exponentDigits = exponent.natAbs ∧ (∀ d ∈ exponentDigits, d < 10) ∧ exponentDigits ≠ []
  leading_lt : leading < 16
  fraction_lt : ∀ d ∈ fraction, d < 16

/-- The number the digits make, as a multiple of the last one. -/
def hexDigits (leading : Nat) (fraction : List Nat) : Nat := readDigits 16 leading fraction

/-- The leading digit of a number, and the power of two it counts: the greatest in
a normal number, the least of a normal number in a subnormal one. -/
structure LeadsWith (x : Binary64) (digit : Nat) (exponent : Int) : Prop where
  zero : absolute x = 0 → digit = 0 ∧ exponent = 0
  subnormal : 0 < absolute x → absolute x < (2 : ℚ) ^ (-1022 : Int) → digit = 0 ∧ exponent = -1022
  normal : (2 : ℚ) ^ (-1022 : Int) ≤ absolute x →
    digit = 1 ∧ (2 : ℚ) ^ exponent ≤ absolute x ∧ absolute x < (2 : ℚ) ^ (exponent + 1)

/-- The last digit of the fraction counts `2 ^ lastPlace`. -/
def lastPlace (fraction : List Nat) (exponent : Int) : Int := exponent - 4 * fraction.length

/-! ## The significand -/

/-- The leading digit and the fraction, as a multiple of the last bit. -/
def mantissa (x : Binary64) : Nat := (decomposeDouble x).leading * 2 ^ 52 + x.fraction

theorem absolute_mantissa (x : Binary64) :
    absolute x = mantissa x * (2 : ℚ) ^ ((decomposeDouble x).exponent2 - 52) := by
  have hunits := units_eq x.exponent x.fraction (fraction_lt x)
  rw [← magnitude_eq] at hunits
  have hfield : (decomposeDouble x).exponentField = x.exponent ∧ (decomposeDouble x).fraction = x.fraction := ⟨rfl, rfl⟩
  unfold absolute mantissa FloatParts.leading FloatParts.exponent2
  rw [hunits, hfield.1, hfield.2]
  by_cases he : x.exponent = 0
  · rw [if_pos he, if_pos he, Nat.zero_mul, Nat.zero_add]
    by_cases hf : x.fraction = 0
    · rw [hf]
      simp
    · rw [if_neg (fun h => hf h.2), if_pos he, div_eq_mul_inv, ← zpow_natCast, ← zpow_neg]
      rfl
  · rw [if_neg he, if_neg he, if_neg (fun h => he h.1), if_neg he, Nat.one_mul, Nat.cast_mul, mul_div_assoc]
    congr 1
    rw [Nat.cast_pow, Nat.cast_ofNat, ← zpow_natCast, ← zpow_natCast, ← zpow_sub₀ (by norm_num)]
    congr 1
    unfold unitBits
    omega

/-- `leading` and `exponent2` are those of the number. -/
theorem decomposeDouble_leads (x : Binary64) :
    LeadsWith x (decomposeDouble x).leading (decomposeDouble x).exponent2 := by
  have hvalue := absolute_mantissa x
  have hlt := fraction_lt x
  have hfield : (decomposeDouble x).exponentField = x.exponent ∧ (decomposeDouble x).fraction = x.fraction := ⟨rfl, rfl⟩
  have hleast : (0 : ℚ) < (2 : ℚ) ^ (-1022 : Int) := by positivity
  -- the number lies within the binade of its exponent, less the leading bit of a subnormal one
  have hfraction : (x.fraction : ℚ) < 2 ^ (52 : Int) := by exact_mod_cast hlt
  unfold mantissa FloatParts.leading FloatParts.exponent2 at hvalue
  unfold FloatParts.leading FloatParts.exponent2
  rw [hfield.1, hfield.2] at hvalue ⊢
  by_cases he : x.exponent = 0
  · rw [if_pos he, Nat.zero_mul, Nat.zero_add] at hvalue
    rw [if_pos he]
    by_cases hf : x.fraction = 0
    · rw [hf, Nat.cast_zero, zero_mul] at hvalue
      rw [if_pos ⟨he, hf⟩]
      exact ⟨fun _ => ⟨rfl, rfl⟩, fun hpos => absurd hvalue hpos.ne', fun hle => absurd hvalue (hleast.trans_le hle).ne'⟩
    · rw [if_neg (fun h => hf h.2), if_pos he] at hvalue
      rw [if_neg (fun h => hf h.2), if_pos he]
      have hpos : 0 < absolute x := by
        rw [hvalue]
        have : (0 : ℚ) < x.fraction := by exact_mod_cast Nat.pos_of_ne_zero hf
        positivity
      have hsmall : absolute x < (2 : ℚ) ^ (-1022 : Int) := by
        rw [hvalue, zpow_sub₀ (by norm_num), ← mul_div_assoc, div_lt_iff₀ (by positivity), mul_comm]
        exact mul_lt_mul_of_pos_left hfraction hleast
      exact ⟨fun h0 => absurd h0 hpos.ne', fun _ _ => ⟨rfl, rfl⟩, fun hle => absurd hsmall (not_lt.2 hle)⟩
  · rw [if_neg he, if_neg (fun h => he h.1), if_neg he, Nat.one_mul] at hvalue
    rw [if_neg he, if_neg (fun h => he h.1), if_neg he]
    generalize hexponent : (x.exponent : Int) - 1023 = exponent at hvalue ⊢
    have hbinade : absolute x = ((2 ^ 52 + x.fraction : Nat) : ℚ) / 2 ^ (52 : Int) * 2 ^ exponent := by
      rw [hvalue, zpow_sub₀ (by norm_num)]
      ring
    have hlow : (2 : ℚ) ^ exponent ≤ absolute x := by
      rw [hbinade]
      refine le_mul_of_one_le_left (by positivity) ((one_le_div (by positivity)).2 ?_)
      exact_mod_cast Nat.le_add_right _ _
    have hhigh : absolute x < (2 : ℚ) ^ (exponent + 1) := by
      rw [hbinade, zpow_add₀ (by norm_num), zpow_one, mul_comm ((2 : ℚ) ^ exponent)]
      refine mul_lt_mul_of_pos_right ((div_lt_iff₀ (by positivity)).2 ?_) (by positivity)
      have : 2 ^ 52 + x.fraction < 2 * 2 ^ 52 := by omega
      exact_mod_cast this
    have hnormal : (2 : ℚ) ^ (-1022 : Int) ≤ (2 : ℚ) ^ exponent := zpow_le_zpow_right₀ (by norm_num) (by omega)
    exact ⟨fun h0 => absurd h0 (hleast.trans_le (hnormal.trans hlow)).ne',
      fun _ hlt' => absurd hlt' (not_lt.2 (hnormal.trans hlow)), fun _ => ⟨rfl, hlow, hhigh⟩⟩

/-- Without its last digits the mantissa counts a bigger place. -/
theorem absolute_place (x : Binary64) {p : Nat} (hp : p ≤ 13) :
    absolute x / (2 : ℚ) ^ ((decomposeDouble x).exponent2 - 4 * p) = mantissa x / ((2 ^ ((13 - p) * 4) : Nat) : ℚ) := by
  rw [absolute_mantissa, mul_div_assoc, ← zpow_sub₀ (by norm_num), div_eq_mul_inv, Nat.cast_pow, Nat.cast_ofNat,
    ← zpow_natCast, ← zpow_neg]
  congr 2
  omega

theorem leading_le (x : Binary64) : (decomposeDouble x).leading ≤ 1 := by
  unfold FloatParts.leading
  split
  · exact Nat.zero_le 1
  · exact Nat.le_refl 1

theorem hexDigits_fixed {p kept : Nat} (leading : Nat) (h : kept < 16 ^ p) :
    hexDigits leading (fixedDigits 16 p kept) = leading * 16 ^ p + kept := by
  unfold hexDigits
  rw [readDigits_fixedDigits, Nat.mod_eq_of_lt h]

/-- With a precision the digits are the mantissa, rounded. -/
theorem rounded_spec (x : Binary64) {p : Nat} (hp : p ≤ 13) :
    ∃ kept leading, (decomposeDouble x).rounded p = (p, kept, leading) ∧ kept < 16 ^ p ∧ leading ≤ 2 ∧
      leading * 16 ^ p + kept = divEven (mantissa x) (2 ^ ((13 - p) * 4)) := by
  have hlt := fraction_lt x
  have hlead := leading_le x
  have hfield : (decomposeDouble x).fraction = x.fraction := rfl
  have hpow : 16 ^ p * 2 ^ ((13 - p) * 4) = 2 ^ 52 := by
    rw [show (16 : Nat) = 2 ^ 4 from rfl, ← pow_mul, ← pow_add]
    congr 1
    omega
  have hpos : 0 < 2 ^ ((13 - p) * 4) := Nat.two_pow_pos _
  unfold FloatParts.rounded
  rw [hfield]
  by_cases hfull : p = hexMaxPrecision
  · rw [if_pos hfull]
    obtain rfl : p = 13 := hfull
    refine ⟨_, _, rfl, hlt, by omega, ?_⟩
    rw [Nat.sub_self, Nat.zero_mul, pow_zero]
    exact (divEven_mul (mantissa x) Nat.one_pos).symm.trans (by rw [Nat.mul_one])
  · rw [if_neg hfull]
    have hp13 : p < 13 := Nat.lt_of_le_of_ne hp hfull
    have hdiscard : hexMaxPrecision - p = 13 - p := rfl
    rw [hdiscard]
    have hkept : (if p = 0 then 0 else x.fraction / 2 ^ ((13 - p) * 4)) = x.fraction / 2 ^ ((13 - p) * 4) := by
      split
      · rename_i h0
        subst h0
        exact (Nat.div_eq_of_lt hlt).symm
      · rfl
    dsimp only
    rw [hkept]
    have hq : mantissa x / 2 ^ ((13 - p) * 4) = (decomposeDouble x).leading * 16 ^ p + x.fraction / 2 ^ ((13 - p) * 4) := by
      unfold mantissa
      rw [← hpow, ← Nat.mul_assoc, Nat.add_comm, Nat.add_mul_div_right _ _ hpos, Nat.add_comm]
    have hr : mantissa x % 2 ^ ((13 - p) * 4) = x.fraction % 2 ^ ((13 - p) * 4) := by
      unfold mantissa
      rw [← hpow, ← Nat.mul_assoc, Nat.add_comm, Nat.add_mul_mod_self_right]
    have hkeptlt : x.fraction / 2 ^ ((13 - p) * 4) < 16 ^ p := by
      rw [Nat.div_lt_iff_lt_mul hpos, hpow]
      exact hlt
    have hhalf : 2 ^ ((13 - p) * 4) = 2 * 2 ^ ((13 - p) * 4 - 1) := by
      rw [← pow_succ']
      congr 1
      omega
    have hsixteen : 2 ^ (p * 4) = 16 ^ p := by
      rw [Nat.mul_comm]
      exact pow_mul 2 4 p
    have hparity : (if p = 0 then (decomposeDouble x).leading else x.fraction / 2 ^ ((13 - p) * 4)) % 2 =
        mantissa x / 2 ^ ((13 - p) * 4) % 2 := by
      rw [hq]
      split
      · rename_i h0
        subst h0
        rw [Nat.div_eq_of_lt hlt, pow_zero, Nat.mul_one, Nat.add_zero]
      · rename_i h0
        obtain ⟨k, rfl⟩ : ∃ k, p = k + 1 := ⟨p - 1, by omega⟩
        have heven : (decomposeDouble x).leading * 16 ^ (k + 1) = 2 * (8 * ((decomposeDouble x).leading * 16 ^ k)) := by
          rw [pow_succ]
          ring
        rw [heven]
        omega
    rw [hparity]
    unfold divEven
    rw [hr]
    generalize x.fraction % 2 ^ ((13 - p) * 4) = remainder
    by_cases hup : 2 ^ ((13 - p) * 4 - 1) < remainder ∨
        (remainder = 2 ^ ((13 - p) * 4 - 1) ∧ mantissa x / 2 ^ ((13 - p) * 4) % 2 = 1)
    · have hup' : 2 ^ ((13 - p) * 4) < 2 * remainder ∨
          (2 * remainder = 2 ^ ((13 - p) * 4) ∧ mantissa x / 2 ^ ((13 - p) * 4) % 2 = 1) := by omega
      rw [if_pos hup, if_pos hup', hq]
      split
      · rename_i h0
        subst h0
        refine ⟨_, _, rfl, hkeptlt, by omega, ?_⟩
        rw [pow_zero] at hkeptlt ⊢
        omega
      split
      · rename_i hcarry
        rw [hsixteen] at hcarry
        refine ⟨_, _, rfl, Nat.pow_pos (by decide), by omega, ?_⟩
        rw [Nat.add_mul, Nat.one_mul]
        omega
      · rename_i hcarry
        rw [hsixteen] at hcarry
        exact ⟨_, _, rfl, by omega, by omega, by omega⟩
    · have hup' : ¬(2 ^ ((13 - p) * 4) < 2 * remainder ∨
          (2 * remainder = 2 ^ ((13 - p) * 4) ∧ mantissa x / 2 ^ ((13 - p) * 4) % 2 = 1)) := by omega
      rw [if_neg hup, if_neg hup', hq]
      exact ⟨_, _, rfl, hkeptlt, by omega, rfl⟩

/-- The leading digit stays as it is, or a carry through every digit adds one. -/
theorem rounded_leading (x : Binary64) {p kept leading : Nat} (hp : p ≤ 13) (hkept : kept < 16 ^ p)
    (h : leading * 16 ^ p + kept = divEven (mantissa x) (2 ^ ((13 - p) * 4))) :
    leading = (decomposeDouble x).leading ∨ (leading = (decomposeDouble x).leading + 1 ∧ kept = 0) := by
  have hlt := fraction_lt x
  have hpow : 16 ^ p * 2 ^ ((13 - p) * 4) = 2 ^ 52 := by
    rw [show (16 : Nat) = 2 ^ 4 from rfl, ← pow_mul, ← pow_add]
    congr 1
    omega
  have hpos : 0 < 2 ^ ((13 - p) * 4) := Nat.two_pow_pos _
  have hlow : (decomposeDouble x).leading * 16 ^ p ≤ leading * 16 ^ p + kept := by
    rw [h]
    refine le_trans ?_ (divEven_bounds _ _).1
    rw [Nat.le_div_iff_mul_le hpos, Nat.mul_assoc, hpow]
    exact Nat.le_add_right _ _
  have hhigh : leading * 16 ^ p + kept ≤ ((decomposeDouble x).leading + 1) * 16 ^ p := by
    rw [h]
    refine divEven_le hpos ?_
    rw [Nat.mul_assoc, hpow, Nat.add_mul, Nat.one_mul]
    unfold mantissa
    omega
  have hquot : (leading * 16 ^ p + kept) / 16 ^ p = leading := by
    rw [Nat.add_comm, Nat.add_mul_div_right _ _ (by positivity), Nat.div_eq_of_lt hkept, Nat.zero_add]
  have hge : (decomposeDouble x).leading ≤ leading := by
    rw [← hquot]
    exact (Nat.le_div_iff_mul_le (by positivity)).2 hlow
  rcases Nat.lt_or_ge (decomposeDouble x).leading leading with hcarry | hle
  · right
    have hmul := Nat.mul_le_mul_right (16 ^ p) hcarry
    have hfew : leading * 16 ^ p ≤ ((decomposeDouble x).leading + 1) * 16 ^ p := by omega
    have hone := Nat.le_of_mul_le_mul_right hfew (by positivity)
    obtain rfl : leading = (decomposeDouble x).leading + 1 := Nat.le_antisymm hone hcarry
    exact ⟨rfl, by omega⟩
  · exact .inl (Nat.le_antisymm hle hge)

/-- The fraction ends where its zeros begin. -/
theorem dropZeros_last (n k : Nat) : (dropZeros n k).1 = 0 ∨ (dropZeros n k).2 % 16 ≠ 0 := by
  fun_induction dropZeros n k with
  | case1 k => exact .inl rfl
  | case2 n k hz ih => exact ih
  | case3 n k hz => exact .inr hz

/-! ## The text -/

/-- Whatever the digits, the text spells them. -/
theorem hexText_digits (spec : FormatSpec) {leading p kept : Nat} (exponent : Int) (hlead : leading < 16) :
    HexText spec ([hexDigit leading (spec.conversion = 'A'.toNat)]
      ++ (if p ≠ 0 ∨ spec.alternate then
          '.'.toNat :: (List.range p).map fun i =>
            hexDigit (kept / 2 ^ ((p - 1 - i) * 4)) (spec.conversion = 'A'.toNat)
        else [])
      ++ appendExponent (if spec.conversion = 'A'.toNat then 'P'.toNat else 'p'.toNat) exponent 1)
      leading (fixedDigits 16 p kept) exponent where
  text_eq := by
    have hne : p ≠ 0 ↔ fixedDigits 16 p kept ≠ [] := by
      rw [← List.length_pos_iff, fixedDigits_length, Nat.pos_iff_ne_zero]
    refine ⟨(lowDigits 10 1 exponent.natAbs).reverse, ?_, ?_, ?_, ?_⟩
    · rw [fraction_text, hexDigit, Nat.mod_eq_of_lt hlead]
      simp only [hne]
      unfold appendExponent decimalChars
      rw [List.map_reverse, List.append_assoc]
      rfl
    · rw [readDigits_lowDigits (by decide), Nat.zero_mul, Nat.zero_add]
    · intro d hd
      exact lowDigits_lt (by decide) 1 _ d (List.mem_reverse.1 hd)
    · intro hnil
      exact lowDigits_ne_nil 10 1 _ (List.reverse_eq_nil_iff.1 hnil)
  leading_lt := hlead
  fraction_lt := fixedDigits_lt (by decide) _ _

/-- `a` prints the number without a precision, and rounds it to one: then the
leading digit is that of the number, or one more by a carry through the fraction. -/
structure PrintsHex (spec : FormatSpec) (x : Binary64) (text : List Nat) : Prop where
  exact : spec.precisionSet = false → ∃ leading fraction exponent, HexText spec text leading fraction exponent ∧
    LeadsWith x leading exponent ∧
    absolute x = hexDigits leading fraction * (2 : ℚ) ^ lastPlace fraction exponent ∧ fraction.getLast? ≠ some 0
  rounded : spec.precisionSet = true → ∃ digit leading fraction exponent,
    HexText spec text leading fraction exponent ∧ LeadsWith x digit exponent ∧
    fraction.length = spec.precision ∧ (leading = digit ∨ (leading = digit + 1 ∧ ∀ d ∈ fraction, d = 0)) ∧
    Nearest (absolute x / (2 : ℚ) ^ lastPlace fraction exponent) (hexDigits leading fraction)

theorem makeHexText_prints {spec : FormatSpec} (hp : spec.precisionSet = true → spec.precision ≤ 13) (x : Binary64) :
    ∃ text, makeHexText spec (decomposeDouble x) = some text ∧ PrintsHex spec x text := by
  unfold makeHexText
  dsimp only
  cases hset : spec.precisionSet with
  | false =>
    have hshort : (decomposeDouble x).shortest =
        (printedDigits x, (dropZeros hexMaxPrecision x.fraction).2, (decomposeDouble x).leading) := rfl
    rw [if_neg (fun h => Bool.false_ne_true h.1), if_neg Bool.false_ne_true, hshort]
    refine ⟨_, rfl, fun _ => ?_, fun h => absurd h (by rw [hset]; exact Bool.false_ne_true)⟩
    have hle := printedDigits_le x
    have hmul := printedSignificand_mul x
    have hlast := dropZeros_last hexMaxPrecision x.fraction
    refine ⟨_, _, _, hexText_digits spec (decomposeDouble x).exponent2 ((leading_le x).trans_lt (by decide)),
      decomposeDouble_leads x, ?_, ?_⟩
    · have hplace := absolute_place x hle
      have hlength : lastPlace (fixedDigits 16 (printedDigits x) (dropZeros hexMaxPrecision x.fraction).2)
          (decomposeDouble x).exponent2 = (decomposeDouble x).exponent2 - 4 * printedDigits x := by
        unfold lastPlace
        rw [fixedDigits_length]
      show absolute x = (printedSignificand x : ℚ) * 2 ^ lastPlace (fixedDigits 16 (printedDigits x) _) _
      rw [hlength]
      have hbig : mantissa x = printedSignificand x * 2 ^ ((13 - printedDigits x) * 4) := by
        unfold mantissa
        rw [← hmul, show (16 : Nat) = 2 ^ 4 from rfl, ← pow_mul, Nat.mul_comm 4]
      rw [hbig, Nat.cast_mul, mul_div_cancel_right₀ _ (by positivity)] at hplace
      rw [← hplace, div_mul_cancel₀ _ (by positivity)]
    · intro hzero
      have hlen := fixedDigits_length 16 (printedDigits x) (dropZeros hexMaxPrecision x.fraction).2
      rcases hlast with hnone | hlast
      · have hnil : fixedDigits 16 (printedDigits x) (dropZeros hexMaxPrecision x.fraction).2 = [] :=
          List.eq_nil_of_length_eq_zero (hlen.trans hnone)
        rw [hnil] at hzero
        cases hzero
      · obtain ⟨k, hk⟩ : ∃ k, printedDigits x = k + 1 := by
          refine ⟨printedDigits x - 1, ?_⟩
          have : printedDigits x ≠ 0 := by
            intro h0
            rw [h0] at hzero
            cases hzero
          omega
        rw [hk, fixedDigits_concat, List.getLast?_concat] at hzero
        exact hlast (Option.some.inj hzero)
  | true =>
    have hp13 := hp hset
    rw [if_neg (fun h => absurd h.2 (Nat.not_lt.2 hp13)), if_pos rfl]
    obtain ⟨kept, leading, hrounded, hkept, hlead, hvalue⟩ := rounded_spec x hp13
    rw [hrounded]
    refine ⟨_, rfl, fun h => absurd h (by rw [hset]; decide), fun _ => ?_⟩
    refine ⟨_, _, _, _, hexText_digits spec (decomposeDouble x).exponent2 (show leading < 16 by omega),
      decomposeDouble_leads x, fixedDigits_length _ _ _, ?_, ?_⟩
    · refine (rounded_leading x hp13 hkept hvalue).imp_right fun ⟨hcarry, hzero⟩ => ⟨hcarry, fun d hd => ?_⟩
      rw [hzero] at hd
      exact fixedDigits_zero hd
    unfold lastPlace
    rw [fixedDigits_length, hexDigits_fixed leading hkept, absolute_place x hp13, hvalue]
    exact divEven_nearest _ (Nat.two_pow_pos _)

/-- Every finite number is printed with its sign and a prefix, exactly or rounded. -/
theorem hexFloating_prints {spec : FormatSpec} (hconv : spec.conversion = 'a'.toNat ∨ spec.conversion = 'A'.toNat)
    (hlength : spec.length = .none ∨ spec.length = .l) (hp : spec.precisionSet = true → spec.precision ≤ 13)
    {x : Binary64} (hx : x.Finite) :
    ∃ calls text before zeros after, emitFloating spec x = some calls ∧ PrintsHex spec x text ∧
      before + zeros + after ≤ spec.width ∧
      rendering calls = List.replicate before ' '.toNat ++ (floatSign spec x.neg ++
        (['0'.toNat, if spec.conversion = 'A'.toNat then 'X'.toNat else 'x'.toNat] ++
          (List.replicate zeros '0'.toNat ++ (text ++ List.replicate after ' '.toNat)))) := by
  obtain ⟨text, htext, hprints⟩ := makeHexText_prints hp x
  have hcalls := emitFloating_hex hconv hlength hx
  rw [htext, Option.map_some] at hcalls
  obtain ⟨before, zeros, after, hwidth, hrendering⟩ := rendering_emitFloatText spec x.neg
    ['0'.toNat, if spec.conversion = 'A'.toNat then 'X'.toNat else 'x'.toNat] text true
  exact ⟨_, text, before, zeros, after, hcalls, hprints, hwidth, hrendering⟩

/-- `%.0a` of one and a half: the tie goes to the even digit. -/
theorem hexFloating_prints_tie :
    let spec : FormatSpec := { precisionSet := true, conversion := 'a'.toNat }
    let x : Binary64 := ⟨false, 1023 * 2 ^ 52 + 2 ^ 51, by decide⟩
    ∃ calls text, emitFloating spec x = some calls ∧ PrintsHex spec x text ∧
      makeHexText spec (decomposeDouble x) = some ("2p+0".toList.map Char.toNat) := by
  intro spec x
  have hfinite : x.Finite := by decide
  obtain ⟨calls, text, -, -, -, hcalls, hprints, -⟩ :=
    hexFloating_prints (show spec.conversion = 'a'.toNat ∨ _ from .inl rfl) (.inl rfl) (fun _ => Nat.zero_le _) hfinite
  refine ⟨calls, text, hcalls, hprints, ?_⟩
  simp [makeHexText, FloatParts.rounded, FloatParts.leading, FloatParts.exponent2, decomposeDouble, spec, x, hexMaxPrecision,
    Binary64.exponent, Binary64.fraction, appendExponent, lowDigits, hexDigit]
  decide

end MiniLibc.Stdio
