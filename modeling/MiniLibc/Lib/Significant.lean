import MiniLibc.Lib.Numeral
import MiniLibc.Lib.FloatFormat
/-!
# Significant digits

The digits of a number without the zeros in front of them, and the rounding of a
rational to so many significant digits: to a multiple of the place of the last of
them.
-/

namespace MiniLibc.Numeral

/-- The digits without leading zeros. -/
def unpadded (ds : List Nat) : List Nat := ds.dropWhile (· = 0)

/-- The digits without leading and trailing zeros. -/
def significant (ds : List Nat) : List Nat := (unpadded ds).rdropWhile (· = 0)

/-- The nearest multiple of the place of the last of `limit` significant digits, the
even one of two. -/
def roundSignificant (base limit : Nat) (v : ℚ) : ℚ :=
  RoundingMode.nearestEven (v / (base : ℚ) ^ (Int.log base v + 1 - limit)) *
    (base : ℚ) ^ (Int.log base v + 1 - limit)

/-! ## Digits -/

theorem unpadded_sublist (ds : List Nat) : (unpadded ds).Sublist ds := List.dropWhile_sublist _

theorem unpadded_concat (ds : List Nat) (d : Nat) :
    unpadded (ds ++ [d]) = if unpadded ds = [] ∧ d = 0 then [] else unpadded ds ++ [d] := by
  unfold unpadded
  rw [List.dropWhile_append]
  by_cases h : ds.dropWhile (· = 0) = []
  · rw [h]
    by_cases hd : d = 0
    · simp [hd]
    · simp [hd]
  · rw [if_neg (by simpa using h), if_neg fun h' => h h'.1]

theorem readDigits_unpadded (base : Nat) (ds : List Nat) : readDigits base 0 (unpadded ds) = readDigits base 0 ds := by
  induction ds with
  | nil => rfl
  | cons d ds ih =>
    by_cases hd : d = 0
    · rw [unpadded, List.dropWhile_cons_of_pos (by simpa using hd), ← unpadded, ih, hd, readDigits_cons, Nat.zero_mul]
    · rw [unpadded, List.dropWhile_cons_of_neg (by simpa using hd)]

theorem unpadded_head {ds : List Nat} {d : Nat} {l : List Nat} (h : unpadded ds = d :: l) : d ≠ 0 := by
  have := List.head?_dropWhile_not (· = 0) ds
  rw [← unpadded, h, List.head?_cons] at this
  simpa using this

/-- A number split behind its first digits. -/
theorem readDigits_split (base k : Nat) (ds : List Nat) :
    readDigits base 0 ds =
      readDigits base 0 (ds.take k) * base ^ (ds.drop k).length + readDigits base 0 (ds.drop k) := by
  conv_lhs => rw [← List.take_append_drop k ds]
  rw [readDigits_append, readDigits_from]

theorem readDigits_below {base : Nat} {ds : List Nat} (hd : ∀ d ∈ ds, d < base) :
    readDigits base 0 ds < base ^ ds.length := by
  have := readDigits_lt hd Nat.zero_lt_one
  rwa [Nat.one_mul] at this

theorem readDigits_eq_zero {base : Nat} (hb : 0 < base) (ds : List Nat) :
    readDigits base 0 ds = 0 ↔ ∀ d ∈ ds, d = 0 := by
  induction ds with
  | nil => simp
  | cons d ds ih =>
    rw [readDigits_cons, Nat.zero_mul, Nat.zero_add, readDigits_from, List.forall_mem_cons, ← ih, Nat.add_eq_zero_iff,
      Nat.mul_eq_zero]
    have hpow : base ^ ds.length ≠ 0 := (Nat.pow_pos hb).ne'
    tauto

/-- Without leading zeros the number of digits is that of the value. -/
theorem readDigits_unpadded_ge {base : Nat} {ds : List Nat} (h : unpadded ds ≠ []) :
    base ^ ((unpadded ds).length - 1) ≤ readDigits base 0 ds := by
  obtain ⟨d, l, hl⟩ := List.exists_cons_of_ne_nil h
  rw [← readDigits_unpadded, hl, List.length_cons, Nat.add_sub_cancel, readDigits_cons, readDigits_from, Nat.zero_mul,
    Nat.zero_add]
  have := Nat.le_mul_of_pos_left (base ^ l.length) (Nat.pos_of_ne_zero (unpadded_head hl))
  omega

/-! ## Rounding -/

theorem log_quotient {base m f V : Nat} (hb : 1 < base) (hm : 0 < m) (hlow : base ^ (m - 1) ≤ V) (hhigh : V < base ^ m) :
    Int.log base ((V : ℚ) / (base : ℚ) ^ f) = (m : ℤ) - 1 - f := by
  have hbq : (0 : ℚ) < base := by exact_mod_cast Nat.zero_lt_of_lt hb
  have hpow : (0 : ℚ) < (base : ℚ) ^ f := pow_pos hbq f
  have hV : (0 : ℚ) < V := by exact_mod_cast lt_of_lt_of_le (Nat.pow_pos (Nat.zero_lt_of_lt hb)) hlow
  have hpos : (0 : ℚ) < (V : ℚ) / (base : ℚ) ^ f := div_pos hV hpow
  have hle : (base : ℚ) ^ ((m : ℤ) - 1 - f) ≤ (V : ℚ) / (base : ℚ) ^ f := by
    rw [le_div_iff₀ hpow, zpow_sub₀ hbq.ne', zpow_natCast, div_mul_cancel₀ _ hpow.ne',
      show (m : ℤ) - 1 = ((m - 1 : Nat) : ℤ) by omega, zpow_natCast]
    exact_mod_cast hlow
  have hlt : (V : ℚ) / (base : ℚ) ^ f < (base : ℚ) ^ ((m : ℤ) - 1 - f + 1) := by
    rw [div_lt_iff₀ hpow, show (m : ℤ) - 1 - f + 1 = m - f by ring, zpow_sub₀ hbq.ne', zpow_natCast, zpow_natCast,
      div_mul_cancel₀ _ hpow.ne']
    exact_mod_cast hhigh
  have h1 := (Int.zpow_le_iff_le_log hb hpos).1 hle
  have h2 := (Int.lt_zpow_iff_log_lt hb hpos).1 hlt
  omega

/-- A quotient of an `m`-digit number by a power of the base, rounded: what is dropped
are the digits behind the first `limit`. -/
theorem roundSignificant_quotient {base limit m V : Nat} (f : Nat) (hb : 1 < base) (hm : 0 < m)
    (hlow : base ^ (m - 1) ≤ V) (hhigh : V < base ^ m) :
    roundSignificant base limit ((V : ℚ) / (base : ℚ) ^ f) =
      (RoundingMode.toNearest.roundDiv false V (base ^ (m - limit)) : ℚ) *
        (base : ℚ) ^ (((m - limit : Nat) : ℤ) - f) := by
  have hbq : (base : ℚ) ≠ 0 := by exact_mod_cast (Nat.zero_lt_of_lt hb).ne'
  have hpow : ∀ n : Nat, (base : ℚ) ^ n ≠ 0 := fun n => pow_ne_zero n hbq
  unfold roundSignificant
  rw [log_quotient hb hm hlow hhigh]
  obtain ⟨e, he⟩ : ∃ e : ℤ, (m : ℤ) - 1 - f + 1 - limit = e := ⟨_, rfl⟩
  rw [he]
  rcases Nat.le_total limit m with hle | hle
  · have hk : e = ((m - limit : Nat) : ℤ) - f := by omega
    have hquot : (V : ℚ) / (base : ℚ) ^ f / (base : ℚ) ^ e = (V : ℚ) / ((base ^ (m - limit) : Nat) : ℚ) := by
      rw [hk, zpow_sub₀ hbq, zpow_natCast, zpow_natCast, Nat.cast_pow]
      have h1 := hpow f
      have h2 := hpow (m - limit)
      field_simp
    have hround := RoundingMode.select_div .toNearest false V (Nat.pow_pos (Nat.zero_lt_of_lt hb) : 0 < base ^ (m - limit))
    rw [hquot, ← hk]
    congr 1
    exact_mod_cast hround
  · have hk : m - limit = 0 := Nat.sub_eq_zero_of_le hle
    have hquot : (V : ℚ) / (base : ℚ) ^ f / (base : ℚ) ^ e = ((V * base ^ (limit - m) : Nat) : ℤ) := by
      rw [show e = -(((limit - m : Nat) : ℤ) + f) by omega, zpow_neg, zpow_add₀ hbq, zpow_natCast, zpow_natCast]
      have h1 := hpow f
      have h2 := hpow (limit - m)
      push_cast
      field_simp
    have hint := RoundingMode.select_int .toNearest ((V * base ^ (limit - m) : Nat) : ℤ)
    rw [hk, pow_zero, RoundingMode.roundDiv_exact _ _ (Nat.mod_one V), Nat.div_one, hquot]
    rw [RoundingMode.select] at hint
    rw [hint, ← hquot, div_mul_cancel₀ _ (zpow_ne_zero e hbq), Nat.cast_zero, zero_sub, zpow_neg, zpow_natCast,
      div_eq_mul_inv]

/-- The nearest multiple of a power of the base, from the first digit behind it and
whether another one is not zero. -/
theorem roundDiv_digits {base half S first T k : Nat} (hbase : base = 2 * half) (hT : T < base ^ k) (hf : first < base) :
    RoundingMode.toNearest.roundDiv false (S * base ^ (k + 1) + (first * base ^ k + T)) (base ^ (k + 1)) =
      if half < first ∨ (first = half ∧ (T ≠ 0 ∨ S % 2 = 1)) then S + 1 else S := by
  obtain ⟨B, hB⟩ : ∃ B, base ^ k = B := ⟨_, rfl⟩
  have hpos : 0 < B := Nat.zero_lt_of_lt (hB ▸ hT)
  have hnext : base ^ (k + 1) = 2 * (half * B) := by rw [pow_succ, hB, hbase]; ring
  rw [hB] at hT
  have hL : first * B + T < 2 * (half * B) := by
    have := Nat.mul_le_mul_right B (Nat.succ_le_of_lt (hbase ▸ hf))
    rw [Nat.succ_mul, Nat.mul_assoc] at this
    omega
  have hdiv : (S * (2 * (half * B)) + (first * B + T)) / (2 * (half * B)) = S := by
    rw [Nat.mul_comm, Nat.mul_add_div (by omega), Nat.div_eq_of_lt hL, Nat.add_zero]
  have hmod : (S * (2 * (half * B)) + (first * B + T)) % (2 * (half * B)) = first * B + T := by
    rw [Nat.mul_comm, Nat.mul_add_mod, Nat.mod_eq_of_lt hL]
  unfold RoundingMode.roundDiv
  rw [hnext, hB, hdiv, hmod]
  rcases Nat.lt_trichotomy first half with hlt | rfl | hgt
  · have := Nat.mul_le_mul_right B (Nat.succ_le_of_lt hlt)
    rw [Nat.succ_mul] at this
    rw [if_neg (by omega : ¬(half < first ∨ _))]
    split
    · rfl
    · exact if_neg (by omega)
  · have hfpos : 0 < first * B := Nat.mul_pos (by omega) hpos
    rw [if_neg (by omega)]
    dsimp only
    by_cases hT0 : T = 0
    · simp [hT0]
    · rw [if_pos (.inl (by omega)), if_pos (.inr ⟨rfl, .inl hT0⟩)]
  · have := Nat.mul_le_mul_right B (Nat.succ_le_of_lt hgt)
    rw [Nat.succ_mul] at this
    rw [if_neg (by omega)]
    dsimp only
    rw [if_pos (.inl (by omega)), if_pos (.inl hgt)]

theorem roundSignificant_zero (base limit : Nat) : roundSignificant base limit 0 = 0 := by
  have hint := RoundingMode.select_int .toNearest 0
  rw [RoundingMode.select, Int.cast_zero] at hint
  rw [roundSignificant, zero_div, hint, Int.cast_zero, zero_mul]

end MiniLibc.Numeral
