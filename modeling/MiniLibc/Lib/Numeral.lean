import Mathlib
/-!
# Positional numerals

A list of digits is read from the highest one: `readDigits base v` goes on from
the value `v` of the digits before. A number is written either with a fixed
number of digits, or by the division loop, which makes the lowest digit first.
-/

namespace MiniLibc.Numeral

def readDigits (base v : Nat) (digits : List Nat) : Nat := digits.foldl (fun v d => v * base + d) v

/-- The lowest `count` digits, the highest first. -/
def fixedDigits (base count n : Nat) : List Nat := (List.range count).map fun i => n / base ^ (count - 1 - i) % base

/-- The digits that the loop makes, which ends when the number is used up and
there are `minimum` digits. -/
def lowDigits (base minimum n : Nat) : List Nat :=
  if _h : (n ≠ 0 ∧ 2 ≤ base ∧ n / base ≠ 0) ∨ 1 < minimum then n % base :: lowDigits base (minimum - 1) (n / base)
  else [n % base]
termination_by n + minimum
decreasing_by
  rcases _h with ⟨hn, hb, -⟩ | hm
  · have := Nat.div_lt_self (Nat.pos_of_ne_zero hn) hb
    omega
  · have := Nat.div_le_self n base
    omega

/-! ## Reading -/

@[simp] theorem readDigits_nil (base v : Nat) : readDigits base v [] = v := rfl

@[simp] theorem readDigits_cons (base v d : Nat) (ds : List Nat) :
    readDigits base v (d :: ds) = readDigits base (v * base + d) ds := rfl

theorem readDigits_append (base v : Nat) (ds es : List Nat) :
    readDigits base v (ds ++ es) = readDigits base (readDigits base v ds) es := List.foldl_append

/-- The value before counts in full. -/
theorem readDigits_from (base v : Nat) (ds : List Nat) :
    readDigits base v ds = v * base ^ ds.length + readDigits base 0 ds := by
  induction ds generalizing v with
  | nil => simp
  | cons d ds ih =>
    rw [readDigits_cons, readDigits_cons, ih (v * base + d), ih (0 * base + d), List.length_cons]
    ring

theorem readDigits_zeros (base v k : Nat) : readDigits base v (List.replicate k 0) = v * base ^ k := by
  induction k generalizing v with
  | zero => simp
  | succ k ih =>
    rw [List.replicate_succ, readDigits_cons, ih]
    ring

theorem readDigits_lt {base v bound : Nat} {ds : List Nat} (hd : ∀ d ∈ ds, d < base) (hv : v < bound) :
    readDigits base v ds < bound * base ^ ds.length := by
  induction ds generalizing v bound with
  | nil => simpa using hv
  | cons d ds ih =>
    rw [readDigits_cons, List.length_cons, pow_succ', ← Nat.mul_assoc]
    refine ih (fun e he => hd e (List.mem_cons_of_mem d he)) ?_
    have hlt : d < base := hd d (List.mem_cons_self ..)
    have hmul : (v + 1) * base ≤ bound * base := Nat.mul_le_mul_right base hv
    rw [Nat.add_mul, Nat.one_mul] at hmul
    omega

/-! ## Reading up to a limit -/

/-- The value before and the digits, as long as the number stays within the limit. -/
def readCapped (limit base : Nat) (value : Option Nat) (digits : List Nat) : Option Nat :=
  digits.foldl (fun value d => value.bind fun v => if v * base + d ≤ limit then some (v * base + d) else none) value

theorem le_readDigits {base : Nat} (hb : 0 < base) (v : Nat) (ds : List Nat) : v ≤ readDigits base v ds := by
  rw [readDigits_from]
  exact (Nat.le_mul_of_pos_right v (Nat.pow_pos hb)).trans (Nat.le_add_right _ _)

@[simp] theorem readCapped_none (limit base : Nat) (ds : List Nat) : readCapped limit base none ds = none := by
  induction ds with
  | nil => rfl
  | cons d ds ih => exact ih

/-- Going over the limit once is going over it in the end. -/
theorem readCapped_eq {limit base v : Nat} (hb : 0 < base) (hv : v ≤ limit) (ds : List Nat) :
    readCapped limit base (some v) ds =
      if readDigits base v ds ≤ limit then some (readDigits base v ds) else none := by
  induction ds generalizing v with
  | nil => rw [readDigits_nil, if_pos hv]; rfl
  | cons d ds ih =>
    have hstep : readCapped limit base (some v) (d :: ds) =
        readCapped limit base (if v * base + d ≤ limit then some (v * base + d) else none) ds := rfl
    rw [hstep, readDigits_cons]
    split
    · rename_i hle
      exact ih hle
    · rename_i hgt
      have := le_readDigits hb (v * base + d) ds
      rw [readCapped_none, if_neg (by omega)]

/-- The test that goes before a step, without a product that could wrap. -/
theorem quotient_lt_iff {limit base v d : Nat} (hb : 0 < base) (hd : d ≤ limit) :
    (limit - d) / base < v ↔ ¬v * base + d ≤ limit := by
  rw [Nat.div_lt_iff_lt_mul hb]
  omega

/-! ## Writing -/

@[simp] theorem fixedDigits_length (base count n : Nat) : (fixedDigits base count n).length = count := by
  simp [fixedDigits]

theorem fixedDigits_succ (base count n : Nat) :
    fixedDigits base (count + 1) n = n / base ^ count % base :: fixedDigits base count n := by
  unfold fixedDigits
  rw [List.range_succ_eq_map, List.map_cons, List.map_map, Nat.add_sub_cancel, Nat.sub_zero]
  congr 1
  apply List.map_congr_left
  intro i _
  have hsub : count - (i + 1) = count - 1 - i := by omega
  simp only [Function.comp_apply, Nat.succ_eq_add_one, hsub]

theorem fixedDigits_concat (base count n : Nat) :
    fixedDigits base (count + 1) n = fixedDigits base count (n / base) ++ [n % base] := by
  unfold fixedDigits
  rw [List.range_succ, List.map_append, List.map_singleton, Nat.add_sub_cancel, Nat.sub_self, pow_zero, Nat.div_one]
  congr 1
  apply List.map_congr_left
  intro i hi
  have hlt := List.mem_range.1 hi
  have hsub : count - i = count - 1 - i + 1 := by omega
  rw [hsub, pow_succ', Nat.div_div_eq_div_mul]

theorem fixedDigits_lt {base : Nat} (hb : 0 < base) (count n : Nat) : ∀ d ∈ fixedDigits base count n, d < base := by
  intro d hd
  obtain ⟨i, -, rfl⟩ := List.mem_map.1 hd
  exact Nat.mod_lt _ hb

theorem fixedDigits_zero {base count d : Nat} (h : d ∈ fixedDigits base count 0) : d = 0 := by
  obtain ⟨i, -, rfl⟩ := List.mem_map.1 h
  rw [Nat.zero_div, Nat.zero_mod]

theorem readDigits_fixedDigits (base count v n : Nat) :
    readDigits base v (fixedDigits base count n) = v * base ^ count + n % base ^ count := by
  induction count generalizing v with
  | zero => simp [fixedDigits, Nat.mod_one]
  | succ count ih =>
    rw [fixedDigits_succ, readDigits_cons, ih, pow_succ, Nat.mod_mul]
    ring

theorem lowDigits_lt {base : Nat} (hb : 0 < base) (minimum n : Nat) : ∀ d ∈ lowDigits base minimum n, d < base := by
  fun_induction lowDigits base minimum n with
  | case1 minimum n h ih =>
    intro d hd
    rcases List.mem_cons.1 hd with rfl | hd
    · exact Nat.mod_lt n hb
    · exact ih d hd
  | case2 minimum n h =>
    intro d hd
    rw [List.mem_singleton.1 hd]
    exact Nat.mod_lt n hb

theorem lowDigits_ne_nil (base minimum n : Nat) : lowDigits base minimum n ≠ [] := by
  unfold lowDigits
  split
  · exact List.cons_ne_nil _ _
  · exact List.cons_ne_nil _ _

/-- The digits that the loop makes are those of the number. -/
theorem readDigits_lowDigits {base : Nat} (hb : 2 ≤ base) (v minimum n : Nat) :
    readDigits base v (lowDigits base minimum n).reverse = v * base ^ (lowDigits base minimum n).length + n := by
  fun_induction lowDigits base minimum n with
  | case1 minimum n h ih =>
    rw [List.reverse_cons, readDigits_append, ih, readDigits_cons, readDigits_nil, List.length_cons, pow_succ]
    have hdiv : n / base * base + n % base = n := Nat.div_add_mod' n base
    calc (v * base ^ (lowDigits base (minimum - 1) (n / base)).length + n / base) * base + n % base
        = v * (base ^ (lowDigits base (minimum - 1) (n / base)).length * base)
            + (n / base * base + n % base) := by ring
      _ = _ := by rw [hdiv]
  | case2 minimum n h =>
    have hsmall : n % base = n := by
      by_contra hne
      refine h (.inl ⟨?_, hb, ?_⟩)
      · rintro rfl
        exact hne (Nat.zero_mod base)
      · intro hz
        exact hne (Nat.mod_eq_of_lt ((Nat.div_eq_zero_iff.1 hz).resolve_left (by omega)))
    simp [hsmall]

/-- How many digits the loop makes. -/
theorem lowDigits_length_le {base minimum n k : Nat} (hk : 0 < k) (hm : minimum ≤ k)
    (hn : n < base ^ k) : (lowDigits base minimum n).length ≤ k := by
  fun_induction lowDigits base minimum n generalizing k with
  | case1 minimum n h ih =>
    obtain ⟨k, rfl⟩ : ∃ j, k = j + 1 := ⟨k - 1, by omega⟩
    have hdiv : n / base < base ^ k := Nat.div_lt_of_lt_mul (by rwa [pow_succ, Nat.mul_comm] at hn)
    have hpos : 0 < k := by
      rcases h with ⟨-, -, hz⟩ | hm'
      · rcases Nat.eq_zero_or_pos k with rfl | hp
        · exact absurd (Nat.lt_one_iff.1 hdiv) hz
        · exact hp
      · omega
    rw [List.length_cons]
    exact Nat.succ_le_succ (ih hpos (by omega) hdiv)
  | case2 minimum n h => exact hk

end MiniLibc.Numeral
