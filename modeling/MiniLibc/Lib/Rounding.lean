import MiniLibc.Lib.Binary64
/-!
# The nearest integer

A quotient is rounded down or up, to the natural number nearest to it.
-/

namespace MiniLibc.Binary64

/-- The quotient is rounded down or up. -/
theorem divEven_bounds (n d : Nat) : n / d ≤ divEven n d ∧ divEven n d ≤ n / d + 1 := by
  unfold divEven
  split
  · omega
  · omega

theorem divEven_le {n d t : Nat} (hd : 0 < d) (h : n ≤ t * d) : divEven n d ≤ t := by
  have hle : n / d ≤ t := Nat.div_le_of_le_mul (Nat.mul_comm t d ▸ h)
  rcases Nat.eq_or_lt_of_le hle with heq | hlt
  · -- The division is exact.
    have hn : n = t * d := by
      refine Nat.le_antisymm h ?_
      rw [← heq]
      exact Nat.div_mul_le_self n d
    rw [hn, divEven_mul t hd]
  · exact (divEven_bounds n d).2.trans hlt

/-- The natural number is nearest to the quotient, and even if two are. -/
def Nearest (q : ℚ) (n : Nat) : Prop := |q - n| ≤ 1 / 2 ∧ (|q - n| = 1 / 2 → n % 2 = 0)

theorem divEven_nearest (n : Nat) {d : Nat} (hd : 0 < d) : Nearest ((n : ℚ) / d) (divEven n d) := by
  have hdq : (0 : ℚ) < d := by exact_mod_cast hd
  have hdiv : (n : ℚ) / d = (n / d : Nat) + (n % d : Nat) / (d : ℚ) := by
    rw [div_eq_iff hdq.ne', add_mul, div_mul_cancel₀ _ hdq.ne']
    exact_mod_cast (Nat.div_add_mod' n d).symm
  have hlt : ((n % d : Nat) : ℚ) < d := by exact_mod_cast Nat.mod_lt n hd
  have hnonneg : (0 : ℚ) ≤ (n % d : Nat) / (d : ℚ) := by positivity
  unfold Nearest divEven
  by_cases hup : d < 2 * (n % d) ∨ (2 * (n % d) = d ∧ n / d % 2 = 1)
  · rw [if_pos hup, hdiv]
    have hhalf : (1 : ℚ) / 2 ≤ (n % d : Nat) / (d : ℚ) := by
      rw [div_le_div_iff₀ (by norm_num) hdq]
      have : d ≤ 2 * (n % d) := by omega
      have hq : (d : ℚ) ≤ 2 * (n % d : Nat) := by exact_mod_cast this
      linarith
    have hone : ((n % d : Nat) : ℚ) / d < 1 := (div_lt_one hdq).2 hlt
    have habs : |((n / d : Nat) : ℚ) + (n % d : Nat) / (d : ℚ) - ((n / d + 1 : Nat) : ℚ)| = 1 - (n % d : Nat) / (d : ℚ) := by
      rw [Nat.cast_add, Nat.cast_one, abs_of_nonpos (by linarith)]
      ring
    rw [habs]
    refine ⟨by linarith, fun heq => ?_⟩
    have htie : 2 * (n % d) = d := by
      have hq : ((n % d : Nat) : ℚ) / d = 1 / 2 := by linarith
      rw [div_eq_div_iff hdq.ne' (by norm_num)] at hq
      have : ((n % d * 2 : Nat) : ℚ) = ((1 * d : Nat) : ℚ) := by exact_mod_cast hq
      have := Nat.cast_injective this
      omega
    have hodd := hup.resolve_left (by omega)
    omega
  · rw [if_neg hup, hdiv]
    have hhalf : ((n % d : Nat) : ℚ) / d ≤ 1 / 2 := by
      rw [div_le_div_iff₀ hdq (by norm_num)]
      have : 2 * (n % d) ≤ d := by omega
      have hq : 2 * ((n % d : Nat) : ℚ) ≤ d := by exact_mod_cast this
      linarith
    have habs : |((n / d : Nat) : ℚ) + (n % d : Nat) / (d : ℚ) - ((n / d : Nat) : ℚ)| = (n % d : Nat) / (d : ℚ) := by
      rw [add_sub_cancel_left, abs_of_nonneg hnonneg]
    rw [habs]
    refine ⟨hhalf, fun heq => ?_⟩
    rw [div_eq_div_iff hdq.ne' (by norm_num)] at heq
    have : ((n % d * 2 : Nat) : ℚ) = ((1 * d : Nat) : ℚ) := by exact_mod_cast heq
    have := Nat.cast_injective this
    omega

end MiniLibc.Binary64
