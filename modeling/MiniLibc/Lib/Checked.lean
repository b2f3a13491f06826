import Mathlib
/-!
# Checked machine arithmetic

The exact result of an operation, or `none` where it does not fit the type of the
result. A computation that ends in `some` has overflowed nowhere.
-/

namespace MiniLibc.Checked

/-- A result of a signed type of 64 bits. -/
def i64 (v : Int) : Option Int := if -9223372036854775808 ≤ v ∧ v < 9223372036854775808 then some v else none

/-- A result of a signed type of 32 bits. -/
def i32 (v : Int) : Option Int := if -2147483648 ≤ v ∧ v < 2147483648 then some v else none

/-- A result of an unsigned type of 32 bits, which must not wrap either. -/
def u32 (v : Int) : Option Int := if 0 ≤ v ∧ v < 4294967296 then some v else none

/-- The quotient rounded towards zero. -/
def div64 (a b : Int) : Option Int := if b = 0 then none else i64 (a.tdiv b)

theorem i64_eq {v : Int} (h₀ : -9223372036854775808 ≤ v) (h₁ : v < 9223372036854775808) : i64 v = some v :=
  if_pos ⟨h₀, h₁⟩

theorem i32_eq {v : Int} (h₀ : -2147483648 ≤ v) (h₁ : v < 2147483648) : i32 v = some v := if_pos ⟨h₀, h₁⟩

theorem u32_eq {v : Int} (h₀ : 0 ≤ v) (h₁ : v < 4294967296) : u32 v = some v := if_pos ⟨h₀, h₁⟩

/-! ## Steps of a computation that does not overflow -/

theorem bind_of_eq {α β : Type} {x : Option α} {a : α} {f : α → Option β} (h : x = some a) : (x >>= f) = f a := by
  rw [h]
  rfl

theorem i64_bind {α : Type} {v : Int} {f : Int → Option α}
    (h : -9223372036854775808 ≤ v ∧ v < 9223372036854775808) : (i64 v >>= f) = f v :=
  bind_of_eq (i64_eq h.1 h.2)

theorem i32_bind {α : Type} {v : Int} {f : Int → Option α} (h : -2147483648 ≤ v ∧ v < 2147483648) :
    (i32 v >>= f) = f v :=
  bind_of_eq (i32_eq h.1 h.2)

theorem u32_bind {α : Type} {v : Int} {f : Int → Option α} (h : 0 ≤ v ∧ v < 4294967296) :
    (u32 v >>= f) = f v :=
  bind_of_eq (u32_eq h.1 h.2)

/-! ## Division -/

/-- The remainder of the truncating division is negative when the quotient was
rounded up. -/
theorem tmod_neg_iff {a b : Int} (hb : 0 < b) : a.tmod b < 0 ↔ a.tdiv b = a / b + 1 := by
  have hpos := Int.emod_nonneg a hb.ne'
  have hlt := Int.emod_lt_of_pos a hb
  rw [Int.tmod_eq_emod, Int.tdiv_eq_ediv]
  split
  · constructor <;> intro h <;> omega
  · rw [Int.sign_eq_one_of_pos hb]
    constructor <;> intro h <;> omega

theorem tdiv_eq {a b : Int} (hb : 0 < b) : a.tdiv b = if a.tmod b < 0 then a / b + 1 else a / b := by
  by_cases h : a.tmod b < 0
  · rw [if_pos h]
    exact (tmod_neg_iff hb).1 h
  · rw [if_neg h]
    have := mt (tmod_neg_iff hb).2 h
    rw [Int.tdiv_eq_ediv, Int.sign_eq_one_of_pos hb] at this ⊢
    split at this
    · rw [if_pos ‹_›, add_zero]
    · exact absurd rfl this

theorem div64_eq {a b : Int} (hb : 0 < b) (h₀ : -9223372036854775808 ≤ a) (h₁ : a < 9223372036854775808) :
    div64 a b = some (a.tdiv b) := by
  have habs : (a.tdiv b).natAbs ≤ a.natAbs := by
    rw [Int.natAbs_tdiv]
    exact Nat.div_le_self _ _
  have hsign : 0 ≤ a → 0 ≤ a.tdiv b := fun h => Int.tdiv_nonneg h hb.le
  unfold div64
  rw [if_neg hb.ne']
  apply i64_eq
  · omega
  · rcases lt_or_ge a 0 with h | h
    · -- The quotient of a negative number is not positive, so the bound below is the one that counts.
      have := Int.ediv_neg_of_neg_of_pos h hb
      rw [tdiv_eq hb]
      split <;> omega
    · omega

end MiniLibc.Checked
