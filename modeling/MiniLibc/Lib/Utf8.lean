import Mathlib
/-!
# UTF-8 as base-64 digits

A scalar value beyond ASCII is written as a lead byte, which carries its high
bits, and one tail byte for each further six bits. `accumulate` reads tails and
`tails` writes them; each undoes the other, which is all that decoding after
encoding, and encoding after decoding, need.
-/

namespace MiniLibc.Utf8

/-- A continuation byte, `10xxxxxx`. -/
def IsTail (b : UInt8) : Prop := 0x80 ≤ b.toNat ∧ b.toNat ≤ 0xbf

instance (b : UInt8) : Decidable (IsTail b) := inferInstanceAs (Decidable (_ ∧ _))

/-- The bits read so far, extended by the tails `t`. -/
def accumulate (v : Nat) (t : List UInt8) : Nat := t.foldl (fun v b => v * 64 + (b.toNat - 0x80)) v

/-- The `n` tails that spell the low `6 * n` bits of `v`. -/
def tails : Nat → Nat → List UInt8
  | 0, _ => []
  | n + 1, v => .ofNat (0x80 + v / 64 ^ n % 64) :: tails n v

@[simp] theorem accumulate_nil (v : Nat) : accumulate v [] = v := rfl
@[simp] theorem accumulate_cons (v : Nat) (b : UInt8) (t : List UInt8) :
    accumulate v (b :: t) = accumulate (v * 64 + (b.toNat - 0x80)) t := by
  simp only [accumulate, List.foldl_cons]

@[simp] theorem tails_length (n v : Nat) : (tails n v).length = n := by
  induction n with
  | zero => rfl
  | succ n ih => simp [tails, ih]

theorem tail_toNat (d : Nat) : (UInt8.ofNat (0x80 + d % 64)).toNat = 0x80 + d % 64 := by
  simp; omega

theorem isTail_tails (n v : Nat) : ∀ b ∈ tails n v, IsTail b := by
  induction n with
  | zero => simp [tails]
  | succ n ih =>
    intro b hb
    rcases List.mem_cons.1 hb with rfl | hb
    · rw [IsTail, tail_toNat]; omega
    · exact ih b hb

/-- Reading the tails of `v` after the bits `p`. -/
theorem accumulate_tails (p n v : Nat) : accumulate p (tails n v) = p * 64 ^ n + v % 64 ^ n := by
  induction n generalizing p with
  | zero => simp [tails, Nat.mod_one]
  | succ n ih =>
    rw [tails, accumulate_cons, tail_toNat, ih, Nat.add_sub_cancel_left, Nat.pow_succ, Nat.mod_mul]
    ring

theorem accumulate_lt {p : Nat} {t : List UInt8} (h : ∀ b ∈ t, IsTail b) :
    accumulate p t < (p + 1) * 64 ^ t.length := by
  induction t generalizing p with
  | nil => simp
  | cons b t ih =>
    have hb := h b List.mem_cons_self
    have := ih (p := p * 64 + (b.toNat - 0x80)) fun c hc => h c (List.mem_cons_of_mem _ hc)
    rw [accumulate_cons, List.length_cons, Nat.pow_succ]
    calc accumulate (p * 64 + (b.toNat - 0x80)) t
        < (p * 64 + (b.toNat - 0x80) + 1) * 64 ^ t.length := this
      _ ≤ ((p + 1) * 64) * 64 ^ t.length := by gcongr; obtain ⟨h1, h2⟩ := hb; omega
      _ = (p + 1) * (64 ^ t.length * 64) := by ring

theorem accumulate_ge (p : Nat) (t : List UInt8) : p * 64 ^ t.length ≤ accumulate p t := by
  induction t generalizing p with
  | nil => simp
  | cons b t ih =>
    rw [accumulate_cons, List.length_cons, Nat.pow_succ]
    calc p * (64 ^ t.length * 64) = (p * 64) * 64 ^ t.length := by ring
      _ ≤ (p * 64 + (b.toNat - 0x80)) * 64 ^ t.length := by gcongr; omega
      _ ≤ _ := ih _

/-- The lead bits are what is left above the tails. -/
theorem accumulate_div {p : Nat} {t : List UInt8} (h : ∀ b ∈ t, IsTail b) :
    accumulate p t / 64 ^ t.length = p :=
  Nat.div_eq_of_lt_le (accumulate_ge p t) (accumulate_lt h)

/-- Tails spell back the bits they were read into. -/
theorem tails_accumulate {p : Nat} {t : List UInt8} (h : ∀ b ∈ t, IsTail b) :
    tails t.length (accumulate p t) = t := by
  induction t generalizing p with
  | nil => rfl
  | cons b t ih =>
    have ht : ∀ c ∈ t, IsTail c := fun c hc => h c (List.mem_cons_of_mem _ hc)
    obtain ⟨hb1, hb2⟩ := h b List.mem_cons_self
    have hd : UInt8.ofNat (0x80 + (p * 64 + (b.toNat - 0x80)) % 64) = b := by
      apply UInt8.toNat_inj.1
      rw [tail_toNat]; omega
    rw [List.length_cons, tails, accumulate_cons, ih ht, accumulate_div ht, hd]

/-- A byte string either starts with `r` tails or stops being tails earlier. -/
theorem tails_or_stop (r : Nat) (s : List UInt8) :
    (∃ t rest, s = t ++ rest ∧ t.length = r ∧ ∀ b ∈ t, IsTail b) ∨
    (s.length < r ∧ ∀ b ∈ s, IsTail b) ∨
    (∃ t b rest, s = t ++ b :: rest ∧ t.length < r ∧ (∀ c ∈ t, IsTail c) ∧ ¬ IsTail b) := by
  induction r generalizing s with
  | zero => exact .inl ⟨[], s, rfl, rfl, by simp⟩
  | succ r ih =>
    cases s with
    | nil => exact .inr (.inl (by simp))
    | cons b s =>
      by_cases hb : IsTail b
      · rcases ih s with ⟨t, rest, rfl, hl, ht⟩ | ⟨hl, ht⟩ | ⟨t, c, rest, rfl, hl, ht, hc⟩
        · exact .inl ⟨b :: t, rest, rfl, by simp [hl], by simpa [hb] using ht⟩
        · exact .inr (.inl ⟨by simpa using hl, by simpa [hb] using ht⟩)
        · exact .inr (.inr ⟨b :: t, c, rest, rfl, by simpa using hl, by simpa [hb] using ht, hc⟩)
      · exact .inr (.inr ⟨[], b, s, rfl, by simp, by simp, hb⟩)

/-! ## Encodings -/

/-- The marker bits of a lead byte that is followed by `n` tails. -/
def leadBits (n : Nat) : Nat := if n = 1 then 0xc0 else if n = 2 then 0xe0 else 0xf0

/-- How many tails `v` needs. -/
def tailCount (v : Nat) : Nat := if v ≤ 0x7ff then 1 else if v ≤ 0xffff then 2 else 3

/-- The encoding of a scalar value. -/
def encode (v : Nat) : List UInt8 :=
  if v ≤ 0x7f then [.ofNat v]
  else .ofNat (leadBits (tailCount v) + v / 64 ^ tailCount v) :: tails (tailCount v) v

/-- `a` leads `n` tails. -/
def Leads (a : UInt8) (n : Nat) : Prop :=
  (n = 1 ∧ 0xc2 ≤ a.toNat ∧ a.toNat ≤ 0xdf) ∨ (n = 2 ∧ 0xe0 ≤ a.toNat ∧ a.toNat ≤ 0xef) ∨
    (n = 3 ∧ 0xf0 ≤ a.toNat ∧ a.toNat ≤ 0xf4)

/-- The least value that needs `n` tails. -/
def minimum (n : Nat) : Nat := if n = 1 then 0x80 else if n = 2 then 0x800 else 0x10000

theorem tailCount_cases (v : Nat) :
    (tailCount v = 1 ∧ v ≤ 0x7ff) ∨ (tailCount v = 2 ∧ 0x7ff < v ∧ v ≤ 0xffff) ∨ (tailCount v = 3 ∧ 0xffff < v) := by
  unfold tailCount
  split
  · exact .inl ⟨rfl, by omega⟩
  · split
    · exact .inr (.inl ⟨rfl, by omega, by omega⟩)
    · exact .inr (.inr ⟨rfl, by omega⟩)

theorem toNat_ofNat {n : Nat} (h : n < 256) : (UInt8.ofNat n).toNat = n := by
  rw [UInt8.toNat_ofNat']; omega

/-- A value beyond ASCII is spelled by a lead byte and its tails. -/
theorem encode_lead {v : Nat} (h1 : 0x7f < v) (h2 : v ≤ 0x10ffff) :
    ∃ a n, encode v = a :: tails n v ∧ Leads a n ∧ minimum n ≤ v ∧ a.toNat - leadBits n = v / 64 ^ n := by
  refine ⟨.ofNat (leadBits (tailCount v) + v / 64 ^ tailCount v), tailCount v, ?_, ?_⟩
  · rw [encode, if_neg (by omega)]
  · rcases tailCount_cases v with ⟨h, hv⟩ | ⟨h, hv, hv'⟩ | ⟨h, hv⟩ <;>
      rw [h, toNat_ofNat (by simp only [leadBits]; norm_num; omega)] <;>
      simp only [leadBits, Leads, minimum] <;> norm_num <;> omega

/-- A lead byte and its tails are the encoding of the bits they carry, unless
fewer tails would do. -/
theorem encode_accumulate {a : UInt8} {n : Nat} {t : List UInt8} (hl : Leads a n) (ht : ∀ b ∈ t, IsTail b)
    (hn : t.length = n) (hm : minimum n ≤ accumulate (a.toNat - leadBits n) t) :
    encode (accumulate (a.toNat - leadBits n) t) = a :: t := by
  subst hn
  have hlt := accumulate_lt (p := a.toNat - leadBits t.length) ht
  have hc : 0x7f < accumulate (a.toNat - leadBits t.length) t ∧
      tailCount (accumulate (a.toNat - leadBits t.length) t) = t.length ∧ leadBits t.length ≤ a.toNat := by
    generalize accumulate (a.toNat - leadBits t.length) t = v at hm hlt ⊢
    rcases hl with ⟨h, h1, h2⟩ | ⟨h, h1, h2⟩ | ⟨h, h1, h2⟩ <;> rw [h] at hm hlt ⊢ <;>
      simp only [leadBits, minimum] at hm hlt ⊢ <;> norm_num at hm hlt ⊢ <;>
      rcases tailCount_cases v with ⟨h, _⟩ | ⟨h, _, _⟩ | ⟨h, _⟩ <;> omega
  rw [encode, if_neg (by omega), hc.2.1, accumulate_div ht, tails_accumulate ht, Nat.add_sub_cancel' hc.2.2,
    UInt8.ofNat_toNat]

end MiniLibc.Utf8
