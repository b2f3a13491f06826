import MiniLibc.Lib.Numeral
import MiniLibc.Internal.FloatParse
/-!
# Reading digits

The loops over the digits of a number: how far they go, and what they have
accumulated when no digit was dropped.
-/
open MiniLibc.Numeral

namespace MiniLibc.FloatParse

/-- The characters of a list of digits. -/
def Spells (digitOf : Nat → Option Nat) (text digits : List Nat) : Prop := text.map digitOf = digits.map some

/-- There is no digit in front. -/
def NoDigit (digitOf : Nat → Option Nat) (rest : List Nat) : Prop := ∀ c, rest.head? = some c → digitOf c = none

namespace Spells

variable {digitOf : Nat → Option Nat} {text text' digits digits' : List Nat}

theorem append (h : Spells digitOf text digits) (h' : Spells digitOf text' digits') :
    Spells digitOf (text ++ text') (digits ++ digits') := by
  unfold Spells at h h' ⊢
  rw [List.map_append, List.map_append, h, h']

theorem map {f : Nat → Nat} (h : ∀ d ∈ digits, digitOf (f d) = some d) : Spells digitOf (digits.map f) digits := by
  unfold Spells
  rw [List.map_map]
  exact List.map_congr_left h

theorem replicate {c d : Nat} (h : digitOf c = some d) (k : Nat) :
    Spells digitOf (List.replicate k c) (List.replicate k d) := by
  unfold Spells
  rw [List.map_replicate, List.map_replicate, h]

theorem cons_inv {d : Nat} (h : Spells digitOf text (d :: digits)) :
    ∃ c text', text = c :: text' ∧ digitOf c = some d ∧ Spells digitOf text' digits := by
  cases text with
  | nil => cases h
  | cons c text' =>
    rw [Spells, List.map_cons, List.map_cons, List.cons.injEq] at h
    exact ⟨c, text', rfl, h.1, h.2⟩

theorem nil_inv (h : Spells digitOf text []) : text = [] := List.map_eq_nil_iff.1 h

end Spells

/-! ## The significand -/

/-- The digits of a piece, one after the other. -/
def Digits.accumulateAll (a : Digits) (digits : List Nat) (afterPoint : Bool) (digitLimit base : Nat) : Digits :=
  digits.foldl (fun a d => a.accumulate d afterPoint digitLimit base) a

theorem digitLoop_append {digitOf : Nat → Option Nat} {digitLimit base n : Nat} {a : Digits} {afterPoint : Bool}
    {text digits rest : List Nat} (h : Spells digitOf text digits) (hn : n < 2 ^ 32) :
    digitLoop digitOf digitLimit base a n afterPoint (text ++ rest)
      = digitLoop digitOf digitLimit base (a.accumulateAll digits afterPoint digitLimit base)
          ((n + digits.length) % 2 ^ 32) afterPoint rest := by
  induction digits generalizing a n text with
  | nil =>
    rw [h.nil_inv, List.nil_append, List.length_nil, Nat.add_zero, Nat.mod_eq_of_lt hn]
    rfl
  | cons d digits ih =>
    obtain ⟨c, text', rfl, hc, h'⟩ := h.cons_inv
    have hcount : ((n + 1) % 2 ^ 32 + digits.length) % 2 ^ 32 = (n + (d :: digits).length) % 2 ^ 32 := by
      rw [List.length_cons]
      omega
    rw [List.cons_append, digitLoop]
    simp only [hc]
    rw [ih h' (Nat.mod_lt _ (by decide)), hcount]
    rfl

theorem digitLoop_stop {digitOf : Nat → Option Nat} {digitLimit base n : Nat} {a : Digits} {afterPoint : Bool} {c : Nat}
    {rest : List Nat} (hc : digitOf c = none) (hp : c ≠ '.'.toNat) :
    digitLoop digitOf digitLimit base a n afterPoint (c :: rest) = (a, n, c :: rest) := by
  rw [digitLoop]
  simp only [hc]
  rw [if_neg (fun h => hp h.1)]

theorem digitLoop_point {digitOf : Nat → Option Nat} {digitLimit base n : Nat} {a : Digits} {rest : List Nat}
    (hc : digitOf '.'.toNat = none) :
    digitLoop digitOf digitLimit base a n false ('.'.toNat :: rest)
      = digitLoop digitOf digitLimit base a n true rest := by
  rw [digitLoop]
  simp only [hc]
  rw [if_pos (by simp)]

/-- Every digit is in the significand. -/
structure Digits.Exact (a : Digits) (value fractional stored : Nat) : Prop where
  significand : a.significand = value
  fractionalDigits : a.fractionalDigits = fractional
  storedDigits : a.storedDigits ≤ stored
  discardedDigits : a.discardedDigits = 0
  firstDiscarded : a.firstDiscarded = none
  started : a.significantStarted = false → a.significand = 0

theorem Digits.exact_initial : Digits.Exact {} 0 0 0 := ⟨rfl, rfl, le_rfl, rfl, rfl, fun _ => rfl⟩

/-- The leading zeros before the point leave no trace. -/
theorem Digits.accumulateAll_zeros (k digitLimit base : Nat) :
    Digits.accumulateAll {} (List.replicate k 0) false digitLimit base = {} := by
  induction k with
  | zero => rfl
  | succ k ih => exact ih

theorem Digits.Exact.accumulate {a : Digits} {value fractional stored : Nat} (h : a.Exact value fractional stored)
    {digitLimit base d : Nat} (afterPoint : Bool) (hs : stored < digitLimit) (hv : value * base + d < 2 ^ 64) :
    (a.accumulate d afterPoint digitLimit base).Exact (value * base + d) (fractional + afterPoint.toNat) (stored + 1) := by
  obtain ⟨rfl, rfl, hstored, hdis, hfirst, hstart⟩ := h
  have hroom : (a.count afterPoint).storedDigits < digitLimit := by
    have : (a.count afterPoint).storedDigits = a.storedDigits := by
      unfold count
      split
      · rfl
      · rfl
    omega
  have hcount : (a.count afterPoint).Exact a.significand (a.fractionalDigits + afterPoint.toNat) stored := by
    cases afterPoint with
    | false => exact ⟨rfl, rfl, hstored, hdis, hfirst, hstart⟩
    | true => exact ⟨rfl, rfl, hstored, hdis, hfirst, hstart⟩
  unfold Digits.accumulate
  dsimp only
  rw [if_pos hroom]
  split
  case isTrue hzero =>
    -- A leading zero changes nothing but the count of the digits behind the point.
    have hsig : a.significand = 0 := hcount.significand ▸ hcount.started (by simpa using hzero.1)
    rw [hsig, hzero.2, Nat.zero_mul]
    exact { hcount with
      significand := hcount.significand.trans hsig
      storedDigits := hcount.storedDigits.trans (Nat.le_succ _) }
  case isFalse hmore =>
    rw [hcount.significand]
    exact {
      significand := Nat.mod_eq_of_lt hv
      fractionalDigits := hcount.fractionalDigits
      storedDigits := Nat.succ_le_succ hcount.storedDigits
      discardedDigits := hcount.discardedDigits
      firstDiscarded := hcount.firstDiscarded
      started := by simp }

theorem Digits.Exact.accumulateAll {a : Digits} {value fractional stored : Nat} (h : a.Exact value fractional stored)
    {digitLimit base : Nat} {digits : List Nat} (afterPoint : Bool) (hbase : 0 < base)
    (hs : stored + digits.length ≤ digitLimit) (hv : readDigits base value digits < 2 ^ 64) :
    (a.accumulateAll digits afterPoint digitLimit base).Exact (readDigits base value digits)
      (fractional + afterPoint.toNat * digits.length) (stored + digits.length) := by
  induction digits generalizing a value fractional stored with
  | nil => simpa [Digits.accumulateAll] using h
  | cons d digits ih =>
    rw [List.length_cons] at hs ⊢
    have hd : value * base + d < 2 ^ 64 := by
      refine lt_of_le_of_lt ?_ hv
      rw [readDigits_cons, readDigits_from]
      exact (Nat.le_mul_of_pos_right _ (Nat.pow_pos hbase)).trans (Nat.le_add_right _ _)
    have hroom : stored + 1 + digits.length ≤ digitLimit := by omega
    have hfirst : (a.accumulate d afterPoint digitLimit base).Exact _ _ _ := h.accumulate afterPoint (by omega) hd
    have hstep := ih hfirst hroom hv
    have hfr : fractional + afterPoint.toNat + afterPoint.toNat * digits.length
        = fractional + afterPoint.toNat * (digits.length + 1) := by ring
    rw [hfr, Nat.add_assoc, Nat.add_comm 1] at hstep
    exact hstep

/-- Without a dropped digit there is nothing to round. -/
theorem Digits.Exact.round {a : Digits} {value fractional stored : Nat} (h : a.Exact value fractional stored)
    (base : Nat) : a.round base = value := by
  unfold Digits.round
  rw [h.firstDiscarded]
  exact h.significand

/-! ## The exponent -/

theorem exponentLoop_append {e : Exponent} {n : Nat} {text digits rest : List Nat} (h : Spells asciiDigit text digits)
    (hrest : NoDigit asciiDigit rest) (hn : n < 2 ^ 32) (he : e.overflow = false)
    (hcap : readDigits 10 e.value digits ≤ exponentCap) :
    exponentLoop e n (text ++ rest)
      = ({ e with value := readDigits 10 e.value digits }, (n + digits.length) % 2 ^ 32, rest) := by
  induction digits generalizing e n text with
  | nil =>
    rw [h.nil_inv, List.nil_append, List.length_nil, Nat.add_zero, Nat.mod_eq_of_lt hn]
    cases rest with
    | nil => rfl
    | cons c rest =>
      rw [exponentLoop]
      simp [hrest c rfl]
  | cons d digits ih =>
    obtain ⟨c, text', rfl, hc, h'⟩ := h.cons_inv
    have hle : e.value * 10 + d ≤ exponentCap := by
      refine le_trans ?_ hcap
      rw [readDigits_cons, readDigits_from]
      exact (Nat.le_mul_of_pos_right _ (Nat.pow_pos (by decide))).trans (Nat.le_add_right _ _)
    have hacc : e.accumulate d = { e with value := e.value * 10 + d } := by
      unfold Exponent.accumulate
      rw [if_neg (by simp [he]), if_neg (by omega)]
    have hcount : ((n + 1) % 2 ^ 32 + digits.length) % 2 ^ 32 = (n + (d :: digits).length) % 2 ^ 32 := by
      rw [List.length_cons]
      omega
    rw [List.cons_append, exponentLoop]
    simp only [hc]
    rw [hacc, ih (e := { e with value := e.value * 10 + d }) h' (Nat.mod_lt _ (by decide)) he hcap, hcount]
    rfl

/-- A complete exponent. -/
theorem parseExponent_complete (policy : Policy) (marker : Nat) {sign : Nat} {text digits rest : List Nat}
    (hsign : isSign sign) (h : Spells asciiDigit text digits) (hne : digits ≠ []) (hlen : digits.length < 2 ^ 32)
    (hrest : NoDigit asciiDigit rest) (hcap : readDigits 10 0 digits ≤ exponentCap) :
    parseExponent policy marker (sign :: (text ++ rest))
      = (.success, { negative := sign = '-'.toNat, value := readDigits 10 0 digits }, rest) := by
  obtain ⟨d, digits', rfl⟩ := List.exists_cons_of_ne_nil hne
  obtain ⟨c, text', rfl, hc, h'⟩ := h.cons_inv
  have hloop := exponentLoop_append (e := { negative := sign = '-'.toNat }) h hrest (by decide : 0 < 2 ^ 32) rfl hcap
  have hdigits : (0 + (d :: digits').length) % 2 ^ 32 ≠ 0 := by
    rw [Nat.zero_add, Nat.mod_eq_of_lt hlen]
    exact Nat.succ_ne_zero _
  unfold parseExponent
  dsimp only
  rw [if_pos hsign, List.cons_append]
  dsimp only
  rw [← List.cons_append, hloop]
  dsimp only
  rw [if_neg hdigits]

end MiniLibc.FloatParse
