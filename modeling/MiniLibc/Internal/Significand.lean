import MiniLibc.Lib.Significant
import MiniLibc.Internal.FloatRead
import MiniLibc.Internal.FloatGrammar
/-!
# The significand

What the loop over the digits has accumulated when digits were dropped, and what
`round_significand` makes of it.
-/
open MiniLibc.Numeral

namespace MiniLibc.FloatParse

/-! ## The digits of an input -/

/-- The digits before the point. -/
def wholeDigits (digitOf : Nat → Option Nat) (input : List Nat) : List Nat :=
  (input.takeWhile (digitIn digitOf)).filterMap digitOf

/-- The digits behind the point, if there is one. -/
def fractionDigits (digitOf : Nat → Option Nat) (input : List Nat) : List Nat :=
  match input.dropWhile (digitIn digitOf) with
  | [] => []
  | c :: rest => if c = '.'.toNat then wholeDigits digitOf rest else []

/-- The number they denote. -/
def Radix.exact (radix : Radix) (input : List Nat) : ℚ :=
  (readDigits radix.base 0 (wholeDigits radix.digitOf input ++ fractionDigits radix.digitOf input) : ℚ) /
    (radix.base : ℚ) ^ (fractionDigits radix.digitOf input).length

/-- What the loop leaves of an input. -/
def Radix.accumulated (radix : Radix) (input : List Nat) : Digits :=
  (digitLoop radix.digitOf radix.digitLimit radix.base {} 0 false input).1

/-- What the conversion starts from: the rounded significand at its place. -/
def Radix.rounded (radix : Radix) (input : List Nat) : ℚ :=
  ((radix.accumulated input).round radix.base : ℚ) *
    (radix.base : ℚ) ^ (((radix.accumulated input).discardedDigits : ℤ) - (radix.accumulated input).fractionalDigits)

section
variable {digitOf : Nat → Option Nat} {digitLimit base : Nat}

theorem digitLoop_fraction (a : Digits) (n : Nat) (input : List Nat) :
    (digitLoop digitOf digitLimit base a n true input).1 =
      a.accumulateAll (wholeDigits digitOf input) true digitLimit base := by
  induction input generalizing a n with
  | nil => rfl
  | cons c rest ih =>
    unfold digitLoop
    cases hc : digitOf c with
    | none =>
      have hd : ¬ digitIn digitOf c = true := by simp [digitIn, hc]
      rw [wholeDigits, List.takeWhile_cons_of_neg hd]
      dsimp only
      rw [if_neg (by simp)]
      rfl
    | some digit =>
      have hd : digitIn digitOf c = true := by simp [digitIn, hc]
      dsimp only
      rw [ih, wholeDigits, wholeDigits, List.takeWhile_cons_of_pos hd, List.filterMap_cons_some hc]
      rfl

/-- The loop accumulates the digits before the point, then those behind it. -/
theorem digitLoop_digits (a : Digits) (n : Nat) (input : List Nat) :
    (digitLoop digitOf digitLimit base a n false input).1 =
      (a.accumulateAll (wholeDigits digitOf input) false digitLimit base).accumulateAll
        (fractionDigits digitOf input) true digitLimit base := by
  induction input generalizing a n with
  | nil => rfl
  | cons c rest ih =>
    unfold digitLoop
    cases hc : digitOf c with
    | none =>
      have hd : ¬ digitIn digitOf c = true := by simp [digitIn, hc]
      rw [wholeDigits, fractionDigits, List.takeWhile_cons_of_neg hd, List.dropWhile_cons_of_neg hd]
      dsimp only
      by_cases hp : c = '.'.toNat
      · rw [if_pos (by simp [hp]), if_pos hp, digitLoop_fraction]
        rfl
      · rw [if_neg fun h => hp h.1, if_neg hp]
        rfl
    | some digit =>
      have hd : digitIn digitOf c = true := by simp [digitIn, hc]
      dsimp only
      rw [ih, wholeDigits, wholeDigits, fractionDigits, fractionDigits, List.takeWhile_cons_of_pos hd,
        List.dropWhile_cons_of_pos hd, List.filterMap_cons_some hc]
      rfl

/-! ## The invariant -/

/-- What was accumulated when the significant digits so far are `sig`, and `fractional`
of all the digits stood behind the point. The first `digitLimit` are the significand;
of the others there is their number, the first one, and whether another is not zero. -/
structure Digits.Accumulated (a : Digits) (digitLimit base : Nat) (sig : List Nat) (fractional : Nat) : Prop where
  started : a.significantStarted = true ↔ sig ≠ []
  stored : a.storedDigits = min sig.length digitLimit
  significand : a.significand = readDigits base 0 (sig.take digitLimit)
  fractional : a.fractionalDigits = fractional
  discarded : a.discardedDigits = sig.length - digitLimit
  first : a.firstDiscarded = sig[digitLimit]?
  nonzero : a.discardedNonzero = true ↔ ∃ d ∈ sig.drop (digitLimit + 1), d ≠ 0

theorem Digits.accumulated_initial : Digits.Accumulated {} digitLimit base [] 0 := by
  constructor <;> simp

theorem Digits.Accumulated.count {a : Digits} {sig : List Nat} {fractional : Nat}
    (h : a.Accumulated digitLimit base sig fractional) (afterPoint : Bool) :
    (a.count afterPoint).Accumulated digitLimit base sig (fractional + afterPoint.toNat) := by
  cases afterPoint with
  | false => exact h
  | true => exact { h with fractional := congrArg (· + 1) h.fractional }

/-- The significand has as many digits as are stored. -/
theorem Digits.Accumulated.bound {a : Digits} {sig : List Nat} {fractional : Nat}
    (h : a.Accumulated digitLimit base sig fractional) (hd : ∀ d ∈ sig, d < base) :
    a.significand < base ^ a.storedDigits := by
  have hin : ∀ d ∈ sig.take digitLimit, d < base := fun d hd' => hd d (List.mem_of_mem_take hd')
  have := readDigits_below hin
  rwa [← h.significand, List.length_take, Nat.min_comm, ← h.stored] at this

/-- A leading zero leaves no trace but in the count of the digits behind the point. -/
theorem Digits.Accumulated.leading {a : Digits} {fractional : Nat} (h : a.Accumulated digitLimit base [] fractional)
    (afterPoint : Bool) :
    (a.accumulate 0 afterPoint digitLimit base).Accumulated digitLimit base [] (fractional + afterPoint.toNat) := by
  have hc := h.count afterPoint
  have hstart : (a.count afterPoint).significantStarted = false := by
    simpa using mt hc.started.1 (not_not.2 rfl)
  unfold Digits.accumulate
  rw [if_pos ⟨by rw [hstart]; rfl, rfl⟩]
  exact hc

/-- The digit goes into the significand while there is room. -/
theorem Digits.Accumulated.store {a : Digits} {sig : List Nat} {fractional d : Nat}
    (h : a.Accumulated digitLimit base sig fractional) (hroom : sig.length < digitLimit)
    (hd : ∀ e ∈ sig ++ [d], e < base) (hfits : base ^ digitLimit ≤ 2 ^ 64) :
    Digits.Accumulated { a with
      significantStarted := true
      significand := (a.significand * base + d) % 2 ^ 64
      storedDigits := a.storedDigits + 1 } digitLimit base (sig ++ [d]) fractional := by
  have hlen : (sig ++ [d]).length ≤ digitLimit := by rw [List.length_append, List.length_singleton]; omega
  have hvalue : a.significand * base + d = readDigits base 0 (sig ++ [d]) := by
    rw [readDigits_append, h.significand, List.take_of_length_le (Nat.le_of_lt hroom)]
    rfl
  have hlt : readDigits base 0 (sig ++ [d]) < 2 ^ 64 := by
    have hbase : 0 < base := Nat.zero_lt_of_lt (hd d (by simp))
    exact (readDigits_below hd).trans_le ((Nat.pow_le_pow_right hbase hlen).trans hfits)
  constructor
  · simp
  · have := h.stored
    rw [List.length_append, List.length_singleton]
    dsimp only
    omega
  · rw [List.take_of_length_le hlen, ← hvalue]
    exact Nat.mod_eq_of_lt (hvalue ▸ hlt)
  · exact h.fractional
  · have := h.discarded
    dsimp only
    omega
  · rw [List.getElem?_eq_none hlen]
    exact h.first.trans (List.getElem?_eq_none (Nat.le_of_lt hroom))
  · have hnone := h.nonzero
    rw [List.drop_of_length_le (by omega)] at hnone ⊢
    exact hnone

/-- The first digit without room decides the rounding. -/
theorem Digits.Accumulated.discardFirst {a : Digits} {sig : List Nat} {fractional d : Nat}
    (h : a.Accumulated digitLimit base sig fractional) (hfull : sig.length = digitLimit) :
    Digits.Accumulated { a with
      significantStarted := true
      discardedDigits := a.discardedDigits + 1
      firstDiscarded := some d } digitLimit base (sig ++ [d]) fractional := by
  have hlen : (sig ++ [d]).length = digitLimit + 1 := by rw [List.length_append, List.length_singleton, hfull]
  constructor
  · simp
  · rw [hlen]
    exact h.stored.trans (by omega)
  · rw [List.take_append_of_le_length (Nat.le_of_eq hfull.symm)]
    exact h.significand
  · exact h.fractional
  · have := h.discarded
    dsimp only
    omega
  · rw [← hfull, List.getElem?_concat_length]
  · have hnone := h.nonzero
    rw [List.drop_of_length_le (by omega)] at hnone ⊢
    exact hnone

/-- Of the digits behind it only whether one is not zero matters. -/
theorem Digits.Accumulated.discardNext {a : Digits} {sig : List Nat} {fractional d : Nat}
    (h : a.Accumulated digitLimit base sig fractional) (hfull : digitLimit < sig.length) :
    Digits.Accumulated { a with
      significantStarted := true
      discardedDigits := a.discardedDigits + 1
      discardedNonzero := a.discardedNonzero ∨ d ≠ 0 } digitLimit base (sig ++ [d]) fractional := by
  have hlen : (sig ++ [d]).length = sig.length + 1 := by rw [List.length_append, List.length_singleton]
  constructor
  · simp
  · rw [hlen]
    exact h.stored.trans (by omega)
  · rw [List.take_append_of_le_length (Nat.le_of_lt hfull)]
    exact h.significand
  · exact h.fractional
  · have := h.discarded
    dsimp only
    omega
  · rw [List.getElem?_append_left hfull]
    exact h.first
  · rw [List.drop_append_of_le_length hfull]
    dsimp only
    rw [decide_eq_true_iff, h.nonzero]
    constructor
    · rintro (⟨e, he, h0⟩ | h0)
      · exact ⟨e, List.mem_append_left _ he, h0⟩
      · exact ⟨d, by simp, h0⟩
    · rintro ⟨e, he, h0⟩
      rcases List.mem_append.1 he with he | he
      · exact .inl ⟨e, he, h0⟩
      · exact .inr (List.mem_singleton.1 he ▸ h0)

/-- One more significant digit. -/
theorem Digits.Accumulated.accumulate {a : Digits} {sig : List Nat} {fractional d : Nat}
    (h : a.Accumulated digitLimit base sig fractional) (afterPoint : Bool) (hd : ∀ e ∈ sig ++ [d], e < base)
    (hfits : base ^ digitLimit ≤ 2 ^ 64) (hmore : sig ≠ [] ∨ d ≠ 0) :
    (a.accumulate d afterPoint digitLimit base).Accumulated digitLimit base (sig ++ [d])
      (fractional + afterPoint.toNat) := by
  have hc := h.count afterPoint
  obtain ⟨b, hb⟩ : ∃ b, a.count afterPoint = b := ⟨_, rfl⟩
  rw [hb] at hc
  have hgo : ¬((!b.significantStarted) = true ∧ d = 0) := by
    rintro ⟨h1, h2⟩
    rw [hc.started.2 (hmore.resolve_right (not_not.2 h2))] at h1
    cases h1
  unfold Digits.accumulate
  simp only [hb]
  rw [if_neg hgo]
  have hstored := hc.stored
  rcases Nat.lt_trichotomy sig.length digitLimit with hlt | heq | hgt
  · rw [if_pos (by omega)]
    exact hc.store hlt hd hfits
  · rw [if_neg (by omega), hc.first.trans (List.getElem?_eq_none (Nat.le_of_eq heq))]
    exact hc.discardFirst heq
  · have hnext := hc.discardNext (d := d) hgt
    have hfirst := hc.first.trans (List.getElem?_eq_getElem hgt)
    rw [hfirst] at hnext ⊢
    rw [if_neg (by omega)]
    exact hnext

/-- A run of digits. -/
theorem Digits.Accumulated.accumulateAll {a : Digits} {ds : List Nat} {fractional : Nat}
    (h : a.Accumulated digitLimit base (unpadded ds) fractional) (afterPoint : Bool)
    (hfits : base ^ digitLimit ≤ 2 ^ 64) {es : List Nat} (hd : ∀ d ∈ ds ++ es, d < base) :
    (a.accumulateAll es afterPoint digitLimit base).Accumulated digitLimit base (unpadded (ds ++ es))
      (fractional + afterPoint.toNat * es.length) := by
  induction es generalizing a ds fractional with
  | nil => simpa [Digits.accumulateAll] using h
  | cons d es ih =>
    have hcat := unpadded_concat ds d
    have hstep : (a.accumulate d afterPoint digitLimit base).Accumulated digitLimit base (unpadded (ds ++ [d]))
        (fractional + afterPoint.toNat) := by
      by_cases hzero : unpadded ds = [] ∧ d = 0
      · rw [if_pos hzero] at hcat
        rw [hcat, hzero.2]
        rw [hzero.1] at h
        exact h.leading afterPoint
      · rw [if_neg hzero] at hcat
        rw [hcat]
        refine h.accumulate afterPoint (fun e he => hd e ?_) hfits (by tauto)
        rcases List.mem_append.1 he with he | he
        · exact List.mem_append_left _ ((unpadded_sublist ds).subset he)
        · exact List.mem_append_right _ (List.mem_singleton.1 he ▸ List.mem_cons_self)
    have hrest := ih hstep (by simpa using hd)
    rw [List.append_assoc, List.singleton_append] at hrest
    rw [List.length_cons, show fractional + afterPoint.toNat * (es.length + 1) =
      fractional + afterPoint.toNat + afterPoint.toNat * es.length by ring]
    exact hrest

/-! ## Rounding -/

/-- `round_significand` rounds the number of all the digits to a multiple of the place
of the last stored one. -/
theorem Digits.Accumulated.round {a : Digits} {sig : List Nat} {fractional half : Nat}
    (h : a.Accumulated digitLimit base sig fractional) (hd : ∀ d ∈ sig, d < base) (hbase : base = 2 * half)
    (hhalf : 0 < half) (hfits : base ^ digitLimit < 2 ^ 64) :
    a.round base = RoundingMode.toNearest.roundDiv false (readDigits base 0 sig) (base ^ (sig.length - digitLimit)) := by
  unfold Digits.round
  rcases Nat.lt_or_ge digitLimit sig.length with hgt | hle
  · obtain ⟨first, hfirst⟩ : ∃ first, sig[digitLimit] = first := ⟨_, rfl⟩
    obtain ⟨tail, htail⟩ : ∃ tail, sig.drop (digitLimit + 1) = tail := ⟨_, rfl⟩
    have hdrop : sig.drop digitLimit = first :: tail := by
      rw [List.drop_eq_getElem_cons hgt, hfirst, htail]
    have hlen : sig.length - digitLimit = tail.length + 1 := by
      have := congrArg List.length hdrop
      rwa [List.length_drop, List.length_cons] at this
    have htaild : ∀ d ∈ tail, d < base := fun d hd' => hd d (List.mem_of_mem_drop (htail ▸ hd'))
    have hvalue : readDigits base 0 sig = a.significand * base ^ (tail.length + 1) +
        (first * base ^ tail.length + readDigits base 0 tail) := by
      rw [readDigits_split base digitLimit sig, hdrop, List.length_cons, ← h.significand, readDigits_cons,
        readDigits_from, Nat.zero_mul, Nat.zero_add]
    have hnonzero : a.discardedNonzero = true ↔ readDigits base 0 tail ≠ 0 := by
      rw [h.nonzero, htail, ne_eq, readDigits_eq_zero (by omega)]
      push Not
      rfl
    have hsig := (h.bound hd).trans_le (Nat.pow_le_pow_right (by omega) (h.stored.trans_le (Nat.min_le_right _ _)))
    have hfirstd : first < base := hfirst ▸ hd _ (List.getElem_mem hgt)
    have hdiv : base / 2 = half := by omega
    rw [h.first, List.getElem?_eq_getElem hgt, hfirst]
    dsimp only
    rw [hlen, hvalue, roundDiv_digits hbase (readDigits_below htaild) hfirstd, hdiv,
      Nat.mod_eq_of_lt (show a.significand + 1 < 2 ^ 64 by omega)]
    simp only [hnonzero]
  · rw [h.first, List.getElem?_eq_none hle, Nat.sub_eq_zero_of_le hle, pow_zero,
      RoundingMode.roundDiv_exact _ _ (Nat.mod_one _), Nat.div_one]
    exact h.significand.trans (by rw [List.take_of_length_le hle])

/-! ## The digits read -/

theorem wholeDigits_length (input : List Nat) :
    (wholeDigits digitOf input).length = (input.takeWhile (digitIn digitOf)).length := by
  induction input with
  | nil => rfl
  | cons c rest ih =>
    cases hc : digitOf c with
    | none => rw [wholeDigits, List.takeWhile_cons_of_neg (by simp [digitIn, hc])]; rfl
    | some digit =>
      have hd : digitIn digitOf c = true := by simp [digitIn, hc]
      rw [wholeDigits, List.takeWhile_cons_of_pos hd, List.filterMap_cons_some hc, List.length_cons, List.length_cons,
        ← ih, wholeDigits]

theorem digits_length (input : List Nat) :
    (wholeDigits digitOf input ++ fractionDigits digitOf input).length = mantissaDigits (digitIn digitOf) input := by
  rw [List.length_append, wholeDigits_length, mantissaDigits, fractionDigits]
  congr 1
  cases input.dropWhile (digitIn digitOf) with
  | nil => rfl
  | cons c rest =>
    dsimp only
    split
    · exact wholeDigits_length rest
    · rfl

theorem wholeDigits_lt (h : ∀ c d, digitOf c = some d → d < base) (input : List Nat) :
    ∀ d ∈ wholeDigits digitOf input, d < base := by
  intro d hd
  obtain ⟨c, -, hc⟩ := List.mem_filterMap.1 hd
  exact h c d hc

theorem fractionDigits_lt (h : ∀ c d, digitOf c = some d → d < base) (input : List Nat) :
    ∀ d ∈ fractionDigits digitOf input, d < base := by
  unfold fractionDigits
  split
  · simp
  · split
    · exact wholeDigits_lt h _
    · simp

end

/-- What the accumulation needs of a radix: an even base, and room for the digits. -/
structure Radix.Fits (radix : Radix) (half : Nat) : Prop where
  even : radix.base = 2 * half
  pos : 0 < half
  room : radix.base ^ radix.digitLimit < 2 ^ 64
  limit : radix.digitLimit < 2 ^ 32
  digit : ∀ c d, radix.digitOf c = some d → d < radix.base

theorem decimal_fits : decimal.Fits 5 := by
  refine ⟨rfl, by decide, by decide, by decide, fun c d hd => ?_⟩
  unfold decimal asciiDigit at hd
  simp only [Option.ite_none_right_eq_some, Option.some.injEq] at hd
  have h9 : '9'.toNat = 57 := rfl
  have h0 : '0'.toNat = 48 := rfl
  have hb : decimal.base = 10 := rfl
  omega

theorem hex_fits : hex.Fits 8 := by
  refine ⟨rfl, by decide, by decide, by decide, fun c d hd => ?_⟩
  have hb : hex.base = 16 := rfl
  have h0 : '0'.toNat = 48 ∧ '9'.toNat = 57 ∧ 'a'.toNat = 97 ∧ 'f'.toNat = 102 ∧ 'A'.toNat = 65 ∧ 'F'.toNat = 70 :=
    ⟨rfl, rfl, rfl, rfl, rfl, rfl⟩
  unfold hex asciiHex at hd
  dsimp only at hd
  split at hd
  · simp only [Option.some.injEq] at hd; omega
  split at hd
  · simp only [Option.some.injEq] at hd; omega
  split at hd
  · simp only [Option.some.injEq] at hd; omega
  · cases hd

/-- The digits of an input, all of them. -/
def Radix.digits (radix : Radix) (input : List Nat) : List Nat :=
  wholeDigits radix.digitOf input ++ fractionDigits radix.digitOf input

variable {radix : Radix} {half : Nat}

theorem Radix.Fits.digits_lt (h : radix.Fits half) (input : List Nat) : ∀ d ∈ radix.digits input, d < radix.base := by
  intro d hd
  rcases List.mem_append.1 hd with hd | hd
  · exact wholeDigits_lt h.digit input d hd
  · exact fractionDigits_lt h.digit input d hd

theorem Radix.Fits.accumulated (h : radix.Fits half) (input : List Nat) :
    (radix.accumulated input).Accumulated radix.digitLimit radix.base (unpadded (radix.digits input))
      (fractionDigits radix.digitOf input).length := by
  unfold Radix.accumulated
  rw [digitLoop_digits]
  have hroom := Nat.le_of_lt h.room
  have hstart : Digits.Accumulated {} radix.digitLimit radix.base (unpadded []) 0 := Digits.accumulated_initial
  have hwhole : (Digits.accumulateAll {} (wholeDigits radix.digitOf input) false radix.digitLimit
      radix.base).Accumulated radix.digitLimit radix.base (unpadded (wholeDigits radix.digitOf input)) 0 := by
    have hd : ∀ d ∈ [] ++ wholeDigits radix.digitOf input, d < radix.base := wholeDigits_lt h.digit input
    have := hstart.accumulateAll false hroom hd
    rwa [Bool.toNat_false, Nat.zero_mul] at this
  have hall := hwhole.accumulateAll true hroom (h.digits_lt input)
  rwa [Bool.toNat_true, Nat.one_mul, Nat.zero_add] at hall

/-- The significand at its place is the number rounded to its first digits. -/
theorem Radix.Fits.rounded (h : radix.Fits half) (input : List Nat) :
    radix.rounded input = roundSignificant radix.base radix.digitLimit (radix.exact input) := by
  have hacc := h.accumulated input
  have hsigd : ∀ d ∈ unpadded (radix.digits input), d < radix.base := fun d hd =>
    h.digits_lt input d ((unpadded_sublist _).subset hd)
  have hb : 1 < radix.base := by have := h.even; have := h.pos; omega
  rw [Radix.rounded, hacc.round hsigd h.even h.pos h.room, hacc.discarded, hacc.fractional, Radix.exact, ← Radix.digits,
    readDigits_unpadded]
  by_cases hnil : unpadded (radix.digits input) = []
  · have hzero : readDigits radix.base 0 (radix.digits input) = 0 := by
      rw [← readDigits_unpadded, hnil, readDigits_nil]
    rw [hzero, RoundingMode.roundDiv_exact _ _ (Nat.zero_mod _), Nat.zero_div, Nat.cast_zero, zero_mul, zero_div,
      roundSignificant_zero]
  · refine (roundSignificant_quotient _ hb (List.length_pos_of_ne_nil hnil) (readDigits_unpadded_ge hnil) ?_).symm
    rw [← readDigits_unpadded]
    exact readDigits_below hsigd

/-- With no more significant digits than are stored nothing was rounded. -/
theorem Radix.Fits.rounded_exact (h : radix.Fits half) {input : List Nat}
    (hfew : (significant (radix.digits input)).length ≤ radix.digitLimit) : radix.rounded input = radix.exact input := by
  have hacc := h.accumulated input
  have hsigd : ∀ d ∈ unpadded (radix.digits input), d < radix.base := fun d hd =>
    h.digits_lt input d ((unpadded_sublist _).subset hd)
  have hb : 0 < radix.base := by have := h.even; have := h.pos; omega
  have hbq : (radix.base : ℚ) ≠ 0 := by exact_mod_cast hb.ne'
  obtain ⟨sig, hsig⟩ : ∃ sig, unpadded (radix.digits input) = sig := ⟨_, rfl⟩
  rw [hsig] at hacc hsigd
  rw [significant, hsig] at hfew
  -- what was dropped are trailing zeros
  have hzeros : readDigits radix.base 0 (sig.drop radix.digitLimit) = 0 := by
    rw [readDigits_eq_zero hb]
    intro d hd
    rw [← List.rdropWhile_append_rtakeWhile (p := (· = 0)) (l := sig), List.drop_append,
      List.drop_of_length_le hfew, List.nil_append] at hd
    simpa using List.mem_rtakeWhile_imp (List.mem_of_mem_drop hd)
  have hsplit := readDigits_split radix.base radix.digitLimit sig
  rw [hzeros, Nat.add_zero, List.length_drop] at hsplit
  rw [Radix.rounded, hacc.round hsigd h.even h.pos h.room, hacc.discarded, hacc.fractional, Radix.exact, ← Radix.digits,
    ← readDigits_unpadded _ (radix.digits input), hsig, RoundingMode.roundDiv_exact _ _ (by rw [hsplit, Nat.mul_mod_left]), hsplit,
    Nat.mul_div_cancel _ (Nat.pow_pos hb), zpow_sub₀ hbq, zpow_natCast, zpow_natCast, Nat.cast_mul, Nat.cast_pow,
    mul_div_assoc]

/-- Nothing that the loop and the rounding add to can wrap: the 64-bit significand, the
counters, and the number of digits. -/
structure Radix.InRange (radix : Radix) (input : List Nat) : Prop where
  next : ∀ d, d < radix.base → (radix.accumulated input).storedDigits < radix.digitLimit →
    (radix.accumulated input).significand * radix.base + d < 2 ^ 64
  round : (radix.accumulated input).significand + 1 < 2 ^ 64
  stored : (radix.accumulated input).storedDigits < 2 ^ 32
  fractional : (radix.accumulated input).fractionalDigits < 2 ^ 32
  discarded : (radix.accumulated input).discardedDigits < 2 ^ 32
  digits : (digitLoop radix.digitOf radix.digitLimit radix.base {} 0 false input).2.1 = (radix.digits input).length

theorem Radix.Fits.inRange (h : radix.Fits half) {input : List Nat} (hlen : input.length < 2 ^ 32) :
    radix.InRange input := by
  have hacc := h.accumulated input
  have hsigd : ∀ d ∈ unpadded (radix.digits input), d < radix.base := fun d hd =>
    h.digits_lt input d ((unpadded_sublist _).subset hd)
  have hb : 2 ≤ radix.base := by have := h.even; have := h.pos; omega
  have hbound := hacc.bound hsigd
  have hstored := hacc.stored
  have hcount : (radix.digits input).length = mantissaDigits (digitIn radix.digitOf) input := digits_length input
  have hle := mantissaDigits_le (digitIn radix.digitOf) input
  have hsiglen := (unpadded_sublist (radix.digits input)).length_le
  have hfrac : (fractionDigits radix.digitOf input).length ≤ (radix.digits input).length :=
    (List.sublist_append_right _ _).length_le
  have hlimit := h.limit
  refine ⟨fun d hd hroom => ?_, ?_, by omega, by have := hacc.fractional; omega, by have := hacc.discarded; omega, ?_⟩
  · have hpow := Nat.pow_le_pow_right (Nat.zero_lt_of_lt hb)
      (show (radix.accumulated input).storedDigits + 1 ≤ radix.digitLimit from hroom)
    have hmul := Nat.mul_le_mul_right radix.base (Nat.succ_le_of_lt hbound)
    rw [Nat.succ_mul, ← pow_succ] at hmul
    have := h.room
    omega
  · have hpow := Nat.pow_le_pow_right (Nat.zero_lt_of_lt hb) (hstored.trans_le (Nat.min_le_right _ _))
    have := h.room
    omega
  · rw [digitLoop_eq _ (by decide), Nat.zero_add, hcount, Nat.mod_eq_of_lt (by omega)]

/-- For both radixes and every input: the digits the loop accumulates, rounded, are the
number they spell to the nearest even at 18 decimal or 15 hexadecimal significant
digits, and that number itself if it has no more. Nothing wraps at any point of the
loop. -/
theorem significand_faithful {radix : Radix} (hr : radix = decimal ∨ radix = hex) {input : List Nat}
    (hlen : input.length < 2 ^ 32) :
    radix.rounded input = roundSignificant radix.base radix.digitLimit (radix.exact input) ∧
      ((significant (radix.digits input)).length ≤ radix.digitLimit → radix.rounded input = radix.exact input) ∧
      ∀ start, start <+: input → radix.InRange start := by
  obtain ⟨half, h⟩ : ∃ half, radix.Fits half := by
    rcases hr with rfl | rfl
    · exact ⟨5, decimal_fits⟩
    · exact ⟨8, hex_fits⟩
  exact ⟨h.rounded input, h.rounded_exact, fun start hs => h.inRange (Nat.lt_of_le_of_lt hs.length_le hlen)⟩

/-- `0.10` -/
theorem significand_faithful_tenth : decimal.rounded [48, 46, 49, 48] = decimal.exact [48, 46, 49, 48] :=
  (significand_faithful (.inl rfl) (by decide)).2.1 (by decide)

end MiniLibc.FloatParse
