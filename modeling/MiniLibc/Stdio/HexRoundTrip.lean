import MiniLibc.Internal.FloatRead
import MiniLibc.Internal.FloatScale
import MiniLibc.Stdio.FloatText
/-!
# Reading back a hexadecimal floating number

The text of `a` without a precision spells the number exactly, as the digits of a
significand and a power of two. `strtod` reads the significand and the exponent
back; whether it then finds the number is up to the table of `scale_binary`.
-/
open MiniLibc.Numeral MiniLibc.FloatParse MiniLibc.Binary64

namespace MiniLibc.Stdio

/-! ## Characters -/

theorem asciiHex_digitChar (uppercase : Bool) : ∀ d < 16, asciiHex (digitChar uppercase d) = some d := by
  cases uppercase <;> decide

theorem asciiDigit_decimal : ∀ d < 10, asciiDigit ('0'.toNat + d) = some d := by decide

/-- The digits of the fraction. -/
theorem fraction_text (uppercase : Bool) (precision kept : Nat) :
    ((List.range precision).map fun i => hexDigit (kept / 2 ^ ((precision - 1 - i) * 4)) uppercase)
      = (fixedDigits 16 precision kept).map (digitChar uppercase) := by
  unfold fixedDigits hexDigit
  rw [List.map_map]
  apply List.map_congr_left
  intro i _
  have hpow : 2 ^ ((precision - 1 - i) * 4) = 16 ^ (precision - 1 - i) := by
    rw [Nat.mul_comm, Nat.pow_mul]
  rw [Function.comp_apply, hpow]

/-! ## The shortest fraction -/

theorem dropZeros_le (n k : Nat) : (dropZeros n k).1 ≤ n := by
  fun_induction dropZeros n k with
  | case1 k => exact le_rfl
  | case2 n k hz ih => exact ih.trans (Nat.le_succ n)
  | case3 n k hz => exact le_rfl

/-- Only zeros are dropped. -/
theorem dropZeros_eq (n k : Nat) : (dropZeros n k).2 * 16 ^ (n - (dropZeros n k).1) = k := by
  fun_induction dropZeros n k with
  | case1 k => exact Nat.mul_one k
  | case2 n k hz ih =>
    have hle := dropZeros_le n (k / 16)
    rw [Nat.succ_sub hle, pow_succ, ← Nat.mul_assoc, ih]
    omega
  | case3 n k hz =>
    rw [Nat.sub_self, pow_zero, Nat.mul_one]

/-- All of them are dropped. -/
theorem dropZeros_least {n k p : Nat} (hp : p ≤ n) (h : 16 ^ (n - p) ∣ k) : (dropZeros n k).1 ≤ p := by
  fun_induction dropZeros n k with
  | case1 k => exact Nat.zero_le p
  | case2 n k hz ih =>
    rcases Nat.eq_or_lt_of_le hp with rfl | hlt
    · exact (dropZeros_le n (k / 16)).trans (Nat.le_succ n)
    · have hle : p ≤ n := Nat.le_of_lt_succ hlt
      rw [Nat.succ_sub hle, pow_succ] at h
      exact ih hle (Nat.dvd_div_of_mul_dvd (Nat.mul_comm .. ▸ h))
  | case3 n k hz =>
    rcases Nat.eq_or_lt_of_le hp with rfl | hlt
    · exact le_rfl
    · rw [Nat.succ_sub (Nat.le_of_lt_succ hlt), pow_succ] at h
      exact absurd (Nat.mod_eq_zero_of_dvd ((Nat.dvd_mul_left ..).trans h)) hz

/-! ## The parser on a hexadecimal number -/

theorem scale_status (powers : List Binary64) (bound : Int) (significand : Nat) (exponent : Int) (negative : Bool) :
    (scale powers bound significand exponent negative).status = .success ∨
      (scale powers bound significand exponent negative).status = .rangeFail := by
  unfold scale finishRange
  dsimp only
  repeat' split
  all_goals first | exact .inl rfl | exact .inr rfl

/-- The conversion of an exact significand. -/
theorem convert_exact {a : Digits} {value fractional stored : Nat} (h : a.Exact value fractional stored)
    {e : Exponent} (he : e.overflow = false) (negative : Bool) :
    hex.convert negative a e
      = scaleBinary value ((if e.negative then -(e.value : Int) else e.value) - (fractional * 4 : Nat)) negative := by
  have hround : a.round hex.base = value := h.round 16
  unfold Radix.convert
  dsimp only
  rw [hround, h.discardedDigits, h.fractionalDigits, he]
  by_cases hz : value = 0
  · rw [if_pos hz, hz]
    rfl
  · rw [if_neg hz, if_neg Bool.false_ne_true]
    show scaleBinary value _ negative = scaleBinary value _ negative
    congr 1
    have hw : hex.weight = 4 := rfl
    rw [hw]
    split
    · omega
    · omega

/-- A sign and a number as `append_exponent` writes it. -/
theorem parseExponent_append (policy : Policy) (marker : Nat) {exponent : Int} {rest : List Nat} (minimum : Nat)
    (hrest : NoDigit asciiDigit rest) (hmin : minimum ≤ 4) (hexp : exponent.natAbs < 10 ^ 4) :
    ∃ sign tail, appendExponent marker exponent minimum = marker :: sign :: tail ∧
      parseExponent policy marker (sign :: tail ++ rest)
        = (.success, { negative := exponent < 0, value := exponent.natAbs }, rest) := by
  have hspell : Spells asciiDigit ((lowDigits 10 minimum exponent.natAbs).map fun digit => '0'.toNat + digit).reverse
      (lowDigits 10 minimum exponent.natAbs).reverse := by
    rw [← List.map_reverse]
    apply Spells.map
    intro d hd
    exact asciiDigit_decimal d (lowDigits_lt (by decide) minimum _ d (List.mem_reverse.1 hd))
  have hvalue : readDigits 10 0 (lowDigits 10 minimum exponent.natAbs).reverse = exponent.natAbs := by
    rw [readDigits_lowDigits (by decide), Nat.zero_mul, Nat.zero_add]
  have hlen : (lowDigits 10 minimum exponent.natAbs).reverse.length < 2 ^ 32 := by
    rw [List.length_reverse]
    exact (lowDigits_length_le (by decide) hmin hexp).trans_lt (by decide)
  have hne : (lowDigits 10 minimum exponent.natAbs).reverse ≠ [] :=
    fun h => lowDigits_ne_nil 10 minimum exponent.natAbs (List.reverse_eq_nil_iff.1 h)
  refine ⟨if exponent < 0 then '-'.toNat else '+'.toNat,
    ((lowDigits 10 minimum exponent.natAbs).map fun digit => '0'.toNat + digit).reverse, rfl, ?_⟩
  have hsign : isSign (if exponent < 0 then '-'.toNat else '+'.toNat) := by
    split
    · decide
    · decide
  have hcap : readDigits 10 0 (lowDigits 10 minimum exponent.natAbs).reverse ≤ exponentCap := by
    rw [hvalue]
    exact hexp.le.trans (by decide)
  rw [List.cons_append, parseExponent_complete policy marker hsign hspell hne hlen hrest hcap, hvalue]
  by_cases hneg : exponent < 0
  · simp [hneg]
  · simp [hneg]

/-- The digits of a hexadecimal number, behind zeros. -/
theorem digitLoop_text (uppercase point : Bool) {lead zeros marker : Nat} {ds rest : List Nat}
    (hmarker : asciiHex marker = none ∧ marker ≠ '.'.toNat) (hlead : lead < 16) (hds : ∀ d ∈ ds, d < 16)
    (hpoint : ds ≠ [] → point = true) (hlen : ds.length ≤ 14) (hzeros : zeros < 2 ^ 31) :
    ∃ a n, digitLoop asciiHex hexDigits 16 {} 0 false
          (List.replicate zeros '0'.toNat ++ (digitChar uppercase lead ::
            ((if point then '.'.toNat :: ds.map (digitChar uppercase) else []) ++ marker :: rest)))
        = (a, n, marker :: rest) ∧ n ≠ 0 ∧ a.Exact (readDigits 16 lead ds) ds.length (1 + ds.length) := by
  -- The digits before the point.
  have hwhole : Spells asciiHex (List.replicate zeros '0'.toNat ++ [digitChar uppercase lead])
      (List.replicate zeros 0 ++ [lead]) := by
    refine (Spells.replicate (by decide) zeros).append ?_
    rw [Spells, List.map_singleton, List.map_singleton, asciiHex_digitChar uppercase lead hlead]
  have hfirst : (Digits.accumulateAll {} (List.replicate zeros 0 ++ [lead]) false hexDigits 16).Exact lead 0 1 := by
    have hone : (Digits.accumulate {} lead false hexDigits 16).Exact (0 * 16 + lead) (0 + false.toNat) (0 + 1) :=
      Digits.exact_initial.accumulate false (by decide) (by omega)
    have hskip := Digits.accumulateAll_zeros zeros hexDigits 16
    unfold Digits.accumulateAll at hskip ⊢
    rw [List.foldl_append, hskip]
    simpa using hone
  have hcount : (0 + (List.replicate zeros 0 ++ [lead]).length) % 2 ^ 32 = zeros + 1 := by
    rw [List.length_append, List.length_replicate, List.length_singleton]
    omega
  have hsplit (tail : List Nat) : List.replicate zeros '0'.toNat ++ digitChar uppercase lead :: tail
      = List.replicate zeros '0'.toNat ++ [digitChar uppercase lead] ++ tail := by simp
  rw [hsplit, digitLoop_append hwhole (by decide), hcount]
  generalize Digits.accumulateAll {} (List.replicate zeros 0 ++ [lead]) false hexDigits 16 = first at hfirst
  cases hp : point with
  | false =>
    have hnil : ds = [] := by
      by_contra hne
      rw [hp] at hpoint
      exact Bool.false_ne_true (hpoint hne)
    refine ⟨first, zeros + 1, ?_, Nat.succ_ne_zero zeros, ?_⟩
    · rw [if_neg Bool.false_ne_true, List.nil_append]
      exact digitLoop_stop hmarker.1 hmarker.2
    · simpa [hnil] using hfirst
  | true =>
    have hfraction : Spells asciiHex (ds.map (digitChar uppercase)) ds :=
      Spells.map fun d hd => asciiHex_digitChar uppercase d (hds d hd)
    have hvalue : readDigits 16 lead ds < 2 ^ 64 := by
      refine (readDigits_lt hds hlead).trans_le ?_
      have hpow : 16 ^ ds.length ≤ 16 ^ 14 := Nat.pow_le_pow_right (by decide) hlen
      omega
    have hroom : 1 + ds.length ≤ hexDigits := by
      unfold hexDigits
      omega
    have hall := hfirst.accumulateAll true (by decide) hroom hvalue
    refine ⟨first.accumulateAll ds true hexDigits 16, (zeros + 1 + ds.length) % 2 ^ 32, ?_, by omega, ?_⟩
    · rw [if_pos rfl, List.cons_append, digitLoop_point (by decide), digitLoop_append hfraction (by omega),
        digitLoop_stop hmarker.1 hmarker.2]
    · simpa using hall

/-- A hexadecimal number with an exponent, behind zeros. -/
theorem parseHex_text (policy : Policy) (negative uppercase point : Bool) {marker lead zeros : Nat} {ds rest : List Nat}
    {exponent : Int} (hmarker : asciiEqualCi marker 'p') (hlead : lead < 16) (hds : ∀ d ∈ ds, d < 16)
    (hpoint : ds ≠ [] → point = true) (hlen : ds.length ≤ 14) (hzeros : zeros < 2 ^ 31)
    (hrest : NoDigit asciiDigit rest) (hexp : exponent.natAbs < 10 ^ 4) :
    parseHex policy negative true
        (List.replicate zeros '0'.toNat ++ (digitChar uppercase lead ::
          ((if point then '.'.toNat :: ds.map (digitChar uppercase) else []) ++
            (appendExponent marker exponent 1 ++ rest))))
      = ⟨(scaleBinary (readDigits 16 lead ds) (exponent - (ds.length * 4 : Nat)) negative).status,
          some (scaleBinary (readDigits 16 lead ds) (exponent - (ds.length * 4 : Nat)) negative).value, rest⟩ := by
  obtain ⟨sign, tail, happ, hparse⟩ := parseExponent_append policy marker 1 hrest (by decide) hexp
  have hother : asciiHex marker = none ∧ marker ≠ '.'.toNat := by
    have hm : marker = 112 ∨ marker + 32 = 112 := by simpa [asciiEqualCi] using hmarker
    rcases hm with rfl | hm
    · decide
    · obtain rfl : marker = 80 := by omega
      decide
  obtain ⟨a, n, hloop, hn, hexact⟩ := @digitLoop_text uppercase point lead zeros marker ds (sign :: tail ++ rest)
    hother hlead hds hpoint hlen hzeros
  have hvalue : (if exponent < 0 then -(exponent.natAbs : Int) else exponent.natAbs) = exponent := by omega
  have hconvert := @convert_exact a _ _ _ hexact { negative := exponent < 0, value := exponent.natAbs } rfl negative
  dsimp only at hconvert
  simp only [decide_eq_true_eq, hvalue] at hconvert
  unfold parseHex Radix.parse
  rw [happ]
  have hcons : marker :: sign :: tail ++ rest = marker :: (sign :: tail ++ rest) := rfl
  have hradix : hex.digitOf = asciiHex ∧ hex.digitLimit = hexDigits ∧ hex.base = 16 := ⟨rfl, rfl, rfl⟩
  rw [hcons, hradix.1, hradix.2.1, hradix.2.2, hloop]
  dsimp only
  have hmark : asciiEqualCi marker hex.marker := hmarker
  rw [if_neg hn, if_pos hmark, hparse]
  dsimp only
  rw [if_pos rfl, if_pos rfl, hconvert]

/-! ## `strtod` on the printed text -/

theorem dropWhile_spaces (k : Nat) (l : List Nat) :
    (List.replicate k ' '.toNat ++ l).dropWhile asciiSpace = l.dropWhile asciiSpace := by
  induction k with
  | zero => rfl
  | succ k ih => exact ih

/-- The sign that `float_sign` chooses is read back. -/
theorem parseSigned_floatSign (spec : FormatSpec) (negative : Bool) (tail : List Nat) :
    parseSigned .strto true ((floatSign spec negative ++ '0'.toNat :: tail).dropWhile asciiSpace)
      = parseUnsigned .strto negative true ('0'.toNat :: tail) := by
  unfold floatSign
  cases negative with
  | true => rfl
  | false =>
    cases spec.plus with
    | true => rfl
    | false =>
      cases spec.space with
      | true => rfl
      | false => rfl

/-- `strtod` of a hexadecimal number between spaces. -/
theorem strtod_hex {spec : FormatSpec} {negative : Bool} {k x : Nat} {body rest : List Nat} {result : Result}
    (hx : asciiEqualCi x 'x') (hparse : parseHex .strto negative true body = ⟨result.status, some result.value, rest⟩)
    (hstatus : result.status = .success ∨ result.status = .rangeFail)
    (hlen : k + (floatSign spec negative).length + 2 + body.length ≤ widthMax) :
    strtod (List.replicate k ' '.toNat ++ (floatSign spec negative ++ '0'.toNat :: x :: body)) = result.value := by
  have htake : ((floatSign spec negative ++ '0'.toNat :: x :: body).dropWhile asciiSpace).take widthMax
      = (floatSign spec negative ++ '0'.toNat :: x :: body).dropWhile asciiSpace := by
    apply List.take_of_length_le
    refine (List.length_dropWhile_le _ _).trans ?_
    rw [List.length_append, List.length_cons, List.length_cons]
    omega
  have hunsigned : parseUnsigned .strto negative true ('0'.toNat :: x :: body)
      = ⟨result.status, some result.value, rest⟩ := by
    have hzero : asciiEqualCi '0'.toNat 'i' = false ∧ asciiEqualCi '0'.toNat 'n' = false := by decide
    have hne : ¬ (result.status = .matchFail ∧ Policy.strto = .strto) := by
      rintro ⟨hm, -⟩
      rcases hstatus with h | h
      · exact Status.noConfusion (hm.symm.trans h)
      · exact Status.noConfusion (hm.symm.trans h)
    unfold parseUnsigned
    dsimp only
    rw [hzero.1, hzero.2, if_neg Bool.false_ne_true, if_neg Bool.false_ne_true, if_pos rfl]
    rw [if_pos hx, hparse]
    dsimp only
    rw [if_neg hne]
  unfold strtod parseString floatParse
  rw [if_pos rfl, dropWhile_spaces]
  dsimp only
  rw [htake, parseSigned_floatSign, hunsigned]
  dsimp only
  rcases hstatus with h | h
  · rw [h]
    rfl
  · rw [h]
    rfl

/-- The text of `emit_float_text`: padding, sign, prefix, zeros, number, padding. -/
theorem rendering_emitFloatText (spec : FormatSpec) (negative : Bool) (radixPrefix text : List Nat) (zeroAllowed : Bool) :
    ∃ before zeros after, before + zeros + after ≤ spec.width ∧
      rendering (emitFloatText spec negative radixPrefix text zeroAllowed)
        = List.replicate before ' '.toNat ++ (floatSign spec negative ++ (radixPrefix ++
            (List.replicate zeros '0'.toNat ++ (text ++ List.replicate after ' '.toNat)))) := by
  have hoptional (l : List Nat) : rendering (if l = [] then [] else [.bytes l]) = l := by
    split
    · rename_i h
      rw [h]
      rfl
    · simp [Emit.text]
  unfold emitFloatText
  dsimp only
  generalize hpad : spec.width - ((floatSign spec negative).length + radixPrefix.length + text.length) = padding
  generalize hz : (spec.zero && !spec.left && zeroAllowed) = zeroed
  refine ⟨if !spec.left then if zeroed then 0 else padding else 0, if zeroed then padding else 0,
    if spec.left then if zeroed then 0 else padding else 0, ?_, ?_⟩
  · have hle : padding ≤ spec.width := hpad ▸ Nat.sub_le _ _
    cases spec.left <;> cases zeroed <;> simp [hle]
  · simp only [rendering_append, rendering_emitSpaces, hoptional, rendering_cons, rendering_nil, Emit.text,
      List.append_nil, List.append_assoc]

/-! ## The printed number -/

/-- How many digits of the fraction are printed. -/
def printedDigits (x : Binary64) : Nat := (dropZeros hexMaxPrecision x.fraction).1

/-- The significand that is printed: the leading digit and the kept ones. -/
def printedSignificand (x : Binary64) : Nat :=
  readDigits 16 (decomposeDouble x).leading (fixedDigits 16 (printedDigits x) (dropZeros hexMaxPrecision x.fraction).2)

/-- The power of two that goes with it. -/
def printedExponent (x : Binary64) : Int := (decomposeDouble x).exponent2 - (printedDigits x * 4 : Nat)

theorem printedDigits_le (x : Binary64) : printedDigits x ≤ 13 := dropZeros_le _ _

theorem exponent_lt {x : Binary64} (hx : x.Finite) : x.exponent < 2047 := by
  unfold Binary64.Finite infBits at hx
  unfold exponent
  omega

theorem fraction_lt (x : Binary64) : x.fraction < 2 ^ 52 := Nat.mod_lt _ (by decide)

theorem magnitude_eq (x : Binary64) : x.magnitude = x.exponent * 2 ^ 52 + x.fraction := (Nat.div_add_mod' _ _).symm

theorem nibbles {p : Nat} (hp : p ≤ 13) : 16 ^ (13 - p) = 2 ^ (52 - p * 4) := by
  have hsub : 52 - p * 4 = 4 * (13 - p) := by omega
  rw [hsub, Nat.pow_mul]

/-- The dropped digits are the lowest ones of the significand. -/
theorem printedSignificand_mul (x : Binary64) :
    printedSignificand x * 16 ^ (13 - printedDigits x) = (decomposeDouble x).leading * 2 ^ 52 + x.fraction := by
  have hle := printedDigits_le x
  have heq : (dropZeros hexMaxPrecision x.fraction).2 * 16 ^ (13 - printedDigits x) = x.fraction := dropZeros_eq _ _
  have hlt := fraction_lt x
  unfold printedSignificand
  generalize printedDigits x = p at hle heq
  generalize (dropZeros hexMaxPrecision x.fraction).2 = kept at heq
  have hpow : 16 ^ p * 16 ^ (13 - p) = 2 ^ 52 := by
    rw [← pow_add, Nat.add_sub_cancel' hle]
    rfl
  have hkept : kept < 16 ^ p := by
    rw [← heq, ← hpow] at hlt
    exact Nat.lt_of_mul_lt_mul_right hlt
  rw [readDigits_fixedDigits, Nat.mod_eq_of_lt hkept, Nat.add_mul, Nat.mul_assoc, hpow, heq]

/-- The units of a number, from its printed text. -/
theorem units_printed {x : Binary64} (hnz : x.magnitude ≠ 0) :
    ∃ j : Nat, (unitBits : Int) + printedExponent x = j ∧ units x.magnitude = printedSignificand x * 2 ^ j := by
  have hle := printedDigits_le x
  have hmul := printedSignificand_mul x
  rw [nibbles hle] at hmul
  have hunits := units_eq x.exponent x.fraction (fraction_lt x)
  rw [← magnitude_eq] at hunits
  have hfield : (decomposeDouble x).exponentField = x.exponent ∧ (decomposeDouble x).fraction = x.fraction := ⟨rfl, rfl⟩
  unfold printedExponent FloatParts.exponent2
  unfold FloatParts.leading at hmul
  rw [hfield.1] at hmul ⊢
  rw [hfield.2]
  by_cases he : x.exponent = 0
  · have hfr : ¬ (x.exponent = 0 ∧ x.fraction = 0) := by
      rintro ⟨-, hz⟩
      rw [magnitude_eq, he, hz] at hnz
      exact hnz rfl
    rw [if_pos he, Nat.zero_mul, Nat.zero_add] at hmul
    rw [if_pos he] at hunits
    refine ⟨52 - printedDigits x * 4, ?_, hunits.trans hmul.symm⟩
    rw [if_neg hfr, if_pos he]
    unfold unitBits
    omega
  · have hfr : ¬ (x.exponent = 0 ∧ x.fraction = 0) := fun h => he h.1
    rw [if_neg he, Nat.one_mul] at hmul
    rw [if_neg he, ← hmul, Nat.mul_assoc, ← pow_add] at hunits
    refine ⟨52 - printedDigits x * 4 + (x.exponent - 1), ?_, hunits⟩
    rw [if_neg hfr, if_neg he]
    unfold unitBits
    omega

theorem printedExponent_lt {x : Binary64} (hx : x.Finite) : printedExponent x < 1024 := by
  have hexp := exponent_lt hx
  have hfield : (decomposeDouble x).exponentField = x.exponent := rfl
  unfold printedExponent FloatParts.exponent2
  rw [hfield]
  split
  · omega
  · split
    · omega
    · omega

/-! ## The round trip -/

/-- Some `p` digits are enough for the fraction, and not too many for the table
of `scale_binary`. -/
def ReadsBack (x : Binary64) : Prop := ∃ p ≤ 13, 4 * p ≤ x.exponent ∧ 16 ^ (13 - p) ∣ x.fraction

theorem readsBack_iff_digits (x : Binary64) : ReadsBack x ↔ 4 * printedDigits x ≤ x.exponent := by
  constructor
  · rintro ⟨p, hp, hle, hdvd⟩
    have hleast : printedDigits x ≤ p := dropZeros_least hp hdvd
    omega
  · intro h
    exact ⟨printedDigits x, printedDigits_le x, h, Dvd.intro_left _ (dropZeros_eq _ _)⟩

/-- Of a nonzero number the printed exponent is in the table, or it is not. -/
theorem readsBack_iff_exponent {x : Binary64} (hnz : x.magnitude ≠ 0) : ReadsBack x ↔ -1024 < printedExponent x := by
  have hfield : (decomposeDouble x).exponentField = x.exponent ∧ (decomposeDouble x).fraction = x.fraction := ⟨rfl, rfl⟩
  rw [readsBack_iff_digits]
  unfold printedExponent FloatParts.exponent2
  rw [hfield.1, hfield.2]
  by_cases he : x.exponent = 0
  · have hfr : x.fraction ≠ 0 := by
      intro hz
      rw [magnitude_eq, he, hz] at hnz
      exact hnz rfl
    -- A subnormal number has a digit behind the point.
    have hdigits : printedDigits x ≠ 0 := by
      intro hz
      have heq : (dropZeros hexMaxPrecision x.fraction).2 * 16 ^ (13 - printedDigits x) = x.fraction := dropZeros_eq _ _
      have hlt := fraction_lt x
      rw [hz] at heq
      omega
    rw [if_neg (fun h => hfr h.2), if_pos he]
    omega
  · rw [if_neg (fun h => he h.1), if_neg he]
    omega

/-- What `scale_binary` makes of the printed significand and exponent. -/
theorem scaleBinary_printed {x : Binary64} (hx : x.Finite) :
    (scaleBinary (printedSignificand x) (printedExponent x) x.neg).value = x ↔ ReadsBack x := by
  have hmul := printedSignificand_mul x
  by_cases hz : x.magnitude = 0
  · have he : x.exponent = 0 := by
      unfold exponent
      rw [hz]
      rfl
    have hf : x.fraction = 0 := by
      unfold fraction
      rw [hz]
      rfl
    have hlead : (decomposeDouble x).leading = 0 := if_pos he
    rw [hlead, hf, Nat.zero_mul, Nat.zero_add] at hmul
    have hs : printedSignificand x = 0 := (Nat.mul_eq_zero.1 hmul).resolve_right (Nat.pow_pos (by decide)).ne'
    have hvalue : (scaleBinary (printedSignificand x) (printedExponent x) x.neg).value = x := by
      rw [hs]
      refine eq_of_units ?_ ?_
      · show (signedZero x.neg).neg = x.neg
        cases x.neg <;> rfl
      · show units (signedZero x.neg).magnitude = units x.magnitude
        rw [hz]
        cases x.neg <;> rfl
    exact iff_of_true hvalue ⟨0, Nat.zero_le _, Nat.zero_le _, by rw [hf]; exact Nat.dvd_zero _⟩
  · obtain ⟨j, hj, hunits⟩ := units_printed hz
    have hs : printedSignificand x ≠ 0 := by
      intro h0
      have hzero : units x.magnitude = units 0 := by
        rw [hunits, h0, Nat.zero_mul]
        rfl
      exact hz (units_inj.1 hzero)
    have hs' : printedSignificand x < 2 ^ 53 := by
      have hlead : (decomposeDouble x).leading ≤ 1 := by
        unfold FloatParts.leading
        split
        · exact Nat.zero_le 1
        · exact le_rfl
      have hf := fraction_lt x
      have hle := Nat.le_mul_of_pos_right (printedSignificand x) (Nat.pow_pos (by decide : 0 < 16) : 0 < 16 ^ (13 - printedDigits x))
      omega
    rw [readsBack_iff_exponent hz]
    constructor
    · intro heq
      by_contra hle
      rw [scaleBinary_past x.neg hs (not_lt.1 hle)] at heq
      refine hz ?_
      rw [← heq]
      cases x.neg <;> rfl
    · intro hlow
      have hexact := scaleBinary_exact x.neg hs' hs hj hlow (printedExponent_lt hx) (hunits ▸ units_lt hx)
      exact eq_of_units hexact.1 (hexact.2.trans hunits.symm)

theorem appendExponent_length {exponent : Int} (marker : Nat) (hexp : exponent.natAbs < 10 ^ 4) :
    (appendExponent marker exponent 1).length ≤ 6 := by
  have hlen := lowDigits_length_le (by decide : 0 < 4) (by decide : 1 ≤ 4) hexp
  unfold appendExponent
  rw [List.length_append, List.length_reverse, List.length_map]
  exact Nat.add_le_add_left hlen 2

/-- The text that is made for a finite number. -/
theorem makeHexText_shortest {spec : FormatSpec} (hprec : spec.precisionSet = false) (x : Binary64) :
    ∃ uppercase point marker, asciiEqualCi marker 'p' ∧ (printedDigits x ≠ 0 → point = true) ∧
      makeHexText spec (decomposeDouble x)
        = some (digitChar uppercase (decomposeDouble x).leading ::
            ((if point then
                '.'.toNat :: (fixedDigits 16 (printedDigits x) (dropZeros hexMaxPrecision x.fraction).2).map
                  (digitChar uppercase)
              else []) ++ appendExponent marker (decomposeDouble x).exponent2 1)) := by
  have hlead : (decomposeDouble x).leading % 16 = (decomposeDouble x).leading := by
    unfold FloatParts.leading
    split
    · rfl
    · rfl
  refine ⟨spec.conversion = 'A'.toNat, printedDigits x ≠ 0 ∨ spec.alternate,
    if spec.conversion = 'A'.toNat then 'P'.toNat else 'p'.toNat, ?_, ?_, ?_⟩
  · split
    · decide
    · decide
  · intro h
    simp [h]
  · unfold makeHexText
    rw [hprec]
    dsimp only
    rw [if_neg (fun h => Bool.false_ne_true h.1), if_neg Bool.false_ne_true]
    unfold FloatParts.shortest
    dsimp only
    have hdigits : (dropZeros hexMaxPrecision (decomposeDouble x).fraction).1 = printedDigits x := rfl
    rw [fraction_text, hexDigit, hlead, hdigits]
    by_cases hpoint : printedDigits x ≠ 0 ∨ spec.alternate = true
    · rw [if_pos hpoint, if_pos (decide_eq_true hpoint)]
      simp [decomposeDouble]
    · rw [if_neg hpoint, decide_eq_false hpoint, if_neg Bool.false_ne_true]
      simp [decomposeDouble]

/-- The conversion of a finite number puts its sign and a prefix before the text. -/
theorem emitFloating_hex {spec : FormatSpec} (hconv : spec.conversion = 'a'.toNat ∨ spec.conversion = 'A'.toNat)
    (hlength : spec.length = .none ∨ spec.length = .l) {x : Binary64} (hx : x.Finite) :
    emitFloating spec x = (makeHexText spec (decomposeDouble x)).map fun text =>
      emitFloatText spec x.neg ['0'.toNat, if spec.conversion = 'A'.toNat then 'X'.toNat else 'x'.toNat] text true := by
  have hkind : (decomposeDouble x).kind = .finite := by
    have hexp := exponent_lt hx
    exact if_neg (by omega)
  unfold emitFloating isConversion
  dsimp only
  rw [if_neg (by rcases hlength with h | h <;> simp [h]), if_neg (not_not.2 hkind)]
  rcases hconv with h | h
  · rw [h]
    rfl
  · rw [h]
    rfl

/-- What `strtod` makes of the text of `a` without a precision, whatever the flags
and the width are. -/
theorem strtod_hexFloating {spec : FormatSpec} (hconv : spec.conversion = 'a'.toNat ∨ spec.conversion = 'A'.toNat)
    (hlength : spec.length = .none ∨ spec.length = .l) (hprec : spec.precisionSet = false) {x : Binary64} (hx : x.Finite) :
    ∃ calls, emitFloating spec x = some calls ∧
      strtod (rendering calls) = (scaleBinary (printedSignificand x) (printedExponent x) x.neg).value := by
  obtain ⟨uppercase, point, marker, hmarker, hpoint, htext⟩ := makeHexText_shortest hprec x
  -- The prefix is that of a hexadecimal number in both cases.
  obtain ⟨letter, hletter, hcalls⟩ : ∃ letter, asciiEqualCi letter 'x' ∧ emitFloating spec x
      = (makeHexText spec (decomposeDouble x)).map fun text =>
          emitFloatText spec x.neg ['0'.toNat, letter] text true := by
    refine ⟨_, ?_, emitFloating_hex hconv hlength hx⟩
    split
    · decide
    · decide
  rw [htext, Option.map_some] at hcalls
  refine ⟨_, hcalls, ?_⟩
  obtain ⟨before, zeros, after, hwidth, hrendering⟩ := rendering_emitFloatText spec x.neg ['0'.toNat, letter] _ true
  rw [hrendering]
  have hzeros : zeros < 2 ^ 31 := by
    have := spec.width_le
    unfold printfIntMax at this
    omega
  have hrest : NoDigit asciiDigit (List.replicate after ' '.toNat) := by
    intro c hc
    obtain rfl := List.eq_of_mem_replicate (List.mem_of_head? hc)
    decide
  have hlead : (decomposeDouble x).leading < 16 := by
    unfold FloatParts.leading
    split
    · decide
    · decide
  have hds : ∀ d ∈ fixedDigits 16 (printedDigits x) (dropZeros hexMaxPrecision x.fraction).2, d < 16 :=
    fixedDigits_lt (by decide) _ _
  have hlen := fixedDigits_length 16 (printedDigits x) (dropZeros hexMaxPrecision x.fraction).2
  have hdigits := printedDigits_le x
  have hexp : (decomposeDouble x).exponent2.natAbs < 10 ^ 4 := by
    have hlt := exponent_lt hx
    have hfield : (decomposeDouble x).exponentField = x.exponent := rfl
    unfold FloatParts.exponent2
    rw [hfield]
    split
    · decide
    · split
      · decide
      · omega
  have hne : fixedDigits 16 (printedDigits x) (dropZeros hexMaxPrecision x.fraction).2 ≠ [] → point = true := by
    intro h
    exact hpoint (fun hz => h (List.length_eq_zero_iff.1 (hlen.trans hz)))
  have hparse := @parseHex_text .strto x.neg uppercase point marker (decomposeDouble x).leading zeros _ _ _
    hmarker hlead hds hne (by omega) hzeros hrest hexp
  have hexponent : (decomposeDouble x).exponent2
      - ((fixedDigits 16 (printedDigits x) (dropZeros hexMaxPrecision x.fraction).2).length * 4 : Nat)
        = printedExponent x := by
    rw [hlen]
    rfl
  rw [hexponent] at hparse
  have hbound : before + (floatSign spec x.neg).length + 2
      + (List.replicate zeros '0'.toNat ++ (digitChar uppercase (decomposeDouble x).leading ::
          ((if point then
              '.'.toNat :: (fixedDigits 16 (printedDigits x) (dropZeros hexMaxPrecision x.fraction).2).map
                (digitChar uppercase)
            else []) ++ (appendExponent marker (decomposeDouble x).exponent2 1 ++ List.replicate after ' '.toNat)))).length
      ≤ widthMax := by
    have happend := appendExponent_length marker hexp
    have hsign : (floatSign spec x.neg).length ≤ 1 := by
      unfold floatSign
      repeat' split
      all_goals decide
    have hwide := spec.width_le
    unfold printfIntMax at hwide
    unfold widthMax
    cases point <;> simp <;> omega
  have hread := strtod_hex hletter hparse (scale_status _ _ _ _ _) hbound
  refine Eq.trans ?_ hread
  simp only [List.cons_append, List.nil_append, List.append_assoc]

/-- The text of `a` without a precision is read back exactly when `ReadsBack`
holds. -/
theorem strtod_hexFloating_iff {spec : FormatSpec} (hconv : spec.conversion = 'a'.toNat ∨ spec.conversion = 'A'.toNat)
    (hlength : spec.length = .none ∨ spec.length = .l) (hprec : spec.precisionSet = false) {x : Binary64} (hx : x.Finite) :
    ∃ calls, emitFloating spec x = some calls ∧ (strtod (rendering calls) = x ↔ ReadsBack x) := by
  obtain ⟨calls, hcalls, hread⟩ := strtod_hexFloating hconv hlength hprec hx
  refine ⟨calls, hcalls, ?_⟩
  rw [hread]
  exact scaleBinary_printed hx

theorem strtod_hexFloating_one :
    ∃ calls, emitFloating { conversion := 'a'.toNat } (pow2 0 (Nat.zero_le _)) = some calls ∧
      (strtod (rendering calls) = pow2 0 (Nat.zero_le _) ↔ ReadsBack (pow2 0 (Nat.zero_le _))) :=
  strtod_hexFloating_iff (.inl rfl) (.inl rfl) rfl (pow2_finite 0 _)

/-- The smallest positive number. -/
def tiny : Binary64 := ⟨false, 1, by decide⟩

/-- Its text `0x0.0000000000001p-1022` is read as zero. -/
theorem strtod_tiny :
    tiny.Finite ∧ ∃ calls, emitFloating { conversion := 'a'.toNat } tiny = some calls ∧
      strtod (rendering calls) = Binary64.zero ∧ Binary64.zero ≠ tiny := by
  have hfinite : tiny.Finite := by decide
  obtain ⟨calls, hcalls, hread⟩ := @strtod_hexFloating { conversion := 'a'.toNat } (.inl rfl) (.inl rfl) rfl _ hfinite
  have hnot : ¬ ReadsBack tiny := by
    rintro ⟨p, -, hle, hdvd⟩
    have hp : p = 0 := by
      have he : tiny.exponent = 0 := by decide
      omega
    rw [hp] at hdvd
    revert hdvd
    decide
  rw [readsBack_iff_exponent (by decide), not_lt] at hnot
  have hs : printedSignificand tiny ≠ 0 := by
    intro hz
    have hmul := printedSignificand_mul tiny
    rw [hz, Nat.zero_mul] at hmul
    revert hmul
    decide
  refine ⟨hfinite, calls, hcalls, ?_, by decide⟩
  rw [hread, scaleBinary_past tiny.neg hs hnot]
  rfl

end MiniLibc.Stdio
