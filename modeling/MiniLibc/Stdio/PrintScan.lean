import MiniLibc.Stdio.ScanInteger
import MiniLibc.Stdio.Truncation
/-!
# Printed integers, scanned back

`emit_number` prints spaces, a sign, the prefix of the base and digits, and
`scan_integer` takes each of them in this order. The widths of the types are the same
in `next_signed` and `assign_signed`, so the value comes back.
-/
open MiniLibc.Args MiniLibc.Memory MiniLibc.Numeral
open MiniLibc.Stdlib (digitValue digitRun digitsValue isDigitOf isDigitOf_iff isCSpace isX charAt takeSign takePrefix)

namespace MiniLibc.Stdio

/-! ## Conversions -/

/-- The conversions of integers. -/
inductive IntegerConversion where
  | d
  | i
  | u
  | o
  | x
  | X
deriving DecidableEq, Repr

namespace IntegerConversion

/-- The letter in the format of the printer. -/
def letter : IntegerConversion → Char
  | d => 'd'
  | i => 'i'
  | u => 'u'
  | o => 'o'
  | x => 'x'
  | X => 'X'

/-- The letter in the format of the scanner, for which `i` would choose the base. -/
def scanLetter : IntegerConversion → UInt8
  | i => 'd'.toUInt8
  | conversion => conversion.letter.toUInt8

def base : IntegerConversion → Nat
  | d | i | u => 10
  | o => 8
  | x | X => 16

def signed : IntegerConversion → Bool
  | d | i => true
  | u | o | x | X => false

def uppercase : IntegerConversion → Bool
  | X => true
  | d | i | u | o | x => false

/-- The value that is printed. -/
def value {α : Type} (conversion : IntegerConversion) (next : α → Fetch → Nat × α) (args : α) (length : FormatLength) :
    Int :=
  if conversion.signed then (nextSigned next args length).1 else (nextUnsigned next args length).1

end IntegerConversion

/-- The letters of a length modifier. -/
def FormatLength.letters : FormatLength → List UInt8
  | .none => []
  | .hh => ['h'.toUInt8, 'h'.toUInt8]
  | .h => ['h'.toUInt8]
  | .l => ['l'.toUInt8]
  | .ll => ['l'.toUInt8, 'l'.toUInt8]

/-- The character of a digit is that digit to the scanner, and nothing else. -/
theorem digitChar_scanned (uppercase : Bool) {d : Nat} (h : d < 16) :
    digitValue (digitChar uppercase d) = some d ∧ isCSpace (digitChar uppercase d) = false ∧
      isX (digitChar uppercase d) = false ∧ digitChar uppercase d ≠ '+'.toNat ∧ digitChar uppercase d ≠ '-'.toNat ∧
      0 < digitChar uppercase d ∧ digitChar uppercase d < 256 := by
  revert d
  cases uppercase <;> decide

section Printed

variable (uppercase : Bool) (right : Nat) {base : Nat} {ds : List Nat}

/-- The end of a printed number: digits, and the spaces of `-`. -/
def printedEnd (uppercase : Bool) (ds : List Nat) (right : Nat) : List Nat :=
  ds.map (digitChar uppercase) ++ List.replicate right ' '.toNat

/-- No `x` stands behind the first digit. -/
theorem printedEnd_second (hds : ∀ d ∈ ds, d < 16) (hne : ds ≠ []) :
    isX (charAt (printedEnd uppercase ds right) 1) = false := by
  obtain ⟨d, rest, rfl⟩ := List.exists_cons_of_ne_nil hne
  cases rest with
  | cons e rest => exact (digitChar_scanned uppercase (hds e (by simp))).2.2.1
  | nil => cases right <;> rfl

/-- The prefix of the base is taken, and only that. -/
theorem printedEnd_prefix {pre : List Nat} (hb : base ≠ 0 ∧ base ≤ 16) (hds : ∀ d ∈ ds, d < base) (hne : ds ≠ [])
    (hpre : pre = [] ∨ base = 16 ∧ ∃ x, pre = ['0'.toNat, x] ∧ isX x = true) :
    takePrefix base (pre ++ printedEnd uppercase ds right) = (base, printedEnd uppercase ds right) ∧
      ¬IncompletePrefix base (pre ++ printedEnd uppercase ds right) := by
  have hlt : ∀ d ∈ ds, d < 16 := fun d hd => (hds d hd).trans_le hb.2
  rcases hpre with rfl | ⟨rfl, x, rfl, hx⟩
  · have hsecond : isX (charAt (printedEnd uppercase ds right) 1) ≠ true := by
      rw [printedEnd_second uppercase right hlt hne]
      exact Bool.false_ne_true
    rw [List.nil_append]
    refine ⟨?_, fun h => hsecond h.2.2.1⟩
    unfold takePrefix
    rw [if_neg hb.1, if_neg fun h => hsecond h.2.2]
  · obtain ⟨d, rest, rfl⟩ := List.exists_cons_of_ne_nil hne
    have hdigit : isDigitOf 16 (digitChar uppercase d) = true :=
      isDigitOf_iff.2 ⟨d, (digitChar_scanned uppercase (hlt d (List.mem_cons_self ..))).1, hlt d (List.mem_cons_self ..)⟩
    refine ⟨?_, fun h => absurd (hdigit.symm.trans h.2.2.2) (by decide)⟩
    have hthird : charAt (['0'.toNat, x] ++ printedEnd uppercase (d :: rest) right) 2 = digitChar uppercase d := rfl
    unfold takePrefix
    rw [if_neg (by decide), if_pos ⟨rfl, rfl, hx⟩, hthird, if_pos hdigit]
    rfl

end Printed

/-- The spaces and the sign in front of a text that starts with neither. -/
theorem printed_sign (spec : FormatSpec) (negative signedConversion : Bool) (left : Nat) {c : Nat} (rest : List Nat)
    (hspace : isCSpace c = false) (hplus : c ≠ '+'.toNat) (hminus : c ≠ '-'.toNat) :
    takeSign ((List.replicate left ' '.toNat ++ (numberSign spec negative signedConversion ++ c :: rest)).dropWhile
      isCSpace) = (signedConversion && negative, c :: rest) := by
  have hspaces : ∀ c ∈ List.replicate left ' '.toNat, isCSpace c = true := by
    intro c hc
    rw [List.eq_of_mem_replicate hc]
    rfl
  have hplain : takeSign (c :: rest) = (false, c :: rest) := by
    have hhead : charAt (c :: rest) 0 = c := rfl
    unfold takeSign
    rw [hhead, if_neg (by omega)]
  have hrest : (c :: rest).dropWhile isCSpace = c :: rest := List.dropWhile_cons_of_neg (by simp [hspace])
  rw [List.dropWhile_append_of_pos hspaces]
  unfold numberSign
  cases signedConversion with
  | false =>
    rw [if_neg Bool.false_ne_true, List.nil_append, hrest]
    exact hplain
  | true =>
    rw [if_pos rfl]
    cases negative with
    | true => rfl
    | false =>
      rw [if_neg Bool.false_ne_true]
      split
      · rfl
      split
      · exact (congrArg takeSign hrest).trans hplain
      · rw [List.nil_append, hrest]
        exact hplain

theorem numberPrefix_cases (spec : FormatSpec) (magnitude base : Nat) (uppercase : Bool) :
    basePrefix spec magnitude base uppercase = [] ∨
      base = 16 ∧ ∃ x, basePrefix spec magnitude base uppercase = ['0'.toNat, x] ∧ isX x = true := by
  unfold basePrefix
  split
  · rename_i h
    refine .inr ⟨h.2.1, _, rfl, ?_⟩
    cases uppercase <;> rfl
  · exact .inl rfl

/-- What `scan_integer` finds in a printed number: the sign, the prefix and the digits. -/
theorem NumberOutput.found {spec : FormatSpec} {magnitude base left fill right : Nat}
    {negative uppercase signedConversion : Bool} {output : List Nat}
    (h : NumberOutput spec magnitude negative base uppercase signedConversion output left fill right)
    (hd : NumberDigits spec magnitude base (numberText spec magnitude base)) (hne : numberText spec magnitude base ≠ [])
    (hb : base ≠ 0 ∧ base ≤ 16) :
    ∃ ds rest, takeSign (output.dropWhile isCSpace) = (signedConversion && negative, rest) ∧ ¬IncompletePrefix base rest ∧
      takePrefix base rest = (base, printedEnd uppercase ds right) ∧ ds ≠ [] ∧ (∀ d ∈ ds, d < base) ∧
      readDigits base 0 ds = magnitude := by
  obtain ⟨ds, hds⟩ : ∃ ds, List.replicate fill 0 ++ numberText spec magnitude base = ds := ⟨_, rfl⟩
  have hlt : ∀ d ∈ ds, d < base := by
    rw [← hds]
    intro d hmem
    rcases List.mem_append.1 hmem with hmem | hmem
    · rw [List.eq_of_mem_replicate hmem]
      omega
    · exact hd.lt d hmem
  have hnil : ds ≠ [] := by
    rw [← hds]
    exact List.append_ne_nil_of_right_ne_nil _ hne
  have hvalue : readDigits base 0 ds = magnitude := by
    rw [← hds, readDigits_append, readDigits_zeros, Nat.zero_mul, hd.value]
  have hpre := numberPrefix_cases spec magnitude base uppercase
  have htext : output = List.replicate left ' '.toNat ++ (numberSign spec negative signedConversion ++
      (basePrefix spec magnitude base uppercase ++ printedEnd uppercase ds right)) := by
    rw [h.text, printedEnd, ← hds, List.map_append, List.map_replicate, digitChar_zero]
    simp only [List.append_assoc]
  obtain ⟨htake, hcomplete⟩ := printedEnd_prefix uppercase right hb hlt hnil hpre
  refine ⟨ds, _, ?_, hcomplete, htake, hnil, hlt, hvalue⟩
  rw [htext]
  obtain ⟨d, ds', rfl⟩ := List.exists_cons_of_ne_nil hnil
  obtain ⟨-, hspace, -, hplus, hminus, -⟩ := digitChar_scanned uppercase
    ((hlt d (List.mem_cons_self ..)).trans_le hb.2)
  rcases hpre with hpre | ⟨-, x, hpre, -⟩
  · rw [hpre]
    exact printed_sign spec negative signedConversion left _ hspace hplus hminus
  · rw [hpre]
    exact printed_sign spec negative signedConversion left _ (by decide) (by decide) (by decide)

/-! ## The scan -/

namespace IntegerConversion

/-- The scanner's specification. -/
def scanSpec (conversion : IntegerConversion) (length : FormatLength) : ScanSpec :=
  { length, conversion := conversion.scanLetter, width_pos := LongConversion.noWidth }

theorem parses (conversion : IntegerConversion) (length : FormatLength) :
    parseScanSpec (length.letters ++ [conversion.scanLetter]) = some (conversion.scanSpec length, []) := by
  cases conversion <;> cases length <;> rfl

theorem scans {σ : Type} (source : Source σ) (fuel : Nat) (conversion : IntegerConversion) (length : FormatLength)
    (x : Scan σ) : scanConversion source fuel (conversion.scanSpec length) x =
      scanInteger source fuel (conversion.scanSpec length) conversion.base conversion.signed x := by
  cases conversion <;> rfl

end IntegerConversion

/-! ## Printed into a buffer -/

section Print

variable {α : Type} {next : α → Fetch → Nat × α} {arrays : Arrays}

/-- The characters of a printed number: none of them ends a string. -/
theorem NumberOutput.bytes {spec : FormatSpec} {magnitude base left fill right : Nat}
    {negative uppercase signedConversion : Bool} {output : List Nat}
    (h : NumberOutput spec magnitude negative base uppercase signedConversion output left fill right)
    (hd : NumberDigits spec magnitude base (numberText spec magnitude base)) (hb : base ≤ 16) :
    ∀ c ∈ output, 0 < c ∧ c < 256 := by
  have hsign : ∀ c ∈ numberSign spec negative signedConversion, 0 < c ∧ c < 256 := by
    unfold numberSign
    cases signedConversion <;> cases negative <;> cases spec.plus <;> cases spec.space <;> decide
  have hpre : ∀ c ∈ basePrefix spec magnitude base uppercase, 0 < c ∧ c < 256 := by
    unfold basePrefix
    split
    · cases uppercase <;> decide
    · exact fun c hc => absurd hc List.not_mem_nil
  have hdigits : ∀ c ∈ (numberText spec magnitude base).map (digitChar uppercase), 0 < c ∧ c < 256 := by
    intro c hc
    obtain ⟨d, hmem, rfl⟩ := List.mem_map.1 hc
    exact (digitChar_scanned uppercase ((hd.lt d hmem).trans_le hb)).2.2.2.2.2
  have hsame : ∀ n c : Nat, ∀ b ∈ List.replicate n c, b = c := fun n c b hmem => List.eq_of_mem_replicate hmem
  intro c hc
  rw [h.text] at hc
  simp only [List.mem_append] at hc
  rcases hc with (((hc | hc | hc) | hc) | hc) | hc
  · rw [hsame _ _ c hc]
    decide
  · exact hsign c hc
  · exact hpre c hc
  · rw [hsame _ _ c hc]
    decide
  · exact hdigits c hc
  · rw [hsame _ _ c hc]
    decide

end Print

end MiniLibc.Stdio
