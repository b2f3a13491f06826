import MiniLibc.Stdio.Format
import MiniLibc.Wchar.Convert
/-!
# Formats of the scanner

`parse_width`, `parse_scanset` and `parse_spec` of `src/stdio/scan.c`. A format is
the list of its bytes before the terminator.
-/
open MiniLibc.Wchar

namespace MiniLibc.Stdio

/-- `*p`, which is the terminator behind the bytes. -/
def byteAt (p : List UInt8) : UInt8 := p.headD 0

/-- `MINI_SCAN_WIDTH_MAX`. -/
def scanWidthMax : Nat := 2 ^ 32 - 1

/-- `mini_scan_spec`. There is a width where `width_set` is, and it is not zero. The
lengths are those of the formatter, and the set is the text from `set_begin` to
`set_end`. -/
structure ScanSpec where
  suppress : Bool := false
  width : Option Nat := none
  length : FormatLength := .none
  conversion : UInt8 := 0
  setNegated : Bool := false
  set : List UInt8 := []
  width_pos : ∀ w, width = some w → 0 < w ∧ w ≤ scanWidthMax := by simp

/-- `is_scan_space`. -/
def isScanSpace (c : Int) : Bool := c = 32 ∨ c = 9 ∨ c = 10 ∨ c = 11 ∨ c = 12 ∨ c = 13

/-- `is_digit`. -/
def isDigitByte (c : UInt8) : Bool := '0'.toUInt8 ≤ c ∧ c ≤ '9'.toUInt8

/-- `is_float_conversion`. -/
def isFloatConversion (c : UInt8) : Bool := "fFeEgGaA".toList.any fun letter => c = letter.toUInt8

/-! ## Widths -/

/-- The loop of `parse_width`. `none` is its `-1`. -/
def widthLoop (result : Nat) : List UInt8 → Option (Nat × List UInt8)
  | [] => some (result, [])
  | p :: rest =>
    if isDigitByte p then
      let digit := p.toNat - '0'.toNat
      if result > (scanWidthMax - digit) / 10 then none else widthLoop (result * 10 + digit) rest
    else some (result, p :: rest)

theorem widthLoop_le {result : Nat} {p : List UInt8} (h : result ≤ scanWidthMax) {value : Nat} {rest : List UInt8}
    (hloop : widthLoop result p = some (value, rest)) : value ≤ scanWidthMax := by
  induction p generalizing result with
  | nil =>
    cases hloop
    exact h
  | cons c p ih =>
    unfold widthLoop at hloop
    split at hloop
    · rename_i hdigit
      obtain ⟨-, hle⟩ := of_decide_eq_true hdigit
      have hnine : c.toNat ≤ 57 := hle
      dsimp only at hloop
      split at hloop
      · cases hloop
      · refine ih ?_ hloop
        unfold scanWidthMax at *
        omega
    · cases hloop
      exact h

/-- `parse_width`: `none` for its `-1`, and otherwise the width there is. -/
def parseWidth (p : List UInt8) : Option ({w : Option Nat // ∀ v, w = some v → 0 < v ∧ v ≤ scanWidthMax} × List UInt8) :=
  if !isDigitByte (byteAt p) then some (⟨none, by simp⟩, p)
  else
    match h : widthLoop 0 p with
    | none => none
    | some (result, rest) =>
      if hz : result = 0 then none
      else some (⟨some result, by rintro _ ⟨⟩; exact ⟨by omega, widthLoop_le (Nat.zero_le _) h⟩⟩, rest)

/-! ## Sets -/

/-- A byte that the loop of `parse_scanset` passes. -/
def insideSet (c : UInt8) : Bool := c ≠ 0 ∧ c ≠ ']'.toUInt8

/-- `parse_scanset` from `set_begin` on: the text of the set, and what follows. -/
def parseSetText (p : List UInt8) : Option (List UInt8 × List UInt8) :=
  let first := if byteAt p = ']'.toUInt8 then p.take 1 else []
  let p := p.drop first.length
  let behind := p.dropWhile insideSet
  if byteAt behind = ']'.toUInt8 then some (first ++ p.takeWhile insideSet, behind.drop 1) else none

/-- `parse_scanset`: whether the set is negated, its text, and what follows. -/
def parseScanset (p : List UInt8) : Option (Bool × List UInt8 × List UInt8) :=
  let negated : Bool := byteAt p = '^'.toUInt8
  match parseSetText (if negated then p.drop 1 else p) with
  | none => none
  | some (set, rest) => some (negated, set, rest)

/-! ## Specifications -/

/-- The length modifier, and what follows. -/
def parseLength (p : List UInt8) : FormatLength × List UInt8 :=
  if byteAt p = 'h'.toUInt8 then
    if byteAt (p.drop 1) = 'h'.toUInt8 then (.hh, p.drop 2) else (.h, p.drop 1)
  else if byteAt p = 'l'.toUInt8 then
    if byteAt (p.drop 1) = 'l'.toUInt8 then (.ll, p.drop 2) else (.l, p.drop 1)
  else (.none, p)

/-- `parse_spec`, behind the percent sign. -/
def parseScanSpec (p : List UInt8) : Option (ScanSpec × List UInt8) :=
  let suppress : Bool := byteAt p = '*'.toUInt8
  let p := if suppress then p.drop 1 else p
  match parseWidth p with
  | none => none
  | some (⟨width, hwidth⟩, p) =>
    let (length, p) := parseLength p
    let plain : Bool := length = .none ∨ length = .l
    if byteAt p = '['.toUInt8 then
      if !plain then none
      else
        match parseScanset (p.drop 1) with
        | none => none
        | some (setNegated, set, p) =>
          some ({ suppress, width, length, conversion := '['.toUInt8, setNegated, set, width_pos := hwidth }, p)
    else
      let conversion := byteAt p
      let spec : ScanSpec := { suppress, width, length, conversion, width_pos := hwidth }
      if conversion = 0 then none
      else if "diuoxX".toList.any fun letter => conversion = letter.toUInt8 then some (spec, p.drop 1)
      else if isFloatConversion conversion then if !plain then none else some (spec, p.drop 1)
      else if conversion = 'c'.toUInt8 ∨ conversion = 's'.toUInt8 then if !plain then none else some (spec, p.drop 1)
      else if conversion = '%'.toUInt8 then
        if suppress ∨ width.isSome ∨ length ≠ .none then none else some (spec, p.drop 1)
      else none

/-! ## Literals -/

/-- The loop of `decode_format_literal`, with `fuel` bytes to go. -/
def decodeLiteralLoop (utf8 : Bool) : (fuel : Nat) → MbState → List UInt8 → Option (Int × List UInt8)
  | 0, _, _ => none
  | fuel + 1, state, p =>
    if byteAt p = 0 then none
    else
      match mbrtowcMode (some [byteAt p]) state utf8 with
      | ⟨.eilseq, _, _⟩ => none
      | ⟨.incomplete, _, state⟩ => decodeLiteralLoop utf8 fuel state (p.drop 1)
      | ⟨.length _, wc, _⟩ => some (wc.getD 0, p.drop 1)

/-- `decode_format_literal`: the character, and what follows. `none` comes with `EILSEQ`. -/
def decodeFormatLiteral (utf8 : Bool) (p : List UInt8) : Option (Int × List UInt8) := decodeLiteralLoop utf8 4 {} p

end MiniLibc.Stdio
