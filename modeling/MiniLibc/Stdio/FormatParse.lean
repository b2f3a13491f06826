import MiniLibc.Lib.Args
import MiniLibc.Stdio.ScanFormat
/-!
# Format specifications

`parse_spec` of `src/stdio/format.c`, and the words it takes for `*`. The arguments
come from a machine `next` that is asked for one of a class, which for the code is
`next_word` and `next_double`, and the parser is the same for every such machine.
-/
open MiniLibc.Args

namespace MiniLibc.Stdio

/-! ## Words -/

/-- `word_to_int`. -/
def wordToInt (word : Nat) : Int :=
  let value : Nat := word % 2 ^ 32
  if value ≤ printfIntMax then value else -1 - (2 ^ 32 - 1 - value : Nat)

/-- `word_to_long_long`. -/
def wordToLongLong (word : Nat) : Int :=
  let value : Nat := word % 2 ^ 64
  if value ≤ 2 ^ 63 - 1 then value else -1 - (2 ^ 64 - 1 - value : Nat)

/-- A width or a precision: no more than `INT_MAX`. -/
abbrev FormatNumber : Type := {n : Nat // n ≤ printfIntMax}

def FormatNumber.zero : FormatNumber := ⟨0, Nat.zero_le _⟩

theorem accumulate_le {result digit : Nat} (hd : digit ≤ 9) (h : result ≤ (printfIntMax - digit) / 10) :
    result * 10 + digit ≤ printfIntMax := by
  unfold printfIntMax at *
  omega

theorem digit_le {c : UInt8} (h : isDigitByte c = true) : c.toNat - '0'.toNat ≤ 9 := by
  have hnine : c.toNat ≤ 57 := (of_decide_eq_true h).2
  have hzero : '0'.toNat = 48 := rfl
  omega

/-- The loop of `parse_decimal`. `none` is its `-1`. -/
def decimalLoop (result : FormatNumber) : List UInt8 → Option (FormatNumber × List UInt8)
  | [] => some (result, [])
  | c :: p =>
    if hc : isDigitByte c = true then
      let digit := c.toNat - '0'.toNat
      if h : result.val > (printfIntMax - digit) / 10 then none
      else decimalLoop ⟨result.val * 10 + digit, accumulate_le (digit_le hc) (not_lt.1 h)⟩ p
    else some (result, c :: p)

/-- `parse_decimal`. No number leaves `value` as it is. -/
def parseFormatDecimal (value : FormatNumber) (p : List UInt8) : Option (FormatNumber × List UInt8) :=
  if isDigitByte (byteAt p) then decimalLoop .zero p else some (value, p)

/-! ## The specification -/

/-- The loop over the flags. -/
def parseFlags (spec : FormatSpec) : List UInt8 → FormatSpec × List UInt8
  | [] => (spec, [])
  | c :: p =>
    if c = '-'.toUInt8 then parseFlags { spec with left := true } p
    else if c = '+'.toUInt8 then parseFlags { spec with plus := true } p
    else if c = ' '.toUInt8 then parseFlags { spec with space := true } p
    else if c = '#'.toUInt8 then parseFlags { spec with alternate := true } p
    else if c = '0'.toUInt8 then parseFlags { spec with zero := true } p
    else (spec, c :: p)

def FormatSpec.setWidth (spec : FormatSpec) (left : Bool) (width : FormatNumber) : FormatSpec :=
  { spec with left, width := width.val, width_le := width.property }

def FormatSpec.setPrecision (spec : FormatSpec) (precisionSet : Bool) (precision : FormatNumber) : FormatSpec :=
  { spec with precisionSet, precision := precision.val, precision_le := precision.property }

section Machine

variable {α β : Type} (next : α → Fetch → Nat × α)

/-- The width from an argument; a negative one is on the left. -/
def starWidth (spec : FormatSpec) (width : Int) : Option FormatSpec :=
  if h : width.natAbs ≤ printfIntMax then some (spec.setWidth (spec.left || width < 0) ⟨width.natAbs, h⟩) else none

/-- The width, and what follows. -/
def parseFormatWidth (spec : FormatSpec) (p : List UInt8) (args : α) : Option (FormatSpec × List UInt8 × α) :=
  if byteAt p = '*'.toUInt8 then
    let (word, args) := next args .word
    (starWidth spec (wordToInt word)).map fun spec => (spec, p.drop 1, args)
  else (parseFormatDecimal .zero p).map fun (width, p) => (spec.setWidth spec.left width, p, args)

/-- The precision from an argument; a negative one is none. -/
def starPrecision (spec : FormatSpec) (precision : Int) : FormatSpec :=
  if h : 0 ≤ precision ∧ precision.natAbs ≤ printfIntMax then spec.setPrecision true ⟨precision.natAbs, h.2⟩ else spec

/-- The precision, and what follows. -/
def parsePrecision (spec : FormatSpec) (p : List UInt8) (args : α) : Option (FormatSpec × List UInt8 × α) :=
  if byteAt p = '.'.toUInt8 then
    let p := p.drop 1
    if byteAt p = '*'.toUInt8 then
      let (word, args) := next args .word
      some (starPrecision spec (wordToInt word), p.drop 1, args)
    else (parseFormatDecimal .zero p).map fun (precision, p) => (spec.setPrecision true precision, p, args)
  else some (spec, p, args)

/-- `parse_spec`, behind the percent sign: the specification, and what follows. -/
def parseFormatSpec (p : List UInt8) (args : α) : Option (FormatSpec × List UInt8 × α) :=
  let (spec, p) := parseFlags {} p
  match parseFormatWidth next spec p args with
  | none => none
  | some (spec, p, args) =>
    match parsePrecision next spec p args with
    | none => none
    | some (spec, p, args) =>
      let (length, p) := parseLength p
      if byteAt p = 0 then none
      else some ({ spec with length, conversion := (byteAt p).toNat }, p.drop 1, args)

end Machine

end MiniLibc.Stdio
