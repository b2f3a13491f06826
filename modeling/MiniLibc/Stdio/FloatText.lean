import MiniLibc.Lib.Binary64
import MiniLibc.Stdio.Format
/-!
# Floating conversions

The texts of `src/stdio/format.c` for the conversions of `double`: a fixed number
of decimals, a significand with a power of ten, the shorter of the two, and the
hexadecimal form.
-/
open MiniLibc.Numeral

namespace MiniLibc.Stdio

/-- `MINI_FLOAT_DECIMAL_MAX_PRECISION`. -/
def decimalMaxPrecision : Nat := 9

/-- `MINI_FLOAT_HEX_MAX_PRECISION`. -/
def hexMaxPrecision : Nat := 13

inductive FloatClass where
  | finite
  | infinity
  | nan
deriving DecidableEq, Repr

/-- `mini_float_parts`. -/
structure FloatParts where
  kind : FloatClass
  negative : Bool
  exponentField : Nat
  fraction : Nat
deriving DecidableEq, Repr

/-- `decompose_double`. -/
def decomposeDouble (value : Binary64) : FloatParts where
  kind := if value.exponent = 0x7ff then if value.fraction = 0 then .infinity else .nan else .finite
  negative := value.neg
  exponentField := value.exponent
  fraction := value.fraction

/-- `is_upper_float`. -/
def isUpperFloat (conversion : Nat) : Bool := "FEGA".toList.any fun c => c.toNat = conversion

/-- `float_sign`. -/
def floatSign (spec : FormatSpec) (negative : Bool) : List Nat :=
  if negative then ['-'.toNat]
  else if spec.plus then ['+'.toNat]
  else if spec.space then [' '.toNat]
  else []

/-- `emit_float_text`. -/
def emitFloatText (spec : FormatSpec) (negative : Bool) (radixPrefix text : List Nat) (zeroAllowed : Bool) : List Emit :=
  let sign := floatSign spec negative
  let padding := spec.width - (sign.length + radixPrefix.length + text.length)
  let zeroed := spec.zero && !spec.left && zeroAllowed
  let spaces := if zeroed then 0 else padding
  let zeros := if zeroed then padding else 0
  emitSpaces (!spec.left) spaces
    ++ (if sign = [] then [] else [.bytes sign])
    ++ (if radixPrefix = [] then [] else [.bytes radixPrefix])
    ++ [.repeated '0'.toNat zeros]
    ++ (if text = [] then [] else [.bytes text])
    ++ emitSpaces spec.left spaces

/-- `append_exponent`. -/
def appendExponent (marker : Nat) (exponent : Int) (minimumDigits : Nat) : List Nat :=
  [marker, if exponent < 0 then '-'.toNat else '+'.toNat]
    ++ ((lowDigits 10 minimumDigits exponent.natAbs).map fun digit => '0'.toNat + digit).reverse

/-! ## Decimal texts -/

/-- The characters of a list of decimal digits. -/
def decimalChars (digits : List Nat) : List Nat := digits.map fun digit => '0'.toNat + digit

/-- `decimal_scale`. -/
def decimalScale (precision : Nat) : Nat := 10 ^ precision

def ten : Binary64 := .ofNat 10

def one : Binary64 := .ofNat 1

/-- `0.5`. -/
def half : Binary64 := ⟨false, 1022 * 2 ^ 52, by decide⟩

/-- Whether what was cut off rounds the number up, ties to even. -/
def roundsUp (remainder : Binary64) (number : Nat) : Bool :=
  half.less remainder || (remainder.equal half && number % 2 = 1)

/-- `while (normalized >= 10.0)`. The second test is what ends the recursion: a finite
number of at least ten gets smaller. -/
def normalizeDown (normalized : Binary64) (exponent : Int) : Binary64 × Int :=
  if _h : normalized.less ten = false ∧ (normalized.div ten).magnitude < normalized.magnitude then
    normalizeDown (normalized.div ten) (exponent + 1)
  else (normalized, exponent)
termination_by normalized.magnitude
decreasing_by exact _h.2

/-- `while (normalized < 1.0)`. The second test is what ends the recursion: a nonzero
number below one gets bigger. -/
def normalizeUp (normalized : Binary64) (exponent : Int) : Binary64 × Int :=
  if _h : normalized.less one = true ∧ normalized.magnitude < (normalized.mul ten).magnitude then
    normalizeUp (normalized.mul ten) (exponent - 1)
  else (normalized, exponent)
termination_by 2 ^ 63 - normalized.magnitude
decreasing_by
  have := normalized.lt
  omega

/-- `make_significant_decimal`: the digits and `exponent10`. -/
def makeSignificantDecimal (value : Binary64) (digitCount : Nat) : List Nat × Int :=
  if value.isZero then (decimalChars (List.replicate digitCount 0), 0)
  else
    let (normalized, exponent) := normalizeDown value 0
    let (normalized, exponent) := normalizeUp normalized exponent
    let scale := decimalScale (digitCount - 1)
    let scaled := normalized.mul (.ofNat scale)
    let magnitude := scaled.truncate
    let remainder := scaled.sub (.ofNat magnitude)
    let magnitude := if roundsUp remainder magnitude then magnitude + 1 else magnitude
    let (magnitude, exponent) := if magnitude = scale * 10 then (scale, exponent + 1) else (magnitude, exponent)
    (decimalChars (fixedDigits 10 digitCount magnitude), exponent)

/-- `make_fixed_text`. -/
def makeFixedText (spec : FormatSpec) (value : Binary64) : Option (List Nat) :=
  let precision := if spec.precisionSet then spec.precision else 6
  if decimalMaxPrecision < precision ∨ value.less (.pow2 64 (by decide)) = false then none
  else
    let whole := value.truncate
    let scale := decimalScale precision
    let scaled := (value.sub (.ofNat whole)).mul (.ofNat scale)
    let fractional := scaled.truncate
    let remainder := scaled.sub (.ofNat fractional)
    let up := roundsUp remainder (if precision = 0 then whole else fractional)
    let carry := up && fractional + 1 = scale
    let whole := if carry then whole + 1 else whole
    let fractional := if carry then 0 else if up then fractional + 1 else fractional
    some ((makeDigits whole 10 false).reverse
      ++ (if precision ≠ 0 ∨ spec.alternate then ['.'.toNat] else [])
      ++ decimalChars (fixedDigits 10 precision fractional))

/-- `make_scientific_text`. -/
def makeScientificText (spec : FormatSpec) (value : Binary64) : Option (List Nat) :=
  let precision := if spec.precisionSet then spec.precision else 6
  if decimalMaxPrecision < precision then none
  else
    let (digits, exponent) := makeSignificantDecimal value (precision + 1)
    some (digits.take 1
      ++ (if precision ≠ 0 ∨ spec.alternate then '.'.toNat :: digits.drop 1 else [])
      ++ appendExponent (if spec.conversion = 'E'.toNat then 'E'.toNat else 'e'.toNat) exponent 2)

/-- The loop over the trailing zeros of `make_general_text`. -/
def effectiveDigits (digits : List Nat) : Nat → Nat
  | 0 => 0
  | 1 => 1
  | effective + 2 => if digits.getD (effective + 1) 0 = '0'.toNat then effectiveDigits digits (effective + 1) else effective + 2

/-- `make_general_text`. -/
def makeGeneralText (spec : FormatSpec) (value : Binary64) : Option (List Nat) :=
  let precision := if spec.precisionSet then spec.precision else 6
  let precision := if precision = 0 then 1 else precision
  if decimalMaxPrecision < precision then none
  else
    let (digits, exponent) := makeSignificantDecimal value precision
    let effective := if spec.alternate then precision else effectiveDigits digits precision
    if exponent < -4 ∨ (precision : Int) ≤ exponent then
      some (digits.take 1
        ++ (if 1 < effective ∨ spec.alternate then '.'.toNat :: (digits.take effective).drop 1 else [])
        ++ appendExponent (if spec.conversion = 'G'.toNat then 'E'.toNat else 'e'.toNat) exponent 2)
    else
      let point := exponent + 1
      if point ≤ 0 then
        some (['0'.toNat, '.'.toNat] ++ List.replicate point.natAbs '0'.toNat ++ digits.take effective)
      else
        let pointIndex := point.toNat
        some ((List.range pointIndex).map (fun i => if i < effective then digits.getD i 0 else '0'.toNat)
          ++ (if pointIndex < effective ∨ spec.alternate then
              '.'.toNat :: (digits.take effective).drop pointIndex
            else []))

/-! ## Hexadecimal texts -/

/-- `hex_digit`. -/
def hexDigit (value : Nat) (uppercase : Bool) : Nat := digitChar uppercase (value % 16)

/-- The loop that drops the zero digits of the fraction. -/
def dropZeros : Nat → Nat → Nat × Nat
  | 0, kept => (0, kept)
  | precision + 1, kept =>
    if kept % 16 = 0 then dropZeros precision (kept / 16) else (precision + 1, kept)

/-- `leading` and `exponent2` of `make_hex_text`. -/
def FloatParts.leading (parts : FloatParts) : Nat := if parts.exponentField = 0 then 0 else 1

def FloatParts.exponent2 (parts : FloatParts) : Int :=
  if parts.exponentField = 0 ∧ parts.fraction = 0 then 0
  else if parts.exponentField = 0 then -1022
  else (parts.exponentField : Int) - 1023

/-- `precision`, `kept` and `leading` when the precision is given. -/
def FloatParts.rounded (parts : FloatParts) (precision : Nat) : Nat × Nat × Nat :=
  if precision = hexMaxPrecision then (precision, parts.fraction, parts.leading)
  else
    let discard := (hexMaxPrecision - precision) * 4
    let remainder := parts.fraction % 2 ^ discard
    let half := 2 ^ (discard - 1)
    let kept := if precision = 0 then 0 else parts.fraction / 2 ^ discard
    let parity := if precision = 0 then parts.leading else kept
    if half < remainder ∨ (remainder = half ∧ parity % 2 = 1) then
      if precision = 0 then (precision, kept, parts.leading + 1)
      else if kept + 1 = 2 ^ (precision * 4) then (precision, 0, parts.leading + 1)
      else (precision, kept + 1, parts.leading)
    else (precision, kept, parts.leading)

/-- `precision`, `kept` and `leading` when there is none. -/
def FloatParts.shortest (parts : FloatParts) : Nat × Nat × Nat :=
  let (precision, kept) := dropZeros hexMaxPrecision parts.fraction
  (precision, kept, parts.leading)

/-- `make_hex_text`. -/
def makeHexText (spec : FormatSpec) (parts : FloatParts) : Option (List Nat) :=
  let uppercase := spec.conversion = 'A'.toNat
  if spec.precisionSet ∧ hexMaxPrecision < spec.precision then none
  else
    let (precision, kept, leading) := if spec.precisionSet then parts.rounded spec.precision else parts.shortest
    some ([hexDigit leading uppercase]
      ++ (if precision ≠ 0 ∨ spec.alternate then
          '.'.toNat :: (List.range precision).map fun i => hexDigit (kept / 2 ^ ((precision - 1 - i) * 4)) uppercase
        else [])
      ++ appendExponent (if uppercase then 'P'.toNat else 'p'.toNat) parts.exponent2 1)

/-! ## The conversion -/

def isConversion (spec : FormatSpec) (lower upper : Char) : Bool :=
  spec.conversion = lower.toNat ∨ spec.conversion = upper.toNat

/-- `emit_floating`. -/
def emitFloating (spec : FormatSpec) (value : Binary64) : Option (List Emit) :=
  let uppercase := isUpperFloat spec.conversion
  let parts := decomposeDouble value
  let chars (text : String) : List Nat := text.toList.map Char.toNat
  if spec.length ≠ .none ∧ spec.length ≠ .l then none
  else if parts.kind ≠ .finite then
    let special := match parts.kind with
      | .infinity => if uppercase then "INF" else "inf"
      | _ => if uppercase then "NAN" else "nan"
    some (emitFloatText spec parts.negative [] (chars special) false)
  else
    let magnitude := if parts.negative then value.negate else value
    let decimal (text : Option (List Nat)) := text.map fun text => emitFloatText spec parts.negative [] text true
    if isConversion spec 'f' 'F' then decimal (makeFixedText spec magnitude)
    else if isConversion spec 'e' 'E' then decimal (makeScientificText spec magnitude)
    else if isConversion spec 'g' 'G' then decimal (makeGeneralText spec magnitude)
    else if isConversion spec 'a' 'A' then
      (makeHexText spec parts).map fun text =>
        emitFloatText spec parts.negative (chars (if uppercase then "0X" else "0x")) text true
    else none

end MiniLibc.Stdio
