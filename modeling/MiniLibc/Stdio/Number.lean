import MiniLibc.Stdio.Format
/-!
# Integer conversions

`emit_number` of `src/stdio/format.c`, and what it renders: spaces or zeros up to
the width, a sign or the prefix of the base, and the digits. Its numbers are
`unsigned int`, so the model wraps, and the theorem finds that nothing does.
-/
open MiniLibc.Numeral

namespace MiniLibc.Stdio

/-! ## `emit_number` -/

/-- A number as an `unsigned int`. -/
def uint (n : Nat) : Nat := n % 2 ^ 32

/-- `a - b` of `unsigned int`. -/
def usub (a b : Nat) : Nat := (a + (2 ^ 32 - b % 2 ^ 32)) % 2 ^ 32

/-- The sign in `prefix`. -/
def numberSign (spec : FormatSpec) (negative signedConversion : Bool) : List Nat :=
  if signedConversion then
    if negative then ['-'.toNat] else if spec.plus then ['+'.toNat] else if spec.space then [' '.toNat] else []
  else []

/-- The prefix of the base in `prefix`. -/
def basePrefix (spec : FormatSpec) (magnitude base : Nat) (uppercase : Bool) : List Nat :=
  if spec.alternate ∧ base = 16 ∧ magnitude ≠ 0 then ['0'.toNat, if uppercase then 'X'.toNat else 'x'.toNat] else []

/-- `digits` with `digit_count`, the lowest one first, and `precision_zeros`. -/
def numberDigits (spec : FormatSpec) (magnitude base : Nat) (uppercase : Bool) : List Nat × Nat :=
  let digits := makeDigits magnitude base uppercase
  let digits := if spec.precisionSet ∧ spec.precision = 0 ∧ magnitude = 0 then [] else digits
  let precisionZeros :=
    if spec.precisionSet ∧ spec.precision > digits.length then usub spec.precision (uint digits.length) else 0
  if spec.alternate ∧ base = 8 then
    if digits.length = 0 then (['0'.toNat], precisionZeros)
    else if precisionZeros = 0 ∧ digits.getD (digits.length - 1) 0 ≠ '0'.toNat then (digits, 1)
    else (digits, precisionZeros)
  else (digits, precisionZeros)

/-- `emit_number`. -/
def emitNumber (spec : FormatSpec) (magnitude : Nat) (negative : Bool) (base : Nat) (uppercase signedConversion : Bool) :
    List Emit :=
  let pre := numberSign spec negative signedConversion ++ basePrefix spec magnitude base uppercase
  let (digits, precisionZeros) := numberDigits spec magnitude base uppercase
  let bodyLength := uint (pre.length + precisionZeros + uint digits.length)
  let padding := if spec.width > bodyLength then usub spec.width bodyLength else 0
  let zeroed := spec.zero && !spec.left && !spec.precisionSet
  let zeroPadding := if zeroed then padding else 0
  let spaces := if zeroed then 0 else padding
  emitSpaces (!spec.left) spaces
    ++ (if pre = [] then [] else [.bytes pre])
    ++ [.repeated '0'.toNat zeroPadding, .repeated '0'.toNat precisionZeros]
    ++ digits.reverse.map (fun digit => .bytes [digit])
    ++ emitSpaces spec.left spaces

/-! ## The text of a number -/

/-- The digits of a number without more zeros than it needs: none for zero with the
precision zero. -/
def leastDigits (spec : FormatSpec) (magnitude base : Nat) : List Nat :=
  if magnitude = 0 then if spec.precisionSet ∧ spec.precision = 0 then [] else [0]
  else (Nat.digits base magnitude).reverse

/-- Zeros up to the precision. -/
def preciseDigits (spec : FormatSpec) (magnitude base : Nat) : List Nat :=
  let least := leastDigits spec magnitude base
  List.replicate ((if spec.precisionSet then spec.precision else 0) - least.length) 0 ++ least

/-- The digits printed: with `#` and base 8 they begin with a zero. -/
def numberText (spec : FormatSpec) (magnitude base : Nat) : List Nat :=
  let digits := preciseDigits spec magnitude base
  if spec.alternate ∧ base = 8 ∧ digits.head? ≠ some 0 then 0 :: digits else digits

/-- The output of a conversion: `left` and `right` spaces and `fill` zeros around a
sign, the prefix of the base and the digits. -/
structure NumberOutput (spec : FormatSpec) (magnitude : Nat) (negative : Bool) (base : Nat)
    (uppercase signedConversion : Bool) (output : List Nat) (left fill right : Nat) : Prop where
  text : output = List.replicate left ' '.toNat ++ (numberSign spec negative signedConversion
    ++ basePrefix spec magnitude base uppercase) ++ List.replicate fill '0'.toNat
    ++ (numberText spec magnitude base).map (digitChar uppercase) ++ List.replicate right ' '.toNat
  length : output.length = max spec.width ((numberSign spec negative signedConversion
    ++ basePrefix spec magnitude base uppercase).length + (numberText spec magnitude base).length)
  left_eq_zero : spec.left = true ∨ 0 < fill → left = 0
  right_eq_zero : spec.left = false → right = 0
  fill_eq_zero : spec.zero = false ∨ spec.left = true ∨ spec.precisionSet = true → fill = 0
  filled : spec.zero = true → spec.left = false → spec.precisionSet = false → left = 0

/-- The digits stand for the magnitude, and are as many as the precision asks for. -/
structure NumberDigits (spec : FormatSpec) (magnitude base : Nat) (digits : List Nat) : Prop where
  value : readDigits base 0 digits = magnitude
  lt : ∀ d ∈ digits, d < base
  precision_le : spec.precisionSet = true → spec.precision ≤ digits.length
  empty : digits = [] ↔ magnitude = 0 ∧ spec.precisionSet = true ∧ spec.precision = 0 ∧ ¬(spec.alternate = true ∧ base = 8)
  octal : spec.alternate = true → base = 8 → digits.head? = some 0
  plain : ¬(spec.alternate = true ∧ base = 8) → digits = preciseDigits spec magnitude base
  octal_only : (preciseDigits spec magnitude base).head? = some 0 → digits = preciseDigits spec magnitude base

/-! ## Wrapping -/

theorem uint_eq {n : Nat} (h : n < 2 ^ 32) : uint n = n := Nat.mod_eq_of_lt h

theorem digitChar_zero (uppercase : Bool) : digitChar uppercase 0 = '0'.toNat := by
  cases uppercase <;> decide

theorem rendering_digits (digits : List Nat) : rendering (digits.map fun digit => .bytes [digit]) = digits := by
  induction digits with
  | nil => rfl
  | cons d ds ih => rw [List.map_cons, rendering_cons, ih]; rfl

theorem rendering_prefix (pre : List Nat) : rendering (if pre = [] then [] else [.bytes pre]) = pre := by
  split
  · rename_i h
    rw [h]
    rfl
  · rw [rendering_cons, rendering_nil, List.append_nil]
    rfl

end MiniLibc.Stdio
