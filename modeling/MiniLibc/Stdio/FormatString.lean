import MiniLibc.Stdio.FloatText
import MiniLibc.Stdio.FormatParse
import MiniLibc.Stdio.Number
import MiniLibc.Stdio.Stream
/-!
# String and character conversions

`emit_string`, `emit_character`, `emit_wide_character`, `emit_wide_string` and
`emit_multibyte_string_wide` of `src/stdio/format.c`. An array is the list of its
elements from the pointer to its end, so a loop that passes the end shows: its
result is `none`.
-/
open MiniLibc.Wchar

namespace MiniLibc.Stdio

/-- What a conversion emits, and `errno` if it then fails by itself. -/
structure Emission where
  calls : List Emit
  error : Option Nat := none

/-- `utf8` and `wide_semantics` of a sink. -/
structure SinkMode where
  utf8 : Bool
  wideSemantics : Bool

/-- The calls that come next, unless the conversion has failed. -/
def Emission.next (e : Emission) (calls : List Emit) : Emission :=
  if e.error.isSome then e else { e with calls := e.calls ++ calls }

/-- Spaces up to the width, on the left or on the right. -/
def padded (spec : FormatSpec) (padding : Nat) (body : Emission) : Emission :=
  Emission.next { body with calls := emitSpaces (!spec.left) padding ++ body.calls } (emitSpaces spec.left padding)

/-- `null_text`, of `char` or of `wchar_t`. -/
def nullText : List Nat := ("(null)".toList.map Char.toNat) ++ [0]

/-! ## Narrow strings -/

/-- `string_length_limit`, from `s[length]` on. -/
def stringLengthLimit (precisionSet : Bool) (precision : Nat) : List UInt8 → (length : Nat) → Option Nat
  | [], _ => none
  | c :: s, length =>
    if c ≠ 0 ∧ (!precisionSet ∨ length < precision) then stringLengthLimit precisionSet precision s (length + 1)
    else some length

/-- `emit_string`. -/
def emitString (spec : FormatSpec) (value : Option (List UInt8)) : Option Emission :=
  let value := value.getD (nullText.map UInt8.ofNat)
  (stringLengthLimit spec.precisionSet spec.precision value 0).map fun length =>
    padded spec (spec.width - length) ⟨[.bytes ((value.take length).map UInt8.toNat)], none⟩

/-- `emit_character`. -/
def emitCharacter (spec : FormatSpec) (value : Int) : Emission :=
  padded spec (spec.width - 1) ⟨[.bytes [(unsignedChar value).toNat]], none⟩

/-! ## Wide characters and strings -/

/-- `encode_wide_value`. `none` is its `(size_t)-1`, with `EILSEQ`. -/
def encodeWideValue (value : Int) (utf8 : Bool) : Option (List UInt8) := (wcrtombMode value {} utf8).1

/-- `emit_wide_character`. -/
def emitWideCharacter (mode : SinkMode) (spec : FormatSpec) (value : Int) : Emission :=
  match encodeWideValue value mode.utf8 with
  | none => ⟨[], some eilseq⟩
  | some bytes =>
    let units := if mode.wideSemantics then 1 else bytes.length
    padded spec (spec.width - units) ⟨[.bytes (bytes.map UInt8.toNat)], none⟩

/-- The first loop of `emit_wide_string`, from `value[characters]` on: `characters`
and `bytes_total`, or `errno`. -/
def wideStringLoop (mode : SinkMode) (precisionSet : Bool) (precision : Nat) :
    List Int → (characters bytesTotal : Nat) → Option (Except Nat (Nat × Nat))
  | [], _, _ => none
  | c :: value, characters, bytesTotal =>
    if c = 0 then some (.ok (characters, bytesTotal))
    else
      match encodeWideValue c mode.utf8 with
      | none => some (.error eilseq)
      | some bytes =>
        if mode.wideSemantics ∧ precisionSet ∧ characters ≥ precision then some (.ok (characters, bytesTotal))
        else if !mode.wideSemantics ∧ precisionSet ∧ bytesTotal + bytes.length > precision then
          some (.ok (characters, bytesTotal))
        else if bytesTotal > sizeMax - bytes.length then some (.error einval)
        else wideStringLoop mode precisionSet precision value (characters + 1) (bytesTotal + bytes.length)

/-- Its second loop. -/
def emitEncodings (utf8 : Bool) : List Int → Emission
  | [] => ⟨[], none⟩
  | c :: value =>
    match encodeWideValue c utf8 with
    | none => ⟨[], some eilseq⟩
    | some bytes =>
      let rest := emitEncodings utf8 value
      { rest with calls := .bytes (bytes.map UInt8.toNat) :: rest.calls }

/-- `emit_wide_string`. -/
def emitWideString (mode : SinkMode) (spec : FormatSpec) (value : Option (List Int)) : Option Emission :=
  let value := value.getD (nullText.map Nat.cast)
  (wideStringLoop mode spec.precisionSet spec.precision value 0 0).map fun
    | .error e => ⟨[], some e⟩
    | .ok (characters, bytesTotal) =>
      let units := uint (if mode.wideSemantics then characters else bytesTotal)
      padded spec (spec.width - units) (emitEncodings mode.utf8 (value.take characters))

/-! ## Multibyte strings of the wide family -/

/-- The loop of `decode_multibyte_character`, from `value[used]` on. `some none` is a
failure, with `EILSEQ`. -/
def decodeMultibyteLoop (utf8 : Bool) : List UInt8 → MbState → (used : Nat) → Option (Option Nat)
  | [], _, _ => none
  | byte :: value, state, used =>
    match mbrtowcMode (some [byte]) state utf8 with
    | ⟨.eilseq, _, _⟩ => some none
    | ⟨.incomplete, _, state⟩ =>
      match value with
      | [] => none
      | c :: _ => if c = 0 then some none else decodeMultibyteLoop utf8 value state (used + 1)
    | ⟨.length _, _, _⟩ => some (some (used + 1))

/-- `decode_multibyte_character`, of an array that is not empty: the length. -/
def decodeMultibyteCharacter (utf8 : Bool) (value : List UInt8) : Option (Option Nat) :=
  if byteAt value = 0 then some none else decodeMultibyteLoop utf8 value {} 0

/-- The loop of `emit_multibyte_string_wide`, from `cursor` on. A character has at least
one byte, so the bytes left bound the passes. -/
def multibyteStringLoop (utf8 : Bool) (precisionSet : Bool) (precision : Nat) :
    (fuel : Nat) → (cursor : List UInt8) → (characters bytesTotal : Nat) → Option (Except Nat (Nat × Nat))
  | 0, _, _, _ => none
  | _ + 1, [], _, _ => none
  | fuel + 1, c :: cursor, characters, bytesTotal =>
    if c ≠ 0 ∧ (!precisionSet ∨ characters < precision) then
      match decodeMultibyteCharacter utf8 (c :: cursor) with
      | none => none
      | some none => some (.error eilseq)
      | some (some length) =>
        if bytesTotal > sizeMax - length then some (.error einval)
        else
          multibyteStringLoop utf8 precisionSet precision fuel ((c :: cursor).drop length) (characters + 1)
            (bytesTotal + length)
    else some (.ok (characters, bytesTotal))

/-- `emit_multibyte_string_wide`. -/
def emitMultibyteStringWide (mode : SinkMode) (spec : FormatSpec) (value : Option (List UInt8)) : Option Emission :=
  let value := value.getD (nullText.map UInt8.ofNat)
  (multibyteStringLoop mode.utf8 spec.precisionSet spec.precision value.length value 0 0).map fun
    | .error e => ⟨[], some e⟩
    | .ok (characters, bytesTotal) =>
      padded spec (spec.width - characters) ⟨[.bytes ((value.take bytesTotal).map UInt8.toNat)], none⟩

end MiniLibc.Stdio
