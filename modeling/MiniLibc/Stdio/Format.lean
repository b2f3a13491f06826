import MiniLibc.Lib.Numeral
/-!
# Conversions of the formatter

`src/stdio/format.c`. A character is its code. What a conversion emits does not
depend on the sink, so it is the list of its calls of `emit_bytes` and
`emit_repeat` in their order.
-/
open MiniLibc.Numeral

namespace MiniLibc.Stdio

/-- `MINI_PRINTF_INT_MAX`. -/
def printfIntMax : Nat := 2 ^ 31 - 1

/-- `MINI_LEN_NONE` to `MINI_LEN_LL`. -/
inductive FormatLength where
  | none
  | hh
  | h
  | l
  | ll
deriving DecidableEq, Repr

/-- `mini_format_spec`. `parse_spec` lets no number be more than `INT_MAX`. -/
structure FormatSpec where
  left : Bool := false
  plus : Bool := false
  space : Bool := false
  alternate : Bool := false
  zero : Bool := false
  width : Nat := 0
  precisionSet : Bool := false
  precision : Nat := 0
  length : FormatLength := .none
  conversion : Nat := 0
  width_le : width ≤ printfIntMax := by decide
  precision_le : precision ≤ printfIntMax := by decide

/-- A call of `emit_bytes` or `emit_repeat`. -/
inductive Emit where
  | bytes (text : List Nat)
  | repeated (byte amount : Nat)
deriving DecidableEq, Repr

/-- What a call emits when it succeeds. -/
def Emit.text : Emit → List Nat
  | .bytes text => text
  | .repeated byte amount => List.replicate amount byte

/-- What the calls emit when they all succeed. -/
def rendering (calls : List Emit) : List Nat := calls.flatMap Emit.text

/-- The padding on the left or on the right. -/
def emitSpaces (wanted : Bool) (spaces : Nat) : List Emit := if wanted then [.repeated ' '.toNat spaces] else []

@[simp] theorem rendering_nil : rendering [] = [] := rfl

@[simp] theorem rendering_cons (call : Emit) (calls : List Emit) :
    rendering (call :: calls) = call.text ++ rendering calls := List.flatMap_cons

@[simp] theorem rendering_append (calls calls' : List Emit) :
    rendering (calls ++ calls') = rendering calls ++ rendering calls' := List.flatMap_append

@[simp] theorem rendering_emitSpaces (wanted : Bool) (spaces : Nat) :
    rendering (emitSpaces wanted spaces) = List.replicate (if wanted then spaces else 0) ' '.toNat := by
  cases wanted <;> simp [emitSpaces, Emit.text]

/-! ## Digits -/

/-- The tables `lower` and `upper`. -/
def alphabet (uppercase : Bool) : List Nat :=
  (if uppercase then "0123456789ABCDEF" else "0123456789abcdef").toList.map Char.toNat

/-- The character of a digit. -/
def digitChar (uppercase : Bool) (digit : Nat) : Nat := (alphabet uppercase).getD digit 0

/-- `make_digits`, the lowest digit first. -/
def makeDigits (value base : Nat) (uppercase : Bool) : List Nat := (lowDigits base 1 value).map (digitChar uppercase)

end MiniLibc.Stdio
