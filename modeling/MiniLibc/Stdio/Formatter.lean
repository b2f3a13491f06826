import MiniLibc.Stdio.FormatString
import MiniLibc.Stdio.Variadic
/-!
# The formatter

`emit_conversion`, `format_dispatch` and the two sinks of `src/stdio/format.c`. A run
gives `none` where a conversion passes the end of an array, and otherwise the count
or, for `EOF`, none.
-/
open MiniLibc.Args MiniLibc.Memory

namespace MiniLibc.Stdio

/-- The arrays behind the pointers among the arguments. -/
structure Arrays where
  bytes : Nat → List UInt8
  wides : Nat → List Int

def Arrays.narrow (arrays : Arrays) (pointer : Nat) : Option (List UInt8) :=
  if pointer = 0 then none else some (arrays.bytes pointer)

def Arrays.wide (arrays : Arrays) (pointer : Nat) : Option (List Int) :=
  if pointer = 0 then none else some (arrays.wides pointer)

/-- `load_double_bits`. -/
def doubleOfBits (bits : Nat) : Binary64 :=
  ⟨bits / 2 ^ 63 % 2 = 1, bits % 2 ^ 63, Nat.mod_lt _ (Nat.two_pow_pos 63)⟩

section Machine

variable {α : Type} (next : α → Fetch → Nat × α)

/-! ## Conversions -/

/-- `next_signed`. -/
def nextSigned (args : α) (length : FormatLength) : Int × α :=
  let (word, args) := next args .word
  let value := match length with
    | .hh => (wordToInt word).bmod (2 ^ 8)
    | .h => (wordToInt word).bmod (2 ^ 16)
    | .l | .ll => wordToLongLong word
    | .none => wordToInt word
  (value, args)

/-- `next_unsigned`. -/
def nextUnsigned (args : α) (length : FormatLength) : Nat × α :=
  let (word, args) := next args .word
  let value := match length with
    | .hh => word % 2 ^ 8
    | .h => word % 2 ^ 16
    | .l | .ll => word % 2 ^ 64
    | .none => word % 2 ^ 32
  (value, args)

/-- `invalid_format`, before anything is emitted. -/
def invalidFormat : Emission := ⟨[], some einval⟩

variable (arrays : Arrays)

/-- `emit_conversion` for `s`. -/
def emitStringConversion (mode : SinkMode) (spec : FormatSpec) (args : α) : Option (Emission × α) :=
  if spec.length = .none then
    let (word, args) := next args .word
    let value := arrays.narrow word
    (if mode.wideSemantics then emitMultibyteStringWide mode spec value else emitString spec value).map (·, args)
  else if spec.length = .l then
    let (word, args) := next args .word
    (emitWideString mode spec (arrays.wide word)).map (·, args)
  else some (invalidFormat, args)

/-- `emit_conversion` for `c`. -/
def emitCharacterConversion (mode : SinkMode) (spec : FormatSpec) (args : α) : Emission × α :=
  if spec.precisionSet then (invalidFormat, args)
  else
    let (word, args) := next args .word
    let value := wordToInt word
    if spec.length = .none then
      if mode.wideSemantics ∧ (unsignedChar value).toNat > 0x7f then (⟨[], some eilseq⟩, args)
      else (emitCharacter spec value, args)
    else if spec.length = .l then (emitWideCharacter mode spec value, args)
    else (invalidFormat, args)

/-- `emit_conversion`. -/
def emitConversion (mode : SinkMode) (spec : FormatSpec) (args : α) : Option (Emission × α) :=
  let isOneOf (letters : String) : Bool := letters.toList.any fun letter => spec.conversion = letter.toNat
  if isOneOf "s" then emitStringConversion next arrays mode spec args
  else if isOneOf "c" then some (emitCharacterConversion next mode spec args)
  else if isOneOf "di" then
    let (value, args) := nextSigned next args spec.length
    some (⟨emitNumber spec value.natAbs (value < 0) 10 false true, none⟩, args)
  else if isOneOf "uoxX" then
    let (value, args) := nextUnsigned next args spec.length
    let base := if isOneOf "o" then 8 else if isOneOf "xX" then 16 else 10
    some (⟨emitNumber spec value false base (isOneOf "X") false, none⟩, args)
  else if isOneOf "fFeEgGaA" then
    let (bits, args) := next args .double
    match emitFloating spec (doubleOfBits bits) with
    | none => some (invalidFormat, args)
    | some calls => some (⟨calls, none⟩, args)
  else if isOneOf "%" then
    if spec.length ≠ .none ∨ spec.precisionSet then some (invalidFormat, args)
    else some (emitCharacter spec '%'.toNat, args)
  else some (invalidFormat, args)

/-! ## Sinks -/

/-- `mini_format_sink`: `sink_write`, and where `errno` is. -/
structure Sink (σ : Type) where
  mode : SinkMode
  write : σ → List UInt8 → Bool × σ
  setErrno : σ → Nat → σ

variable {σ : Type} (sink : Sink σ)

/-- `reserve_count`. -/
def reserveCount (count amount : Nat) : Option Nat :=
  if amount > printfIntMax - count then none else some (count + amount)

/-- `emit_bytes`: the new count. -/
def emitBytes (text : List Nat) (count : Nat) (s : σ) : Option Nat × σ :=
  match reserveCount count text.length with
  | none => (none, sink.setErrno s einval)
  | some count =>
    match sink.write s (text.map UInt8.ofNat) with
    | (true, s) => (some count, s)
    | (false, s) => (none, s)

/-- `MINI_FORMAT_PAD_CHUNK`. -/
def formatPadChunk : Nat := 16

/-- The loop of `emit_repeat`. -/
def repeatLoop (byte : Nat) : (fuel : Nat) → (amount count : Nat) → σ → Option Nat × σ
  | 0, _, count, s => (some count, s)
  | fuel + 1, amount, count, s =>
    if amount = 0 then (some count, s)
    else
      let chunk := min amount formatPadChunk
      match emitBytes sink (List.replicate chunk byte) count s with
      | (none, s) => (none, s)
      | (some count, s) => repeatLoop byte fuel (amount - chunk) count s

/-- `emit_repeat`. -/
def emitRepeat (byte amount count : Nat) (s : σ) : Option Nat × σ :=
  if amount > printfIntMax - count then (none, sink.setErrno s einval)
  else repeatLoop sink byte amount amount count s

/-- The calls of a conversion, up to one that fails. -/
def runCalls : List Emit → (count : Nat) → σ → Option Nat × σ
  | [], count, s => (some count, s)
  | call :: calls, count, s =>
    let result := match call with
      | .bytes text => emitBytes sink text count s
      | .repeated byte amount => emitRepeat sink byte amount count s
    match result with
    | (none, s) => (none, s)
    | (some count, s) => runCalls calls count s

/-- A conversion: its calls, and its own failure. -/
def runEmission (emission : Emission) (count : Nat) (s : σ) : Option Nat × σ :=
  match runCalls sink emission.calls count s with
  | (none, s) => (none, s)
  | (some count, s) =>
    match emission.error with
    | some e => (none, sink.setErrno s e)
    | none => (some count, s)

/-! ## The format -/

/-- A byte of a literal. -/
def isLiteral (c : UInt8) : Bool := c ≠ 0 ∧ c ≠ '%'.toUInt8

/-- The literal in front of the next percent sign. -/
def emitLiteral (cursor : List UInt8) (count : Nat) (s : σ) : Option Nat × σ :=
  let literal := cursor.takeWhile isLiteral
  if literal = [] then (some count, s) else emitBytes sink (literal.map UInt8.toNat) count s

/-- The loop of `format_dispatch`. A pass takes a byte of the format at least. -/
def formatLoop : (fuel : Nat) → (cursor : List UInt8) → α → (count : Nat) → σ → Option (Option Nat × σ)
  | 0, _, _, count, s => some (some count, s)
  | fuel + 1, cursor, args, count, s =>
    if byteAt cursor = 0 then some (some count, s)
    else
      match emitLiteral sink cursor count s with
      | (none, s) => some (none, s)
      | (some count, s) =>
        let cursor := cursor.dropWhile isLiteral
        if byteAt cursor = 0 then some (some count, s)
        else
          match parseFormatSpec next (cursor.drop 1) args with
          | none => some (none, sink.setErrno s einval)
          | some (spec, cursor, args) =>
            match emitConversion next arrays sink.mode spec args with
            | none => none
            | some (emission, args) =>
              match runEmission sink emission count s with
              | (none, s) => some (none, s)
              | (some count, s) => formatLoop fuel cursor args count s

/-- `format_dispatch`. A null format is `none`. -/
def formatDispatch (format : Option (List UInt8)) (args : α) (s : σ) : Option (Option Nat × σ) :=
  match format with
  | none => some (none, sink.setErrno s einval)
  | some format => formatLoop next arrays sink format.length format args 0 s

/-! ## Into memory -/

/-- The sink in memory, and `errno`. -/
structure MemorySink where
  buffer : Mem
  size : Nat
  stored : Nat := 0
  errno : Nat

/-- `sink_write` in memory. -/
def memoryWrite (s : MemorySink) (bytes : List UInt8) : MemorySink :=
  if s.size ≠ 0 ∧ s.stored < s.size - 1 then
    let available := s.size - 1 - s.stored
    let copied := min bytes.length available
    let stored := s.stored + copied
    { s with buffer := poke (fill s.buffer s.stored (bytes.take copied)) stored 0, stored }
  else s

def memorySink (mode : SinkMode) : Sink MemorySink where
  mode
  write s bytes := (true, memoryWrite s bytes)
  setErrno s errno := { s with errno }

/-- `snprintf_dispatch_mode`. A null buffer is `none`. -/
def snprintfDispatchMode (mode : SinkMode) (buffer : Option Mem) (size errno : Nat) (format : Option (List UInt8))
    (args : α) : Option (Option Nat × MemorySink) :=
  let start : MemorySink := ⟨buffer.getD fun _ => 0, size, 0, errno⟩
  if size ≠ 0 ∧ buffer = none then some (none, { start with errno := einval })
  else
    let start := if size ≠ 0 then { start with buffer := poke start.buffer 0 0 } else start
    formatDispatch next arrays (memorySink mode) format args start

/-- `__mini_snprintf_dispatch`. -/
def snprintfDispatch (localeUtf8 : Bool) (buffer : Option Mem) (size errno : Nat) (format : Option (List UInt8))
    (args : α) : Option (Option Nat × MemorySink) :=
  snprintfDispatchMode next arrays ⟨localeUtf8, false⟩ buffer size errno format args

/-! ## Into a stream -/

variable {κ : Type} [Kernel κ]

def streamSink (mode : SinkMode) : Sink (World κ) where
  mode
  write w bytes :=
    let (accepted, w) := stdioWrite w bytes
    (accepted = bytes.length, w)
  setErrno w errno := { w with errno }

/-- `__mini_format_dispatch_unlocked`. -/
def streamDispatchCore (localeUtf8 : Bool) (format : Option (List UInt8)) (args : α) (w : World κ) :
    Option (Option Nat × World κ) :=
  if !w.file.mode.writable then some (none, markError w einval)
  else formatDispatch next arrays (streamSink ⟨localeUtf8, false⟩) format args w

/-- `__mini_format_dispatch`, of `printf` and its kind. -/
def streamDispatch (localeUtf8 : Bool) (format : Option (List UInt8)) (args : α) (w : World κ) :
    Option (Option Nat × World κ) :=
  match requireByte w with
  | (true, w) => streamDispatchCore next arrays localeUtf8 format args w
  | (false, w) => some (none, w)

end Machine

end MiniLibc.Stdio
