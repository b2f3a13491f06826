import MiniLibc.Stdio.Formatter
import MiniLibc.Stdio.Position
import MiniLibc.Stdio.Scan
import MiniLibc.Stdio.Wide
/-!
# Wide formatted output

`src/wchar/wide_format.c`. A wide format is encoded, rendered twice into bytes, once
for the length and once into a block of that length, and decoded again. No allocation
follows a `free` within a call, so the blocks only have to be given.
-/
open MiniLibc.Args MiniLibc.Memory MiniLibc.Wchar

namespace MiniLibc.Stdio

/-- `malloc`: a block of bytes that may be anything, or none. -/
abbrev Malloc (ν : Type) : Type := ν → (size : Nat) → Option Mem × ν

/-! ## The format -/

/-- The first loop of `encode_wide_format`: `length`, or `errno`. -/
def formatLengthLoop (utf8 : Bool) : (format : List Int) → (length : Nat) → Except Nat Nat
  | [], length => .ok length
  | wc :: format, length =>
    match encodeWideValue wc utf8 with
    | none => .error eilseq
    | some bytes =>
      if length > sizeMax - bytes.length - 1 then .error enomem
      else formatLengthLoop utf8 format (length + bytes.length)

/-- Its second loop. -/
def formatBytesLoop (utf8 : Bool) : (format : List Int) → Option (List UInt8)
  | [] => some []
  | wc :: format =>
    match encodeWideValue wc utf8 with
    | none => none
    | some bytes => (formatBytesLoop utf8 format).map (bytes ++ ·)

variable {ν : Type} (malloc : Malloc ν)

/-- `encode_wide_format`, of the characters before the terminator: the bytes before
theirs, or `errno`. A null format is `none`. -/
def encodeWideFormat (format : Option (List Int)) (utf8 : Bool) (heap : ν) : Except Nat (List UInt8) × ν :=
  match format with
  | none => (.error einval, heap)
  | some format =>
    match formatLengthLoop utf8 format 0 with
    | .error e => (.error e, heap)
    | .ok length =>
      match malloc heap (length + 1) with
      | (none, heap) => (.error enomem, heap)
      | (some _, heap) =>
        match formatBytesLoop utf8 format with
        | none => (.error eilseq, heap)
        | some narrow => (.ok narrow, heap)

section Machine

variable {α : Type} (next : α → Fetch → Nat × α) (arrays : Arrays)

/-! ## The rendering -/

/-- What `render_wide` leaves: the bytes it counts, or none for `EOF`. -/
structure Rendered (ν : Type) where
  text : Option (List UInt8)
  errno : Nat
  heap : ν

/-- `__mini_vsnprintf_wide_mode`. -/
def vsnprintfWideMode (buffer : Option Mem) (size errno : Nat) (format : List UInt8) (args : α) (utf8 : Bool) :
    Option (Option Nat × MemorySink) :=
  snprintfDispatchMode next arrays ⟨utf8, true⟩ buffer size errno (some format) args

/-- `render_wide` behind the format. -/
def renderNarrow (narrow : List UInt8) (args : α) (utf8 : Bool) (errno : Nat) (heap : ν) : Option (Rendered ν) :=
  match vsnprintfWideMode next arrays none 0 errno narrow args utf8 with
  | none => none
  | some (none, sink) => some ⟨none, sink.errno, heap⟩
  | some (some count, sink) =>
    match malloc heap (count + 1) with
    | (none, heap) => some ⟨none, enomem, heap⟩
    | (some block, heap) =>
      match vsnprintfWideMode next arrays (some block) (count + 1) sink.errno narrow args utf8 with
      | none => none
      | some (none, sink) => some ⟨none, sink.errno, heap⟩
      | some (some actual, sink) =>
        if actual ≠ count then some ⟨none, einval, heap⟩
        else some ⟨some (bytesAt sink.buffer 0 count), sink.errno, heap⟩

/-- `render_wide`. -/
def renderWide (format : Option (List Int)) (args : α) (utf8 : Bool) (errno : Nat) (heap : ν) : Option (Rendered ν) :=
  match encodeWideFormat malloc format utf8 heap with
  | (.error e, heap) => some ⟨none, e, heap⟩
  | (.ok narrow, heap) => renderNarrow malloc next arrays narrow args utf8 errno heap

/-- The loop of `decode_rendered_character`: the character, and the bytes behind it. It
fails with `EILSEQ`. -/
def decodeRenderedLoop (utf8 : Bool) : (rendered : List UInt8) → MbState → Option (Int × List UInt8)
  | [], _ => none
  | byte :: rendered, state =>
    match mbrtowcMode (some [byte]) state utf8 with
    | ⟨.eilseq, _, _⟩ => none
    | ⟨.incomplete, _, state⟩ => decodeRenderedLoop utf8 rendered state
    | ⟨.length _, wc, _⟩ => some (wc.getD 0, rendered)

/-- `decode_rendered_character`, of the bytes from the offset on. -/
def decodeRenderedCharacter (utf8 : Bool) (rendered : List UInt8) : Option (Int × List UInt8) :=
  decodeRenderedLoop utf8 rendered {}

/-! ## Into memory -/

/-- The loop of `store_rendered_wide`: whether every character decodes, `count`,
`stored` and the buffer. A character takes a byte at least. -/
def storeRenderedLoop (utf8 : Bool) (size : Nat) :
    (fuel : Nat) → (rendered : List UInt8) → (count stored : Nat) → (Nat → Int) → Bool × Nat × Nat × (Nat → Int)
  | 0, _, count, stored, buffer => (true, count, stored, buffer)
  | fuel + 1, rendered, count, stored, buffer =>
    if rendered = [] then (true, count, stored, buffer)
    else
      match decodeRenderedCharacter utf8 rendered with
      | none => (false, count, stored, buffer)
      | some (wc, rendered) =>
        if size ≠ 0 ∧ stored + 1 < size then
          storeRenderedLoop utf8 size fuel rendered (count + 1) (stored + 1) (Function.update buffer stored wc)
        else storeRenderedLoop utf8 size fuel rendered (count + 1) stored buffer

/-- What a call leaves: its result, or none for `EOF`, the buffer and `errno`. -/
structure WideStored where
  result : Option Nat
  buffer : Nat → Int
  errno : Nat

/-- `store_rendered_wide`. The buffer is null only if its size is zero. -/
def storeRenderedWide (buffer : Nat → Int) (size : Nat) (rendered : List UInt8) (utf8 : Bool) (errno : Nat) :
    WideStored :=
  let (decodes, count, stored, buffer) := storeRenderedLoop utf8 size rendered.length rendered 0 0 buffer
  let buffer := if size ≠ 0 then Function.update buffer stored 0 else buffer
  if !decodes then ⟨none, buffer, eilseq⟩
  else if size = 0 ∨ count ≥ size then ⟨none, buffer, erange⟩
  else ⟨some count, buffer, errno⟩

/-- `vswprintf`, in the encoding of the locale. A null buffer is `none`. -/
def vswprintf (localeUtf8 : Bool) (buffer : Option (Nat → Int)) (size errno : Nat) (format : Option (List Int))
    (args : α) (heap : ν) : Option (WideStored × ν) :=
  let start := buffer.getD fun _ => 0
  if size ≠ 0 ∧ buffer = none then some (⟨none, start, einval⟩, heap)
  else
    match renderWide malloc next arrays format args localeUtf8 errno heap with
    | none => none
    | some ⟨none, e, heap⟩ => some (⟨none, start, e⟩, heap)
    | some ⟨some rendered, e, heap⟩ =>
      let stored := storeRenderedWide start size rendered localeUtf8 e
      some (if stored.result.isSome then { stored with errno } else stored, heap)

end Machine

end MiniLibc.Stdio
