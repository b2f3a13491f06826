import MiniLibc.Internal.FloatSource
import MiniLibc.Stdio.ScanFormat
import MiniLibc.Stdio.Wide
/-!
# Sources of the scanner

`mini_scan_source` of `src/stdio/scan.c`: a byte or a wide stream, or a string of
bytes or of wide characters.
-/
open MiniLibc.FloatParse MiniLibc.Wchar

namespace MiniLibc.Stdio

/-- `mini_scan_source`, over the state of what it reads: `source_get` and
`source_unget`, the two modes, and `errno`. -/
structure Source (σ : Type) extends FloatSource σ where
  /-- `source_is_wide`. -/
  wide : Bool
  utf8 : Bool
  setErrno : Nat → σ → σ

/-! ## Strings -/

/-- A string that is read: the items before the cursor, the last one first, and those
from the cursor on. -/
structure StringCursor (α : Type) where
  behind : List α := []
  ahead : List α
  errno : Nat := 0
deriving DecidableEq, Repr

namespace StringCursor

variable {α : Type}

/-- `source_get` of a string, whose terminator is `EOF`. -/
def get (value : α → Option Int) (s : StringCursor α) : Option Int × StringCursor α :=
  match s.ahead with
  | [] => (none, s)
  | c :: rest => (value c, { s with behind := c :: s.behind, ahead := rest })

/-- `source_unget` of a string: only the item before the cursor is taken back. -/
def unget [DecidableEq α] (c : α) (s : StringCursor α) : Bool × StringCursor α :=
  match s.behind with
  | [] => (false, s)
  | b :: behind => if b = c then (true, { s with behind, ahead := b :: s.ahead }) else (false, s)

end StringCursor

/-- `MINI_SCAN_SOURCE_STRING`. -/
def stringSource (utf8 : Bool) : Source (StringCursor UInt8) where
  get := StringCursor.get fun c => some (c.toNat : Int)
  unget c := StringCursor.unget (unsignedChar c)
  wide := false
  utf8
  setErrno errno s := { s with errno }

/-- `MINI_SCAN_SOURCE_WIDE_STRING`. A character with the value of `EOF` reads as one. -/
def wideStringSource (utf8 : Bool) : Source (StringCursor Int) where
  get := StringCursor.get fun c => if c = -1 then none else some c
  unget := StringCursor.unget
  wide := true
  utf8
  setErrno errno s := { s with errno }

/-! ## Streams -/

variable {κ : Type} [Kernel κ]

/-- `MINI_SCAN_SOURCE_FILE`. -/
def fileSource (utf8 : Bool) : Source (World κ) where
  get w := ((fgetc w).1.map fun byte => (byte.toNat : Int), (fgetc w).2)
  unget c w := ((ungetc c w).1.isSome, (ungetc c w).2)
  wide := false
  utf8
  setErrno errno w := { w with errno }

/-- `MINI_SCAN_SOURCE_WIDE_FILE`. -/
def wideFileSource (utf8 : Bool) : Source (World κ) where
  get w := ((wideReadCharacter w).1.map toWchar, (wideReadCharacter w).2)
  unget c w := ((wideUngetCharacter (toWint c) w).1.isSome, (wideUngetCharacter (toWint c) w).2)
  wide := true
  utf8
  setErrno errno w := { w with errno }

end MiniLibc.Stdio
