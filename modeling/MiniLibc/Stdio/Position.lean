import MiniLibc.Stdio.Stream
/-!
# Positions and buffers

`src/stdio/position.c`, and `setvbuf` of `file.c`. A `long` is an integer, and
`wrapLong` is what its arithmetic leaves in 64 bits.
-/
open MiniLibc.Memory

namespace MiniLibc.Stdio

variable {κ : Type} [Kernel κ]

def seekSet : Int := 0
def seekCur : Int := 1
def seekEnd : Int := 2

/-- The largest `long`. -/
def maxLong : Nat := 2 ^ 63 - 1

/-- The value of a 64-bit `long`. -/
def wrapLong (x : Int) : Int := x.bmod (2 ^ 64)

/-- `unread_input`. -/
def unreadInput (f : File) : Nat :=
  (if f.readLength ≥ f.readOffset then f.readLength - f.readOffset else 0) +
    (if f.pushbackLength ≥ f.pushbackOffset then f.pushbackLength - f.pushbackOffset else 0)

/-- `discard_input`. -/
def discardInput (f : File) : File :=
  { f with readOffset := 0, readLength := 0, pushbackOffset := 0, pushbackLength := 0 }

/-- The offset `fseek` passes on, or `none` when its range check refuses. -/
def seekOffset (f : File) (offset whence : Int) : Option Int :=
  if whence = seekCur then
    let unread := unreadInput f
    if unread > maxLong ∨ offset < wrapLong (-(maxLong : Int) - 1 + unread) then none
    else some (wrapLong (offset - unread))
  else some offset

/-- `fseek`: whether it succeeded. -/
def fseek (offset whence : Int) (w : World κ) : Bool × World κ :=
  if !validStream w.file ∨ (whence ≠ seekSet ∧ whence ≠ seekCur ∧ whence ≠ seekEnd) then
    (false, { w with errno := einval })
  else
    match if w.file.mode.writable then stdioFlushBuffer w else (true, w) with
    | (false, w) => (false, w)
    | (true, w) =>
      match seekOffset w.file offset whence with
      | none => (false, { w with errno := einval })
      | some adjusted =>
        let (result, kernel) := Kernel.lseek w.kernel adjusted whence
        let w := { w with kernel }
        match result with
        | .error e => (false, { w with errno := e })
        | .ok _ =>
          let file := discardInput w.file
          (true, { w with file := { file with state := { file.state with
            eof := false, readNeedsPosition := false, writeNeedsSync := false } } })

/-- `ftell`. `none` is `-1`. -/
def ftell (w : World κ) : Option Int × World κ :=
  if !validStream w.file then (none, { w with errno := einval })
  else
    match if w.file.mode.append ∧ w.file.writeLength ≠ 0 then stdioFlushBuffer w else (true, w) with
    | (false, w) => (none, w)
    | (true, w) =>
      let (result, kernel) := Kernel.lseek w.kernel 0 seekCur
      let w := { w with kernel }
      match result with
      | .error e => (none, { w with errno := e })
      | .ok offset =>
        if (offset : Int) > ((maxLong : Int) - w.file.writeLength) % 2 ^ 64 then (none, { w with errno := einval })
        else
          let logical := wrapLong (offset + w.file.writeLength)
          let unread := unreadInput w.file
          if (unread : Int) > logical % 2 ^ 64 then (none, { w with errno := einval })
          else (some (wrapLong (logical - unread)), w)

def rewind (w : World κ) : World κ := clearerr (fseek 0 seekSet w).2

def enomem : Nat := 12

def ioFbf : Int := 0
def ioLbf : Int := 1
def ioNbf : Int := 2

/-- `__mini_stdio_release_buffer`. -/
def releaseBuffer (f : File) : File :=
  { f with mode.bufferOwned := false, writeBuffer := .null, readBuffer := .null, bufferSize := 0 }

/-- The buffer a caller gives `setvbuf`, or the one it allocates: its bytes, and
whether it is the stream's own. `none` when the allocation failed. -/
abbrev NewBuffer := Option (Mem × Bool)

/-- `setvbuf`: whether it succeeded. -/
def setvbuf (buffer : NewBuffer) (mode : Int) (size : Nat) (w : World κ) : Bool × World κ :=
  if !validStream w.file ∨ (mode ≠ ioFbf ∧ mode ≠ ioLbf ∧ mode ≠ ioNbf) ∨ (mode ≠ ioNbf ∧ size = 0) then
    (false, { w with errno := einval })
  else if mode ≠ ioNbf ∧ buffer.isNone then (false, { w with errno := enomem })
  else
    let savedErrno := w.errno
    match if w.file.mode.writable then fflush w else (true, w) with
    | (false, w) => (false, w)
    | (true, w) =>
      match if w.file.mode.readable ∧ (w.file.state.readNeedsPosition ∨ w.file.readOffset ≠ w.file.readLength ∨
          w.file.pushbackOffset < w.file.pushbackLength) then fseek 0 seekCur w else (true, w) with
      | (false, w) => (false, w)
      | (true, w) =>
        let file := releaseBuffer w.file
        let file := { file with mode := { file.mode with
          unbuffered := mode = ioNbf, lineBuffered := mode = ioLbf } }
        let file := match buffer with
          | some (bytes, owned) =>
            if mode ≠ ioNbf then
              { file with
                mode.bufferOwned := owned, writeBuffer := .custom, readBuffer := .custom
                bufferSize := size, customBuffer := bytes }
            else file
          | none => file
        (true, { w with file := { discardInput file with writeLength := 0 }, errno := savedErrno })

end MiniLibc.Stdio
