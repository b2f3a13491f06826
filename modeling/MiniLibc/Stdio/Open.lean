import MiniLibc.Stdio.Streams
/-!
# Opening, rebinding and closing

`src/stdio/file.c`. A call on a stream takes the number of its object. What
`fopen` and `tmpfile` have in common is `fopenWith`.
-/
open MiniLibc.Memory MiniLibc.Intrusive MiniLibc.Ledger

namespace MiniLibc.Stdio

def oRdonly : Nat := 0
def oWronly : Nat := 1
def oRdwr : Nat := 2
def oCreat : Nat := 64
def oExcl : Nat := 128
def oTrunc : Nat := 512
def oAppend : Nat := 1024
def oTmpfile : Nat := 4259840

/-! ## `parse_open_mode` -/

/-- The marks behind the kind of a mode. -/
structure OpenMarks where
  plus : Bool := false
  binary : Bool := false
  exclusive : Bool := false

/-- The loop over the marks; `none` where it refuses one. -/
def scanMarks : List Char → OpenMarks → Option OpenMarks
  | [], marks => some marks
  | c :: rest, marks =>
    if c = '+' then if marks.plus then none else scanMarks rest { marks with plus := true }
    else if c = 'b' then if marks.binary then none else scanMarks rest { marks with binary := true }
    else if c = 'x' then if marks.exclusive then none else scanMarks rest { marks with exclusive := true }
    else none

/-- `parse_open_mode`: the flags of `openat` and the stream's mode. -/
def parseOpenMode : Option (List Char) → Option (Nat × Mode)
  | none | some [] => none
  | some (kind :: rest) =>
    if kind ≠ 'r' ∧ kind ≠ 'w' ∧ kind ≠ 'a' then none
    else
      match scanMarks rest {} with
      | none => none
      | some marks =>
        if marks.exclusive ∧ kind ≠ 'w' then none
        else
          let (flags, mode) : Nat × Mode :=
            if marks.plus then (oRdwr, { readable := true, writable := true, owned := true })
            else if kind = 'r' then (oRdonly, { readable := true, owned := true })
            else (oWronly, { writable := true, owned := true })
          if kind = 'w' then
            (some (flags ||| oCreat ||| oTrunc ||| (if marks.exclusive then oExcl else 0), mode))
          else if kind = 'a' then some (flags ||| oCreat ||| oAppend, { mode with append := true })
          else some (flags, mode)

/-- What `setvbuf` makes of a stream whose buffer is released. -/
def Stream.rebuffer {κ : Type} (x : Stream κ) (block : Option (Block × Mem)) (newOwned : Bool) (mode : Int)
    (size : Nat) : Stream κ :=
  let file := { x.file with mode := { x.file.mode with
    unbuffered := mode = ioNbf, lineBuffered := mode = ioLbf, bufferOwned := newOwned } }
  let file := { discardInput file with writeLength := 0 }
  match block with
  | some (block, bytes) =>
    if mode ≠ ioNbf then
      { x with
        file := { file with writeBuffer := .custom, readBuffer := .custom, bufferSize := size, customBuffer := bytes }
        custom := some block }
    else { x with file }
  | none => { x with file }

namespace Streams

variable {ν κ : Type}

/-- `initialize_owned_stream`. -/
def initializeOwnedStream (r : Streams ν κ) (s fd : Nat) (kernel : κ) (mode : Mode) : Streams ν κ :=
  let file := { (r.stream s).file with
    mode, state := {}, writeLength := 0, writeBuffer := .null, readOffset := 0, readLength := 0
    pushbackOffset := 0, pushbackLength := 0, readBuffer := .null, bufferSize := 0 }
  (r.setStream s { r.stream s with file, kernel, fd := some fd }).register s

/-- `reset_rebound_state`. -/
def resetReboundState (f : File) : File :=
  { f with state := {}, writeLength := 0, readOffset := 0, readLength := 0, pushbackOffset := 0, pushbackLength := 0 }

/-- `discard_failed_rebind`. -/
def discardFailedRebind (r : Streams ν κ) (s : Nat) (owned : Bool) : Streams ν κ :=
  let r := r.releaseBuffer s
  let r := r.setFile s (resetReboundState (r.stream s).file)
  if owned then (r.unregister s).free (some (.file s))
  else r.setStream s { r.stream s with file.mode := {}, fd := none }

/-- What `fclose` does with a stream behind its close. -/
def discardClosed (r : Streams ν κ) (s : Nat) (owned : Bool) : Streams ν κ :=
  let r := (r.unregister s).releaseBuffer s
  if owned then r.free (some (.file s))
  else
    let file := resetReboundState (r.stream s).file
    { r.setStream s { r.stream s with file := { file with mode := {} }, fd := none } with
      links := r.links.set (some s) none }

variable [Kernel κ] [System ν κ]

/-- The flush of a stream that is given up, with its error. -/
def flushBefore (r : Streams ν κ) (s : Nat) : Nat × Streams ν κ :=
  if (r.stream s).file.mode.writable then
    match stdioFlushBuffer (r.world s) with
    | (true, w) => (0, r.setWorld s w)
    | (false, w) => (w.errno, r.setWorld s w)
  else (0, r)

/-- The close of a stream that is given up, with the first error. -/
def closeBefore (r : Streams ν κ) (s firstError : Nat) : Nat × Streams ν κ :=
  match r.close s with
  | (.error e, r) => (if firstError = 0 then e else firstError, r)
  | (.ok _, r) => (firstError, r)

/-- A new stream on a file: its object, or `none` for null. -/
def fopenWith (r : Streams ν κ) (filename : List Char) (flags perm : Nat) (mode : Mode) :
    Option Nat × Streams ν κ :=
  match r.mallocFile with
  | (none, r) => (none, r)
  | (some s, r) =>
    match r.openat filename flags perm with
    | (.error e, r) => (none, { r.free (some (.file s)) with errno := e })
    | (.ok (fd, kernel), r) => (some s, r.initializeOwnedStream s fd kernel mode)

def fopen (r : Streams ν κ) (filename mode : Option (List Char)) : Option Nat × Streams ν κ :=
  match filename, parseOpenMode mode with
  | some filename, some (flags, mode) => r.fopenWith filename flags 0o666 mode
  | _, _ => (none, { r with errno := einval })

def tmpfile (r : Streams ν κ) : Option Nat × Streams ν κ :=
  r.fopenWith ['/', 't', 'm', 'p'] (oRdwr ||| oTmpfile) 0o600 { readable := true, writable := true, owned := true }

/-- `freopen`: whether it succeeded. -/
def freopen (r : Streams ν κ) (s : Nat) (filename mode : Option (List Char)) : Bool × Streams ν κ :=
  match filename, validStream (r.stream s).file, parseOpenMode mode with
  | some filename, true, some (flags, parsed) =>
    let savedErrno := r.errno
    let old := (r.stream s).file.mode
    let (firstError, r) := r.flushBefore s
    let (firstError, r) := r.closeBefore s firstError
    if firstError ≠ 0 then (false, { r.discardFailedRebind s old.owned with errno := firstError })
    else
      match r.openat filename flags 0o666 with
      | (.error e, r) => (false, { r.discardFailedRebind s old.owned with errno := e })
      | (.ok (fd, kernel), r) =>
        let file := { (r.stream s).file with mode := { parsed with
          owned := old.owned
          unbuffered := parsed.unbuffered || old.unbuffered
          lineBuffered := parsed.lineBuffered || old.lineBuffered
          bufferOwned := parsed.bufferOwned || old.bufferOwned } }
        (true, { r.setStream s { r.stream s with file := resetReboundState file, fd := some fd, kernel } with
          errno := savedErrno })
  | _, _, _ => (false, { r with errno := einval })

/-- The buffer of a `setvbuf`: the caller's, or one from `malloc` and then the
stream's own. `none` when the allocation failed. -/
def newBuffer (r : Streams ν κ) (buffer : Option (Nat × Mem)) (mode : Int) (size : Nat) :
    Option (Option (Block × Mem) × Bool) × Streams ν κ :=
  match buffer with
  | some (id, bytes) => (some (some (.caller id, bytes), false), r)
  | none =>
    if mode ≠ ioNbf then
      match r.mallocBuffer size with
      | (none, r) => (none, r)
      | (some block, r) => (some (some block, true), r)
    else (some (none, false), r)

/-- Give back a buffer that `setvbuf` allocated and cannot use. -/
def freeNew (r : Streams ν κ) (block : Option (Block × Mem)) (newOwned : Bool) : Streams ν κ :=
  if newOwned then r.free (block.map Prod.fst) else r

/-- `setvbuf`: whether it succeeded. -/
def setvbuf (r : Streams ν κ) (s : Nat) (buffer : Option (Nat × Mem)) (mode : Int) (size : Nat) :
    Bool × Streams ν κ :=
  if !validStream (r.stream s).file ∨ (mode ≠ ioFbf ∧ mode ≠ ioLbf ∧ mode ≠ ioNbf) ∨
      (mode ≠ ioNbf ∧ size = 0) then
    (false, { r with errno := einval })
  else
    let savedErrno := r.errno
    match r.newBuffer buffer mode size with
    | (none, r) => (false, r)
    | (some (block, newOwned), r) =>
      match if (r.stream s).file.mode.writable then fflush (r.world s) else (true, r.world s) with
      | (false, w) => (false, (r.setWorld s w).freeNew block newOwned)
      | (true, w) =>
        match if w.file.mode.readable ∧ (w.file.state.readNeedsPosition ∨ w.file.readOffset ≠ w.file.readLength ∨
            w.file.pushbackOffset < w.file.pushbackLength) then fseek 0 seekCur w else (true, w) with
        | (false, w) => (false, (r.setWorld s w).freeNew block newOwned)
        | (true, w) =>
          let r := (r.setWorld s w).releaseBuffer s
          (true, { r.setStream s ((r.stream s).rebuffer block newOwned mode size) with errno := savedErrno })

/-- `fclose`: whether it succeeded. -/
def fclose (r : Streams ν κ) (s : Nat) : Bool × Streams ν κ :=
  if !validStream (r.stream s).file then
    (false, { r.setFile s { (r.stream s).file with state.error := true } with errno := einval })
  else
    let owned := (r.stream s).file.mode.owned
    let (firstError, r) := r.flushBefore s
    let (firstError, r) := r.closeBefore s firstError
    let r := r.discardClosed s owned
    if firstError ≠ 0 then (false, { r with errno := firstError }) else (true, r)

end Streams

end MiniLibc.Stdio
