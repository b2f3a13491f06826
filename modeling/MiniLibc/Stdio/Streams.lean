import MiniLibc.Lib.Intrusive
import MiniLibc.Lib.Ledger
import MiniLibc.Stdio.Position
/-!
# The streams of a process

The `FILE` objects, the registry that links them, and the resources behind them.
Objects, allocated buffers and openings are named in the order they are made, so
that an address or a descriptor number used again is another name; 0, 1 and 2
are the standard streams and their descriptors. `frees` and `closes` count how
often a block went to `free` and an opening to `close`.
-/
open MiniLibc.Memory MiniLibc.Intrusive MiniLibc.Ledger

namespace MiniLibc.Stdio

/-- What the pointers of a stream can name. -/
inductive Block where
  | file (id : Nat)
  | inlineWrite (id : Nat)
  | inlineRead (id : Nat)
  /-- Allocated by `setvbuf`. -/
  | buffer (id : Nat)
  /-- Given to `setvbuf`. -/
  | caller (id : Nat)
deriving DecidableEq

/-- A `FILE` object. -/
structure Stream (κ : Type) where
  file : File
  kernel : κ
  /-- The opening behind the descriptor; `none` is `-1`. -/
  fd : Option Nat
  /-- The block `Storage.custom` stands for. -/
  custom : Option Block

/-- The calls that give and take resources. A new descriptor comes with its
kernel, and allocated bytes with what they happen to hold. -/
class System (ν : Type) (κ : outParam Type) where
  openat : ν → (filename : List Char) → (flags perm : Nat) → Answer κ × ν
  close : ν → κ → Answer Unit × ν
  malloc : ν → Nat → Option Mem × ν

structure Streams (ν κ : Type) where
  system : ν
  errno : Nat
  /-- `mini_stream_head`, and the `next` of each object. -/
  links : Links Nat
  stream : Nat → Stream κ
  files : Nat
  buffers : Nat
  openings : Nat
  frees : Block → Nat
  closes : Nat → Nat

namespace Streams

variable {ν κ : Type}

/-- A stream as the operations on one stream see it. -/
def world (r : Streams ν κ) (s : Nat) : World κ := ⟨(r.stream s).file, (r.stream s).kernel, r.errno⟩

def setStream (r : Streams ν κ) (s : Nat) (x : Stream κ) : Streams ν κ :=
  { r with stream := Function.update r.stream s x }

def setFile (r : Streams ν κ) (s : Nat) (f : File) : Streams ν κ := r.setStream s { r.stream s with file := f }

/-- The streams after an operation on one. -/
def setWorld (r : Streams ν κ) (s : Nat) (w : World κ) : Streams ν κ :=
  { r.setStream s { r.stream s with file := w.file, kernel := w.kernel } with errno := w.errno }

/-- The block a buffer pointer of a stream leads to. -/
def pointee (r : Streams ν κ) (s : Nat) : Storage → Option Block
  | .null => none
  | .inlineWrite => some (.inlineWrite s)
  | .inlineRead => some (.inlineRead s)
  | .custom => (r.stream s).custom

def free (r : Streams ν κ) (block : Option Block) : Streams ν κ := { r with frees := bump r.frees block }

/-- `__mini_stdio_register`. -/
def register (r : Streams ν κ) (s : Nat) : Streams ν κ := { r with links := r.links.push s }

/-- `__mini_stdio_unregister`. The registry is no longer than there are objects. -/
def unregister (r : Streams ν κ) (s : Nat) : Streams ν κ := { r with links := r.links.unlink s r.files none }

/-- `__mini_stdio_release_buffer`. -/
def releaseBuffer (r : Streams ν κ) (s : Nat) : Streams ν κ :=
  let f := (r.stream s).file
  let r := if f.mode.bufferOwned ∧ f.writeBuffer ≠ .null then r.free (r.pointee s f.writeBuffer) else r
  r.setFile s (Stdio.releaseBuffer f)

section
variable [System ν κ]

/-- `sizeof(FILE)`. -/
def fileSize : Nat := 608

/-- `malloc(sizeof(FILE))`: the new object. -/
def mallocFile (r : Streams ν κ) : Option Nat × Streams ν κ :=
  match System.malloc r.system fileSize with
  | (none, system) => (none, { r with system, errno := enomem })
  | (some _, system) => (some r.files, { r with system, files := r.files + 1 })

/-- `malloc` of a stream buffer: its name and its bytes. -/
def mallocBuffer (r : Streams ν κ) (size : Nat) : Option (Block × Mem) × Streams ν κ :=
  match System.malloc r.system size with
  | (none, system) => (none, { r with system, errno := enomem })
  | (some bytes, system) => (some (.buffer r.buffers, bytes), { r with system, buffers := r.buffers + 1 })

/-- `mini_sys_openat` from the working directory: the new opening and its kernel. -/
def openat (r : Streams ν κ) (filename : List Char) (flags perm : Nat) : Answer (Nat × κ) × Streams ν κ :=
  match System.openat r.system filename flags perm with
  | (.error e, system) => (.error e, { r with system })
  | (.ok kernel, system) => (.ok (r.openings, kernel), { r with system, openings := r.openings + 1 })

/-- `mini_sys_close` of a stream's descriptor. -/
def close (r : Streams ν κ) (s : Nat) : Answer Unit × Streams ν κ :=
  let (result, system) := System.close r.system (r.stream s).kernel
  (result, { r with system, closes := bump r.closes (r.stream s).fd })

end

end Streams

end MiniLibc.Stdio
