import MiniLibc.Lib.Memory
/-!
# `FILE` and the kernel behind it

`src/stdio/stdio_internal.h`. The mode and state words are records with one
field a bit. A buffer pointer is null, one of the two arrays in the object, or
the buffer of the last `setvbuf`, which reads and writes then share. The system
calls are a class: a kernel may answer in any way, and the theorems say what
they assume of it. `World` is a stream, its kernel and `errno`; the lock is
left out, since every call holds it throughout.
-/
open MiniLibc.Memory

namespace MiniLibc.Stdio

/-- A raw result: `-errno`, or a nonnegative value. -/
inductive Answer (α : Type) where
  | error (errno : Nat)
  | ok (value : α)

/-- The system calls on the stream's descriptor. -/
class Kernel (κ : Type) where
  /-- `read` into a buffer of the given length: the bytes that arrived. -/
  read : κ → Nat → Answer (List UInt8) × κ
  /-- `write`: how many of the bytes were taken. -/
  write : κ → List UInt8 → Answer Nat × κ
  /-- `lseek` by an offset and a `whence`: the new offset. -/
  lseek : κ → Int → Int → Answer Nat × κ

/-- `MINI_FILE_READABLE` to `MINI_FILE_BUFFER_OWNED`. -/
structure Mode where
  readable : Bool := false
  writable : Bool := false
  owned : Bool := false
  unbuffered : Bool := false
  append : Bool := false
  lineBuffered : Bool := false
  bufferOwned : Bool := false
deriving DecidableEq, Repr

/-- `MINI_FILE_EOF` to `MINI_FILE_WIDE_UTF8`. -/
structure State where
  eof : Bool := false
  error : Bool := false
  readNeedsPosition : Bool := false
  writeNeedsSync : Bool := false
  byteOriented : Bool := false
  wideOriented : Bool := false
  wideUtf8 : Bool := false
deriving DecidableEq, Repr

/-- What a buffer pointer points to. -/
inductive Storage where
  | null
  | inlineWrite
  | inlineRead
  | custom
deriving DecidableEq, Repr

/-- `MINI_FILE_BUFFER_SIZE`. -/
def fileBufferSize : Nat := 256

/-- `struct __mini_FILE`, less `fd` and `next`. -/
structure File where
  mode : Mode
  state : State := {}
  writeLength : Nat := 0
  writeBuffer : Storage := .null
  readOffset : Nat := 0
  readLength : Nat := 0
  pushbackOffset : Nat := 0
  pushbackLength : Nat := 0
  pushbackBytes : Mem := fun _ => 0
  readBuffer : Storage := .null
  bufferSize : Nat := 0
  inlineWriteBuffer : Mem := fun _ => 0
  inlineReadBuffer : Mem := fun _ => 0
  /-- The bytes of the buffer given to `setvbuf`. -/
  customBuffer : Mem := fun _ => 0

namespace File

/-- The bytes a pointer leads to. -/
def storage (f : File) : Storage → Mem
  | .null => fun _ => 0
  | .inlineWrite => f.inlineWriteBuffer
  | .inlineRead => f.inlineReadBuffer
  | .custom => f.customBuffer

/-- Write through a pointer. -/
def setStorage (f : File) (m : Mem) : Storage → File
  | .null => f
  | .inlineWrite => { f with inlineWriteBuffer := m }
  | .inlineRead => { f with inlineReadBuffer := m }
  | .custom => { f with customBuffer := m }

/-- Output accepted and not yet written. -/
def pending (f : File) : List UInt8 := bytesAt (f.storage f.writeBuffer) 0 f.writeLength

/-- Input read ahead and not yet delivered. -/
def cached (f : File) : List UInt8 :=
  bytesAt (f.storage f.readBuffer) f.readOffset (f.readLength - f.readOffset)

/-- Bytes pushed back and not yet read again. -/
def pushback (f : File) : List UInt8 :=
  bytesAt f.pushbackBytes f.pushbackOffset (f.pushbackLength - f.pushbackOffset)

end File

structure World (κ : Type) where
  file : File
  kernel : κ
  errno : Nat := 0

/-! ## Storage -/

@[simp] theorem storage_setStorage (f : File) (m : Mem) {p : Storage} (h : p ≠ .null) :
    (f.setStorage m p).storage p = m := by
  cases p <;> first | exact absurd rfl h | rfl

section
variable (f : File) (m : Mem) (p : Storage)

@[simp] theorem setStorage_mode : (f.setStorage m p).mode = f.mode := by cases p <;> rfl
@[simp] theorem setStorage_state : (f.setStorage m p).state = f.state := by cases p <;> rfl
@[simp] theorem setStorage_writeLength : (f.setStorage m p).writeLength = f.writeLength := by cases p <;> rfl
@[simp] theorem setStorage_writeBuffer : (f.setStorage m p).writeBuffer = f.writeBuffer := by cases p <;> rfl
@[simp] theorem setStorage_readOffset : (f.setStorage m p).readOffset = f.readOffset := by cases p <;> rfl
@[simp] theorem setStorage_readLength : (f.setStorage m p).readLength = f.readLength := by cases p <;> rfl
@[simp] theorem setStorage_pushbackOffset : (f.setStorage m p).pushbackOffset = f.pushbackOffset := by cases p <;> rfl
@[simp] theorem setStorage_pushbackLength : (f.setStorage m p).pushbackLength = f.pushbackLength := by cases p <;> rfl
@[simp] theorem setStorage_pushbackBytes : (f.setStorage m p).pushbackBytes = f.pushbackBytes := by cases p <;> rfl
@[simp] theorem setStorage_readBuffer : (f.setStorage m p).readBuffer = f.readBuffer := by cases p <;> rfl
@[simp] theorem setStorage_bufferSize : (f.setStorage m p).bufferSize = f.bufferSize := by cases p <;> rfl
end

end MiniLibc.Stdio
