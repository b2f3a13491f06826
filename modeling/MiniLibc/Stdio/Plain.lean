import MiniLibc.Stdio.Position
import MiniLibc.Stdio.Regular
/-!
# A file with a cursor

What a buffered stream is for: `Plain` is the contents of a file, a position and
the bytes pushed back, with the direction the cursor last moved in. `exec` is
what each operation does when no raw call fails. When one does, `Interrupted`
says how far the operation may have got: input stops early and output is cut
short, and nothing else changes.
-/
open MiniLibc.Memory

namespace MiniLibc.Stdio

structure Plain where
  contents : Contents
  position : Nat
  pushback : List UInt8
  /-- Input was delivered or pushed back since the last seek, and no end was met. -/
  reading : Bool
  /-- Output was accepted since the last flush or seek. -/
  writing : Bool

namespace Plain

/-- All that is left to read. -/
def input (p : Plain) : List UInt8 :=
  p.pushback ++ bytesAt p.contents.bytes p.position (p.contents.size - p.position)

/-- The cursor behind `k` more bytes of the input. -/
def advance (p : Plain) (k : Nat) : Plain :=
  { p with pushback := p.pushback.drop k, position := p.position + (k - p.pushback.length) }

/-- Write at the cursor. -/
def write (p : Plain) (l : List UInt8) : Plain :=
  { p with contents := p.contents.write p.position l, position := p.position + l.length, writing := true }

/-- The offset a `whence` counts from. -/
def base (p : Plain) (whence : Int) : Int :=
  if whence = seekSet then 0
  else if whence = seekCur then (p.position : Int) - p.pushback.length
  else p.contents.size

/-! ## The direction guards -/

def CanRead (m : Mode) (p : Plain) : Prop := m.readable = true ∧ p.writing = false
def CanWrite (m : Mode) (p : Plain) : Prop := m.writable = true ∧ p.reading = false
def CanUnget (m : Mode) (p : Plain) : Prop := p.CanRead m ∧ p.pushback = []

instance (m : Mode) (p : Plain) : Decidable (p.CanRead m) := inferInstanceAs (Decidable (_ ∧ _))
instance (m : Mode) (p : Plain) : Decidable (p.CanWrite m) := inferInstanceAs (Decidable (_ ∧ _))
instance (m : Mode) (p : Plain) : Decidable (p.CanUnget m) := inferInstanceAs (Decidable (_ ∧ _))

end Plain

/-! ## Operations -/

inductive FileOp where
  | fgetc
  | fread (size nmemb : Nat)
  | fgets (n : Int)
  | ungetc (c : Int)
  | fputc (c : Int)
  | fwrite (data : List UInt8) (size nmemb : Nat)
  | fflush
  | fseek (offset whence : Int)
  | ftell

/-- The offset of an `fseek` is a `long`. -/
def FileOp.Valid : FileOp → Prop
  | .fseek offset _ => -(maxLong : Int) - 1 ≤ offset ∧ offset ≤ maxLong
  | _ => True

/-- The bytes an operation delivers and the value it returns; `none` is `EOF`, a
null pointer or `-1`. -/
structure Reply where
  delivered : List UInt8 := []
  value : Option Int
deriving DecidableEq, Repr

/-- The first line of `l`, of at most `room` bytes, and whether it is complete:
it ends in a newline or fills the room. -/
def lineOf : (room : Nat) → (l : List UInt8) → List UInt8 × Bool
  | 0, _ => ([], true)
  | _ + 1, [] => ([], false)
  | room + 1, b :: l =>
    if b = 10 then ([b], true)
    else
      let (rest, complete) := lineOf room l
      (b :: rest, complete)

/-- The value of a byte result. -/
def byteValue (byte : Option UInt8) : Option Int := byte.map fun b => b.toNat

namespace Plain

/-- Take `l` from the input. Reading goes on unless the end cut it short. -/
def taken (p : Plain) (l : List UInt8) (complete : Bool) : Plain := { p.advance l.length with reading := complete }

/-- Read `n` bytes, fewer only at the end. -/
def read (m : Mode) (n : Nat) (p : Plain) : List UInt8 × Plain :=
  if n = 0 ∨ ¬ p.CanRead m then ([], p)
  else
    let l := p.input.take n
    (l, p.taken l (l.length = n))

/-- Write `l`, all of it. -/
def append (m : Mode) (l : List UInt8) (p : Plain) : Nat × Plain :=
  if l = [] ∨ ¬ p.CanWrite m then (0, p) else (l.length, p.write l)

/-- What an operation does when no raw call fails. -/
def exec (m : Mode) (p : Plain) : FileOp → Reply × Plain
  | .fgetc =>
    let (l, p) := p.read m 1
    (⟨l, byteValue l.head?⟩, p)
  | .fread size nmemb =>
    if size = 0 ∨ nmemb > sizeMax / size then (⟨[], some 0⟩, p)
    else
      let (l, p) := p.read m (size * nmemb)
      (⟨l, some (l.length / size : Nat)⟩, p)
  | .fgets n =>
    if n ≤ 0 ∨ ¬ p.CanRead m then (⟨[], none⟩, p)
    else if n = 1 then (⟨[], some 0⟩, p)
    else
      let (line, complete) := lineOf (n - 1).toNat p.input
      (⟨line, if line = [] then none else some 0⟩, p.taken line complete)
  | .ungetc c =>
    if c = -1 ∨ ¬ p.CanUnget m then (⟨[], none⟩, p)
    else (⟨[], byteValue (some (unsignedChar c))⟩, { p with pushback := [unsignedChar c], reading := true })
  | .fputc c =>
    let (n, p) := p.append m [unsignedChar c]
    (⟨[], if n = 1 then byteValue (some (unsignedChar c)) else none⟩, p)
  | .fwrite data size nmemb =>
    if size = 0 ∨ nmemb > sizeMax / size then (⟨[], some 0⟩, p)
    else
      let (n, p) := p.append m (data.take (size * nmemb))
      (⟨[], some (n / size : Nat)⟩, p)
  | .fflush => (⟨[], some 0⟩, { p with writing := p.writing && !m.writable })
  | .fseek offset whence =>
    if (whence ≠ seekSet ∧ whence ≠ seekCur ∧ whence ≠ seekEnd) ∨ p.base whence + offset < 0 ∨
        p.base whence + offset > maxOffset then (⟨[], none⟩, p)
    else
      (⟨[], some 0⟩, { p with
        position := (p.base whence + offset).toNat, pushback := [], reading := false, writing := false })
  | .ftell =>
    if p.pushback.length ≤ p.position ∧ p.position ≤ maxLong then
      (⟨[], some ((p.position - p.pushback.length : Nat) : Int)⟩, p)
    else (⟨[], none⟩, p)

/-- What an operation does when a raw call fails on its way: input ends with a
part of what it would have delivered, a part of the output is accepted, and
flushes and seeks do nothing. -/
def Interrupted (m : Mode) (p : Plain) : FileOp → Reply → Plain → Prop
  | .fgetc, r, p' => p.CanRead m ∧ ∃ l, l <+: (p.exec m .fgetc).1.delivered ∧
      r = ⟨l, byteValue l.head?⟩ ∧ p' = p.taken l true
  | .fread size nmemb, r, p' => p.CanRead m ∧ ∃ l, l <+: (p.exec m (.fread size nmemb)).1.delivered ∧
      r = ⟨l, some (l.length / size : Nat)⟩ ∧ p' = p.taken l true
  | .fgets n, r, p' => p.CanRead m ∧ ∃ l, l <+: (p.exec m (.fgets n)).1.delivered ∧
      r = ⟨l, none⟩ ∧ p' = p.taken l true
  | .ungetc _, _, _ => False
  | .fputc c, r, p' => p.CanWrite m ∧ ∃ l, l <+: [unsignedChar c] ∧
      r = ⟨[], if l.length = 1 then byteValue (some (unsignedChar c)) else none⟩ ∧ p' = p.write l
  | .fwrite data size nmemb, r, p' => p.CanWrite m ∧ ∃ l, l <+: data.take (size * nmemb) ∧
      r = ⟨[], some (l.length / size : Nat)⟩ ∧ p' = p.write l
  | .fflush, r, p' => r = ⟨[], none⟩ ∧ p' = p
  | .fseek _ _, r, p' => r = ⟨[], none⟩ ∧ p' = p
  | .ftell, r, p' => r = ⟨[], none⟩ ∧ p' = p

end Plain

end MiniLibc.Stdio
