import MiniLibc.Stdio.File
/-!
# A regular file

The kernel's side of a regular file that only one stream touches: bytes up to a
size, an offset, and a script of how each raw call goes. A call may fail at any
time, and a read or write may be short; `failures` counts the calls that failed.
-/
open MiniLibc.Memory

namespace MiniLibc.Stdio

/-- The bytes of a file. Past its size they are zeros, as a hole reads. -/
@[ext] structure Contents where
  bytes : Mem
  size : Nat
  hole : ∀ i, size ≤ i → bytes i = 0

namespace Contents

/-- A new file. -/
def empty : Contents := ⟨fun _ => 0, 0, fun _ _ => rfl⟩

/-- At most `n` bytes from `a` on. -/
def read (c : Contents) (a n : Nat) : List UInt8 := bytesAt c.bytes a (min n (c.size - a))

/-- The file with `l` written at `a`. -/
def write (c : Contents) (a : Nat) (l : List UInt8) : Contents where
  bytes := fill c.bytes a l
  size := if l.length = 0 then c.size else max c.size (a + l.length)
  hole i hi := by
    split at hi
    · rw [fill_out (by omega), c.hole i hi]
    · rw [fill_out (by omega), c.hole i (by omega)]

theorem write_nil (c : Contents) (a : Nat) : c.write a [] = c := Contents.ext rfl rfl

theorem write_append (c : Contents) (a : Nat) (l l' : List UInt8) :
    c.write a (l ++ l') = (c.write a l).write (a + l.length) l' := by
  refine Contents.ext (fill_append _ _ _ _) ?_
  simp only [write, List.length_append]
  split <;> split <;> split <;> omega

end Contents

/-- How the kernel handles one call. -/
inductive Response where
  | fail (errno : Nat)
  | short (count : Nat)

structure Regular where
  contents : Contents
  offset : Nat
  script : Nat → Response
  clock : Nat := 0
  failures : Nat := 0

/-- The largest offset, `LLONG_MAX`. -/
def maxOffset : Nat := 2 ^ 63 - 1

namespace Regular

def failed (k : Regular) : Regular := { k with clock := k.clock + 1, failures := k.failures + 1 }

/-- `read`: nothing only at the end of the file. -/
def read (k : Regular) (n : Nat) : Answer (List UInt8) × Regular :=
  match k.script k.clock with
  | .fail e => (.error e, k.failed)
  | .short m =>
    let bytes := k.contents.read k.offset (min n (max m 1))
    (.ok bytes, { k with offset := k.offset + bytes.length, clock := k.clock + 1 })

/-- `write`: some of the bytes, or none, which is a failure. -/
def write (k : Regular) (data : List UInt8) : Answer Nat × Regular :=
  match k.script k.clock with
  | .fail e => (.error e, k.failed)
  | .short m =>
    let count := min m (min data.length (maxOffset - k.offset))
    if count = 0 then (.ok 0, k.failed)
    else (.ok count, { k with
      contents := k.contents.write k.offset (data.take count), offset := k.offset + count, clock := k.clock + 1 })

/-- The offset an `lseek` asks for. -/
def target (k : Regular) (offset whence : Int) : Int :=
  (if whence = 0 then 0 else if whence = 1 then (k.offset : Int) else k.contents.size) + offset

/-- `lseek`: any offset that is not negative and not too large. -/
def lseek (k : Regular) (offset whence : Int) : Answer Nat × Regular :=
  match k.script k.clock with
  | .fail e => (.error e, k.failed)
  | .short _ =>
    if k.target offset whence < 0 ∨ k.target offset whence > maxOffset then (.error 22, { k with clock := k.clock + 1 })
    else
      let offset := (k.target offset whence).toNat
      (.ok offset, { k with offset, clock := k.clock + 1 })

end Regular

instance : Kernel Regular where
  read := Regular.read
  write := Regular.write
  lseek := Regular.lseek

/-! ## What one call does -/

namespace Regular

/-- Nothing a kernel keeps is larger than an offset can be. -/
structure Bounded (k : Regular) : Prop where
  offset_le : k.offset ≤ maxOffset
  size_le : k.contents.size ≤ maxOffset

theorem Bounded.failed {k : Regular} (h : Bounded k) : Bounded k.failed := ⟨h.1, h.2⟩

/-- A read fails, or moves over bytes of the file, and over none only at its end. -/
theorem read_spec {k : Regular} {n : Nat} (hn : 0 < n) (hk : k.Bounded) :
    (∃ e, Kernel.read k n = (.error e, k.failed)) ∨
    ∃ j k', j ≤ n ∧ (j = 0 ↔ k.contents.size ≤ k.offset) ∧ j ≤ k.contents.size - k.offset ∧
      Kernel.read k n = (.ok (bytesAt k.contents.bytes k.offset j), k') ∧ k'.contents = k.contents ∧
      k'.offset = k.offset + j ∧ k'.failures = k.failures ∧ k'.Bounded := by
  obtain ⟨r, hr⟩ : ∃ r, k.script k.clock = r := ⟨_, rfl⟩
  cases r with
  | fail e => exact .inl ⟨e, by simp [Kernel.read, read, hr]⟩
  | short m =>
    right
    have h1 := hk.offset_le
    have h2 := hk.size_le
    refine ⟨min (min n (max m 1)) (k.contents.size - k.offset),
      { k with offset := k.offset + min (min n (max m 1)) (k.contents.size - k.offset), clock := k.clock + 1 },
      by omega, by omega, by omega, ?_, rfl, rfl, rfl, ?_⟩
    · simp [Kernel.read, read, hr, Contents.read]
    · exact ⟨by dsimp only; omega, h2⟩

/-- A write fails, or writes some of the bytes at the offset and moves over them. -/
theorem write_spec (k : Regular) (data : List UInt8) (hk : k.Bounded) :
    (∃ answer, (∀ n, answer = .ok n → n = 0) ∧ Kernel.write k data = (answer, k.failed)) ∨
    ∃ n k', 0 < n ∧ n ≤ data.length ∧ Kernel.write k data = (.ok n, k') ∧
      k'.contents = k.contents.write k.offset (data.take n) ∧ k'.offset = k.offset + n ∧
      k'.failures = k.failures ∧ k'.Bounded := by
  obtain ⟨r, hr⟩ : ∃ r, k.script k.clock = r := ⟨_, rfl⟩
  cases r with
  | fail e => exact .inl ⟨.error e, by simp, by simp [Kernel.write, write, hr]⟩
  | short m =>
    by_cases h0 : min m (min data.length (maxOffset - k.offset)) = 0
    · left
      refine ⟨.ok 0, by simp, ?_⟩
      simp only [Kernel.write, write, hr, h0, if_pos]
    · right
      have h1 := hk.offset_le
      have h2 := hk.size_le
      refine ⟨min m (min data.length (maxOffset - k.offset)), { k with
        contents := k.contents.write k.offset (data.take (min m (min data.length (maxOffset - k.offset))))
        offset := k.offset + min m (min data.length (maxOffset - k.offset)), clock := k.clock + 1 },
        by omega, by omega, ?_, rfl, rfl, rfl, ?_⟩
      · simp only [Kernel.write, write, hr, if_neg h0]
      · refine ⟨by dsimp only; omega, ?_⟩
        simp only [Contents.write, List.length_take]
        split <;> omega

/-- A seek fails, is refused because there is no such offset, or moves to its target. -/
theorem lseek_spec (k : Regular) (offset whence : Int) (hk : k.Bounded) :
    (∃ e, Kernel.lseek k offset whence = (.error e, k.failed)) ∨
    (∃ e k', (k.target offset whence < 0 ∨ k.target offset whence > maxOffset) ∧
      Kernel.lseek k offset whence = (.error e, k') ∧ k'.contents = k.contents ∧ k'.offset = k.offset ∧
      k'.failures = k.failures ∧ k'.Bounded) ∨
    ∃ n : Nat, ∃ k', (n : Int) = k.target offset whence ∧ n ≤ maxOffset ∧
      Kernel.lseek k offset whence = (.ok n, k') ∧ k'.contents = k.contents ∧ k'.offset = n ∧
      k'.failures = k.failures ∧ k'.Bounded := by
  obtain ⟨r, hr⟩ : ∃ r, k.script k.clock = r := ⟨_, rfl⟩
  cases r with
  | fail e => exact .inl ⟨e, by simp [Kernel.lseek, lseek, hr]⟩
  | short m =>
    right
    by_cases hb : k.target offset whence < 0 ∨ k.target offset whence > maxOffset
    · left
      exact ⟨22, { k with clock := k.clock + 1 }, hb, by simp only [Kernel.lseek, lseek, hr, if_pos hb], rfl, rfl, rfl,
        ⟨hk.offset_le, hk.size_le⟩⟩
    · right
      refine ⟨(k.target offset whence).toNat, { k with
        offset := (k.target offset whence).toNat, clock := k.clock + 1 }, by omega, by omega, ?_, rfl, rfl, rfl, ?_⟩
      · simp only [Kernel.lseek, lseek, hr, if_neg hb]
      · exact ⟨by dsimp only; omega, hk.size_le⟩

end Regular

end MiniLibc.Stdio
