import MiniLibc.Str.Memory
/-!
# The allocator

`src/stdlib/allocator.c` and `calloc.c`, over one byte memory that holds block
headers and payloads alike. Sizes and addresses are naturals below `2 ^ 64`;
`add64`, `sub64` and `mul64` are `none` where the C arithmetic would wrap, and so is a
list walk that outlives its fuel, so a result `some _` says that neither
happened. The lock is left out: every call runs under it.
-/
open MiniLibc.Memory

namespace MiniLibc.Alloc

/-- `(size_t)-1`. -/
def sizeMax : Nat := 2 ^ 64 - 1

/-- `sizeof(struct mini_block)`. -/
def headerSize : Nat := 32

/-- `MINI_ALLOC_ALIGNMENT`. -/
def alignment : Nat := 16

inductive Errno where
  | none
  | enomem
deriving DecidableEq, Repr

/-- The allocator's globals, the memory, `errno`, and the kernel's side of
`brk`: the current break and its answers to the requests to come. -/
structure Heap where
  mem : Mem
  blockHead : Nat := 0
  blockTail : Nat := 0
  heapEnd : Nat := 0
  heapInitialized : Bool := false
  errno : Errno := .none
  brk : Nat
  grants : List Bool

def add64 (a b : Nat) : Option Nat := if a + b < 2 ^ 64 then some (a + b) else none
def sub64 (a b : Nat) : Option Nat := if b ≤ a then some (a - b) else none
def mul64 (a b : Nat) : Option Nat := if a * b < 2 ^ 64 then some (a * b) else none

/-! ## `struct mini_block` in memory -/

def size (m : Mem) (block : Nat) : Nat := load m block 8
def next (m : Mem) (block : Nat) : Nat := load m (block + 8) 8
def isFree (m : Mem) (block : Nat) : Nat := load m (block + 16) 8
def requestedSize (m : Mem) (block : Nat) : Nat := load m (block + 24) 8

def setSize (s : Heap) (block v : Nat) : Heap := { s with mem := store s.mem block 8 v }
def setNext (s : Heap) (block v : Nat) : Heap := { s with mem := store s.mem (block + 8) 8 v }
def setIsFree (s : Heap) (block v : Nat) : Heap := { s with mem := store s.mem (block + 16) 8 v }
def setRequestedSize (s : Heap) (block v : Nat) : Heap := { s with mem := store s.mem (block + 24) 8 v }

/-- `mini_sys_brk`: a null request asks for the break, any other is granted
exactly or refused with the break unchanged. No answer left is a refusal. -/
def sysBrk (s : Heap) (addr : Nat) : Nat × Heap :=
  if addr = 0 then (s.brk, s)
  else match s.grants with
    | true :: grants => (addr, { s with brk := addr, grants })
    | false :: grants => (s.brk, { s with grants })
    | [] => (s.brk, s)

/-! ## Blocks -/

/-- `(x + 15) & ~15`. -/
def roundUp (x : Nat) : Option Nat := do
  let sum ← add64 x (alignment - 1)
  return sum &&& (sizeMax - (alignment - 1))

/-- `align_size`: `none` when the size is too large to align. -/
def alignSize (size : Nat) : Option (Option Nat) :=
  if size > sizeMax - (alignment - 1) then some none else some <$> roundUp size

def initializeHeap (s : Heap) : Option (Bool × Heap) :=
  if s.heapInitialized then some (true, s)
  else
    let (current, s) := sysBrk s 0
    -- The result is a signed `long`.
    if current = 0 ∨ 2 ^ 63 ≤ current then some (false, s)
    else if current > sizeMax - (alignment - 1) then some (false, s)
    else do
      let aligned ← roundUp current
      if aligned = current then some (true, { s with heapEnd := aligned, heapInitialized := true })
      else
        let (result, s) := sysBrk s aligned
        if result ≠ aligned then some (false, s)
        else some (true, { s with heapEnd := aligned, heapInitialized := true })

/-- `split_block`: the split-off block, or null. -/
def splitBlock (s : Heap) (block size' : Nat) : Option (Nat × Heap) := do
  let remaining ← sub64 (size s.mem block) size'
  if remaining < headerSize + alignment then some (0, s)
  else
    let payload ← add64 block headerSize
    let split ← add64 payload size'
    let rest ← sub64 remaining headerSize
    let s := setSize s split rest
    let s := setNext s split (next s.mem block)
    let s := setIsFree s split 1
    let s := setRequestedSize s split 0
    let s := setSize s block size'
    let s := setNext s block split
    some (split, if s.blockTail = block then { s with blockTail := split } else s)

/-- The walk of `find_free_block`: a fitting free block, or null. -/
def findFreeLoop (m : Mem) (size' : Nat) : (fuel block : Nat) → Option Nat
  | _, 0 => some 0
  | 0, _ => none
  | fuel + 1, block =>
    if isFree m block ≠ 0 ∧ size m block ≥ size' then some block else findFreeLoop m size' fuel (next m block)

def findFreeBlock (s : Heap) (size' : Nat) : Option Nat := findFreeLoop s.mem size' s.heapEnd s.blockHead

/-- The block `grow_heap` writes at the old end of the heap and links in. -/
def appendBlock (s : Heap) (block size' : Nat) : Heap :=
  let s := setSize s block size'
  let s := setNext s block 0
  let s := setIsFree s block 0
  let s := setRequestedSize s block 0
  let s := if s.blockTail ≠ 0 then setNext s s.blockTail block else { s with blockHead := block }
  { s with blockTail := block }

/-- `grow_heap`: the new block, or null. -/
def growHeap (s : Heap) (size' : Nat) : Option (Nat × Heap) := do
  let (ready, s) ← initializeHeap s
  if !ready then some (0, s)
  else if size' > sizeMax - headerSize then some (0, s)
  else
    let length ← add64 headerSize size'
    if s.heapEnd > sizeMax - length then some (0, s)
    else
      let target ← add64 s.heapEnd length
      let (result, s) := sysBrk s target
      if result ≠ target then some (0, s)
      else
        let block := s.heapEnd
        some (block, { appendBlock s block size' with heapEnd := target })

def malloc (s : Heap) (size' : Nat) : Option (Nat × Heap) := do
  if size' = 0 then some (0, s)
  else
    match ← alignSize size' with
    | none => some (0, { s with errno := .enomem })
    | some aligned =>
      let block ← findFreeBlock s aligned
      if block ≠ 0 then
        let (_, s) ← splitBlock s block aligned
        let s := setIsFree s block 0
        let s := setRequestedSize s block size'
        let ptr ← add64 block headerSize
        some (ptr, s)
      else
        let (block, s) ← growHeap s aligned
        if block ≠ 0 then
          let s := setRequestedSize s block size'
          let ptr ← add64 block headerSize
          some (ptr, s)
        else some (0, { s with errno := .enomem })

def blocksAdjacent (m : Mem) (left right : Nat) : Option Bool := do
  let payload ← add64 left headerSize
  let stop ← add64 payload (size m left)
  return stop = right

def mergeWithNext (s : Heap) (block : Nat) : Option Heap := do
  let following := next s.mem block
  if following = 0 ∨ isFree s.mem following = 0 then some s
  else if !(← blocksAdjacent s.mem block following) then some s
  else
    let extra ← add64 headerSize (size s.mem following)
    let total ← add64 (size s.mem block) extra
    let s := setSize s block total
    let s := setNext s block (next s.mem following)
    some (if s.blockTail = following then { s with blockTail := block } else s)

/-- The walk in `free` that finds the block before `block`. -/
def previousLoop (m : Mem) (block : Nat) : (fuel previous cursor : Nat) → Option Nat
  | _, previous, 0 => some previous
  | 0, _, _ => none
  | fuel + 1, previous, cursor =>
    if cursor = block then some previous else previousLoop m block fuel cursor (next m cursor)

def free (s : Heap) (ptr : Nat) : Option Heap := do
  if ptr = 0 then some s
  else
    let block ← sub64 ptr headerSize
    let s := setIsFree s block 1
    let s ← mergeWithNext s block
    let previous ← previousLoop s.mem block s.heapEnd 0 s.blockHead
    if previous = 0 ∨ isFree s.mem previous = 0 then some s
    else if !(← blocksAdjacent s.mem previous block) then some s
    else mergeWithNext s previous

/-- The end of `realloc`'s in-place paths: split off what is left, merge it
forward, and record the size. -/
def shrinkTo (s : Heap) (block aligned size' : Nat) : Option Heap := do
  let (split, s) ← splitBlock s block aligned
  let s ← if split ≠ 0 then mergeWithNext s split else some s
  some (setRequestedSize s block size')

/-- The tail growth of `realloc`, both times it is written out: extend the heap
by `growth` if the break allows. -/
def extendHeap (s : Heap) (growth : Nat) : Option (Bool × Heap) := do
  if s.heapEnd ≤ sizeMax - growth then
    let target ← add64 s.heapEnd growth
    let (result, s) := sysBrk s target
    if result = target then some (true, { s with heapEnd := target }) else some (false, s)
  else some (false, s)

/-- `realloc` once no in-place path applies: allocate, copy, free. -/
def reallocMove (s : Heap) (ptr block size' : Nat) : Option (Nat × Heap) := do
  let old := requestedSize s.mem block
  let copySize := if old < size' then old else size'
  let (replacement, s) ← malloc s size'
  if replacement = 0 then some (0, s)
  else
    let s := { s with mem := Str.memcpy s.mem replacement ptr copySize }
    let s ← free s ptr
    some (replacement, s)

/-- `realloc` from the test `block == block_tail` on. -/
def reallocTail (s : Heap) (ptr block aligned size' : Nat) : Option (Nat × Heap) := do
  if block = s.blockTail then
    let growth ← sub64 aligned (size s.mem block)
    let (grown, s) ← extendHeap s growth
    if grown then
      let s := setSize s block aligned
      some (ptr, setRequestedSize s block size')
    else reallocMove s ptr block size'
  else reallocMove s ptr block size'

def realloc (s : Heap) (ptr size' : Nat) : Option (Nat × Heap) := do
  if ptr = 0 then malloc s size'
  else if size' = 0 then
    let s ← free s ptr
    some (0, s)
  else
    match ← alignSize size' with
    | none => some (0, { s with errno := .enomem })
    | some aligned =>
      let block ← sub64 ptr headerSize
      if aligned ≤ size s.mem block then
        let s ← shrinkTo s block aligned size'
        some (ptr, s)
      else
        let following := next s.mem block
        if following = 0 ∨ isFree s.mem following = 0 then reallocTail s ptr block aligned size'
        else if !(← blocksAdjacent s.mem block following) then reallocTail s ptr block aligned size'
        else if ¬ (size s.mem following ≤ sizeMax - headerSize ∧
            size s.mem block ≤ sizeMax - headerSize - size s.mem following) then
          reallocTail s ptr block aligned size'
        else
          let sum ← add64 (size s.mem block) headerSize
          let combined ← add64 sum (size s.mem following)
          if combined ≥ aligned then
            let s ← mergeWithNext s block
            let s ← shrinkTo s block aligned size'
            some (ptr, s)
          else if following = s.blockTail then
            let growth ← sub64 aligned combined
            let (grown, s) ← extendHeap s growth
            if grown then
              let s ← mergeWithNext s block
              let s := setSize s block aligned
              let s := { s with blockTail := block }
              some (ptr, setRequestedSize s block size')
            else reallocTail s ptr block aligned size'
          else reallocTail s ptr block aligned size'

def calloc (s : Heap) (nmemb size' : Nat) : Option (Nat × Heap) := do
  if nmemb = 0 ∨ size' = 0 then some (0, s)
  else if nmemb > sizeMax / size' then some (0, { s with errno := .enomem })
  else
    let total ← mul64 nmemb size'
    let (ptr, s) ← malloc s total
    if ptr = 0 then some (0, s)
    else some (ptr, { s with mem := Str.memset s.mem ptr 0 total })

end MiniLibc.Alloc
