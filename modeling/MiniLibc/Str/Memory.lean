import MiniLibc.Lib.Memory
/-!
# Block copies

`src/string/memory.c`: `memcpy`, `memmove` and `memset` as their byte loops. The
loop variable `i` counts up from zero while `n` bytes remain, and down to zero in
the second loop of `memmove`, which moves to a higher address.
-/
open MiniLibc.Memory

namespace MiniLibc.Str

def memcpyLoop (m : Mem) (dest src i : Nat) : Nat → Mem
  | 0 => m
  | n + 1 => memcpyLoop (poke m (dest + i) (m (src + i))) dest src (i + 1) n

def memcpy (m : Mem) (dest src n : Nat) : Mem := memcpyLoop m dest src 0 n

/-- The second loop of `memmove`: `for (i = n; i != 0; --i) d[i - 1] = s[i - 1]`. -/
def memmoveDown (m : Mem) (dest src : Nat) : Nat → Mem
  | 0 => m
  | i + 1 => memmoveDown (poke m (dest + i) (m (src + i))) dest src i

/-- The first loop of `memmove` is that of `memcpy`. -/
def memmove (m : Mem) (dest src n : Nat) : Nat × Mem :=
  (dest, if dest ≤ src then memcpyLoop m dest src 0 n else memmoveDown m dest src n)

def memsetLoop (m : Mem) (s : Nat) (byte : UInt8) (i : Nat) : Nat → Mem
  | 0 => m
  | n + 1 => memsetLoop (poke m (s + i) byte) s byte (i + 1) n

def memset (m : Mem) (s : Nat) (c : Int) (n : Nat) : Mem := memsetLoop m s (.ofNat (c % 256).toNat) 0 n

/-! ## What the loops write -/

theorem memcpyLoop_out {m : Mem} {dest src i n x : Nat} (h : x < dest + i ∨ dest + i + n ≤ x) :
    memcpyLoop m dest src i n x = m x := by
  induction n generalizing m i with
  | zero => rfl
  | succ n ih => rw [memcpyLoop, ih (by omega), poke_other _ (by omega)]

theorem memcpyLoop_in {m : Mem} {dest src i n : Nat} (h : dest + i + n ≤ src ∨ src + i + n ≤ dest) :
    ∀ j, i ≤ j → j < i + n → memcpyLoop m dest src i n (dest + j) = m (src + j) := by
  induction n generalizing m i with
  | zero => intro j h1 h2; omega
  | succ n ih =>
    intro j h1 h2
    rw [memcpyLoop]
    rcases Nat.eq_or_lt_of_le h1 with rfl | h1
    · rw [memcpyLoop_out (by omega), poke_same]
    · rw [ih (by omega) j (by omega) (by omega), poke_other _ (by omega)]

/-- `memcpy` changes only the destination. -/
theorem memcpy_out {m : Mem} {dest src n x : Nat} (h : x < dest ∨ dest + n ≤ x) : memcpy m dest src n x = m x :=
  memcpyLoop_out (by omega)

/-- Copying between disjoint ranges. -/
theorem memcpy_bytes {m : Mem} {dest src n : Nat} (h : dest + n ≤ src ∨ src + n ≤ dest) :
    bytesAt (memcpy m dest src n) dest n = bytesAt m src n :=
  bytesAt_eq_iff.2 fun i hi => memcpyLoop_in (by omega) i (by omega) (by omega)

theorem memsetLoop_out {m : Mem} {s i n x : Nat} {byte : UInt8} (h : x < s + i ∨ s + i + n ≤ x) :
    memsetLoop m s byte i n x = m x := by
  induction n generalizing m i with
  | zero => rfl
  | succ n ih => rw [memsetLoop, ih (by omega), poke_other _ (by omega)]

theorem memsetLoop_in {m : Mem} {s i n : Nat} {byte : UInt8} :
    ∀ j, i ≤ j → j < i + n → memsetLoop m s byte i n (s + j) = byte := by
  induction n generalizing m i with
  | zero => intro j h1 h2; omega
  | succ n ih =>
    intro j h1 h2
    rw [memsetLoop]
    rcases Nat.eq_or_lt_of_le h1 with rfl | h1
    · rw [memsetLoop_out (by omega), poke_same]
    · exact ih j (by omega) (by omega)

theorem memset_out {m : Mem} {s n x : Nat} {c : Int} (h : x < s ∨ s + n ≤ x) : memset m s c n x = m x :=
  memsetLoop_out (by omega)

theorem memset_bytes (m : Mem) (s n : Nat) (c : Int) :
    bytesAt (memset m s c n) s n = List.replicate n (.ofNat (c % 256).toNat) := by
  refine List.ext_getElem? fun i => ?_
  by_cases hi : i < n
  · rw [bytesAt_get _ hi, List.getElem?_replicate_of_lt hi, memset, memsetLoop_in i (by omega) (by omega)]
  · rw [List.getElem?_eq_none (by simp; omega), List.getElem?_eq_none (by simp; omega)]

/-! ## Overlapping moves -/

/-- The bytes `lo` to `hi` of the destination hold what the source held in `m`,
every other byte is as it was. Part of the source may be overwritten. -/
structure Moved (m m' : Mem) (dest src lo hi : Nat) : Prop where
  copied : ∀ j, lo ≤ j → j < hi → m' (dest + j) = m (src + j)
  kept : ∀ x, x < dest + lo ∨ dest + hi ≤ x → m' x = m x

theorem Moved.start (m : Mem) (dest src i : Nat) : Moved m m dest src i i :=
  ⟨fun j h1 h2 => by omega, fun _ _ => rfl⟩

/-- Upwards: the source byte `hi` is not below the destination byte `hi`, so it is
still the original. -/
theorem Moved.up {m m' : Mem} {dest src lo hi : Nat} (h : Moved m m' dest src lo hi) (hl : lo ≤ hi)
    (hd : dest ≤ src) : Moved m (poke m' (dest + hi) (m' (src + hi))) dest src lo (hi + 1) := by
  constructor
  · intro j h1 h2
    rcases Nat.lt_or_eq_of_le (Nat.le_of_lt_succ h2) with h3 | rfl
    · rw [poke_other _ (by omega), h.copied j h1 h3]
    · rw [poke_same, h.kept _ (.inr (by omega))]
  · intro x hx
    rw [poke_other _ (by omega), h.kept x (by omega)]

/-- Downwards: the source byte `lo` is below every destination byte written. -/
theorem Moved.down {m m' : Mem} {dest src lo hi : Nat} (h : Moved m m' dest src (lo + 1) hi) (hl : lo < hi)
    (hd : src < dest) : Moved m (poke m' (dest + lo) (m' (src + lo))) dest src lo hi := by
  constructor
  · intro j h1 h2
    rcases Nat.eq_or_lt_of_le h1 with rfl | h3
    · rw [poke_same, h.kept _ (.inl (by omega))]
    · rw [poke_other _ (by omega), h.copied j h3 h2]
  · intro x hx
    rw [poke_other _ (by omega), h.kept x (by omega)]

theorem memcpyLoop_moved {m m' : Mem} {dest src i n : Nat} (h : Moved m m' dest src 0 i) (hd : dest ≤ src) :
    Moved m (memcpyLoop m' dest src i n) dest src 0 (i + n) := by
  induction n generalizing m' i with
  | zero => exact h
  | succ n ih =>
    rw [memcpyLoop, show i + (n + 1) = i + 1 + n by omega]
    exact ih (h.up (by omega) hd)

theorem memmoveDown_moved {m m' : Mem} {dest src i n : Nat} (h : Moved m m' dest src i n) (hi : i ≤ n)
    (hd : src < dest) : Moved m (memmoveDown m' dest src i) dest src 0 n := by
  induction i generalizing m' with
  | zero => exact h
  | succ i ih => exact ih (h.down hi hd) (by omega)

theorem memmove_moved (m : Mem) (dest src n : Nat) : Moved m (memmove m dest src n).2 dest src 0 n := by
  rcases Nat.lt_or_ge src dest with h | h
  · rw [memmove, if_neg (by omega)]
    exact memmoveDown_moved (Moved.start m dest src n) (Nat.le_refl n) h
  · rw [memmove, if_pos h]
    simpa using memcpyLoop_moved (n := n) (Moved.start m dest src 0) h

/-- Whatever the overlap, the destination ends up with what the source held, and no
other byte changes. -/
theorem memmove_bytes (m : Mem) (dest src n : Nat) :
    bytesAt (memmove m dest src n).2 dest n = bytesAt m src n ∧
      ∀ x, x < dest ∨ dest + n ≤ x → (memmove m dest src n).2 x = m x :=
  ⟨bytesAt_eq_iff.2 fun j hj => (memmove_moved m dest src n).copied j (Nat.zero_le j) hj,
    fun x hx => (memmove_moved m dest src n).kept x (by omega)⟩

/-- Two bytes up within three, and two bytes down. -/
example : bytesAt (memmove (fill (fun _ => 0) 0 [1, 2, 3]) 1 0 2).2 0 3 = [1, 1, 2] ∧
    bytesAt (memmove (fill (fun _ => 0) 0 [1, 2, 3]) 0 1 2).2 0 3 = [2, 3, 3] := by decide

end MiniLibc.Str
