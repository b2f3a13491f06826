import Mathlib
/-!
# Byte memory

A memory maps addresses to bytes. Words are stored little-endian. The lemmas
are the usual two for each access: what was written is read back, and a read
sees no write outside its range. `AgreeOn` states the second for a whole region.
-/

namespace MiniLibc.Memory

abbrev Mem := Nat → UInt8

/-- Write one byte. -/
def poke (m : Mem) (a : Nat) (b : UInt8) : Mem := fun x => if x = a then b else m x

@[simp] theorem poke_same (m : Mem) (a : Nat) (b : UInt8) : poke m a b a = b := if_pos rfl

theorem poke_other {m : Mem} {a x : Nat} (b : UInt8) (h : x ≠ a) : poke m a b x = m x := if_neg h

/-- The `n` bytes from `a` on. -/
def bytesAt (m : Mem) (a : Nat) : Nat → List UInt8
  | 0 => []
  | n + 1 => m a :: bytesAt m (a + 1) n

/-- Read `n` bytes as a little-endian number. -/
def load (m : Mem) (a : Nat) : Nat → Nat
  | 0 => 0
  | n + 1 => (m a).toNat + 256 * load m (a + 1) n

/-- Write the `n` low bytes of `v`, least significant first. -/
def store (m : Mem) (a : Nat) : Nat → Nat → Mem
  | 0, _ => m
  | n + 1, v => store (poke m a (.ofNat v)) (a + 1) n (v / 256)

/-- The two memories agree on the addresses in `[lo, hi)`. -/
def AgreeOn (m m' : Mem) (lo hi : Nat) : Prop := ∀ x, lo ≤ x → x < hi → m' x = m x

theorem AgreeOn.refl (m : Mem) (lo hi : Nat) : AgreeOn m m lo hi := fun _ _ _ => rfl

theorem AgreeOn.trans {m m' m'' : Mem} {lo hi : Nat} (h : AgreeOn m m' lo hi) (h' : AgreeOn m' m'' lo hi) :
    AgreeOn m m'' lo hi :=
  fun x h1 h2 => (h' x h1 h2).trans (h x h1 h2)

theorem AgreeOn.mono {m m' : Mem} {lo hi lo' hi' : Nat} (h : AgreeOn m m' lo hi) (h1 : lo ≤ lo') (h2 : hi' ≤ hi) :
    AgreeOn m m' lo' hi' :=
  fun x hx hx' => h x (by omega) (by omega)

/-! ## Reads in an unchanged region -/

theorem load_congr {m m' : Mem} {a n : Nat} (h : AgreeOn m m' a (a + n)) : load m' a n = load m a n := by
  induction n generalizing a with
  | zero => rfl
  | succ n ih => rw [load, load, h a (by omega) (by omega), ih (h.mono (by omega) (by omega))]

theorem bytesAt_congr {m m' : Mem} {a n : Nat} (h : AgreeOn m m' a (a + n)) : bytesAt m' a n = bytesAt m a n := by
  induction n generalizing a with
  | zero => rfl
  | succ n ih => rw [bytesAt, bytesAt, h a (by omega) (by omega), ih (h.mono (by omega) (by omega))]

@[simp] theorem bytesAt_length (m : Mem) (a n : Nat) : (bytesAt m a n).length = n := by
  induction n generalizing a with
  | zero => rfl
  | succ n ih => simp [bytesAt, ih]

theorem bytesAt_get (m : Mem) {a n i : Nat} (h : i < n) : (bytesAt m a n)[i]? = some (m (a + i)) := by
  induction n generalizing a i with
  | zero => omega
  | succ n ih =>
    cases i with
    | zero => rfl
    | succ i => rw [bytesAt, List.getElem?_cons_succ, ih (by omega)]; congr 2; omega

/-- Equal bytes, possibly of two memories at two addresses. -/
theorem bytesAt_eq_iff {m m' : Mem} {a b n : Nat} :
    bytesAt m' b n = bytesAt m a n ↔ ∀ i, i < n → m' (b + i) = m (a + i) := by
  constructor
  · intro h i hi
    have := congrArg (·[i]?) h
    simpa [bytesAt_get _ hi] using this
  · intro h
    refine List.ext_getElem? fun i => ?_
    by_cases hi : i < n
    · rw [bytesAt_get _ hi, bytesAt_get _ hi, h i hi]
    · rw [List.getElem?_eq_none (by simp; omega), List.getElem?_eq_none (by simp; omega)]

theorem bytesAt_take (m : Mem) (a : Nat) {k n : Nat} (h : k ≤ n) : (bytesAt m a n).take k = bytesAt m a k := by
  induction n generalizing a k with
  | zero => simp [Nat.le_zero.1 h, bytesAt]
  | succ n ih =>
    cases k with
    | zero => rfl
    | succ k => rw [bytesAt, bytesAt, List.take_succ_cons, ih _ (by omega)]

theorem bytesAt_poke (m : Mem) (a : Nat) {i n : Nat} (b : UInt8) (h : i < n) :
    bytesAt (poke m (a + i) b) a n = (bytesAt m a n).set i b := by
  induction n generalizing a i with
  | zero => omega
  | succ n ih =>
    cases i with
    | zero =>
      rw [bytesAt, bytesAt, List.set_cons_zero, Nat.add_zero, poke_same]
      congr 1
      exact bytesAt_congr fun x hx _ => poke_other _ (by omega)
    | succ i =>
      rw [bytesAt, bytesAt, List.set_cons_succ, poke_other _ (by omega)]
      congr 1
      rw [show a + (i + 1) = a + 1 + i by omega]
      exact ih (a + 1) (by omega)

/-! ## Stores -/

/-- A store changes nothing outside its range. -/
theorem store_out {m : Mem} {a n v x : Nat} (h : x < a ∨ a + n ≤ x) : store m a n v x = m x := by
  induction n generalizing m a v with
  | zero => rfl
  | succ n ih => rw [store, ih (by omega), poke_other _ (by omega)]

/-- What was stored is loaded. -/
theorem load_store {n v : Nat} (m : Mem) (a : Nat) (h : v < 256 ^ n) : load (store m a n v) a n = v := by
  induction n generalizing m a v with
  | zero => simp at h; simp [load, h]
  | succ n ih =>
    rw [store, load, store_out (.inl (by omega)), poke_same, ih _ _ (by rw [Nat.pow_succ] at h; omega),
      UInt8.toNat_ofNat']
    omega

/-- A load sees no store outside its range. -/
theorem load_store_disjoint {m : Mem} {a b n k v : Nat} (h : b + k ≤ a ∨ a + n ≤ b) :
    load (store m a n v) b k = load m b k :=
  load_congr fun x h1 h2 => store_out (by omega)

/-! ## Runs of bytes -/

/-- Write the bytes of a list. -/
def fill (m : Mem) (a : Nat) : List UInt8 → Mem
  | [] => m
  | b :: l => fill (poke m a b) (a + 1) l

theorem fill_out {m : Mem} {a x : Nat} {l : List UInt8} (h : x < a ∨ a + l.length ≤ x) : fill m a l x = m x := by
  induction l generalizing m a with
  | nil => rfl
  | cons b l ih =>
    rw [List.length_cons] at h
    rw [fill, ih (by omega), poke_other _ (by omega)]

/-- What was filled in is read back. -/
theorem bytesAt_fill (m : Mem) (a : Nat) (l : List UInt8) : bytesAt (fill m a l) a l.length = l := by
  induction l generalizing m a with
  | nil => rfl
  | cons b l ih => rw [List.length_cons, bytesAt, fill, ih, fill_out (.inl (by omega)), poke_same]

theorem fill_append (m : Mem) (a : Nat) (l l' : List UInt8) :
    fill m a (l ++ l') = fill (fill m a l) (a + l.length) l' := by
  induction l generalizing m a with
  | nil => rfl
  | cons b l ih =>
    rw [List.cons_append, fill, fill, ih, List.length_cons, show a + 1 + l.length = a + (l.length + 1) by omega]

theorem bytesAt_add (m : Mem) (a k n : Nat) : bytesAt m a (k + n) = bytesAt m a k ++ bytesAt m (a + k) n := by
  induction k generalizing a with
  | zero => simp [bytesAt]
  | succ k ih =>
    rw [Nat.succ_add, bytesAt, bytesAt, List.cons_append, ih, show a + 1 + k = a + (k + 1) by omega]

theorem bytesAt_drop (m : Mem) (a : Nat) {k n : Nat} (h : k ≤ n) :
    (bytesAt m a n).drop k = bytesAt m (a + k) (n - k) := by
  obtain ⟨j, rfl⟩ := Nat.exists_eq_add_of_le h
  rw [bytesAt_add, Nat.add_sub_cancel_left]
  exact List.drop_left' (bytesAt_length m a k)

/-- Filling in right behind some bytes appends to them. -/
theorem bytesAt_append_fill (m : Mem) (a n : Nat) (l : List UInt8) :
    bytesAt (fill m (a + n) l) a (n + l.length) = bytesAt m a n ++ l := by
  rw [bytesAt_add, bytesAt_fill]
  congr 1
  exact bytesAt_congr fun x _ hx => fill_out (.inl hx)

end MiniLibc.Memory
