import MiniLibc.Alloc.Grow
/-!
# What the allocator is for

Seen from outside, the heap is a finite map from live pointers to their bytes,
`Contents`. `Op.Spec` says what each call may do to it, and nothing about
blocks. `view` reads the map off a block list, and `Inv` is the invariant under
which every call follows the map.
-/
open MiniLibc.Memory Function

namespace MiniLibc.Alloc

/-! ## The map -/

/-- The bytes of each live pointer. -/
abbrev Contents := Nat → Option (List UInt8)

/-- `malloc`: nothing happened, or a new pointer with `n` bytes. -/
inductive Malloced (M : Contents) (n : Nat) : Nat → Contents → Prop where
  | null : Malloced M n 0 M
  | block {r : Nat} {l : List UInt8} : n ≠ 0 → r ≠ 0 → M r = none → l.length = n →
      Malloced M n r (update M r (some l))

/-- `realloc` of a live pointer to a nonzero size: nothing happened, or `p` is
replaced by `r`, which starts with the old bytes. -/
inductive Realloced (M : Contents) (p n : Nat) : Nat → Contents → Prop where
  | null : Realloced M p n 0 M
  | block {r : Nat} {old l : List UInt8} : r ≠ 0 → M p = some old → (r = p ∨ M r = none) → l.length = n →
      l.take (min old.length n) = old.take (min old.length n) →
      Realloced M p n r (update (update M p none) r (some l))

/-- `calloc`: nothing happened, or a new pointer with `n` zeros. -/
inductive Calloced (M : Contents) (n : Nat) : Nat → Contents → Prop where
  | null : Calloced M n 0 M
  | block {r : Nat} : n ≠ 0 → r ≠ 0 → M r = none → Calloced M n r (update M r (some (List.replicate n 0)))

/-- The calls, and the client's writes to its own bytes. -/
inductive Op where
  | malloc (n : Nat)
  | calloc (nmemb n : Nat)
  | realloc (p n : Nat)
  | free (p : Nat)
  | poke (p i : Nat) (b : UInt8)

/-- What an operation may return and leave, on the map. -/
def Op.Spec (M : Contents) : Op → Nat → Contents → Prop
  | .malloc n, r, M' => Malloced M n r M'
  | .calloc nmemb n, r, M' => Calloced M (nmemb * n) r M'
  | .realloc p n, r, M' =>
    if p = 0 then Malloced M n r M' else if n = 0 then r = 0 ∧ M' = update M p none else Realloced M p n r M'
  | .free p, r, M' => r = 0 ∧ M' = update M p none
  | .poke p i b, r, M' => r = 0 ∧ ∃ l, M p = some l ∧ M' = update M p (some (l.set i b))

/-! ## The view of a heap -/

/-- The map a block list holds. -/
def view (m : Mem) (bs : List Block) : Contents := fun p =>
  (bs.find? fun b => !b.free && b.payload == p).map fun b => bytesAt m p b.requested

/-- No two neighbours are both free. -/
def NoAdj (bs : List Block) : Prop := bs.IsChain fun b c => ¬ (b.free = true ∧ c.free = true)

/-- A live block holds between one byte and all of its size. -/
def LiveSized (bs : List Block) : Prop := ∀ b ∈ bs, b.free = false → 1 ≤ b.requested ∧ b.requested ≤ b.size

/-- The allocator's invariant. -/
structure Inv (s : Heap) (a : Nat) (bs : List Block) : Prop extends Rep s a bs where
  noAdj : NoAdj bs
  live : LiveSized bs

theorem view_none {m : Mem} {bs : List Block} {p : Nat} (h : ∀ b ∈ bs, b.free = false → b.payload ≠ p) :
    view m bs p = none := by
  unfold view
  rw [List.find?_eq_none.2, Option.map_none]
  intro b hb
  simpa using h b hb

theorem view_mem {m : Mem} {bs : List Block} {p : Nat} {l : List UInt8} (h : view m bs p = some l) :
    ∃ b ∈ bs, b.free = false ∧ b.payload = p ∧ l = bytesAt m p b.requested := by
  unfold view at h
  obtain ⟨b, hb, rfl⟩ := Option.map_eq_some_iff.1 h
  have hp := List.find?_some hb
  simp only [Bool.and_eq_true, Bool.not_eq_true', beq_iff_eq] at hp
  exact ⟨b, List.mem_of_find?_eq_some hb, hp.1, hp.2, rfl⟩

theorem payload_inj {b c : Block} (h : b.payload = c.payload) : b.addr = c.addr := by
  simp only [Block.payload] at h; omega

/-- A live block is in the view. -/
theorem Rep.view_of_mem {s : Heap} {a : Nat} {bs : List Block} (h : Rep s a bs) {b : Block} (hb : b ∈ bs)
    (hf : b.free = false) (m : Mem) : view m bs b.payload = some (bytesAt m b.payload b.requested) := by
  cases hv : view m bs b.payload with
  | none =>
    unfold view at hv
    rw [Option.map_eq_none_iff, List.find?_eq_none] at hv
    exact absurd (hv b hb) (by simp [hf])
  | some l =>
    obtain ⟨c, hc, -, hp, rfl⟩ := view_mem hv
    rw [h.addr_inj hc hb (payload_inj hp)]

/-- Two heaps with the same live block at `p`, and the same bytes in it. -/
theorem view_congr {s s' : Heap} {a a' p : Nat} {bs bs' : List Block} {m m' : Mem} (h : Rep s a bs)
    (h' : Rep s' a' bs') (hmem : ∀ c, c.free = false → c.payload = p → (c ∈ bs' ↔ c ∈ bs))
    (hbytes : ∀ c ∈ bs, c.free = false → c.payload = p → AgreeOn m m' c.payload (c.payload + c.requested)) :
    view m' bs' p = view m bs p := by
  by_cases hp : ∃ c ∈ bs, c.free = false ∧ c.payload = p
  · obtain ⟨c, hc, hf, rfl⟩ := hp
    rw [h.view_of_mem hc hf, h'.view_of_mem ((hmem c hf rfl).2 hc) hf, bytesAt_congr (hbytes c hc hf rfl)]
  · push Not at hp
    rw [view_none hp, view_none]
    intro c hc hf he
    exact hp c ((hmem c hf he).1 hc) hf he

/-- Two heaps that differ only in the live block at `q`. -/
theorem view_update {s s' : Heap} {a a' q : Nat} {bs bs' : List Block} {m m' : Mem} {l : Option (List UInt8)}
    (h : Rep s a bs) (h' : Rep s' a' bs') (hq : view m' bs' q = l)
    (hmem : ∀ c, c.free = false → c.payload ≠ q → (c ∈ bs' ↔ c ∈ bs))
    (hbytes : ∀ c ∈ bs, c.free = false → c.payload ≠ q → AgreeOn m m' c.payload (c.payload + c.requested)) :
    view m' bs' = update (view m bs) q l := by
  funext p
  by_cases hp : p = q
  · subst hp; rw [update_self, hq]
  · rw [update_of_ne hp]
    exact view_congr h h' (fun c hf he => hmem c hf (he ▸ hp)) fun c hc hf he => hbytes c hc hf (he ▸ hp)

/-! ## Free neighbours -/

/-- Whether the first block is free. -/
def headFree (bs : List Block) : Bool := bs.head?.any (·.free)

/-- Whether the last block is free. -/
def lastFree (bs : List Block) : Bool := bs.getLast?.any (·.free)

@[simp] theorem headFree_nil : headFree [] = false := rfl
@[simp] theorem headFree_cons (b : Block) (bs : List Block) : headFree (b :: bs) = b.free := by simp [headFree]
@[simp] theorem lastFree_nil : lastFree [] = false := rfl
@[simp] theorem lastFree_concat (b : Block) (bs : List Block) : lastFree (bs ++ [b]) = b.free := by simp [lastFree]

@[simp] theorem noAdj_nil : NoAdj [] := by simp [NoAdj]

theorem noAdj_cons {b : Block} {bs : List Block} :
    NoAdj (b :: bs) ↔ NoAdj bs ∧ ¬ (b.free = true ∧ headFree bs = true) := by
  unfold NoAdj headFree
  rw [List.isChain_cons, and_comm]
  cases bs <;> simp

theorem noAdj_append_cons {b : Block} {pre post : List Block} :
    NoAdj (pre ++ b :: post) ↔ NoAdj pre ∧ NoAdj (b :: post) ∧ ¬ (lastFree pre = true ∧ b.free = true) := by
  unfold NoAdj lastFree
  rw [List.isChain_append]
  refine and_congr_right fun _ => and_congr_right fun _ => ?_
  cases pre.getLast? <;> simp

/-- A block that is not free may stand between any two lists. -/
theorem noAdj_live {b : Block} {pre post : List Block} (hb : b.free = false) :
    NoAdj (pre ++ b :: post) ↔ NoAdj pre ∧ NoAdj post := by
  rw [noAdj_append_cons, noAdj_cons]
  simp [hb]

end MiniLibc.Alloc
