import MiniLibc.Alloc.Blocks
/-!
# What the allocator's helpers do to the block list

One lemma for each helper of `allocator.c`: it succeeds, and the list it leaves
is `splitAt`, `mergeAt` or a grown list. `Frame m m' b n` is the part of memory
a step on block `b` keeps: everything outside the block, and the first `n` bytes
of its payload.
-/
open MiniLibc.Memory

namespace MiniLibc.Alloc

theorem add64_eq {a b : Nat} (h : a + b < 2 ^ 64) : add64 a b = some (a + b) := if_pos h

theorem sub64_eq {a b : Nat} (h : b ≤ a) : sub64 a b = some (a - b) := if_pos h

theorem some_bind {α β : Type} (x : α) (f : α → Option β) : (some x >>= f) = f x := rfl

/-! ## Header fields -/

theorem load_word {v : Nat} (m : Mem) (a : Nat) (h : v < 2 ^ 64) : load (store m a 8 v) a 8 = v :=
  load_store m a (by norm_num; omega)

theorem Header.setSize {m : Mem} {b : Block} {q v : Nat} (h : Header m b q) (hv : v < 2 ^ 64) :
    Header (store m b.addr 8 v) { b with size := v } q where
  size := load_word _ _ hv
  next := (load_store_disjoint (by simp only; omega)).trans h.next
  free := (load_store_disjoint (by simp only; omega)).trans h.free
  requested := (load_store_disjoint (by simp only; omega)).trans h.requested

theorem Header.setNext {m : Mem} {b : Block} {q v : Nat} (h : Header m b q) (hv : v < 2 ^ 64) :
    Header (store m (b.addr + 8) 8 v) b v where
  size := (load_store_disjoint (by omega)).trans h.size
  next := load_word _ _ hv
  free := (load_store_disjoint (by omega)).trans h.free
  requested := (load_store_disjoint (by omega)).trans h.requested

theorem Header.setFree {m : Mem} {b : Block} {q : Nat} (h : Header m b q) (f : Bool) :
    Header (store m (b.addr + 16) 8 f.toNat) { b with free := f } q where
  size := (load_store_disjoint (by simp only; omega)).trans h.size
  next := (load_store_disjoint (by simp only; omega)).trans h.next
  free := load_word _ _ (by cases f <;> decide)
  requested := (load_store_disjoint (by simp only; omega)).trans h.requested

theorem Header.setRequested {m : Mem} {b : Block} {q v : Nat} (h : Header m b q) (hv : v < 2 ^ 64) :
    Header (store m (b.addr + 24) 8 v) { b with requested := v } q where
  size := (load_store_disjoint (by simp only; omega)).trans h.size
  next := (load_store_disjoint (by simp only; omega)).trans h.next
  free := (load_store_disjoint (by simp only; omega)).trans h.free
  requested := load_word _ _ hv

/-- The memory once all four fields of a header at `b.addr` are written. -/
def writeHeader (m : Mem) (b : Block) (nxt : Nat) : Mem :=
  store (store (store (store m b.addr 8 b.size) (b.addr + 8) 8 nxt) (b.addr + 16) 8 b.free.toNat)
    (b.addr + 24) 8 b.requested

theorem header_write {m : Mem} {b : Block} {nxt : Nat} (hs : b.size < 2 ^ 64) (hn : nxt < 2 ^ 64)
    (hr : b.requested < 2 ^ 64) : Header (writeHeader m b nxt) b nxt where
  size := by
    rw [size, writeHeader, load_store_disjoint (by omega), load_store_disjoint (by omega),
      load_store_disjoint (by omega), load_word _ _ hs]
  next := by
    rw [next, writeHeader, load_store_disjoint (by omega), load_store_disjoint (by omega), load_word _ _ hn]
  free := by
    rw [isFree, writeHeader, load_store_disjoint (by omega), load_word _ _ (by cases b.free <;> decide)]
  requested := load_word _ _ hr

theorem writeHeader_out {m : Mem} {b : Block} {nxt x : Nat} (h : x < b.addr ∨ b.addr + headerSize ≤ x) :
    writeHeader m b nxt x = m x := by
  simp only [headerSize] at h
  rw [writeHeader, store_out (by omega), store_out (by omega), store_out (by omega), store_out (by omega)]

/-! ## Frames -/

/-- Memory outside block `b`, and its first `n` payload bytes, are kept. -/
def Frame (m m' : Mem) (b : Block) (n : Nat) : Prop :=
  ∀ x, x < b.addr ∨ (b.payload ≤ x ∧ x < b.payload + n) ∨ b.stop ≤ x → m' x = m x

theorem Frame.refl (m : Mem) (b : Block) (n : Nat) : Frame m m b n := fun _ _ => rfl

theorem Frame.trans {m m' m'' : Mem} {b : Block} {n : Nat} (h : Frame m m' b n) (h' : Frame m' m'' b n) :
    Frame m m'' b n :=
  fun x hx => (h' x hx).trans (h x hx)

/-- A write to the header keeps everything else. -/
theorem frame_header {m m' : Mem} {b : Block} {n : Nat}
    (h : ∀ x, x < b.addr ∨ b.addr + headerSize ≤ x → m' x = m x) : Frame m m' b n := by
  intro x hx
  apply h
  simp only [Block.payload, Block.stop, headerSize] at *
  omega

/-- A frame of a larger block that keeps no fewer bytes. -/
theorem Frame.mono {m m' : Mem} {b c : Block} {n k : Nat} (h : Frame m m' b n) (ha : b.addr = c.addr)
    (hs : b.size ≤ c.size) (hk : k ≤ n) : Frame m m' c k := by
  intro x hx
  apply h
  simp only [Block.payload, Block.stop, headerSize] at *
  omega

theorem Frame.before {m m' : Mem} {b : Block} {n a : Nat} (h : Frame m m' b n) : AgreeOn m m' a b.addr :=
  fun x _ hx => h x (.inl hx)

theorem Frame.after {m m' : Mem} {b : Block} {n e : Nat} (h : Frame m m' b n) : AgreeOn m m' b.stop e :=
  fun x hx _ => h x (.inr (.inr hx))

theorem Frame.kept {m m' : Mem} {b : Block} {n : Nat} (h : Frame m m' b n) :
    AgreeOn m m' b.payload (b.payload + n) :=
  fun x hx hx' => h x (.inr (.inl ⟨hx, hx'⟩))

/-! ## One block replaced -/

/-- Rewrite the header of one block without changing its extent. -/
theorem Rep.replaceOne {s : Heap} {a : Nat} {pre post : List Block} {b b' : Block} {m : Mem}
    (h : Rep s a (pre ++ b :: post)) (ha : b'.addr = b.addr) (hs : b'.size = b.size)
    (hh : Header m b' (headAddr post 0)) (hf : Frame s.mem m b 0) :
    Rep { s with mem := m } a (pre ++ b' :: post) := by
  obtain ⟨x, hx, hrest⟩ := (tiles_append pre (b :: post)).1 h.tiles
  have hxb : x = b.addr := hrest.1.symm
  have hst : b'.stop = b.stop := by simp only [Block.stop, ha, hs]
  have ht : s.blockTail = lastAddr ([b'] ++ post) := by
    rw [h.tail, lastAddr_append (by simp)]
    cases post with
    | nil => exact ha.symm
    | cons c post => rw [lastAddr_cons (by simp), lastAddr_append (by simp)]
  have hz := h.sized b (by simp)
  exact Rep.replace pre [b] [b'] post h hx ⟨hrest.1, rfl⟩ (by simp) ⟨by rw [ha, hxb], hst⟩ (by simp)
    ⟨hh, trivial⟩ (by simpa [Sized, hs] using hz) (hxb ▸ hf.before) hf.after ht

theorem Rep.setFree {s : Heap} {a : Nat} {pre post : List Block} {b : Block}
    (h : Rep s a (pre ++ b :: post)) (f : Bool) :
    Rep (setIsFree s b.addr f.toNat) a (pre ++ { b with free := f } :: post) :=
  h.replaceOne rfl rfl (h.header.setFree f)
    (frame_header fun x hx => store_out (by simp only [headerSize] at hx; omega))

theorem Rep.setRequested {s : Heap} {a : Nat} {pre post : List Block} {b : Block} {v : Nat}
    (h : Rep s a (pre ++ b :: post)) (hv : v < 2 ^ 64) :
    Rep (setRequestedSize s b.addr v) a (pre ++ { b with requested := v } :: post) :=
  h.replaceOne rfl rfl (h.header.setRequested hv)
    (frame_header fun x hx => store_out (by simp only [headerSize] at hx; omega))

/-! ## Splitting -/

/-- The blocks a split at `n` bytes leaves in place of `b`. -/
def splitAt (b : Block) (n : Nat) (post : List Block) : List Block :=
  if b.size - n < headerSize + alignment then b :: post
  else { b with size := n } :: ⟨b.payload + n, b.size - n - headerSize, true, 0⟩ :: post

theorem splitBlock_spec {s : Heap} {a n : Nat} {pre post : List Block} {b : Block}
    (h : Rep s a (pre ++ b :: post)) (hn : n ≤ b.size) (hpos : 0 < n) (h16 : n % 16 = 0) :
    ∃ m t, splitBlock s b.addr n =
        some (if b.size - n < headerSize + alignment then 0 else b.payload + n,
          { s with mem := m, blockTail := t }) ∧
      Rep { s with mem := m, blockTail := t } a (pre ++ splitAt b n post) ∧ Frame s.mem m b n := by
  have hh := h.header
  have hb := h.mem_bounds (b := b) (by simp)
  have hz := h.sized b (by simp)
  have hbound := h.bound
  have hq : headAddr post 0 < 2 ^ 64 := by
    cases post with
    | nil => simp [headAddr]
    | cons c post => have := h.mem_bounds (b := c) (by simp); simp only [headAddr, Block.stop] at *; omega
  simp only [Block.stop, headerSize] at hb
  by_cases hsmall : b.size - n < headerSize + alignment
  · refine ⟨s.mem, s.blockTail, ?_, ?_, .refl _ _ _⟩
    · rw [splitBlock, hh.size, sub64_eq hn]
      simp [hsmall]
    · rw [splitAt, if_pos hsmall]; exact h
  · have hbig := hsmall
    simp only [headerSize, alignment] at hbig
    -- The split-off block, and the memory with both headers written.
    generalize hc : (⟨b.payload + n, b.size - n - headerSize, true, 0⟩ : Block) = c
    have hca : c.addr = b.addr + headerSize + n := by rw [← hc]; rfl
    have hcs : c.size = b.size - n - headerSize := by rw [← hc]
    have hcf : c.free = true := by rw [← hc]
    have hcr : c.requested = 0 := by rw [← hc]
    simp only [headerSize] at hca hcs
    let m1 := writeHeader s.mem c (headAddr post 0)
    let m := store (store m1 b.addr 8 n) (b.addr + 8) 8 c.addr
    have hb1 : Header m1 b (headAddr post 0) :=
      hh.congr fun x h1 h2 => writeHeader_out (.inl (by simp only [headerSize] at h2; omega))
    have hb2 : Header m { b with size := n } c.addr := (hb1.setSize (by omega)).setNext (by omega)
    have hc2 : Header m c (headAddr post 0) :=
      (header_write (m := s.mem) (by omega) hq (by omega)).congr fun x h1 h2 => by
        simp only [m]; rw [store_out (by omega), store_out (by omega)]
    have hf : Frame s.mem m b n := by
      intro x hx
      simp only [Block.payload, Block.stop, headerSize] at hx
      simp only [m, m1]
      rw [store_out (by omega), store_out (by omega), writeHeader_out (by simp only [headerSize]; omega)]
    have ht : (if s.blockTail = b.addr then c.addr else s.blockTail) =
        lastAddr ([{ b with size := n }, c] ++ post) := by
      by_cases hp : post = []
      · rw [if_pos (h.tail_iff.2 hp), hp]; rfl
      · rw [if_neg fun e => hp (h.tail_iff.1 e), h.tail, lastAddr_append (by simp), lastAddr_cons hp,
          lastAddr_append hp]
    refine ⟨m, if s.blockTail = b.addr then c.addr else s.blockTail, ?_, ?_, hf⟩
    · have hnext : next (store s.mem (b.addr + headerSize + n) 8 (b.size - n - headerSize)) b.addr =
          headAddr post 0 := (load_store_disjoint (by simp only [headerSize]; omega)).trans hh.next
      rw [splitBlock, hh.size, sub64_eq hn]
      simp only [Option.bind_eq_bind, Option.bind_some, if_neg hsmall,
        add64_eq (show b.addr + headerSize < 2 ^ 64 by simp only [headerSize]; omega),
        add64_eq (show b.addr + headerSize + n < 2 ^ 64 by simp only [headerSize]; omega),
        sub64_eq (show headerSize ≤ b.size - n by simp only [headerSize]; omega)]
      simp only [Alloc.setSize, Alloc.setNext, setIsFree, setRequestedSize, hnext]
      have he : m = store (store (store (store (store (store s.mem (b.addr + headerSize + n) 8
          (b.size - n - headerSize)) (b.addr + headerSize + n + 8) 8 (headAddr post 0))
          (b.addr + headerSize + n + 16) 8 1) (b.addr + headerSize + n + 24) 8 0) b.addr 8 n) (b.addr + 8) 8
          (b.addr + headerSize + n) := by
        simp only [m, m1, writeHeader, hca, hcs, hcf, hcr, headerSize, Bool.toNat_true]
      rw [he, hca]
      split <;> rfl
    · obtain ⟨x, hx, hrest⟩ := (tiles_append pre (b :: post)).1 h.tiles
      have hxb : b.addr = x := hrest.1
      rw [splitAt, if_neg hsmall, hc]
      refine Rep.replace pre [b] [{ b with size := n }, c] post h hx ⟨hxb, rfl⟩ (by simp)
        ⟨hxb, ?_, ?_⟩ (by simp) ⟨hb2, hc2, trivial⟩ ?_ (hxb ▸ hf.before) hf.after ht
      · rw [hca]; rfl
      · simp only [Tiles, Block.stop, headerSize]; omega
      · intro d hd
        simp only [List.mem_cons, List.not_mem_nil, or_false] at hd
        rcases hd with rfl | rfl
        · exact ⟨hpos, h16⟩
        · omega

/-! ## Merging -/

/-- The blocks `merge_with_next` leaves in place of `b`. -/
def mergeAt (b : Block) : List Block → List Block
  | c :: post => if c.free then { b with size := b.size + headerSize + c.size } :: post else b :: c :: post
  | [] => [b]

theorem blocksAdjacent_spec {s : Heap} {a : Nat} {pre post : List Block} {b c : Block}
    (h : Rep s a (pre ++ b :: c :: post)) : blocksAdjacent s.mem b.addr c.addr = some true := by
  have hb := h.mem_bounds (b := b) (by simp)
  have hbound := h.bound
  obtain ⟨x, -, hrest⟩ := (tiles_append pre _).1 h.tiles
  have hc : c.addr = b.stop := hrest.2.1
  simp only [Block.stop, headerSize] at hb hc
  rw [blocksAdjacent, h.header.size, add64_eq (by simp only [headerSize]; omega)]
  simp only [Option.bind_eq_bind, Option.bind_some, headerSize, add64_eq (show b.addr + 32 + b.size < 2 ^ 64 by omega)]
  simp [hc]

theorem mergeWithNext_spec {s : Heap} {a : Nat} {pre post : List Block} {b : Block}
    (h : Rep s a (pre ++ b :: post)) :
    ∃ m t, mergeWithNext s b.addr = some { s with mem := m, blockTail := t } ∧
      Rep { s with mem := m, blockTail := t } a (pre ++ mergeAt b post) ∧
      ∀ x, x < b.addr ∨ b.addr + headerSize ≤ x → m x = s.mem x := by
  have hh := h.header
  cases post with
  | nil =>
    refine ⟨s.mem, s.blockTail, ?_, h, fun _ _ => rfl⟩
    unfold mergeWithNext
    rw [hh.next]; simp [headAddr]
  | cons c post =>
    have hassoc : pre ++ b :: c :: post = (pre ++ [b]) ++ c :: post := by simp
    have hc : Header s.mem c (headAddr post 0) := (hassoc ▸ h : Rep s a ((pre ++ [b]) ++ c :: post)).header
    have hbpos := h.mem_bounds (b := b) (by simp)
    have hcpos := h.mem_bounds (b := c) (by simp)
    have hbound := h.bound
    obtain ⟨x, hx, hrest⟩ := (tiles_append pre _).1 h.tiles
    have hxb : b.addr = x := hrest.1
    have hcb : c.addr = b.stop := hrest.2.1
    simp only [Block.stop, headerSize] at hbpos hcpos hcb
    by_cases hf : c.free = true
    · let m := store (store s.mem b.addr 8 (b.size + headerSize + c.size)) (b.addr + 8) 8 (headAddr post 0)
      have hq : headAddr post 0 < 2 ^ 64 := by
        cases post with
        | nil => simp [headAddr]
        | cons d post => have := h.mem_bounds (b := d) (by simp); simp only [headAddr, Block.stop] at *; omega
      have hm : ∀ x, x < b.addr ∨ b.addr + headerSize ≤ x → m x = s.mem x := fun x hx => by
        simp only [headerSize] at hx
        simp only [m]; rw [store_out (by omega), store_out (by omega)]
      have hb' : Header m { b with size := b.size + headerSize + c.size } (headAddr post 0) :=
        (hh.setSize (by simp only [headerSize]; omega)).setNext hq
      have ht : (if s.blockTail = c.addr then b.addr else s.blockTail) =
          lastAddr ([{ b with size := b.size + headerSize + c.size }] ++ post) := by
        have hti := (hassoc ▸ h : Rep s a ((pre ++ [b]) ++ c :: post)).tail_iff
        by_cases hp : post = []
        · rw [if_pos (hti.2 hp), hp]; rfl
        · rw [if_neg fun e => hp (hti.1 e), h.tail, lastAddr_append (by simp), lastAddr_cons (by simp),
            lastAddr_cons hp, lastAddr_append hp]
      have hbz := h.sized b (by simp)
      have hcz := h.sized c (by simp)
      refine ⟨m, if s.blockTail = c.addr then b.addr else s.blockTail, ?_, ?_, hm⟩
      · have hnext : next (store s.mem b.addr 8 (b.size + headerSize + c.size)) c.addr = headAddr post 0 :=
          (load_store_disjoint (by omega)).trans hc.next
        unfold mergeWithNext
        rw [hh.next, hh.size]
        simp only [headAddr, hc.free, hc.size, blocksAdjacent_spec h, Option.bind_eq_bind, Option.bind_some,
          add64_eq (show headerSize + c.size < 2 ^ 64 by simp only [headerSize]; omega),
          add64_eq (show b.size + (headerSize + c.size) < 2 ^ 64 by simp only [headerSize]; omega), hf,
          Bool.toNat_true, Bool.not_true, Bool.false_eq_true, if_false,
          if_neg (show ¬ (c.addr = 0 ∨ 1 = 0) by omega)]
        rw [← Nat.add_assoc]
        simp only [Alloc.setSize, Alloc.setNext, hnext, m]
        split <;> rfl
      · rw [mergeAt, if_pos hf]
        refine Rep.replace pre [b, c] [{ b with size := b.size + headerSize + c.size }] post h hx ⟨hxb, hcb, rfl⟩
          (by simp) ⟨hxb, ?_⟩ (by simp) ⟨hb', trivial⟩ ?_ ?_ ?_ ht
        · simp only [Tiles, Block.stop, headerSize]; omega
        · intro d hd
          rw [List.mem_singleton] at hd
          subst hd
          simp only [headerSize]; omega
        · exact fun y _ hy => hm y (.inl (by omega))
        · exact fun y hy _ => hm y (.inr (by simp only [Block.stop, headerSize] at hy ⊢; omega))
    · refine ⟨s.mem, s.blockTail, ?_, ?_, fun _ _ => rfl⟩
      · unfold mergeWithNext
        rw [hh.next]
        simp [headAddr, hc.free, hf]
      · rw [mergeAt, if_neg hf]; exact h

/-! ## Walks -/

/-- The first free block that is large enough, if there is one. -/
theorem findFreeLoop_spec {m : Mem} {n fuel : Nat} {bs : List Block} (h : Linked m bs 0)
    (hpos : ∀ b ∈ bs, 0 < b.addr) (hf : bs.length ≤ fuel) :
    (findFreeLoop m n fuel (headAddr bs 0) = some 0 ∧ ∀ b ∈ bs, b.free = true → b.size < n) ∨
    (∃ pre b post, bs = pre ++ b :: post ∧ findFreeLoop m n fuel (headAddr bs 0) = some b.addr ∧
      b.free = true ∧ n ≤ b.size) := by
  induction bs generalizing fuel with
  | nil => left; cases fuel <;> simp [headAddr, findFreeLoop]
  | cons b bs ih =>
    have hb := hpos b List.mem_cons_self
    obtain ⟨k, hk⟩ : ∃ k, b.addr = k + 1 := ⟨b.addr - 1, by omega⟩
    cases fuel with
    | zero => simp at hf
    | succ fuel =>
      have hstep : findFreeLoop m n (fuel + 1) (headAddr (b :: bs) 0) =
          if isFree m b.addr ≠ 0 ∧ size m b.addr ≥ n then some b.addr
          else findFreeLoop m n fuel (next m b.addr) := by
        simp only [headAddr, hk]; rfl
      rw [hstep, h.1.free, h.1.size, h.1.next]
      by_cases hfit : b.free = true ∧ n ≤ b.size
      · exact .inr ⟨[], b, bs, rfl, by simp [hfit], hfit⟩
      · have hno : ¬ (b.free.toNat ≠ 0 ∧ b.size ≥ n) := fun hc => hfit (by simpa using hc)
        rw [if_neg hno]
        rcases ih h.2 (fun c hc => hpos c (List.mem_cons_of_mem _ hc)) (by simpa using hf) with
          ⟨h0, hall⟩ | ⟨pre, c, post, rfl, hc⟩
        · left
          refine ⟨h0, fun c hc hcf => ?_⟩
          rcases List.mem_cons.1 hc with rfl | hc
          · exact not_le.1 fun hle => hfit ⟨hcf, hle⟩
          · exact hall c hc hcf
        · exact .inr ⟨b :: pre, c, post, rfl, hc⟩

theorem findFreeBlock_spec {s : Heap} {a : Nat} {bs : List Block} (h : Rep s a bs) (n : Nat) :
    (findFreeBlock s n = some 0 ∧ ∀ b ∈ bs, b.free = true → b.size < n) ∨
    (∃ pre b post, bs = pre ++ b :: post ∧ findFreeBlock s n = some b.addr ∧ b.free = true ∧ n ≤ b.size) := by
  have hl := tiles_length h.tiles
  unfold findFreeBlock
  rw [h.head]
  exact findFreeLoop_spec h.linked (fun b hb => (h.mem_bounds hb).1) (by omega)

/-- The walk in `free` stops before `b`, at the block linked to it. -/
theorem previousLoop_spec {m : Mem} {b : Block} {pre post : List Block} {prev fuel : Nat}
    (h : Linked m (pre ++ b :: post) 0) (hpos : ∀ c ∈ pre ++ b :: post, 0 < c.addr)
    (hne : ∀ c ∈ pre, c.addr ≠ b.addr) (hf : pre.length < fuel) :
    previousLoop m b.addr fuel prev (headAddr (pre ++ b :: post) 0) =
      some (if pre = [] then prev else lastAddr pre) := by
  have hstep : ∀ {k cur prev : Nat}, 0 < cur →
      previousLoop m b.addr (k + 1) prev cur =
        if cur = b.addr then some prev else previousLoop m b.addr k cur (next m cur) := by
    intro k cur prev hcur
    obtain ⟨c, rfl⟩ : ∃ c, cur = c + 1 := ⟨cur - 1, by omega⟩
    rfl
  induction pre generalizing prev fuel with
  | nil =>
    obtain ⟨k, rfl⟩ : ∃ k, fuel = k + 1 := ⟨fuel - 1, by simp at hf; omega⟩
    have hb := hpos b (by simp)
    simp only [List.nil_append, headAddr, if_true]
    rw [hstep hb, if_pos rfl]
  | cons c pre ih =>
    obtain ⟨k, rfl⟩ : ∃ k, fuel = k + 1 := ⟨fuel - 1, by simp at hf; omega⟩
    have hc := hpos c (by simp)
    have := @ih c.addr k h.2 (fun d hd => hpos d (List.mem_cons_of_mem _ hd))
      (fun d hd => hne d (List.mem_cons_of_mem _ hd)) (by simpa using hf)
    have hn : next m c.addr = headAddr (pre ++ b :: post) 0 := h.1.next
    show previousLoop m b.addr (k + 1) prev c.addr = _
    rw [hstep hc, if_neg (hne c (by simp)), hn, this]
    by_cases hp : pre = []
    · simp [hp]
    · simp [hp, lastAddr_cons hp]

end MiniLibc.Alloc
