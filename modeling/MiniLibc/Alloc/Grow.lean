import MiniLibc.Alloc.Steps
/-!
# Growing the heap

Rounding sizes, finding the first break, and the two ways the heap grows: a new
block at the end (`grow_heap`), or a longer last block (the tail paths of
`realloc`). Each asks the kernel for a new break, which may refuse.
-/
open MiniLibc.Memory

namespace MiniLibc.Alloc

/-! ## Rounding -/

/-- Masking the four low bits rounds down to a multiple of 16. -/
theorem and_mask {x : Nat} (h : x < 2 ^ 64) : x &&& (sizeMax - (alignment - 1)) = 16 * (x / 16) := by
  have hm : sizeMax - (alignment - 1) = 2 ^ 64 - (15 + 1) := by decide
  apply Nat.eq_of_testBit_eq
  intro i
  rw [hm, Nat.testBit_and, Nat.testBit_two_pow_sub_succ (by norm_num), show (16 : Nat) = 2 ^ 4 by rfl,
    Nat.testBit_two_pow_mul, Nat.testBit_div_two_pow, show (15 : Nat) = 2 ^ 4 - 1 by rfl,
    Nat.testBit_two_pow_sub_one]
  by_cases hi : i < 4
  · simp [hi]
  · by_cases hi' : i < 64
    · simp [hi, hi', show 4 ≤ i by omega, Nat.sub_add_cancel (show 4 ≤ i by omega)]
    · rw [Nat.testBit_lt_two_pow (lt_of_lt_of_le h (Nat.pow_le_pow_right (by omega) (by omega)))]
      rw [Nat.sub_add_cancel (by omega), Nat.testBit_lt_two_pow (lt_of_lt_of_le h (Nat.pow_le_pow_right (by omega) (by omega)))]
      simp

theorem roundUp_spec {x : Nat} (h : x ≤ sizeMax - (alignment - 1)) :
    ∃ y, roundUp x = some y ∧ x ≤ y ∧ y < x + 16 ∧ y % 16 = 0 ∧ y < 2 ^ 64 := by
  simp only [sizeMax, alignment] at h
  have hs : x + (alignment - 1) < 2 ^ 64 := by simp only [alignment]; omega
  refine ⟨16 * ((x + 15) / 16), ?_, by omega, by omega, by omega, by omega⟩
  unfold roundUp
  rw [add64_eq hs]
  exact congrArg some (and_mask hs)

/-- `align_size` fails only on sizes it cannot round up. -/
theorem alignSize_spec (n : Nat) :
    alignSize n = some none ∨
      ∃ k, alignSize n = some (some k) ∧ n ≤ k ∧ k % 16 = 0 ∧ k < 2 ^ 64 := by
  unfold alignSize
  split
  · exact .inl rfl
  · obtain ⟨y, hy, h1, -, h2, h3⟩ := roundUp_spec (not_lt.1 ‹_›)
    exact .inr ⟨y, by rw [hy]; rfl, h1, h2, h3⟩

/-! ## The break -/

theorem sysBrk_query (s : Heap) : sysBrk s 0 = (s.brk, s) := rfl

/-- The kernel's answer to a request. -/
theorem sysBrk_request (s : Heap) {addr : Nat} (h : addr ≠ 0) :
    ∃ g, sysBrk s addr = (addr, { s with brk := addr, grants := g }) ∨
      sysBrk s addr = (s.brk, { s with grants := g }) := by
  unfold sysBrk
  rw [if_neg h]
  rcases hg : s.grants with _ | ⟨_ | _, g⟩
  · exact ⟨s.grants, .inr rfl⟩
  · exact ⟨g, .inr rfl⟩
  · exact ⟨g, .inl rfl⟩

theorem Rep.setGrants {s : Heap} {a : Nat} {bs : List Block} (h : Rep s a bs) (g : List Bool) :
    Rep { s with grants := g } a bs :=
  { h with }

theorem Rep.setErrno {s : Heap} {a : Nat} {bs : List Block} (h : Rep s a bs) (e : Errno) :
    Rep { s with errno := e } a bs :=
  { h with }

theorem initializeHeap_spec {s : Heap} {a : Nat} {bs : List Block} (h : Rep s a bs) :
    ∃ r s' a', initializeHeap s = some (r, s') ∧ Rep s' a' bs ∧ s'.mem = s.mem ∧
      (r = true → s'.heapInitialized = true) := by
  unfold initializeHeap
  cases hi : s.heapInitialized with
  | true => exact ⟨true, s, a, rfl, h, rfl, fun _ => hi⟩
  | false =>
    have hbs := h.fresh hi
    subst hbs
    have hbrk := h.brk_bound
    rw [if_neg Bool.false_ne_true, sysBrk_query]
    by_cases h1 : s.brk = 0 ∨ 2 ^ 63 ≤ s.brk
    · exact ⟨false, s, a, if_pos h1, h, rfl, by simp⟩
    by_cases h2 : s.brk > sizeMax - (alignment - 1)
    · exact ⟨false, s, a, (if_neg h1).trans (if_pos h2), h, rfl, by simp⟩
    dsimp only
    rw [if_neg h1, if_neg h2]
    obtain ⟨y, hy, hle, -, h16, hlt⟩ := roundUp_spec (not_lt.1 h2)
    -- The first aligned break becomes both ends of an empty heap.
    have hrep : ∀ g, Rep { s with heapEnd := y, heapInitialized := true, brk := y, grants := g } y [] := fun g => {
      tiles := rfl
      linked := trivial
      head := h.head
      tail := h.tail
      sized := by simp [Sized]
      aligned := h16
      bound := hlt
      brk_bound := hlt
      ready := fun _ => ⟨rfl, by show 0 < y; omega⟩
      fresh := fun hf => by simp at hf }
    rw [hy, Option.bind_eq_bind, Option.bind_some]
    by_cases he : y = s.brk
    · rw [if_pos he]
      have := hrep s.grants
      rw [show ({ s with heapEnd := y, heapInitialized := true, brk := y, grants := s.grants } : Heap) =
        { s with heapEnd := y, heapInitialized := true } by rw [he]] at this
      exact ⟨true, _, y, rfl, this, rfl, fun _ => rfl⟩
    · rw [if_neg he]
      obtain ⟨g, hg | hg⟩ := sysBrk_request s (show y ≠ 0 by omega)
      · rw [hg]
        exact ⟨true, _, y, if_neg (not_not.2 rfl), hrep g, rfl, fun _ => rfl⟩
      · rw [hg]
        exact ⟨false, _, a, if_pos (Ne.symm he), h.setGrants g, rfl, by simp⟩

/-! ## A longer list -/

/-- Replace the last blocks by some that reach a new end of the heap. -/
theorem Rep.grow {s : Heap} {a x e head : Nat} (pre mid mid' : List Block) {m : Mem} {g : List Bool}
    (h : Rep s a (pre ++ mid)) (hx : Tiles a pre x) (hmid' : Tiles x mid' e) (hne' : mid' ≠ [])
    (hne : pre ≠ [] → mid ≠ []) (hi : s.heapInitialized = true) (hbound : e < 2 ^ 64) (hlink : Linked m mid' 0)
    (hsized : Sized mid') (hlo : AgreeOn s.mem m a x) (hhead : head = headAddr (pre ++ mid') 0) :
    Rep { s with mem := m, blockHead := head, blockTail := lastAddr mid', heapEnd := e, brk := e, grants := g }
      a (pre ++ mid') := by
  obtain ⟨x', hx', hmid⟩ := (tiles_append _ _).1 h.tiles
  obtain rfl := tiles_end hx' hx
  obtain ⟨hl1, -⟩ := (linked_append _ _).1 h.linked
  have hpre : Linked m pre (headAddr mid' 0) := by
    by_cases hp : pre = []
    · subst hp; trivial
    · rw [headAddr_tiles hmid' hne', ← headAddr_tiles (q := 0) hmid (hne hp)]
      exact hl1.congr hx hlo
  exact {
    tiles := (tiles_append _ _).2 ⟨x', hx, hmid'⟩
    linked := (linked_append _ _).2 ⟨hpre, hlink⟩
    head := hhead
    tail := (lastAddr_append hne').symm
    sized := fun c hc => (List.mem_append.1 hc).elim (fun hc => h.sized c (by simp [hc])) (hsized c)
    aligned := h.aligned
    bound := hbound
    brk_bound := hbound
    ready := fun _ => ⟨rfl, (h.ready hi).2⟩
    fresh := fun hf => by rw [hi] at hf; contradiction }

theorem appendBlock_eq (s : Heap) (e n : Nat) :
    appendBlock s e n = { s with
      mem := if s.blockTail ≠ 0 then store (writeHeader s.mem ⟨e, n, false, 0⟩ 0) (s.blockTail + 8) 8 e
        else writeHeader s.mem ⟨e, n, false, 0⟩ 0
      blockHead := if s.blockTail ≠ 0 then s.blockHead else e
      blockTail := e } := by
  unfold appendBlock
  by_cases ht : s.blockTail = 0 <;> simp [ht, setSize, setNext, setIsFree, setRequestedSize, writeHeader]

/-- The appended block joins the list. Only the link of the block before it is
rewritten. -/
theorem appendBlock_spec {s : Heap} {a n e : Nat} {bs : List Block} {g : List Bool} (h : Rep s a bs)
    (hi : s.heapInitialized = true) (hn : 0 < n) (h16 : n % 16 = 0) (he : e = s.heapEnd + (headerSize + n))
    (hbound : e < 2 ^ 64) {c : Block} (hc : c = ⟨s.heapEnd, n, false, 0⟩) :
    ∃ s', appendBlock { s with brk := e, grants := g } s.heapEnd n = s' ∧
      Rep { s' with heapEnd := e } a (bs ++ [c]) ∧ ∀ b ∈ bs, AgreeOn s.mem s'.mem b.payload b.stop := by
  refine ⟨_, appendBlock_eq _ _ _, ?_⟩
  dsimp only
  rw [← hc]
  have hcn : c.addr = s.heapEnd := by rw [hc]
  have hcz : c.size = n := by rw [hc]
  have hcr : c.requested = 0 := by rw [hc]
  have hpos := (h.ready hi).2
  simp only [headerSize] at he
  have hsized : 0 < c.size ∧ c.size % 16 = 0 := by omega
  have hstop : c.stop = e := by simp only [Block.stop, hcn, hcz, headerSize]; omega
  have hw : Header (writeHeader s.mem c 0) c 0 := header_write (by omega) (by omega) (by omega)
  have hwm : ∀ x, x < s.heapEnd → writeHeader s.mem c 0 x = s.mem x := fun x hx =>
    writeHeader_out (.inl (by omega))
  rcases List.eq_nil_or_concat' bs with rfl | ⟨pre, l, rfl⟩
  · have ht : s.blockTail = 0 := h.tail
    rw [if_neg (by simp [ht]), if_neg (by simp [ht])]
    refine ⟨?_, by simp⟩
    have := Rep.grow (g := g) [] [] [c] h h.tiles ⟨hcn, hstop⟩ (by simp) (by simp) hi hbound ⟨hw, trivial⟩
      (by simpa [Sized] using hsized) (fun x _ hx => hwm x (by omega)) rfl
    simpa [headAddr, hcn] using this
  · have hl := h.mem_bounds (b := l) (by simp)
    have ht : s.blockTail = l.addr := h.tail_iff.2 rfl
    have hlh : Header s.mem l 0 := h.header
    obtain ⟨x, hx, hrest⟩ := (tiles_append pre [l]).1 h.tiles
    have hxl : l.addr = x := hrest.1
    have hle : l.stop = s.heapEnd := hrest.2
    simp only [Block.stop, headerSize] at hl hle
    rw [if_pos (by omega), if_pos (by omega), ht]
    have hl2 : Header (store (writeHeader s.mem c 0) (l.addr + 8) 8 s.heapEnd) l c.addr := by
      rw [hcn]
      exact (hlh.congr fun y _ hy => hwm y (by simp only [headerSize] at hy; omega)).setNext (by omega)
    have hc2 : Header (store (writeHeader s.mem c 0) (l.addr + 8) 8 s.heapEnd) c 0 :=
      hw.congr fun y hy _ => store_out (by omega)
    constructor
    · have := Rep.grow (g := g) pre [l] [l, c] h hx
        ⟨hxl, by simp only [Block.stop, headerSize]; omega, hstop⟩ (by simp) (by simp) hi hbound ⟨hl2, hc2, trivial⟩ ?_ ?_
        (h.head.trans (by cases pre <;> rfl))
      · simpa [hcn, lastAddr] using this
      · have := h.sized l (by simp)
        simp only [Sized, List.mem_cons, List.not_mem_nil, or_false]
        rintro d (rfl | rfl)
        · exact this
        · exact hsized
      · exact fun y _ hy => by rw [store_out (by omega), hwm y (by omega)]
    · intro b hb y hy hy'
      have hb1 := h.mem_bounds hb
      have hdis := h.disjoint hb (show l ∈ pre ++ [l] by simp)
      simp only [Block.stop, Block.payload, headerSize] at hb1 hdis hy hy'
      rw [store_out ?_, hwm y (by omega)]
      rcases hdis with rfl | hdis <;> omega

/-- What `grow_heap` leaves: nothing new, or one more block at the end, outside
all others. -/
theorem growHeap_spec {s : Heap} {a n : Nat} {bs : List Block} (h : Rep s a bs) (hn : 0 < n)
    (h16 : n % 16 = 0) :
    (∃ s' a', growHeap s n = some (0, s') ∧ Rep s' a' bs ∧ s'.mem = s.mem) ∨
    (∃ s' a' c, growHeap s n = some (c.addr, s') ∧ Rep s' a' (bs ++ [c]) ∧ c.size = n ∧ c.free = false ∧
      c.requested = 0 ∧ ∀ b ∈ bs, AgreeOn s.mem s'.mem b.payload b.stop) := by
  obtain ⟨r, s1, a', hinit, h1, hmem, hr⟩ := initializeHeap_spec h
  unfold growHeap
  rw [hinit, some_bind]
  dsimp only
  cases r with
  | false => exact .inl ⟨s1, a', rfl, h1, hmem⟩
  | true =>
    have hi := hr rfl
    have hpos := (h1.ready hi).2
    by_cases hbig : n > sizeMax - headerSize
    · exact .inl ⟨s1, a', if_pos hbig, h1, hmem⟩
    have hlen : headerSize + n < 2 ^ 64 := by simp only [sizeMax, headerSize] at *; omega
    rw [if_neg (by simp), if_neg hbig, add64_eq hlen, some_bind]
    by_cases hfull : s1.heapEnd > sizeMax - (headerSize + n)
    · exact .inl ⟨s1, a', if_pos hfull, h1, hmem⟩
    have hend : s1.heapEnd + (headerSize + n) < 2 ^ 64 := by simp only [sizeMax] at hfull; omega
    rw [if_neg hfull, add64_eq hend, some_bind]
    obtain ⟨g, hg | hg⟩ := sysBrk_request s1 (show s1.heapEnd + (headerSize + n) ≠ 0 by
      simp only [headerSize]; omega)
    · rw [hg]
      dsimp only
      obtain ⟨s2, ha, h2, hf⟩ := appendBlock_spec (g := g) h1 hi hn h16 rfl hend rfl
      rw [if_neg (not_not.2 rfl), ha]
      exact .inr ⟨_, a', _, rfl, h2, rfl, rfl, rfl, fun b hb => hmem ▸ hf b hb⟩
    · rw [hg]
      dsimp only
      have hne : s1.brk ≠ s1.heapEnd + (headerSize + n) := by
        rw [(h1.ready hi).1]; simp only [headerSize]; omega
      exact .inl ⟨_, a', if_pos hne, h1.setGrants g, hmem⟩

/-! ## A longer last block -/

/-- `realloc`'s request for a longer heap is granted or changes nothing. -/
theorem extendHeap_spec {s : Heap} {growth : Nat} (hpos : 0 < growth) (hlt : growth < 2 ^ 64)
    (hbrk : s.brk = s.heapEnd) :
    ∃ g, extendHeap s growth = some (false, { s with grants := g }) ∨
      (s.heapEnd + growth < 2 ^ 64 ∧ extendHeap s growth =
        some (true, { s with heapEnd := s.heapEnd + growth, brk := s.heapEnd + growth, grants := g })) := by
  unfold extendHeap
  by_cases hle : s.heapEnd ≤ sizeMax - growth
  · have hend : s.heapEnd + growth < 2 ^ 64 := by simp only [sizeMax] at hle; omega
    rw [if_pos hle, add64_eq hend, some_bind]
    obtain ⟨g, hg | hg⟩ := sysBrk_request s (show s.heapEnd + growth ≠ 0 by omega)
    · exact ⟨g, .inr ⟨hend, by rw [hg]; exact if_pos rfl⟩⟩
    · exact ⟨g, .inl (by rw [hg]; exact if_neg (by omega))⟩
  · exact ⟨s.grants, .inl (if_neg hle)⟩

/-- `merge_with_next` does not look at the end of the heap. -/
theorem mergeWithNext_end (s : Heap) (block e brk : Nat) (g : List Bool) :
    mergeWithNext { s with heapEnd := e, brk := brk, grants := g } block =
      (mergeWithNext s block).map fun s => { s with heapEnd := e, brk := brk, grants := g } := by
  unfold mergeWithNext
  dsimp only
  split
  · rfl
  · cases hadj : blocksAdjacent s.mem block (next s.mem block) with
    | none => rfl
    | some adj =>
      cases adj with
      | false => rfl
      | true =>
        rw [some_bind, some_bind]
        cases add64 headerSize (size s.mem (next s.mem block)) with
        | none => rfl
        | some extra =>
          rw [some_bind, some_bind]
          cases add64 (size s.mem block) extra with
          | none => rfl
          | some total =>
            simp only [Bool.not_true, Bool.false_eq_true, if_false, some_bind, setSize, setNext, Option.map_some]
            by_cases ht : s.blockTail = next s.mem block <;> simp [ht]

end MiniLibc.Alloc
