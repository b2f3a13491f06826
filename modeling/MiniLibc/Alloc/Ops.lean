import MiniLibc.Alloc.Spec
/-!
# The calls follow the map

From a heap that satisfies `Inv`, `malloc`, `free`, `realloc` and `calloc` run
to a result, no size or address wraps, the heap they leave satisfies `Inv`
again, and its view is one the map allows.
-/
open MiniLibc.Memory Function

namespace MiniLibc.Alloc

/-! ## Frames and other blocks -/

/-- A step on one block keeps the bytes of every other. -/
theorem Rep.frame_other {s : Heap} {a n : Nat} {bs : List Block} {b c : Block} {m m' : Mem} (h : Rep s a bs)
    (hb : b ∈ bs) (hc : c ∈ bs) (hne : c.payload ≠ b.payload) (hf : Frame m m' b n)
    (hreq : c.requested ≤ c.size) : AgreeOn m m' c.payload (c.payload + c.requested) := by
  intro x hx hx'
  apply hf
  rcases h.disjoint hb hc with rfl | hd | hd
  · exact absurd rfl hne
  all_goals simp only [Block.payload, Block.stop, headerSize] at *; omega

/-- A write to the header of a block keeps the bytes of every block. -/
theorem Rep.header_other {s : Heap} {a : Nat} {bs : List Block} {b c : Block} {m m' : Mem} (h : Rep s a bs)
    (hb : b ∈ bs) (hc : c ∈ bs) (hm : ∀ x, x < b.addr ∨ b.addr + headerSize ≤ x → m' x = m x)
    (hreq : c.requested ≤ c.size) : AgreeOn m m' c.payload (c.payload + c.requested) := by
  by_cases hne : c.payload = b.payload
  · intro x hx hx'
    apply hm
    simp only [Block.payload, headerSize] at *
    omega
  · exact h.frame_other (n := 0) hb hc hne (frame_header hm) hreq

/-- The blocks around one have other addresses. -/
theorem Rep.around {s : Heap} {a : Nat} {pre post : List Block} {b c : Block} (h : Rep s a (pre ++ b :: post))
    (hc : c ∈ pre ∨ c ∈ post) : c.payload ≠ b.payload := by
  obtain ⟨-, hbp, hpre⟩ := List.pairwise_append.1 (tiles_pairwise h.tiles)
  rcases hc with hc | hc
  · have := hpre c hc b (by simp)
    simp only [Block.stop, Block.payload, headerSize] at *; omega
  · have := (List.pairwise_cons.1 hbp).1 c hc
    simp only [Block.stop, Block.payload, headerSize] at *; omega

/-- A heap whose live blocks are those of a valid heap, up to one that a call
has just handed out at `b`. -/
theorem Inv.install {s s' : Heap} {a a' : Nat} {bs pre post : List Block} {b : Block} (h : Inv s a bs)
    (h' : Rep s' a' (pre ++ b :: post)) (hf : b.free = false) (hreq : 1 ≤ b.requested ∧ b.requested ≤ b.size)
    (hpre : NoAdj pre) (hpost : NoAdj post)
    (hmem : ∀ c, c.free = false → c.payload ≠ b.payload → (c ∈ pre ∨ c ∈ post ↔ c ∈ bs))
    (hbytes : ∀ c ∈ bs, c.free = false → c.payload ≠ b.payload →
      AgreeOn s.mem s'.mem c.payload (c.payload + c.requested)) :
    Inv s' a' (pre ++ b :: post) ∧ view s'.mem (pre ++ b :: post) =
      update (view s.mem bs) b.payload (some (bytesAt s'.mem b.payload b.requested)) := by
  refine ⟨{ toRep := h', noAdj := (noAdj_live hf).2 ⟨hpre, hpost⟩, live := ?_ }, ?_⟩
  · intro c hc hcf
    rw [List.mem_append, List.mem_cons] at hc
    rcases or_left_comm.1 hc with rfl | hc
    · exact hreq
    · exact h.live c ((hmem c hcf (h'.around hc)).1 hc) hcf
  · refine view_update h.toRep h' (h'.view_of_mem (by simp) hf _) (fun c hcf hne => ?_) hbytes
    rw [← hmem c hcf hne, List.mem_append, List.mem_cons, or_left_comm]
    exact or_iff_right fun he => hne (he ▸ rfl)

theorem noAdj_mergeAt {b : Block} {post : List Block} (h : NoAdj post) : NoAdj (mergeAt b post) := by
  cases post with
  | nil => simp [mergeAt, noAdj_cons]
  | cons c post =>
    have hc := noAdj_cons.1 h
    by_cases hf : c.free = true
    · rw [mergeAt, if_pos hf, noAdj_cons]
      refine ⟨hc.1, fun hb => hc.2 ⟨hf, hb.2⟩⟩
    · rw [mergeAt, if_neg hf, noAdj_cons, headFree_cons]
      exact ⟨h, fun hb => hf hb.2⟩

/-- Merging a free block changes no live one. -/
theorem mem_mergeAt {b c : Block} {post : List Block} (hb : b.free = true) (hc : c.free = false) :
    c ∈ mergeAt b post ↔ c ∈ post := by
  have hne : ∀ d : Block, d.free = true → c ≠ d := fun d hd he => by rw [he, hd] at hc; contradiction
  cases post with
  | nil => simp [mergeAt, hne b hb]
  | cons d post =>
    by_cases hf : d.free = true
    · rw [mergeAt, if_pos hf]
      simp [hne d hf, hne _ (show ({ b with size := b.size + headerSize + d.size } : Block).free = true from hb)]
    · rw [mergeAt, if_neg hf]
      simp [hne b hb]

/-! ## `malloc` -/

/-- The blocks of a split: the first one keeps at least `n` bytes, and no other
is live. -/
theorem splitAt_cases {b : Block} {n : Nat} (post : List Block) (hn : n ≤ b.size) :
    ∃ k rest, splitAt b n post = { b with size := k } :: rest ∧ n ≤ k ∧
      (rest = post ∨ ∃ c, c.free = true ∧ rest = c :: post) := by
  unfold splitAt
  split
  · exact ⟨b.size, post, rfl, hn, .inl rfl⟩
  · exact ⟨n, _, rfl, Nat.le_refl _, .inr ⟨_, rfl, rfl⟩⟩

/-- The first fit: the free block is split and taken. -/
theorem malloc_fit {s : Heap} {a n k : Nat} {pre post : List Block} {b : Block} (h : Inv s a (pre ++ b :: post))
    (hbf : b.free = true) (hk : k ≤ b.size) (h16 : k % 16 = 0) (h0 : n ≠ 0) (hn : n ≤ k) :
    ∃ z s1 s' bs', splitBlock s b.addr k = some (z, s1) ∧
      setRequestedSize (setIsFree s1 b.addr 0) b.addr n = s' ∧ Inv s' a bs' ∧
      Malloced (view s.mem (pre ++ b :: post)) n b.payload (view s'.mem bs') := by
  have hb := h.mem_bounds (b := b) (by simp)
  have hbound := h.bound
  simp only [Block.stop, headerSize] at hb
  obtain ⟨m, t, hsplit, h1, hf1⟩ := splitBlock_spec h.toRep hk (by omega) h16
  obtain ⟨k', rest, hs, hkk, hrest⟩ := splitAt_cases post hk
  rw [hs] at h1
  generalize hs1 : ({ s with mem := m, blockTail := t } : Heap) = s1 at h1 hsplit
  have hm1 : s1.mem = m := by rw [← hs1]
  obtain ⟨c, hca, hcs, hcf, hcr⟩ : ∃ c : Block, c.addr = b.addr ∧ c.size = k' ∧ c.free = false ∧ c.requested = n :=
    ⟨⟨b.addr, k', false, n⟩, rfl, rfl, rfl, rfl⟩
  have h2 : Rep (setRequestedSize (setIsFree s1 b.addr 0) b.addr n) a (pre ++ c :: rest) := by
    have := (h1.setFree false).setRequested (v := n) (by omega)
    rwa [show c = ⟨b.addr, k', false, n⟩ by rw [← hca, ← hcs, ← hcf, ← hcr]]
  obtain ⟨hpre, hpost, -⟩ := noAdj_append_cons.1 h.noAdj
  rw [noAdj_cons] at hpost
  have hne : ∀ c d : Block, c.free = false → d.free = true → c ≠ d := fun c d hc hd he => by
    rw [he, hd] at hc; contradiction
  have hmem : ∀ c : Block, c.free = false → (c ∈ pre ∨ c ∈ rest ↔ c ∈ pre ++ b :: post) := by
    intro c hc
    rcases hrest with rfl | ⟨d, hd, rfl⟩
    · simp [hne c b hc hbf]
    · simp [hne c b hc hbf, hne c d hc hd]
  have hadj : NoAdj rest := by
    rcases hrest with rfl | ⟨d, hd, rfl⟩
    · exact hpost.1
    · exact noAdj_cons.2 ⟨hpost.1, fun hh => hpost.2 ⟨hbf, hh.2⟩⟩
  have hf2 : Frame s.mem (setRequestedSize (setIsFree s1 b.addr 0) b.addr n).mem b 0 :=
    (hf1.mono rfl (Nat.le_refl _) (Nat.zero_le _)).trans (frame_header fun x hx => by
      simp only [headerSize] at hx
      rw [← hm1]
      exact (store_out (by omega)).trans (store_out (by omega)))
  obtain ⟨hi, hv⟩ := h.install h2 hcf (by omega) hpre hadj (fun d hd _ => hmem d hd) fun d hd hdf hdp =>
    h.frame_other (b := b) (by simp) hd (fun he => hdp (by simp only [Block.payload, hca] at he ⊢; exact he)) hf2
      (h.live d hd hdf).2
  have hpay : c.payload = b.payload := by simp only [Block.payload, hca]
  refine ⟨_, _, _, _, hsplit, rfl, hi, ?_⟩
  rw [hv, hpay]
  refine .block h0 (by simp only [Block.payload, headerSize]; omega) (view_none fun d hd hdf => ?_) (by simp [hcr])
  rw [← hpay]
  exact h2.around ((hmem d hdf).2 hd)

theorem malloc_spec {s : Heap} {a n : Nat} {bs : List Block} (h : Inv s a bs) (hn : n < 2 ^ 64) :
    ∃ r s' a' bs', malloc s n = some (r, s') ∧ Inv s' a' bs' ∧
      Malloced (view s.mem bs) n r (view s'.mem bs') := by
  unfold malloc
  by_cases h0 : n = 0
  · rw [if_pos h0]; exact ⟨0, s, a, bs, rfl, h, .null⟩
  rw [if_neg h0]
  rcases alignSize_spec n with hal | ⟨k, hal, hle, h16, hk⟩
  · rw [hal]
    exact ⟨0, _, a, bs, rfl, { h with toRep := h.setErrno _ }, .null⟩
  rw [hal, some_bind]
  dsimp only
  rcases findFreeBlock_spec h.toRep k with ⟨hfind, -⟩ | ⟨pre, b, post, rfl, hfind, hbf, hbk⟩
  · rw [hfind, some_bind, if_neg (by simp)]
    rcases growHeap_spec h.toRep (show 0 < k by omega) h16 with
      ⟨s1, a1, hg, h1, hm1⟩ | ⟨s1, a1, c, hg, h1, hck, hcf, hcr, hm1⟩
    · rw [hg]
      exact ⟨0, _, a1, bs, rfl, { toRep := h1.setErrno _, noAdj := h.noAdj, live := h.live }, hm1 ▸ .null⟩
    · rw [hg, some_bind]
      dsimp only
      have hcpos := h1.mem_bounds (b := c) (by simp)
      have hbound := h1.bound
      simp only [Block.stop, headerSize] at hcpos
      rw [if_pos (by omega), add64_eq (by simp only [headerSize]; omega), some_bind]
      have h2 := h1.setRequested (v := n) hn
      obtain ⟨hi, hv⟩ := h.install h2 hcf (by simp only; omega) h.noAdj noAdj_nil (fun d _ _ => by simp)
        fun d hd hdf _ => by
          have hreq := (h.live d hd hdf).2
          refine ((hm1 d hd).mono (Nat.le_refl _) (by simp only [Block.payload, Block.stop]; omega)).trans ?_
          exact h1.header_other (b := c) (by simp) (by simp [hd])
            (fun x hx => store_out (by simp only [headerSize] at hx; omega)) hreq
      refine ⟨_, _, _, _, rfl, hi, ?_⟩
      rw [hv]
      exact .block h0 (by simp only [headerSize]; omega) (view_none fun d hd _ => h2.around (.inl hd)) (by simp)
  · rw [hfind, some_bind]
    have hb := h.mem_bounds (b := b) (by simp)
    have hbound := h.bound
    simp only [Block.stop, headerSize] at hb
    obtain ⟨z, s1, s', bs', hsplit, rfl, hi, hv⟩ := malloc_fit h hbf hbk h16 h0 hle
    rw [if_pos (by omega), hsplit, some_bind]
    dsimp only
    rw [add64_eq (by simp only [headerSize]; omega), some_bind]
    exact ⟨_, _, a, bs', rfl, hi, hv⟩

/-! ## `free` -/

/-- A heap whose live blocks are those of a valid heap but for the one at `q`. -/
theorem Inv.retire {s s' : Heap} {a a' q : Nat} {bs bs' : List Block} (h : Inv s a bs) (h' : Rep s' a' bs')
    (hadj : NoAdj bs') (hmem : ∀ c, c.free = false → (c ∈ bs' ↔ c ∈ bs ∧ c.payload ≠ q))
    (hbytes : ∀ c ∈ bs, c.free = false → AgreeOn s.mem s'.mem c.payload (c.payload + c.requested)) :
    Inv s' a' bs' ∧ view s'.mem bs' = update (view s.mem bs) q none := by
  refine ⟨{ toRep := h', noAdj := hadj, live := fun c hc hf => h.live c ((hmem c hf).1 hc).1 hf }, ?_⟩
  refine view_update h.toRep h' (view_none fun c hc hf => ((hmem c hf).1 hc).2) (fun c hf hne => ?_)
    fun c hc hf _ => hbytes c hc hf
  rw [hmem c hf]
  exact and_iff_left hne

/-- Merging a freed block forward leaves a free block at its address, whose
neighbour is not free. -/
theorem mergeAt_cons {b : Block} {post : List Block} (hb : b.free = true) (h : NoAdj post) :
    ∃ x rest, mergeAt b post = x :: rest ∧ x.addr = b.addr ∧ x.free = true ∧ NoAdj rest ∧ headFree rest = false := by
  cases post with
  | nil => exact ⟨b, [], rfl, rfl, hb, noAdj_nil, rfl⟩
  | cons c post =>
    by_cases hf : c.free = true
    · have hc := noAdj_cons.1 h
      rw [mergeAt, if_pos hf]
      exact ⟨_, post, rfl, rfl, hb, hc.1, by simpa using fun hp => hc.2 ⟨hf, hp⟩⟩
    · rw [mergeAt, if_neg hf]
      exact ⟨b, c :: post, rfl, rfl, hb, h, by simpa using hf⟩

theorem free_spec {s : Heap} {a : Nat} {pre post : List Block} {b : Block} (h : Inv s a (pre ++ b :: post))
    (hbf : b.free = false) :
    ∃ s' bs', free s b.payload = some s' ∧ Inv s' a bs' ∧
      view s'.mem bs' = update (view s.mem (pre ++ b :: post)) b.payload none := by
  have hb := h.mem_bounds (b := b) (by simp)
  obtain ⟨hpre, hpost⟩ := (noAdj_live hbf).1 h.noAdj
  -- First the block is marked free and merged forward.
  have h0 := h.setFree true
  obtain ⟨m1, t1, hmerge, h1, hm1⟩ := mergeWithNext_spec h0
  generalize hs0 : setIsFree s b.addr true.toNat = s0 at hmerge h0 h1 hm1
  generalize hs1 : ({ s0 with mem := m1, blockTail := t1 } : Heap) = s1 at hmerge h1
  have hmem1 : s1.mem = m1 := by rw [← hs1]
  have hhead : ∀ x, x < b.addr ∨ b.addr + headerSize ≤ x → s1.mem x = s.mem x := by
    intro x hx
    rw [hmem1, hm1 x hx, ← hs0]
    exact store_out (by simp only [headerSize] at hx; omega)
  have hlive : ∀ c : Block, c.free = false → (c ∈ pre ++ mergeAt { b with free := true } post ↔
      c ∈ pre ++ b :: post ∧ c.payload ≠ b.payload) := by
    intro c hc
    rw [List.mem_append, mem_mergeAt rfl hc, List.mem_append, List.mem_cons]
    constructor
    · intro hp; exact ⟨hp.elim .inl fun hp => .inr (.inr hp), h.around hp⟩
    · rintro ⟨hp | rfl | hp, hne⟩
      · exact .inl hp
      · exact absurd rfl hne
      · exact .inr hp
  obtain ⟨x, rest, hx, hxa, hxf, hrest, hhf⟩ := mergeAt_cons (b := { b with free := true }) rfl hpost
  rw [hx] at h1 hlive
  have hadj : NoAdj (x :: rest) := noAdj_cons.2 ⟨hrest, by simp [hhf]⟩
  -- Then the walk finds the block before it.
  have hprev : previousLoop s1.mem b.addr s1.heapEnd 0 s1.blockHead = some (if pre = [] then 0 else lastAddr pre) := by
    have hl := tiles_length h1.tiles
    rw [h1.head, ← hxa]
    refine previousLoop_spec h1.linked (fun c hc => (h1.mem_bounds hc).1) (fun c hc he => ?_) ?_
    · exact h1.around (.inl hc) (by simp only [Block.payload, he])
    · simp only [List.length_append, List.length_cons] at hl; omega
  unfold free
  rw [if_neg (by simp only [Block.payload, headerSize]; omega),
    sub64_eq (by simp only [Block.payload]; omega), some_bind, Block.payload, Nat.add_sub_cancel]
  dsimp only
  rw [show setIsFree s b.addr 1 = s0 from hs0, hmerge, some_bind, hprev, some_bind]
  have hdone : NoAdj (pre ++ x :: rest) → Inv s1 a (pre ++ x :: rest) ∧
      view s1.mem (pre ++ x :: rest) = update (view s.mem (pre ++ b :: post)) b.payload none := fun hn =>
    h.retire h1 hn hlive fun c hc hf => h.header_other (b := b) (by simp) hc hhead (h.live c hc hf).2
  rcases List.eq_nil_or_concat' pre with rfl | ⟨pre, q, rfl⟩
  · rw [if_pos rfl, if_pos (.inl rfl)]
    exact ⟨_, _, rfl, hdone hadj⟩
  · have happ : pre ++ [q] ++ x :: rest = pre ++ q :: x :: rest := by simp
    have hq := h1.mem_bounds (b := q) (by simp)
    have h1q : Rep s1 a (pre ++ q :: x :: rest) := happ ▸ h1
    rw [if_neg (show ¬ pre ++ [q] = [] by simp), lastAddr_append (by simp), lastAddr_singleton, h1q.header.free]
    cases hqf : q.free with
    | false =>
      rw [if_pos (.inr rfl)]
      exact ⟨_, _, rfl, hdone (noAdj_append_cons.2 ⟨hpre, hadj, by simp [hqf]⟩)⟩
    | true =>
      have hnext : blocksAdjacent s1.mem q.addr b.addr = some true := by
        rw [← show x.addr = b.addr from hxa]; exact blocksAdjacent_spec h1q
      rw [if_neg (by simp; omega), hnext, some_bind, if_neg (by simp)]
      obtain ⟨m2, t2, hmerge2, h2, hm2⟩ := mergeWithNext_spec h1q
      refine ⟨_, _, hmerge2, h.retire h2 ?_ (fun c hc => ?_) fun c hc hf => ?_⟩
      · obtain ⟨hp, -, hlast⟩ := noAdj_append_cons.1 hpre
        rw [mergeAt, if_pos hxf]
        exact noAdj_append_cons.2 ⟨hp, noAdj_cons.2 ⟨hrest, by simp [hhf]⟩, hlast⟩
      · have hcq : c ≠ q := fun he => by rw [he, hqf] at hc; contradiction
        refine Iff.trans ?_ (hlive c hc)
        rw [List.mem_append, mem_mergeAt hqf hc]
        simp [hcq]
      · have hreq := (h.live c hc hf).2
        exact (h.header_other (b := b) (by simp) hc hhead hreq).trans
          (h.header_other (b := q) (by simp) hc hm2 hreq)

end MiniLibc.Alloc
