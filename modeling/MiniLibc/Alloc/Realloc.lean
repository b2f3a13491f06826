import MiniLibc.Alloc.Ops
/-!
# The paths of `realloc`

In place, by splitting what is there, by taking in the free block behind, or by
moving the end of the heap; and by a copy. Each path ends in one of `Inv.resize`
(the same pointer, another size) or `reallocMove_spec`.
-/
open MiniLibc.Memory Function

namespace MiniLibc.Alloc

/-! ## One pointer, another size -/

/-- A heap in which only the live block `b` changed: it is now `b'`, at the same
address, and starts with the same bytes. -/
theorem Inv.resize {s s' : Heap} {a a' n : Nat} {bs pre post : List Block} {b b' : Block} (h : Inv s a bs)
    (hb : b ∈ bs) (hbf : b.free = false) (h' : Rep s' a' (pre ++ b' :: post)) (ha : b'.addr = b.addr)
    (hf : b'.free = false) (hr : b'.requested = n) (hn : 1 ≤ n ∧ n ≤ b'.size) (hpre : NoAdj pre) (hpost : NoAdj post)
    (hmem : ∀ c, c.free = false → c.payload ≠ b.payload → (c ∈ pre ∨ c ∈ post ↔ c ∈ bs))
    (hbytes : ∀ c ∈ bs, c.free = false → c.payload ≠ b.payload →
      AgreeOn s.mem s'.mem c.payload (c.payload + c.requested))
    (hkeep : AgreeOn s.mem s'.mem b.payload (b.payload + min b.requested n)) :
    Inv s' a' (pre ++ b' :: post) ∧
      Realloced (view s.mem bs) b.payload n b.payload (view s'.mem (pre ++ b' :: post)) := by
  have hpay : b'.payload = b.payload := by simp only [Block.payload, ha]
  obtain ⟨hi, hv⟩ := h.install h' hf (hr ▸ hn) hpre hpost (hpay ▸ hmem) (hpay ▸ hbytes)
  refine ⟨hi, ?_⟩
  have hidem : ∀ l, update (view s.mem bs) b.payload (some l) =
      update (update (view s.mem bs) b.payload none) b.payload (some l) := fun l => (update_idem _ _ _).symm
  rw [hv, hpay, hr, hidem]
  refine .block (by simp only [Block.payload, headerSize]; omega) (h.view_of_mem hb hbf _) (.inl rfl) (by simp) ?_
  rw [bytesAt_length, bytesAt_take _ _ (Nat.min_le_right _ _), bytesAt_take _ _ (Nat.min_le_left _ _)]
  exact bytesAt_congr hkeep

/-- A write inside a live block. -/
theorem Inv.write {s : Heap} {a : Nat} {bs : List Block} {b : Block} {m : Mem} (h : Inv s a bs) (hb : b ∈ bs)
    (hbf : b.free = false) (hm : ∀ x, x < b.payload ∨ b.payload + b.requested ≤ x → m x = s.mem x) :
    Inv { s with mem := m } a bs ∧
      view m bs = update (view s.mem bs) b.payload (some (bytesAt m b.payload b.requested)) := by
  have hreq := (h.live b hb hbf).2
  obtain ⟨pre, post, rfl⟩ := List.append_of_mem hb
  obtain ⟨hpre, hpost⟩ := (noAdj_live hbf).1 h.noAdj
  have hf : Frame s.mem m b 0 := by
    intro x hx
    apply hm
    simp only [Block.payload, Block.stop, headerSize] at *
    omega
  have h' : Rep { s with mem := m } a (pre ++ b :: post) :=
    h.replaceOne rfl rfl (h.header.congr fun x _ hx => hm x (.inl hx)) hf
  refine @Inv.install s { s with mem := m } a a _ _ _ b h h' hbf (h.live b hb hbf) hpre hpost (fun c _ hne => ?_)
    fun c hc hcf hne => h.frame_other hb hc hne hf (h.live c hc hcf).2
  rw [List.mem_append, List.mem_cons, or_left_comm]
  exact (or_iff_right fun he : c = b => hne (he ▸ rfl)).symm

/-! ## In place -/

/-- The end of the in-place paths: what `b` has beyond `k` bytes is split off
and merged forward. -/
theorem shrinkTo_spec {s : Heap} {a n k : Nat} {pre post : List Block} {b : Block}
    (h : Rep s a (pre ++ b :: post)) (hk : k ≤ b.size) (h16 : k % 16 = 0) (hn : 1 ≤ n ∧ n ≤ k) (hpost : NoAdj post) :
    ∃ s' k' rest, shrinkTo s b.addr k n = some s' ∧
      Rep s' a (pre ++ { b with size := k', requested := n } :: rest) ∧ k ≤ k' ∧ NoAdj rest ∧
      (∀ c, c.free = false → (c ∈ rest ↔ c ∈ post)) ∧ Frame s.mem s'.mem b k := by
  have hb := h.mem_bounds (b := b) (by simp)
  have hbound := h.bound
  simp only [Block.stop, headerSize] at hb
  obtain ⟨m, t, hsplit, h1, hf1⟩ := splitBlock_spec h hk (by omega) h16
  unfold shrinkTo
  rw [hsplit, some_bind]
  dsimp only
  by_cases hsmall : b.size - k < headerSize + alignment
  · rw [splitAt, if_pos hsmall] at h1
    rw [if_pos hsmall, if_neg (by simp), some_bind]
    have h2 := h1.setRequested (v := n) (by omega)
    refine ⟨_, b.size, post, rfl, h2, hk, hpost, fun _ _ => Iff.rfl, hf1.trans (frame_header fun x hx => ?_)⟩
    exact store_out (by simp only [headerSize] at hx; omega)
  · rw [splitAt, if_neg hsmall] at h1
    rw [if_neg hsmall, if_pos (by simp only [Block.payload, headerSize]; omega)]
    obtain ⟨c, hca, hcs, hcf, hc⟩ : ∃ c : Block, c.addr = b.payload + k ∧ c.size = b.size - k - headerSize ∧
        c.free = true ∧ c = ⟨b.payload + k, b.size - k - headerSize, true, 0⟩ := ⟨_, rfl, rfl, rfl, rfl⟩
    rw [← hc] at h1
    have h1' : Rep { s with mem := m, blockTail := t } a ((pre ++ [{ b with size := k }]) ++ c :: post) := by
      simpa using h1
    obtain ⟨m2, t2, hmerge, h2, hm2⟩ := mergeWithNext_spec h1'
    rw [← hca, hmerge, some_bind]
    have h3 := (show Rep _ a (pre ++ { b with size := k } :: mergeAt c post) by simpa using h2).setRequested
      (v := n) (by omega)
    refine ⟨_, k, mergeAt c post, rfl, h3, Nat.le_refl _, noAdj_mergeAt hpost, fun d hd => mem_mergeAt hcf hd,
      (hf1.trans fun x hx => ?_).trans (frame_header fun x hx => store_out (by simp only [headerSize] at hx; omega))⟩
    -- The merge writes to the header of the split-off block only.
    apply hm2
    simp only [headerSize] at hsmall hcs
    simp only [Block.payload, Block.stop, headerSize] at hx hca ⊢
    omega

theorem shrinkTo_realloced {s : Heap} {a n k : Nat} {pre post : List Block} {b : Block}
    (h : Inv s a (pre ++ b :: post)) (hbf : b.free = false) (hk : k ≤ b.size) (h16 : k % 16 = 0)
    (hn : 1 ≤ n ∧ n ≤ k) :
    ∃ s' bs', shrinkTo s b.addr k n = some s' ∧ Inv s' a bs' ∧
      Realloced (view s.mem (pre ++ b :: post)) b.payload n b.payload (view s'.mem bs') := by
  obtain ⟨hpre, hpost⟩ := (noAdj_live hbf).1 h.noAdj
  obtain ⟨s', k', rest, hs, h', hkk, hrest, hlive, hf⟩ := shrinkTo_spec h.toRep hk h16 hn hpost
  refine ⟨s', _, hs, h.resize (by simp) hbf h' rfl hbf rfl (by simp only; omega) hpre hrest (fun c hc hne => ?_)
    (fun c hc hcf hne => h.frame_other (by simp) hc hne hf (h.live c hc hcf).2) (hf.kept.mono (Nat.le_refl _) (by omega))⟩
  rw [hlive c hc, List.mem_append, List.mem_cons, or_left_comm]
  exact (or_iff_right fun he : c = b => hne (he ▸ rfl)).symm

/-- Taking in the free block behind a live one changes no contents. -/
theorem absorb_spec {s : Heap} {a : Nat} {pre post : List Block} {b c : Block} (h : Inv s a (pre ++ b :: c :: post))
    (hbf : b.free = false) (hcf : c.free = true) :
    ∃ m t, mergeWithNext s b.addr = some { s with mem := m, blockTail := t } ∧
      Inv { s with mem := m, blockTail := t } a (pre ++ { b with size := b.size + headerSize + c.size } :: post) ∧
      view m (pre ++ { b with size := b.size + headerSize + c.size } :: post) =
        view s.mem (pre ++ b :: c :: post) := by
  obtain ⟨hpre, hpost⟩ := (noAdj_live hbf).1 h.noAdj
  obtain ⟨m, t, hmerge, h', hm⟩ := mergeWithNext_spec h.toRep
  rw [mergeAt, if_pos hcf] at h'
  have hreq := h.live b (by simp) hbf
  obtain ⟨hi, hv⟩ := h.install h' hbf (by simp only; omega) hpre (noAdj_cons.1 hpost).1 (fun d hd hne => by
      have hdb : d ≠ b := fun he => hne (he ▸ rfl)
      have hdc : d ≠ c := fun he => by rw [he, hcf] at hd; contradiction
      simp [hdb, hdc])
    fun d hd hdf _ => h.header_other (b := b) (by simp) hd hm (h.live d hd hdf).2
  refine ⟨m, t, hmerge, hi, hv.trans ?_⟩
  have hkeep : bytesAt m b.payload b.requested = bytesAt s.mem b.payload b.requested :=
    bytesAt_congr (h.header_other (b := b) (by simp) (by simp) hm hreq.2)
  have hself := h.view_of_mem (b := b) (by simp) hbf s.mem
  rw [← hkeep] at hself
  exact update_eq_self_iff.2 hself.symm

/-! ## At the end of the heap -/

/-- The last block grows with the heap. -/
theorem stretch_spec {s : Heap} {a n k e : Nat} {pre : List Block} {b : Block} {g : List Bool}
    (h : Inv s a (pre ++ [b])) (hbf : b.free = false) (hk : b.size ≤ k) (h16 : k % 16 = 0)
    (hn : 1 ≤ n ∧ n ≤ k) (he : e = s.heapEnd + (k - b.size)) (hbound : e < 2 ^ 64) :
    ∃ bs', Inv (setRequestedSize (setSize { s with blockTail := b.addr, heapEnd := e, brk := e, grants := g }
        b.addr k) b.addr n) a bs' ∧
      Realloced (view s.mem (pre ++ [b])) b.payload n b.payload
        (view (store (store s.mem b.addr 8 k) (b.addr + 24) 8 n) bs') := by
  obtain ⟨x, hx, hbx, hbe⟩ := (tiles_append pre [b]).1 h.tiles
  have hz := h.sized b (by simp)
  have hb := h.mem_bounds (b := b) (by simp)
  have hbe' : b.stop = s.heapEnd := hbe
  simp only [Block.stop, headerSize] at hb hbe'
  have hh : Header (store (store s.mem b.addr 8 k) (b.addr + 24) 8 n) ⟨b.addr, k, b.free, n⟩ 0 :=
    (h.header.setSize (v := k) (by omega)).setRequested (v := n) (by omega)
  have hm : ∀ x, x < b.addr ∨ b.addr + headerSize ≤ x →
      store (store s.mem b.addr 8 k) (b.addr + 24) 8 n x = s.mem x := fun x hx => by
    simp only [headerSize] at hx
    rw [store_out (by omega), store_out (by omega)]
  have h' := Rep.grow (g := g) pre [b] [⟨b.addr, k, b.free, n⟩] h.toRep hx
    ⟨hbx, by simp only [Tiles, Block.stop, headerSize]; omega⟩ (by simp) (by simp) (h.init (by simp)) hbound
    ⟨hh, trivial⟩ (by simp only [Sized, List.mem_singleton, forall_eq]; omega)
    (fun y _ hy => hm y (.inl (by omega))) (h.head.trans (by cases pre <;> rfl))
  exact ⟨_, h.resize (by simp) hbf h' rfl hbf rfl hn ((noAdj_live hbf).1 h.noAdj).1 noAdj_nil
    (fun c _ hne => by
      have hcb : c ≠ b := fun he => hne (he ▸ rfl)
      simp [hcb])
    (fun c hc hcf hne => h.header_other (b := b) (by simp) hc hm (h.live c hc hcf).2)
    ((frame_header (n := b.requested) hm).kept.mono (Nat.le_refl _) (by omega))⟩

/-! ## By a copy -/

/-- `free` of a pointer of the map. -/
theorem free_live {s : Heap} {a p : Nat} {bs : List Block} {l : List UInt8} (h : Inv s a bs)
    (hp : view s.mem bs p = some l) :
    ∃ s' bs', free s p = some s' ∧ Inv s' a bs' ∧ view s'.mem bs' = update (view s.mem bs) p none := by
  obtain ⟨b, hb, hbf, rfl, -⟩ := view_mem hp
  obtain ⟨pre, post, rfl⟩ := List.append_of_mem hb
  exact free_spec h hbf

theorem reallocMove_spec {s : Heap} {a n : Nat} {bs : List Block} {b : Block} (h : Inv s a bs) (hb : b ∈ bs)
    (hbf : b.free = false) (hn : n < 2 ^ 64) :
    ∃ r s' a' bs', reallocMove s b.payload b.addr n = some (r, s') ∧ Inv s' a' bs' ∧
      Realloced (view s.mem bs) b.payload n r (view s'.mem bs') := by
  have hreq : requestedSize s.mem b.addr = b.requested := by
    obtain ⟨pre, post, rfl⟩ := List.append_of_mem hb
    exact h.header.requested
  have hold := h.view_of_mem hb hbf s.mem
  obtain ⟨r, s1, a1, bs1, hmalloc, h1, hv1⟩ := malloc_spec h hn
  unfold reallocMove
  rw [hreq, hmalloc, some_bind]
  dsimp only
  generalize hM : view s1.mem bs1 = M1 at hv1
  cases hv1 with
  | null => exact ⟨0, s1, a1, bs1, rfl, h1, hM ▸ .null⟩
  | @block r l h0 hr hfresh hl =>
    rw [if_neg hr]
    have hne : r ≠ b.payload := fun he => by rw [he, hold] at hfresh; contradiction
    -- Both blocks are in the new list, so the copy is between disjoint ranges.
    have hcv : view s1.mem bs1 r = some l := by rw [hM, update_self]
    have hbv : view s1.mem bs1 b.payload = some (bytesAt s.mem b.payload b.requested) := by
      rw [hM, update_of_ne hne.symm, hold]
    obtain ⟨c, hc, hcf, rfl, rfl⟩ := view_mem hcv
    obtain ⟨d, hd, hdf, hdp, hdl⟩ := view_mem hbv
    have hcr : c.requested = n := by simpa using hl
    have hdr : b.requested = d.requested := by simpa using congrArg List.length hdl
    have hcz := (h1.live c hc hcf).2
    have hdz := (h1.live d hd hdf).2
    have hdis : c.payload + n ≤ b.payload ∨ b.payload + b.requested ≤ c.payload := by
      rcases h1.disjoint hc hd with rfl | hx | hx
      · exact absurd hdp hne
      all_goals simp only [Block.payload, Block.stop, headerSize] at hx hdp ⊢; omega
    obtain ⟨k, hk, hkb, hkn⟩ : ∃ k, (if b.requested < n then b.requested else n) = k ∧ k ≤ b.requested ∧
        k = min b.requested n := ⟨_, rfl, by split <;> omega, by split <;> omega⟩
    rw [hk]
    obtain ⟨h2, hv2⟩ := h1.write hc hcf (m := Str.memcpy s1.mem c.payload b.payload k)
      fun x hx => Str.memcpy_out (by omega)
    rw [hM, update_idem, hcr] at hv2
    have hbv2 : view (Str.memcpy s1.mem c.payload b.payload k) bs1 b.payload =
        some (bytesAt s.mem b.payload b.requested) := by
      rw [hv2, update_of_ne hne.symm, hold]
    obtain ⟨s3, bs3, hfree, h3, hv3⟩ := free_live h2 hbv2
    dsimp only at hv3
    rw [hfree, some_bind]
    refine ⟨_, _, a1, bs3, rfl, h3, ?_⟩
    rw [hv3, hv2, update_comm hne]
    refine .block hr hold (.inr hfresh) (by simp) ?_
    rw [bytesAt_length, ← hkn, bytesAt_take _ _ (by omega), bytesAt_take _ _ hkb, Str.memcpy_bytes (by omega)]
    -- The old bytes were kept by `malloc`.
    have hsame := congrArg (List.take k) hdl
    rw [bytesAt_take _ _ hkb, bytesAt_take _ _ (by omega)] at hsame
    exact hsame.symm

theorem Inv.setGrants {s : Heap} {a : Nat} {bs : List Block} (h : Inv s a bs) (g : List Bool) :
    Inv { s with grants := g } a bs :=
  { toRep := h.toRep.setGrants g, noAdj := h.noAdj, live := h.live }

theorem reallocTail_spec {s : Heap} {a n k : Nat} {pre post : List Block} {b : Block}
    (h : Inv s a (pre ++ b :: post)) (hbf : b.free = false) (hk : b.size < k) (hk' : k < 2 ^ 64) (h16 : k % 16 = 0)
    (hn : 1 ≤ n ∧ n ≤ k) :
    ∃ r s' a' bs', reallocTail s b.payload b.addr k n = some (r, s') ∧ Inv s' a' bs' ∧
      Realloced (view s.mem (pre ++ b :: post)) b.payload n r (view s'.mem bs') := by
  unfold reallocTail
  by_cases ht : b.addr = s.blockTail
  · obtain rfl := h.tail_iff.1 ht.symm
    rw [if_pos ht, h.header.size, sub64_eq (by omega), some_bind]
    obtain ⟨g, hg | ⟨hend, hg⟩⟩ := extendHeap_spec (show 0 < k - b.size by omega) (by omega)
      (h.ready (h.init (by simp))).1
    · rw [hg]
      exact reallocMove_spec (h.setGrants g) (by simp) hbf (by omega)
    · rw [hg]
      obtain ⟨bs', hi, hv⟩ := stretch_spec (g := g) h hbf (Nat.le_of_lt hk) h16 hn rfl hend
      -- The tail already is this block.
      have htail : ({ s with blockTail := b.addr } : Heap) = s := by rw [ht]
      exact ⟨_, _, a, bs', rfl, htail ▸ hi, hv⟩
  · rw [if_neg ht]
    exact reallocMove_spec h (by simp) hbf (by omega)

/-! ## All paths -/

theorem realloc_spec {s : Heap} {a p n : Nat} {bs : List Block} {old : List UInt8} (h : Inv s a bs)
    (hp : view s.mem bs p = some old) (h0 : n ≠ 0) (hn : n < 2 ^ 64) :
    ∃ r s' a' bs', realloc s p n = some (r, s') ∧ Inv s' a' bs' ∧
      Realloced (view s.mem bs) p n r (view s'.mem bs') := by
  obtain ⟨b, hb, hbf, rfl, -⟩ := view_mem hp
  have hbpos := h.mem_bounds hb
  have hbound := h.bound
  obtain ⟨pre, post, rfl⟩ := List.append_of_mem hb
  unfold realloc
  rw [if_neg (by simp only [Block.payload, headerSize]; omega), if_neg h0]
  rcases alignSize_spec n with hal | ⟨k, hal, hle, h16, hk⟩
  · rw [hal]
    exact ⟨0, _, a, _, rfl, { h with toRep := h.setErrno _ }, .null⟩
  rw [hal, some_bind]
  dsimp only
  have hnk : 1 ≤ n ∧ n ≤ k := by omega
  rw [sub64_eq (by simp only [Block.payload]; omega), some_bind,
    show b.payload - headerSize = b.addr by simp only [Block.payload]; omega, h.header.size]
  by_cases hshrink : k ≤ b.size
  · obtain ⟨s', bs', hs, hi, hv⟩ := shrinkTo_realloced h hbf hshrink h16 hnk
    rw [if_pos hshrink, hs, some_bind]
    exact ⟨_, _, a, bs', rfl, hi, hv⟩
  rw [if_neg hshrink, h.header.next]
  have htail := reallocTail_spec h hbf (by omega) hk h16 hnk
  cases post with
  | nil => rw [headAddr, if_pos (.inl rfl)]; exact htail
  | cons c post =>
    have hassoc : pre ++ b :: c :: post = (pre ++ [b]) ++ c :: post := by simp
    have hc := (hassoc ▸ h.toRep : Rep s a ((pre ++ [b]) ++ c :: post)).header
    have hcpos := h.mem_bounds (b := c) (by simp)
    rw [headAddr, hc.free, hc.size]
    cases hcf : c.free with
    | false => rw [if_pos (.inr rfl)]; exact htail
    | true =>
      simp only [Block.stop, headerSize] at hbpos hcpos
      have hend : c.addr = b.stop := by
        obtain ⟨x, -, hrest⟩ := (tiles_append pre _).1 h.tiles
        exact hrest.2.1
      simp only [Block.stop, headerSize] at hend
      obtain ⟨m, t, hmerge, h1, hv1⟩ := absorb_spec h hbf hcf
      rw [if_neg (by simp; omega), blocksAdjacent_spec h.toRep, some_bind, if_neg (by simp),
        if_neg (by simp only [sizeMax, headerSize]; omega), add64_eq (by simp only [headerSize]; omega), some_bind,
        add64_eq (by simp only [headerSize]; omega), some_bind]
      by_cases hfit : b.size + headerSize + c.size ≥ k
      · obtain ⟨s', bs', hs, hi, hv⟩ := shrinkTo_realloced h1 hbf hfit h16 hnk
        rw [if_pos hfit, hmerge, some_bind, hs, some_bind]
        exact ⟨_, _, a, bs', rfl, hi, hv1 ▸ hv⟩
      rw [if_neg hfit]
      by_cases hlast : c.addr = s.blockTail
      · obtain rfl := (hassoc ▸ h.toRep : Rep s a ((pre ++ [b]) ++ c :: post)).tail_iff.1 hlast.symm
        rw [if_pos hlast, sub64_eq (by omega), some_bind]
        obtain ⟨g, hg | ⟨hlt, hg⟩⟩ := extendHeap_spec (show 0 < k - (b.size + headerSize + c.size) by omega) (by omega)
          (h.ready (h.init (by simp))).1
        · rw [hg]
          exact reallocTail_spec (h.setGrants g) hbf (by omega) hk h16 hnk
        · rw [hg, some_bind]
          dsimp only
          rw [if_pos rfl, mergeWithNext_end, hmerge, Option.map_some, some_bind]
          obtain ⟨bs', hi, hv⟩ := stretch_spec (g := g) h1 hbf (by simp only; omega) h16 hnk rfl hlt
          exact ⟨_, _, a, bs', rfl, hi, hv1 ▸ hv⟩
      · rw [if_neg hlast]
        exact htail

theorem calloc_spec {s : Heap} {a k n : Nat} {bs : List Block} (h : Inv s a bs) (hn : n < 2 ^ 64) :
    ∃ r s' a' bs', calloc s k n = some (r, s') ∧ Inv s' a' bs' ∧
      Calloced (view s.mem bs) (k * n) r (view s'.mem bs') := by
  unfold calloc
  by_cases h0 : k = 0 ∨ n = 0
  · rw [if_pos h0]; exact ⟨0, s, a, bs, rfl, h, .null⟩
  rw [if_neg h0]
  by_cases hbig : k > sizeMax / n
  · rw [if_pos hbig]; exact ⟨0, _, a, bs, rfl, { h with toRep := h.setErrno _ }, .null⟩
  have hlt : k * n < 2 ^ 64 := by
    have := (Nat.le_div_iff_mul_le (by omega)).1 (not_lt.1 hbig)
    simp only [sizeMax] at this
    omega
  rw [if_neg hbig, mul64, if_pos hlt, some_bind]
  obtain ⟨r, s1, a1, bs1, hmalloc, h1, hv1⟩ := malloc_spec h hlt
  rw [hmalloc, some_bind]
  dsimp only
  generalize hM : view s1.mem bs1 = M1 at hv1
  cases hv1 with
  | null => exact ⟨0, s1, a1, bs1, rfl, h1, hM ▸ .null⟩
  | @block r l h0 hr hfresh hl =>
    rw [if_neg hr]
    have hcv : view s1.mem bs1 r = some l := by rw [hM, update_self]
    obtain ⟨c, hc, hcf, rfl, rfl⟩ := view_mem hcv
    have hcr : c.requested = k * n := by simpa using hl
    obtain ⟨h2, hv2⟩ := h1.write hc hcf (m := Str.memset s1.mem c.payload 0 (k * n)) fun x hx =>
      Str.memset_out (by omega)
    refine ⟨_, _, a1, bs1, rfl, h2, ?_⟩
    rw [hv2, hM, update_idem, hcr, Str.memset_bytes]
    exact .block h0 hr hfresh

end MiniLibc.Alloc
