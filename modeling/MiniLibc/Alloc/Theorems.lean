import MiniLibc.Lib.Runs
import MiniLibc.Alloc.Realloc
/-!
# Theorems about the allocator

A client calls the allocator with null or live pointers and writes to bytes it
owns, in any order, while the kernel grants or refuses each request for a longer
heap. `Op.exec_spec` is one step on the block list, `client_invariant` a run.
-/
open MiniLibc.Memory MiniLibc.Runs Function

namespace MiniLibc.Alloc

/-! ## Clients -/

/-- A call on the heap: what it returns, and the heap after it. -/
def Op.exec (s : Heap) : Op → Option (Nat × Heap)
  | .malloc n => Alloc.malloc s n
  | .calloc nmemb n => Alloc.calloc s nmemb n
  | .realloc p n => Alloc.realloc s p n
  | .free p => do
    let s ← Alloc.free s p
    some (0, s)
  | .poke p i b => some (0, { s with mem := Memory.poke s.mem (p + i) b })

/-- The pointers a client holds, with the sizes it asked for. -/
abbrev Live := Nat → Option Nat

/-- What the client holds after a call that returned `r`. -/
def Op.track (live : Live) : Op → Nat → Live
  | .malloc n, r => if r = 0 then live else update live r (some n)
  | .calloc nmemb n, r => if r = 0 then live else update live r (some (nmemb * n))
  | .realloc p n, r =>
    if r = 0 then if n = 0 then update live p none else live else update (update live p none) r (some n)
  | .free p, _ => update live p none
  | .poke .., _ => live

/-- The calls a client may make: any size, and null or live pointers. -/
def Op.Valid (live : Live) : Op → Prop
  | .malloc n => n < 2 ^ 64
  | .calloc nmemb n => nmemb < 2 ^ 64 ∧ n < 2 ^ 64
  | .realloc p n => (p = 0 ∨ (live p).isSome) ∧ n < 2 ^ 64
  | .free p => p = 0 ∨ (live p).isSome
  | .poke p i _ => ∃ n, live p = some n ∧ i < n

structure Client where
  heap : Heap
  live : Live

/-- No call yet: any memory, any break, any answers of the kernel to come. -/
def Client.Start (c : Client) : Prop :=
  ∃ mem brk grants, brk < 2 ^ 64 ∧ c.heap = { mem := mem, brk := brk, grants := grants } ∧ c.live = fun _ => none

/-- One valid call. -/
def Client.Step (c c' : Client) : Prop :=
  ∃ (op : Op) (r : Nat), op.Valid c.live ∧ op.exec c.heap = some (r, c'.heap) ∧ c'.live = op.track c.live r

/-- The bytes behind the pointers the client holds. -/
def Client.contents (c : Client) : Contents := fun p => (c.live p).map (bytesAt c.heap.mem p)

/-! ## One call -/

/-- The sizes of a map. -/
def lengths (M : Contents) : Live := fun p => (M p).map List.length

theorem lengths_update (M : Contents) (p : Nat) (l : Option (List UInt8)) :
    lengths (update M p l) = update (lengths M) p (l.map List.length) := by
  funext q
  unfold lengths
  by_cases hq : q = p
  · subst hq; rw [update_self, update_self]
  · rw [update_of_ne hq, update_of_ne hq]

theorem view_null {s : Heap} {a : Nat} {bs : List Block} (m : Mem) (_ : Rep s a bs) : view m bs 0 = none :=
  view_none fun b _ _ => by simp only [Block.payload, headerSize]; omega

theorem view_length {m : Mem} {bs : List Block} {p n : Nat} (h : lengths (view m bs) p = some n) :
    view m bs p = some (bytesAt m p n) := by
  obtain ⟨l, hl, rfl⟩ := Option.map_eq_some_iff.1 h
  obtain ⟨b, -, -, -, rfl⟩ := view_mem hl
  rw [hl, bytesAt_length]

/-- What the client tracks is what the map holds. -/
theorem Op.track_spec {M M' : Contents} {op : Op} {r : Nat} (h : op.Spec M r M') (h0 : M 0 = none) :
    lengths M' = op.track (lengths M) r := by
  have hnull : lengths M 0 = none := by simp [lengths, h0]
  cases op with
  | malloc n =>
    cases h with
    | null => rfl
    | block _ hr _ hl => rw [lengths_update, Op.track, if_neg hr, Option.map_some, hl]
  | calloc k n =>
    cases h with
    | null => rfl
    | block _ hr _ => rw [lengths_update, Op.track, if_neg hr, Option.map_some, List.length_replicate]
  | realloc p n =>
    change if p = 0 then _ else _ at h
    change _ = if r = 0 then _ else _
    split at h
    · subst p
      have hid : update (lengths M) 0 none = lengths M := update_eq_self_iff.2 hnull.symm
      cases h with
      | null => simp [hid]
      | block _ hr _ hl => rw [lengths_update, if_neg hr, hid, Option.map_some, hl]
    · split at h
      · obtain ⟨rfl, rfl⟩ := h
        rw [if_pos rfl, if_pos ‹_›, lengths_update, Option.map_none]
      · cases h with
        | null => rw [if_pos rfl, if_neg ‹_›]
        | block hr _ _ hl _ => rw [if_neg hr, lengths_update, lengths_update, Option.map_some, hl, Option.map_none]
  | free p =>
    obtain ⟨-, rfl⟩ := h
    rw [lengths_update, Op.track, Option.map_none]
  | poke p i b =>
    obtain ⟨-, l, hl, rfl⟩ := h
    rw [lengths_update, Op.track, Option.map_some, List.length_set]
    exact update_eq_self_iff.2 (by simp [lengths, hl])

/-- A valid call succeeds without a wrap, keeps the invariant and does to the
map what it may. -/
theorem Op.exec_spec {s : Heap} {a : Nat} {bs : List Block} {op : Op} (h : Inv s a bs)
    (hv : op.Valid (lengths (view s.mem bs))) :
    ∃ r s' a' bs', op.exec s = some (r, s') ∧ Inv s' a' bs' ∧ op.Spec (view s.mem bs) r (view s'.mem bs') := by
  cases op with
  | malloc n => exact malloc_spec h hv
  | calloc k n => exact calloc_spec h hv.2
  | realloc p n =>
    obtain ⟨hp, hn⟩ := hv
    simp only [Op.Spec, Op.exec]
    by_cases hp0 : p = 0
    · subst hp0
      simp only [if_true, show Alloc.realloc s 0 n = Alloc.malloc s n from rfl]
      exact malloc_spec h hn
    · obtain ⟨l, hl⟩ := Option.isSome_iff_exists.1 (hp.resolve_left hp0)
      have hvl := view_length hl
      simp only [if_neg hp0]
      by_cases h0 : n = 0
      · obtain ⟨s', bs', hf, hi, hv⟩ := free_live h hvl
        refine ⟨0, s', a, bs', ?_, hi, ?_⟩
        · unfold Alloc.realloc
          rw [if_neg hp0, if_pos h0, hf, some_bind]
        · rw [if_pos h0]
          exact ⟨rfl, hv⟩
      · simp only [if_neg h0]
        exact realloc_spec h hvl h0 hn
  | free p =>
    by_cases hp0 : p = 0
    · subst hp0
      exact ⟨0, s, a, bs, rfl, h, rfl, (update_eq_self_iff.2 (view_null _ h.toRep).symm).symm⟩
    · obtain ⟨l, hl⟩ := Option.isSome_iff_exists.1 (Or.resolve_left hv hp0)
      obtain ⟨s', bs', hf, hi, hvw⟩ := free_live h (view_length hl)
      refine ⟨0, s', a, bs', ?_, hi, rfl, hvw⟩
      simp only [Op.exec]
      rw [hf, some_bind]
  | poke p i b =>
    obtain ⟨n, hn, hi⟩ := hv
    have hvl := view_length hn
    obtain ⟨c, hc, hcf, rfl, hl⟩ := view_mem hvl
    have hcn : n = c.requested := by simpa using congrArg List.length hl
    obtain ⟨h', hv'⟩ := h.write hc hcf (m := Memory.poke s.mem (c.payload + i) b) fun x hx =>
      poke_other _ (by omega)
    refine ⟨0, _, a, bs, rfl, h', rfl, _, hvl, ?_⟩
    rw [hv', ← hcn, bytesAt_poke _ _ _ hi]

/-! ## Runs -/

theorem start_inv {c : Client} (h : c.Start) : Inv c.heap 0 [] ∧ c.live = lengths (view c.heap.mem []) := by
  obtain ⟨mem, brk, grants, hbrk, hheap, hlive⟩ := h
  rw [hheap, hlive]
  refine ⟨?_, rfl⟩
  exact {
    tiles := rfl
    linked := trivial
    head := rfl
    tail := rfl
    sized := by simp [Sized]
    aligned := rfl
    bound := by simp
    brk_bound := hbrk
    ready := fun hi => by simp at hi
    fresh := fun _ => rfl
    noAdj := noAdj_nil
    live := by simp [LiveSized] }

/-- In every run the heap is a valid block list that holds what the client holds. -/
theorem client_invariant {c : Client} (h : Reachable Client.Start Client.Step c) :
    ∃ a bs, Inv c.heap a bs ∧ c.live = lengths (view c.heap.mem bs) := by
  refine Reachable.invariant (I := fun c => ∃ a bs, Inv c.heap a bs ∧ c.live = lengths (view c.heap.mem bs))
    (fun c hc => ⟨0, [], start_inv hc⟩) ?_ h
  rintro c c' ⟨a, bs, hi, hl⟩ ⟨op, r, hv, hx, hl'⟩
  obtain ⟨r', s', a', bs', hx', hi', hs⟩ := op.exec_spec hi (hl ▸ hv)
  rw [hx] at hx'
  obtain ⟨rfl, rfl⟩ := Prod.mk.inj (Option.some.inj hx')
  exact ⟨a', bs', hi', by rw [hl', hl, op.track_spec hs (view_null _ hi.toRep)]⟩

theorem contents_eq {c : Client} {bs : List Block} (h : c.live = lengths (view c.heap.mem bs)) :
    c.contents = view c.heap.mem bs := by
  funext p
  unfold Client.contents
  rw [h]
  cases hn : lengths (view c.heap.mem bs) p with
  | none => exact (by simpa [lengths] using hn : view c.heap.mem bs p = none).symm
  | some n => rw [view_length hn, Option.map_some]

/-- The heap is a well-formed block list `bs` from `a` on, and its live blocks
are those in `live`. -/
structure WellFormed (s : Heap) (live : Live) (a : Nat) (bs : List Block) : Prop where
  /-- The walk from the head visits `bs`, and nothing after. -/
  head : s.blockHead = headAddr bs 0
  linked : Linked s.mem bs 0
  /-- In address order, each block ending where the next begins, up to `heap_end`. -/
  ordered : bs.Pairwise fun b c => b.addr < c.addr
  tiles : Tiles a bs s.heapEnd
  sized : ∀ b ∈ bs, 0 < b.size ∧ b.size % 16 = 0
  tail : s.blockTail = lastAddr bs
  noAdj : NoAdj bs
  /-- The live blocks are the pointers handed out and not yet taken back. -/
  live : ∀ p n, live p = some n ↔ ∃ b ∈ bs, b.free = false ∧ b.payload = p ∧ b.requested = n
  requested : ∀ b ∈ bs, b.free = false → 1 ≤ b.requested ∧ b.requested ≤ b.size
  aligned : ∀ b ∈ bs, b.free = false → b.payload % 16 = 0
  disjoint : ∀ b ∈ bs, ∀ c ∈ bs, b.free = false → c.free = false → b ≠ c → b.stop ≤ c.payload ∨ c.stop ≤ b.payload

theorem Inv.wellFormed {s : Heap} {a : Nat} {bs : List Block} (h : Inv s a bs) :
    WellFormed s (lengths (view s.mem bs)) a bs where
  head := h.head
  linked := h.linked
  ordered := (tiles_pairwise h.tiles).imp fun hle => by simp only [Block.stop, headerSize] at hle; omega
  tiles := h.tiles
  sized := h.sized
  tail := h.tail
  noAdj := h.noAdj
  live p n := by
    constructor
    · intro hl
      obtain ⟨b, hb, hf, hp, he⟩ := view_mem (view_length hl)
      exact ⟨b, hb, hf, hp, by simpa using (congrArg List.length he).symm⟩
    · rintro ⟨b, hb, hf, rfl, rfl⟩
      simp [lengths, h.view_of_mem hb hf]
  requested := h.live
  aligned b hb _ := by
    have := (tiles_aligned h.tiles h.aligned fun c hc => (h.sized c hc).2).1 b hb
    simp only [Block.payload, headerSize]; omega
  disjoint b hb c hc _ _ hne := by
    rcases h.disjoint hb hc with he | hd | hd
    · exact absurd he hne
    all_goals simp only [Block.stop, Block.payload, headerSize] at *; omega

/-- Every run keeps the heap well formed, and no valid call gets stuck. -/
theorem heap_wellFormed {c : Client} (h : Reachable Client.Start Client.Step c) :
    (∃ a bs, WellFormed c.heap c.live a bs) ∧ ∀ op : Op, op.Valid c.live → (op.exec c.heap).isSome := by
  obtain ⟨a, bs, hi, hl⟩ := client_invariant h
  refine ⟨⟨a, bs, hl ▸ hi.wellFormed⟩, fun op hv => ?_⟩
  obtain ⟨r, s', -, -, hx, -⟩ := op.exec_spec hi (hl ▸ hv)
  rw [hx]
  rfl

/-- A client of a fresh heap whose first request for ten bytes was granted. -/
theorem reachable_malloc : ∃ s, (Op.malloc 10).exec { mem := fun _ => 0, brk := 4096, grants := [true] } = some (4128, s) ∧
    Reachable Client.Start Client.Step ⟨s, update (fun _ => none) 4128 (some 10)⟩ := by
  refine ⟨_, rfl, .next (s := ⟨{ mem := fun _ => 0, brk := 4096, grants := [true] }, fun _ => none⟩)
    (.start ⟨fun _ => 0, 4096, [true], by decide, rfl, rfl⟩) ⟨.malloc 10, 4128, ?_, rfl, rfl⟩⟩
  show 10 < 2 ^ 64
  decide

theorem heap_wellFormed_malloc :
    ∃ s, (Op.malloc 10).exec { mem := fun _ => 0, brk := 4096, grants := [true] } = some (4128, s) ∧
      (∃ a bs, WellFormed s (update (fun _ => none) 4128 (some 10)) a bs) ∧ ((Op.realloc 4128 5000).exec s).isSome := by
  obtain ⟨s, hs, hr⟩ := reachable_malloc
  have h := heap_wellFormed hr
  exact ⟨s, hs, h.1, h.2 (.realloc 4128 5000) ⟨.inr rfl, by decide⟩⟩

/-- The allocator refines a finite map: in every run, a valid call succeeds
without a wrap and does to the client's bytes what the map allows. -/
theorem heap_refines {c : Client} (h : Reachable Client.Start Client.Step c) :
    {p | c.contents p ≠ none}.Finite ∧ ∀ op : Op, op.Valid c.live →
      ∃ r s', op.exec c.heap = some (r, s') ∧
        op.Spec c.contents r (Client.contents ⟨s', op.track c.live r⟩) := by
  obtain ⟨a, bs, hi, hl⟩ := client_invariant h
  rw [contents_eq hl]
  constructor
  · refine (bs.map Block.payload).finite_toSet.subset fun p hp => ?_
    obtain ⟨l, hv⟩ := Option.ne_none_iff_exists'.1 hp
    obtain ⟨b, hb, -, rfl, -⟩ := view_mem hv
    exact List.mem_map_of_mem hb
  · intro op hv
    obtain ⟨r, s', a', bs', hx, hi', hs⟩ := op.exec_spec hi (hl ▸ hv)
    refine ⟨r, s', hx, ?_⟩
    have hl' : op.track c.live r = lengths (view s'.mem bs') := by
      rw [op.track_spec hs (view_null _ hi.toRep), ← hl]
    rwa [contents_eq (c := ⟨s', op.track c.live r⟩) hl']

/-- A `realloc` whose request for a longer heap is refused. -/
theorem heap_refines_refused :
    ∃ s r s', (Op.malloc 10).exec { mem := fun _ => 0, brk := 4096, grants := [true] } = some (4128, s) ∧
      (Op.realloc 4128 5000).exec s = some (r, s') ∧
      (Op.realloc 4128 5000).Spec (Client.contents ⟨s, update (fun _ => none) 4128 (some 10)⟩) r
        (Client.contents ⟨s', (Op.realloc 4128 5000).track (update (fun _ => none) 4128 (some 10)) r⟩) := by
  obtain ⟨s, hs, hr⟩ := reachable_malloc
  obtain ⟨r, s', hx, hspec⟩ := (heap_refines hr).2 (.realloc 4128 5000) ⟨.inr rfl, by decide⟩
  exact ⟨s, r, s', hs, hx, hspec⟩

end MiniLibc.Alloc
