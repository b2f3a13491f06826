import MiniLibc.Alloc.Heap
/-!
# The heap as a list of blocks

`Rep s a bs` says the heap memory stands for the block list `bs`: the headers
hold its blocks and link them in order, and the blocks tile the addresses from
`a` to `heap_end`. Every operation on the list in memory replaces a few
neighbouring blocks by others on the same addresses (`Rep.replace`), or grows
the last one (`Rep.grow`).
-/
open MiniLibc.Memory

namespace MiniLibc.Alloc

structure Block where
  addr : Nat
  size : Nat
  free : Bool
  requested : Nat
deriving DecidableEq, Repr

namespace Block

/-- Where the caller's bytes start. -/
def payload (b : Block) : Nat := b.addr + headerSize

/-- Where the next block starts. -/
def stop (b : Block) : Nat := b.addr + headerSize + b.size

end Block

/-! ## Tilings -/

/-- The blocks cover `[a, e)`, each starting where the one before ends. -/
def Tiles : Nat → List Block → Nat → Prop
  | a, [], e => a = e
  | a, b :: bs, e => b.addr = a ∧ Tiles b.stop bs e

theorem tiles_append {a e : Nat} (xs ys : List Block) :
    Tiles a (xs ++ ys) e ↔ ∃ x, Tiles a xs x ∧ Tiles x ys e := by
  induction xs generalizing a with
  | nil => simp [Tiles]
  | cons b xs ih =>
    simp only [List.cons_append, Tiles, ih]
    constructor
    · rintro ⟨h1, x, h2, h3⟩; exact ⟨x, ⟨h1, h2⟩, h3⟩
    · rintro ⟨x, ⟨h1, h2⟩, h3⟩; exact ⟨h1, x, h2, h3⟩

theorem tiles_le {a e : Nat} {bs : List Block} (h : Tiles a bs e) : a ≤ e := by
  induction bs generalizing a with
  | nil => exact Nat.le_of_eq h
  | cons b bs ih => have := ih h.2; have := h.1; simp only [Block.stop] at *; omega

theorem tiles_mem {a e : Nat} {bs : List Block} (h : Tiles a bs e) : ∀ b ∈ bs, a ≤ b.addr ∧ b.stop ≤ e := by
  induction bs generalizing a with
  | nil => simp
  | cons c bs ih =>
    intro b hb
    rcases List.mem_cons.1 hb with rfl | hb
    · exact ⟨Nat.le_of_eq h.1.symm, tiles_le h.2⟩
    · have := ih h.2 b hb
      have := h.1
      simp only [Block.stop] at *
      omega

/-- Sizes and the first address are multiples of 16, so all addresses are. -/
theorem tiles_aligned {a e : Nat} {bs : List Block} (h : Tiles a bs e) (ha : a % 16 = 0)
    (hs : ∀ b ∈ bs, b.size % 16 = 0) : (∀ b ∈ bs, b.addr % 16 = 0) ∧ e % 16 = 0 := by
  induction bs generalizing a with
  | nil => exact ⟨by simp, h ▸ ha⟩
  | cons c bs ih =>
    obtain ⟨h1, h2⟩ := h
    have hc := hs c List.mem_cons_self
    have := ih h2 (by simp only [Block.stop, headerSize]; omega) fun b hb => hs b (List.mem_cons_of_mem _ hb)
    refine ⟨fun b hb => ?_, this.2⟩
    rcases List.mem_cons.1 hb with rfl | hb
    · omega
    · exact this.1 b hb

/-- In a tiling, earlier blocks end before later ones start. -/
theorem tiles_pairwise {a e : Nat} {bs : List Block} (h : Tiles a bs e) :
    bs.Pairwise fun b c => b.stop ≤ c.addr := by
  induction bs generalizing a with
  | nil => exact .nil
  | cons b bs ih => exact .cons (fun c hc => (tiles_mem h.2 c hc).1) (ih h.2)

theorem pairwise_or {α : Type} {R : α → α → Prop} {l : List α} (h : l.Pairwise R) {b c : α} (hb : b ∈ l)
    (hc : c ∈ l) : b = c ∨ R b c ∨ R c b := by
  induction h with
  | nil => simp at hb
  | cons hd _ ih =>
    rcases List.mem_cons.1 hb with h | hb <;> rcases List.mem_cons.1 hc with h' | hc
    · exact .inl (h.trans h'.symm)
    · exact .inr (.inl (h ▸ hd c hc))
    · exact .inr (.inr (h' ▸ hd b hb))
    · exact ih hb hc

/-- A list of blocks ends where it ends. -/
theorem tiles_end {a e e' : Nat} {bs : List Block} (h : Tiles a bs e) (h' : Tiles a bs e') : e = e' := by
  induction bs generalizing a with
  | nil => exact h.symm.trans h'
  | cons b bs ih => exact ih h.2 h'.2

theorem tiles_length {a e : Nat} {bs : List Block} (h : Tiles a bs e) : a + bs.length ≤ e := by
  induction bs generalizing a with
  | nil => exact Nat.le_of_eq h
  | cons b bs ih =>
    have := ih h.2; have := h.1
    simp only [Block.stop, headerSize, List.length_cons] at *
    omega

/-! ## Linked headers -/

/-- The address of the first block, or `q` if there is none. -/
def headAddr : List Block → Nat → Nat
  | [], q => q
  | b :: _, _ => b.addr

/-- The address of the last block, or null. -/
def lastAddr : List Block → Nat
  | [] => 0
  | [b] => b.addr
  | _ :: bs => lastAddr bs

/-- The header of `b` in memory, with its `next` field. -/
structure Header (m : Mem) (b : Block) (nxt : Nat) : Prop where
  size : size m b.addr = b.size
  next : next m b.addr = nxt
  free : isFree m b.addr = b.free.toNat
  requested : requestedSize m b.addr = b.requested

/-- The headers of `bs` link them in order; the last one links to `q`. -/
def Linked (m : Mem) : List Block → Nat → Prop
  | [], _ => True
  | b :: bs, q => Header m b (headAddr bs q) ∧ Linked m bs q

@[simp] theorem lastAddr_singleton (b : Block) : lastAddr [b] = b.addr := rfl

theorem lastAddr_cons {b : Block} {bs : List Block} (h : bs ≠ []) : lastAddr (b :: bs) = lastAddr bs := by
  cases bs with
  | nil => exact absurd rfl h
  | cons => rfl

theorem lastAddr_append {xs ys : List Block} (h : ys ≠ []) : lastAddr (xs ++ ys) = lastAddr ys := by
  induction xs with
  | nil => rfl
  | cons b xs ih => rw [List.cons_append, lastAddr_cons (by simp [h]), ih]

theorem headAddr_append (xs ys : List Block) (q : Nat) : headAddr (xs ++ ys) q = headAddr xs (headAddr ys q) := by
  cases xs <;> rfl

theorem linked_append {m : Mem} {q : Nat} (xs ys : List Block) :
    Linked m (xs ++ ys) q ↔ Linked m xs (headAddr ys q) ∧ Linked m ys q := by
  induction xs with
  | nil => simp [Linked]
  | cons b xs ih => simp only [List.cons_append, Linked, ih, headAddr_append, and_assoc]

theorem Header.congr {m m' : Mem} {b : Block} {q : Nat} (h : Header m b q)
    (hm : AgreeOn m m' b.addr (b.addr + headerSize)) : Header m' b q where
  size := (load_congr (hm.mono (by omega) (by simp [headerSize]))).trans h.size
  next := (load_congr (hm.mono (by omega) (by simp [headerSize]))).trans h.next
  free := (load_congr (hm.mono (by omega) (by simp [headerSize]))).trans h.free
  requested := (load_congr (hm.mono (by omega) (by simp [headerSize]))).trans h.requested

theorem Linked.congr {m m' : Mem} {a e q : Nat} {bs : List Block} (h : Linked m bs q) (ht : Tiles a bs e)
    (hm : AgreeOn m m' a e) : Linked m' bs q := by
  induction bs generalizing a with
  | nil => trivial
  | cons b bs ih =>
    have hle := tiles_le ht.2
    have ha := ht.1
    simp only [Block.stop] at hle
    exact ⟨h.1.congr (hm.mono (by omega) (by omega)), ih h.2 ht.2 (hm.mono (by simp only [Block.stop]; omega) (Nat.le_refl _))⟩

theorem headAddr_tiles {a e q : Nat} {bs : List Block} (h : Tiles a bs e) (hne : bs ≠ []) : headAddr bs q = a := by
  cases bs with
  | nil => exact absurd rfl hne
  | cons b bs => exact h.1

/-! ## Representation -/

/-- Every size is a nonzero multiple of 16. -/
def Sized (bs : List Block) : Prop := ∀ b ∈ bs, 0 < b.size ∧ b.size % 16 = 0

/-- The heap memory and globals hold the block list `bs`, tiling from `a`. -/
structure Rep (s : Heap) (a : Nat) (bs : List Block) : Prop where
  tiles : Tiles a bs s.heapEnd
  linked : Linked s.mem bs 0
  head : s.blockHead = headAddr bs 0
  tail : s.blockTail = lastAddr bs
  sized : Sized bs
  aligned : a % 16 = 0
  bound : s.heapEnd < 2 ^ 64
  brk_bound : s.brk < 2 ^ 64
  ready : s.heapInitialized = true → s.brk = s.heapEnd ∧ 0 < a
  fresh : s.heapInitialized = false → bs = []

theorem Rep.pos {s : Heap} {a : Nat} {bs : List Block} (h : Rep s a bs) (hne : bs ≠ []) : 0 < a := by
  cases hi : s.heapInitialized with
  | true => exact (h.ready hi).2
  | false => exact absurd (h.fresh hi) hne

theorem Rep.init {s : Heap} {a : Nat} {bs : List Block} (h : Rep s a bs) (hne : bs ≠ []) :
    s.heapInitialized = true := by
  cases hi : s.heapInitialized with
  | true => rfl
  | false => exact absurd (h.fresh hi) hne

/-- Two blocks are the same or do not overlap. -/
theorem Rep.disjoint {s : Heap} {a : Nat} {bs : List Block} (h : Rep s a bs) {b c : Block} (hb : b ∈ bs)
    (hc : c ∈ bs) : b = c ∨ b.stop ≤ c.addr ∨ c.stop ≤ b.addr :=
  pairwise_or (tiles_pairwise h.tiles) hb hc

/-- One address, one block. -/
theorem Rep.addr_inj {s : Heap} {a : Nat} {bs : List Block} (h : Rep s a bs) {b c : Block} (hb : b ∈ bs)
    (hc : c ∈ bs) (he : b.addr = c.addr) : b = c := by
  rcases h.disjoint hb hc with h | h | h
  · exact h
  all_goals simp only [Block.stop, headerSize] at h; omega

theorem Rep.mem_bounds {s : Heap} {a : Nat} {bs : List Block} (h : Rep s a bs) {b : Block} (hb : b ∈ bs) :
    0 < b.addr ∧ b.stop ≤ s.heapEnd :=
  have := tiles_mem h.tiles b hb
  have := h.pos (List.ne_nil_of_mem hb)
  ⟨by omega, by omega⟩

theorem Rep.header {s : Heap} {a : Nat} {pre post : List Block} {b : Block} (h : Rep s a (pre ++ b :: post)) :
    Header s.mem b (headAddr post 0) :=
  ((linked_append pre (b :: post)).1 h.linked).2.1

/-- The block at the tail is the last one. -/
theorem Rep.tail_iff {s : Heap} {a : Nat} {pre post : List Block} {b : Block} (h : Rep s a (pre ++ b :: post)) :
    s.blockTail = b.addr ↔ post = [] := by
  rw [h.tail, lastAddr_append (by simp)]
  cases post with
  | nil => simp
  | cons c post =>
    obtain ⟨x, -, hx⟩ := (tiles_append pre _).1 h.tiles
    have hl : ∀ (l : List Block), l ≠ [] → ∀ {y e}, Tiles y l e → y ≤ lastAddr l := by
      intro l
      induction l with
      | nil => intro h; exact absurd rfl h
      | cons d l ih =>
        intro _ y e hd
        by_cases hln : l = []
        · subst hln; exact Nat.le_of_eq hd.1.symm
        · rw [lastAddr_cons hln]
          have := ih hln hd.2; have := hd.1
          simp only [Block.stop] at *; omega
    have := hl (c :: post) (by simp) hx.2
    have h1 := hx.1
    rw [lastAddr_cons (by simp)]
    simp only [Block.stop, headerSize] at this
    simp; omega

/-- Replace the blocks `mid` by `mid'` on the same addresses, changing memory
only there. -/
theorem Rep.replace {s : Heap} {a x y : Nat} (pre mid mid' post : List Block) {m : Mem} {tail : Nat}
    (h : Rep s a (pre ++ (mid ++ post))) (hx : Tiles a pre x) (hmid : Tiles x mid y) (hne : mid ≠ [])
    (hmid' : Tiles x mid' y) (hne' : mid' ≠ []) (hlink : Linked m mid' (headAddr post 0)) (hsized : Sized mid')
    (hlo : AgreeOn s.mem m a x) (hhi : AgreeOn s.mem m y s.heapEnd) (htail : tail = lastAddr (mid' ++ post)) :
    Rep { s with mem := m, blockTail := tail } a (pre ++ (mid' ++ post)) := by
  obtain ⟨x', hx', hrest⟩ := (tiles_append _ _).1 h.tiles
  obtain ⟨y', hy', hpost⟩ := (tiles_append _ _).1 hrest
  obtain rfl := tiles_end hx' hx
  obtain rfl := tiles_end hy' hmid
  obtain ⟨hl1, hl2⟩ := (linked_append _ _).1 h.linked
  obtain ⟨hl3, hl4⟩ := (linked_append _ _).1 hl2
  have hh : headAddr (mid' ++ post) 0 = headAddr (mid ++ post) 0 := by
    rw [headAddr_append, headAddr_append, headAddr_tiles hmid hne, headAddr_tiles hmid' hne']
  exact {
    tiles := (tiles_append _ _).2 ⟨x', hx, (tiles_append _ _).2 ⟨y', hmid', hpost⟩⟩
    linked := (linked_append _ _).2 ⟨hh ▸ hl1.congr hx hlo,
      (linked_append _ _).2 ⟨hlink, hl4.congr hpost hhi⟩⟩
    head := by
      have := h.head
      rw [headAddr_append] at this ⊢
      rw [hh]; exact this
    tail := by rw [lastAddr_append (by simp [hne'])]; exact htail
    sized := by
      intro b hb
      rcases List.mem_append.1 hb with hb | hb
      · exact h.sized b (by simp [hb])
      · rcases List.mem_append.1 hb with hb | hb
        · exact hsized b hb
        · exact h.sized b (by simp [hb])
    aligned := h.aligned
    bound := h.bound
    brk_bound := h.brk_bound
    ready := h.ready
    fresh := fun hf => absurd (h.fresh hf) (by simp [hne]) }

end MiniLibc.Alloc
