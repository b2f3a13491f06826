import Mathlib
/-!
# Sorting and searching

`src/stdlib/bsearch.c`: `qsort` is an insertion sort that swaps neighbours byte by
byte, `bsearch` halves an interval of indices. The array is its bytes and a pointer
is an offset in it: `none` is an access outside. A comparator is shown the `size`
bytes at a pointer.

`qsort` leaves Mathlib's `insertionSort` of the elements, taken from the last one
on. So what is proved there about it holds here.
-/

namespace MiniLibc.Stdlib

/-- The bytes of one element. -/
abbrev Element (size : Nat) := { e : List UInt8 // e.length = size }

/-- `j * size`, in `size_t`. -/
def offset (j size : Nat) : Nat := j * size % 2 ^ 64

/-- What a comparator reads through a pointer. -/
def element (bytes : List UInt8) (p size : Nat) : Option (Element size) :=
  if h : p + size ≤ bytes.length then some ⟨(bytes.drop p).take size, by simp; omega⟩ else none

/-! ## `qsort` -/

def swapBytes (bytes : List UInt8) (left right i : Nat) : Nat → Option (List UInt8)
  | 0 => some bytes
  | n + 1 => do
    let tmp ← bytes[left + i]?
    let byte ← bytes[right + i]?
    swapBytes ((bytes.set (left + i) byte).set (right + i) tmp) left right (i + 1) n

section Qsort
variable {size : Nat} (compar : Element size → Element size → Int)

/-- The inner loop: the element at `j` moves down while the one below is greater. -/
def sinkLoop (bytes : List UInt8) : Nat → Option (List UInt8)
  | 0 => some bytes
  | j + 1 => do
    let left := offset j size
    let right := offset (j + 1) size
    let l ← element bytes left size
    let r ← element bytes right size
    if compar l r ≤ 0 then some bytes
    else do
      let bytes ← swapBytes bytes left right 0 size
      sinkLoop bytes j

/-- The outer loop, from `i` with so many elements left. -/
def qsortLoop (bytes : List UInt8) (i : Nat) : Nat → Option (List UInt8)
  | 0 => some bytes
  | n + 1 => do
    let bytes ← sinkLoop compar bytes i
    qsortLoop bytes (i + 1) n

def qsort (bytes : List UInt8) (nmemb : Nat) : Option (List UInt8) := qsortLoop compar bytes 1 (nmemb - 1)

end Qsort

/-! ## `bsearch` -/

/-- The loop, with the comparator already given the key. The midpoint and the next
lower bound are computed in `size_t`. `none` also when the fuel runs out. -/
def bsearchLoop {size : Nat} (compar : Element size → Int) (bytes : List UInt8) :
    Nat → Nat → Nat → Option (Option Nat)
  | 0, _, _ => none
  | fuel + 1, low, high =>
    if low < high then do
      let mid := (low + (high - low) / 2) % 2 ^ 64
      let e ← element bytes (offset mid size) size
      let order := compar e
      if order < 0 then bsearchLoop compar bytes fuel low mid
      else if order > 0 then bsearchLoop compar bytes fuel ((mid + 1) % 2 ^ 64) high
      else some (some (offset mid size))
    else some none

def bsearch {size : Nat} (compar : Element size → Int) (bytes : List UInt8) (nmemb fuel : Nat) :
    Option (Option Nat) :=
  bsearchLoop compar bytes fuel 0 nmemb

/-! ## Arrays of elements -/

section Stored
variable {size : Nat}

/-- The array with these elements. -/
def stored (es : List (Element size)) : List UInt8 := (es.map Subtype.val).flatten

@[simp] theorem stored_append (a b : List (Element size)) : stored (a ++ b) = stored a ++ stored b := by
  simp [stored]

@[simp] theorem stored_cons (e : Element size) (b : List (Element size)) : stored (e :: b) = e.val ++ stored b := rfl

@[simp] theorem stored_length (es : List (Element size)) : (stored es).length = es.length * size := by
  induction es with
  | nil => simp [stored]
  | cons e es ih => rw [stored_cons, List.length_append, ih, e.property, List.length_cons]; ring

theorem offset_eq {j n : Nat} (h : n * size < 2 ^ 64) (hj : j ≤ n) : offset j size = j * size :=
  Nat.mod_eq_of_lt (Nat.lt_of_le_of_lt (Nat.mul_le_mul_right size hj) h)

/-- The comparator is shown the element at the index. -/
theorem element_stored (a : List (Element size)) (e : Element size) (b : List (Element size)) :
    element (stored (a ++ e :: b)) (a.length * size) size = some e := by
  have he := e.property
  rw [element, dif_pos (by simp; omega)]
  congr 1
  apply Subtype.ext
  simp only [stored_append, stored_cons]
  rw [List.drop_left' (stored_length a), List.take_left' he]

/-! ## Swapping -/

theorem get_behind (a b : List UInt8) (x : UInt8) {n : Nat} (h : n = a.length) : (a ++ x :: b)[n]? = some x := by
  subst h
  rw [List.getElem?_append_right (Nat.le_refl _), Nat.sub_self, List.getElem?_cons_zero]

theorem set_behind (a b : List UInt8) (x y : UInt8) {n : Nat} (h : n = a.length) :
    (a ++ x :: b).set n y = a ++ y :: b := by
  subst h
  rw [List.set_append_right _ _ (Nat.le_refl _), Nat.sub_self, List.set_cons_zero]

/-- The loop once the two have exchanged the bytes `l₁` and `r₁`: it exchanges the
bytes `l₂` and `r₂` behind them. -/
theorem swapBytes_from (pre l₁ r₁ l₂ r₂ post : List UInt8) (h₁ : l₁.length = r₁.length) (h₂ : l₂.length = r₂.length) :
    swapBytes (pre ++ (r₁ ++ l₂) ++ (l₁ ++ r₂) ++ post) pre.length (pre.length + (r₁ ++ l₂).length) l₁.length
      l₂.length = some (pre ++ (r₁ ++ r₂) ++ (l₁ ++ l₂) ++ post) := by
  induction l₂ generalizing l₁ r₁ r₂ with
  | nil =>
    have hr : r₂ = [] := List.eq_nil_of_length_eq_zero h₂.symm
    simp [swapBytes, hr]
  | cons x l₂ ih =>
    obtain ⟨y, r₂, rfl⟩ := List.exists_cons_of_length_eq_add_one (h₂.symm.trans List.length_cons)
    have h₂ : l₂.length = r₂.length := by simpa using h₂
    have hleft : pre ++ (r₁ ++ x :: l₂) ++ (l₁ ++ y :: r₂) ++ post =
        (pre ++ r₁) ++ x :: (l₂ ++ (l₁ ++ y :: r₂) ++ post) := by simp
    have hright : ∀ z, (pre ++ r₁) ++ z :: (l₂ ++ (l₁ ++ y :: r₂) ++ post) =
        (pre ++ r₁ ++ z :: l₂ ++ l₁) ++ y :: (r₂ ++ post) := fun z => by simp
    have hi : pre.length + l₁.length = (pre ++ r₁).length := by simp [h₁]
    have hj : ∀ z, pre.length + (r₁ ++ x :: l₂).length + l₁.length = (pre ++ r₁ ++ z :: l₂ ++ l₁).length :=
      fun z => by simp; omega
    rw [List.length_cons, swapBytes, hleft, get_behind _ _ _ hi, hright x, get_behind _ _ _ (hj x), ← hright x]
    simp only [Option.bind_eq_bind, Option.bind_some]
    rw [set_behind _ _ _ _ hi, hright y, set_behind _ _ _ _ (hj y)]
    have := ih (l₁ ++ [x]) (r₁ ++ [y]) r₂ (by simp [h₁]) h₂
    simpa using this

/-- Two neighbours change places. -/
theorem swapBytes_stored (a : List (Element size)) (l r : Element size) (b : List (Element size)) :
    swapBytes (stored (a ++ l :: r :: b)) (a.length * size) ((a.length + 1) * size) 0 size =
      some (stored (a ++ r :: l :: b)) := by
  have := swapBytes_from (stored a) [] [] l.val r.val (stored b) rfl (by rw [l.property, r.property])
  simp only [List.nil_append, List.length_nil, stored_length, l.property] at this
  rw [Nat.succ_mul]
  simpa using this

end Stored

/-! ## Sorting -/

section Sorting
variable {size : Nat} (compar : Element size → Element size → Int)

/-- The order `qsort` inserts by, from the end of the sorted part down. -/
def atLeast (x e : Element size) : Prop := compar e x ≤ 0

instance : DecidableRel (atLeast compar) := fun x e => inferInstanceAs (Decidable (compar e x ≤ 0))

/-- The element at `j` is inserted into those before it, seen from the last one. -/
theorem sinkLoop_spec (ra : List (Element size)) (x : Element size) (rb : List (Element size))
    (h : (ra.length + 1) * size < 2 ^ 64) :
    sinkLoop compar (stored (ra.reverse ++ x :: rb)) ra.length =
      some (stored ((ra.orderedInsert (atLeast compar) x).reverse ++ rb)) := by
  induction ra generalizing rb with
  | nil => simp [sinkLoop]
  | cons e ra ih =>
    have hlen : (ra.length + 1 + 1) * size < 2 ^ 64 := h
    have hl := element_stored ra.reverse e (x :: rb)
    have hr := element_stored (ra.reverse ++ [e]) x rb
    have hs := swapBytes_stored ra.reverse e x rb
    rw [List.length_reverse] at hl hs
    rw [List.length_append, List.length_reverse, List.length_singleton] at hr
    have hcat : (e :: ra).reverse ++ x :: rb = ra.reverse ++ e :: x :: rb := by simp
    have hcat' : ra.reverse ++ [e] ++ x :: rb = ra.reverse ++ e :: x :: rb := by simp
    rw [hcat'] at hr
    rw [hcat, List.length_cons, sinkLoop]
    simp only [offset_eq hlen (Nat.le_succ_of_le (Nat.le_succ _)), offset_eq hlen (Nat.le_succ _), hl, hr, hs,
      Option.bind_eq_bind, Option.bind_some]
    by_cases hc : compar e x ≤ 0
    · have hle : atLeast compar x e := hc
      rw [if_pos hc, List.orderedInsert_cons_of_le _ _ hle]
      simp
    · have hle : ¬ atLeast compar x e := hc
      rw [if_neg hc, List.orderedInsert_of_not_le _ _ hle, ih (e :: rb)]
      · simp
      · exact Nat.lt_of_le_of_lt (Nat.mul_le_mul_right size (Nat.le_succ _)) hlen

theorem qsortLoop_spec (ra rb : List (Element size)) (h : (ra.length + rb.length) * size < 2 ^ 64) :
    qsortLoop compar (stored (ra.reverse ++ rb)) ra.length rb.length =
      some (stored (rb.foldl (fun l x => l.orderedInsert (atLeast compar) x) ra).reverse) := by
  induction rb generalizing ra with
  | nil => simp [qsortLoop]
  | cons x rb ih =>
    have hlt : (ra.length + 1) * size < 2 ^ 64 :=
      Nat.lt_of_le_of_lt (Nat.mul_le_mul_right size (by simp)) h
    have hlen := List.orderedInsert_length (atLeast compar) ra x
    have := ih (ra.orderedInsert (atLeast compar) x) (by rw [hlen, Nat.add_right_comm, Nat.add_assoc]; exact h)
    rw [hlen] at this
    rw [List.length_cons, qsortLoop, sinkLoop_spec compar ra x rb hlt]
    simpa using this

/-- `qsort` leaves the insertion sort of its elements. -/
theorem qsort_spec (es : List (Element size)) (h : es.length * size < 2 ^ 64) :
    qsort compar (stored es) es.length = some (stored (es.reverse.insertionSort (atLeast compar)).reverse) := by
  cases es with
  | nil => rfl
  | cons x es =>
    have := qsortLoop_spec compar [x] es (by rw [List.length_singleton, Nat.add_comm]; exact h)
    rw [List.insertionSort, List.foldr_reverse]
    exact this

/-- The comparator is a total preorder on the elements. -/
structure TotalPreorder : Prop where
  total : ∀ a b, compar a b ≤ 0 ∨ compar b a ≤ 0
  trans : ∀ a b c, compar a b ≤ 0 → compar b c ≤ 0 → compar a c ≤ 0

/-- Neither is less than the other. -/
def Same (a b : Element size) : Prop := compar a b ≤ 0 ∧ compar b a ≤ 0

instance : DecidableRel (Same compar) := fun a b =>
  inferInstanceAs (Decidable (compar a b ≤ 0 ∧ compar b a ≤ 0))

/-- A permutation in order, with equal elements in their old order. -/
structure SortedFrom (es es' : List (Element size)) : Prop where
  perm : es'.Perm es
  sorted : es'.Pairwise (fun a b => compar a b ≤ 0)
  stable : ∀ x, es'.filter (Same compar x) = es.filter (Same compar x)

variable {compar}

theorem TotalPreorder.same_le (h : TotalPreorder compar) {x a b : Element size} (ha : Same compar x a)
    (hb : Same compar x b) : compar a b ≤ 0 :=
  h.trans a x b ha.2 hb.1

theorem sorted_insertionSort (h : TotalPreorder compar) (es : List (Element size)) :
    SortedFrom compar es (es.reverse.insertionSort (atLeast compar)).reverse := by
  have htotal : Std.Total (atLeast compar) := ⟨fun a b => h.total b a⟩
  have htrans : IsTrans (Element size) (atLeast compar) := ⟨fun a b c h1 h2 => h.trans c b a h2 h1⟩
  have hperm := ((es.reverse.insertionSort (atLeast compar)).reverse_perm.trans
    (List.perm_insertionSort (atLeast compar) es.reverse)).trans es.reverse_perm
  refine ⟨hperm, List.pairwise_reverse.2 (List.pairwise_insertionSort (atLeast compar) es.reverse), fun x => ?_⟩
  -- elements equal to `x` are in order whichever way round, so they stay a sublist
  have hin : (es.reverse.filter (Same compar x)).Pairwise (atLeast compar) := by
    refine List.pairwise_of_forall_mem_list fun a ha b hb => ?_
    rw [List.mem_filter, decide_eq_true_iff] at ha hb
    exact h.same_le hb.2 ha.2
  have hsub := (List.sublist_insertionSort hin List.filter_sublist).filter (Same compar x)
  simp only [List.filter_filter, Bool.and_self] at hsub
  have heq := hsub.eq_of_length ((List.perm_insertionSort (atLeast compar) es.reverse).filter _).length_eq.symm
  rw [List.filter_reverse, ← heq, List.filter_reverse, List.reverse_reverse]

end Sorting

/-! ## Searching -/

section Searching
variable {size : Nat} {compar : Element size → Int}

/-- The key is above every element before `low` and below every element from `high` on. -/
structure Bracketed (compar : Element size → Int) (es : List (Element size)) (low high : Nat) : Prop where
  le : low ≤ high
  bound : high ≤ es.length
  below : ∀ i e, es[i]? = some e → i < low → 0 < compar e
  above : ∀ i e, es[i]? = some e → high ≤ i → compar e < 0

/-- The array is ordered as the key's comparator expects: elements below the key,
then elements equal to it, then elements above it. -/
def OrderedFor (compar : Element size → Int) (es : List (Element size)) : Prop :=
  es.Pairwise fun a b => (compar a < 0 → compar b < 0) ∧ (0 < compar b → 0 < compar a)

/-- A result of `bsearch`: a pointer to an element equal to the key, or null. -/
def Located (compar : Element size → Int) (es : List (Element size)) (r : Option Nat) : Prop :=
  ∀ p, r = some p → ∃ i e, es[i]? = some e ∧ p = i * size ∧ compar e = 0

theorem element_get {es : List (Element size)} {i : Nat} {e : Element size} (h : es[i]? = some e) :
    element (stored es) (i * size) size = some e := by
  obtain ⟨hi, rfl⟩ := List.getElem?_eq_some_iff.1 h
  have := element_stored (es.take i) es[i] (es.drop (i + 1))
  rwa [List.length_take_of_le (Nat.le_of_lt hi), ← List.drop_eq_getElem_cons hi, List.take_append_drop] at this

theorem Bracketed.upper {es : List (Element size)} {low high mid : Nat} {e : Element size}
    (h : Bracketed compar es low high) (ho : OrderedFor compar es) (h1 : low ≤ mid) (h2 : mid < high)
    (he : es[mid]? = some e) (hlt : compar e < 0) : Bracketed compar es low mid := by
  refine ⟨h1, by have := h.bound; omega, h.below, fun i f hf hi => ?_⟩
  obtain ⟨hm, rfl⟩ := List.getElem?_eq_some_iff.1 he
  obtain ⟨hi', rfl⟩ := List.getElem?_eq_some_iff.1 hf
  rcases Nat.eq_or_lt_of_le hi with rfl | hi
  · exact hlt
  · exact (List.pairwise_iff_getElem.1 ho mid i hm hi' hi).1 hlt

theorem Bracketed.lower {es : List (Element size)} {low high mid : Nat} {e : Element size}
    (h : Bracketed compar es low high) (ho : OrderedFor compar es) (h2 : mid < high)
    (he : es[mid]? = some e) (hgt : 0 < compar e) : Bracketed compar es (mid + 1) high := by
  refine ⟨h2, h.bound, fun i f hf hi => ?_, h.above⟩
  obtain ⟨hm, rfl⟩ := List.getElem?_eq_some_iff.1 he
  obtain ⟨hi', rfl⟩ := List.getElem?_eq_some_iff.1 hf
  rcases Nat.eq_or_lt_of_le (Nat.le_of_lt_succ hi) with rfl | hi
  · exact hgt
  · exact (List.pairwise_iff_getElem.1 ho i mid hi' hm hi).2 hgt

/-- An empty interval leaves no element equal to the key. -/
theorem Bracketed.none {es : List (Element size)} {low high : Nat} (h : Bracketed compar es low high)
    (hle : high ≤ low) : ∀ e ∈ es, compar e ≠ 0 := by
  intro e he h0
  obtain ⟨i, hi⟩ := List.mem_iff_getElem?.1 he
  rcases Nat.lt_or_ge i low with h1 | h1
  · have := h.below i e hi h1; omega
  · have := h.above i e hi (by omega); omega

/-- The loop on an interval that holds every element equal to the key: it returns,
after fewer rounds than the interval is long. -/
theorem bsearchLoop_spec {es : List (Element size)} (ho : OrderedFor compar es) (hs : 0 < size)
    (hn : es.length * size < 2 ^ 64) {fuel low high : Nat} (h : Bracketed compar es low high)
    (hf : high - low < fuel) :
    ∃ r, bsearchLoop compar (stored es) fuel low high = some r ∧ Located compar es r ∧
      (r = none → ∀ e ∈ es, compar e ≠ 0) := by
  induction fuel generalizing low high with
  | zero => omega
  | succ fuel ih =>
    rw [bsearchLoop]
    by_cases hlt : low < high
    · obtain ⟨mid, hmid⟩ : ∃ mid, low + (high - low) / 2 = mid := ⟨_, rfl⟩
      have hlen : es.length < 2 ^ 64 := Nat.lt_of_le_of_lt (Nat.le_mul_of_pos_right _ hs) hn
      have hb := h.bound
      have h1 : low ≤ mid ∧ mid < high := by omega
      obtain ⟨e, he⟩ : ∃ e, es[mid]? = some e := ⟨_, List.getElem?_eq_getElem (by omega)⟩
      have hmod : ∀ k, k ≤ es.length → k % 2 ^ 64 = k := fun k hk => Nat.mod_eq_of_lt (by omega)
      rw [if_pos hlt, hmid]
      simp only [hmod mid (by omega), hmod (mid + 1) (by omega), offset_eq hn (show mid ≤ es.length by omega),
        element_get he, Option.bind_eq_bind, Option.bind_some]
      rcases Int.lt_trichotomy (compar e) 0 with hc | hc | hc
      · rw [if_pos hc]
        exact ih (h.upper ho h1.1 h1.2 he hc) (by omega)
      · rw [if_neg (by omega), if_neg (by omega)]
        refine ⟨some (mid * size), rfl, fun p hp => ?_, by rintro ⟨⟩⟩
        exact ⟨mid, e, he, (Option.some.inj hp).symm, hc⟩
      · rw [if_neg (by omega), if_pos hc]
        exact ih (h.lower ho h1.2 he hc) (by omega)
    · rw [if_neg hlt]
      exact ⟨none, rfl, by rintro p ⟨⟩, fun _ => h.none (by omega)⟩

end Searching

/-- Every array of `nmemb` elements is one with a list of elements. -/
theorem exists_stored {bytes : List UInt8} {nmemb size : Nat} (h : bytes.length = nmemb * size) :
    ∃ es : List (Element size), bytes = stored es ∧ es.length = nmemb := by
  induction nmemb generalizing bytes with
  | zero => exact ⟨[], List.eq_nil_of_length_eq_zero (by simpa using h), rfl⟩
  | succ n ih =>
    rw [Nat.succ_mul] at h
    have hrest : (bytes.drop size).length = n * size := by rw [List.length_drop]; omega
    obtain ⟨es, hes, hlen⟩ := ih hrest
    exact ⟨⟨bytes.take size, by rw [List.length_take]; omega⟩ :: es,
      by rw [stored_cons, ← hes, List.take_append_drop], by rw [List.length_cons, hlen]⟩

/-- `qsort` sorts the array stably. `bsearch` returns, and finds an element equal to
the key if there is one. Neither reads or writes outside the array. -/
theorem sort_and_search (bytes : List UInt8) (nmemb size : Nat) (hs : 0 < size)
    (hlen : bytes.length = nmemb * size) (hn : bytes.length < 2 ^ 64) :
    ∃ es : List (Element size), bytes = stored es ∧ es.length = nmemb ∧
      (∀ compar : Element size → Element size → Int, TotalPreorder compar →
        ∃ es', qsort compar bytes nmemb = some (stored es') ∧ SortedFrom compar es es') ∧
      ∀ compar : Element size → Int, OrderedFor compar es → ∀ fuel, nmemb < fuel →
        ∃ r, bsearch compar bytes nmemb fuel = some r ∧ Located compar es r ∧
          (r ≠ none ↔ ∃ e ∈ es, compar e = 0) := by
  obtain ⟨es, rfl, rfl⟩ := exists_stored hlen
  rw [stored_length] at hn
  refine ⟨es, rfl, rfl, fun compar hc => ⟨_, qsort_spec compar es hn, sorted_insertionSort hc es⟩, ?_⟩
  intro compar ho fuel hf
  have hstart : Bracketed compar es 0 es.length := by
    refine ⟨Nat.zero_le _, Nat.le_refl _, fun i e _ hi => by omega, fun i e he hi => ?_⟩
    rw [List.getElem?_eq_none hi] at he
    cases he
  obtain ⟨r, hr, hloc, hnone⟩ := bsearchLoop_spec ho hs hn hstart (by omega : es.length - 0 < fuel)
  refine ⟨r, hr, hloc, ?_⟩
  cases r with
  | none => simpa using hnone rfl
  | some p =>
    obtain ⟨i, e, he, -, h0⟩ := hloc p rfl
    simp only [ne_eq, reduceCtorEq, not_false_eq_true, true_iff]
    exact ⟨e, List.mem_of_getElem? he, h0⟩

/-- Single bytes, by their value. -/
def byteOrder (a b : Element 1) : Int := (a.val.headD 0).toNat - (b.val.headD 0).toNat

theorem sort_and_search_bytes :
    ∃ es : List (Element 1), [3, 1, 2] = stored es ∧ es.length = 3 ∧
      ∃ es', qsort byteOrder [3, 1, 2] 3 = some (stored es') ∧ SortedFrom byteOrder es es' := by
  obtain ⟨es, h1, h2, h3, -⟩ := sort_and_search [3, 1, 2] 3 1 (by decide) rfl (by decide)
  exact ⟨es, h1, h2, h3 byteOrder ⟨fun a b => by simp only [byteOrder]; omega, fun a b c => by
    simp only [byteOrder]; omega⟩⟩

end MiniLibc.Stdlib
