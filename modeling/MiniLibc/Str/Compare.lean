import Mathlib
import MiniLibc.Stdlib.Sort
import MiniLibc.Str.Token
/-!
# Comparing

`strcmp`, `strncmp` and `memcmp` of `src/string`: the sign of a result is that of the
lexicographic order on unsigned bytes. An argument is the array that its pointer leads
into, from the pointer to the end of the array, and `none` is a read past the end.

`memcmp` as the comparator of `qsort` and `bsearch` makes a table of records of one size
that is in this order and is searched in it.
-/

namespace MiniLibc.Str

/-! ## The calls -/

def strcmp : List UInt8 → List UInt8 → Option Int
  | a :: left, b :: right => if a ≠ 0 ∧ a = b then strcmp left right else some (a.toNat - b.toNat)
  | _, _ => none

def strncmp : List UInt8 → List UInt8 → Nat → Option Int
  | _, _, 0 => some 0
  | a :: left, b :: right, n + 1 =>
    if a ≠ b ∨ a = 0 then some (a.toNat - b.toNat) else strncmp left right n
  | _, _, _ => none

def memcmp : List UInt8 → List UInt8 → Nat → Option Int
  | _, _, 0 => some 0
  | a :: s1, b :: s2, n + 1 => if a ≠ b then some (a.toNat - b.toNat) else memcmp s1 s2 n
  | _, _, _ => none

/-! ## What they mean -/

/-- The string in an array. -/
def text (b : List UInt8) : List UInt8 := b.takeWhile (· ≠ 0)

/-- The result of a comparison, as the order `o`. -/
def Orders (r : Option Int) (o : Ordering) : Prop := ∃ d, r = some d ∧ compare d 0 = o

theorem text_cons_zero (b : List UInt8) : text (0 :: b) = [] := rfl

theorem text_cons {c : UInt8} (h : c ≠ 0) (b : List UInt8) : text (c :: b) = c :: text b :=
  List.takeWhile_cons_of_pos (by simpa using h)

theorem mem_tail {c : UInt8} {b : List UInt8} (h : 0 ∈ c :: b) (hc : c ≠ 0) : 0 ∈ b := by
  rcases List.mem_cons.1 h with h | h
  · exact absurd h.symm hc
  · exact h

theorem compare_byte (a b : UInt8) : compare ((a.toNat : Int) - b.toNat) 0 = compare a b := by
  have hbyte : compare a b = compare a.toNat b.toNat := by
    simp only [compare, compareOfLessAndEq, UInt8.lt_iff_toNat_lt, ← UInt8.toNat_inj]
  rw [hbyte]
  rcases lt_trichotomy a.toNat b.toNat with h | h | h
  · rw [compare_lt_iff_lt.2 h, compare_lt_iff_lt]
    omega
  · rw [h]
    simp
  · rw [compare_gt_iff_gt.2 h, compare_gt_iff_gt]
    omega

theorem compare_same (a : UInt8) : compare a a = .eq := Std.ReflCmp.compare_self

/-- The first difference decides. -/
theorem compare_cons_ne {a b : UInt8} (h : a ≠ b) (l r : List UInt8) : compare (a :: l) (b :: r) = compare a b := by
  rw [List.compare_cons_cons]
  cases hc : compare a b with
  | eq => exact absurd (Std.LawfulEqCmp.eq_of_compare hc) h
  | lt => rfl
  | gt => rfl

theorem compare_cons_same (a : UInt8) (l r : List UInt8) : compare (a :: l) (a :: r) = compare l r := by
  rw [List.compare_cons_cons, compare_same]
  rfl

/-- A string from the byte `c` on, of which the terminator is no part. -/
def Begins (c : UInt8) (l : List UInt8) : Prop := (c = 0 ∧ l = []) ∨ ∃ rest, l = c :: rest

theorem begins_text (c : UInt8) (b : List UInt8) : Begins c (text (c :: b)) := by
  by_cases hc : c = 0
  · subst hc
    exact .inl ⟨rfl, rfl⟩
  · exact .inr ⟨text b, text_cons hc b⟩

theorem Begins.take {c : UInt8} {l : List UInt8} (h : Begins c l) (n : Nat) : Begins c (l.take (n + 1)) := by
  rcases h with ⟨hc, rfl⟩ | ⟨rest, rfl⟩
  · exact .inl ⟨hc, rfl⟩
  · exact .inr ⟨rest.take n, rfl⟩

/-- A difference that may be the end of one of the strings. -/
theorem compare_begins {a b : UInt8} (h : a ≠ b) {l r : List UInt8} (hl : Begins a l) (hr : Begins b r) :
    compare a b = compare l r := by
  rcases hl with ⟨rfl, rfl⟩ | ⟨l, rfl⟩
  · obtain ⟨r, rfl⟩ := hr.resolve_left fun hb => h hb.1.symm
    have hpos : b.toNat ≠ 0 := fun h0 => h (UInt8.toNat_inj.1 h0.symm)
    rw [List.compare_nil_cons, ← compare_byte, compare_lt_iff_lt]
    simp
    omega
  · rcases hr with ⟨rfl, rfl⟩ | ⟨r, rfl⟩
    · have hpos : a.toNat ≠ 0 := fun h0 => h (UInt8.toNat_inj.1 h0)
      rw [List.compare_cons_nil, ← compare_byte, compare_gt_iff_gt]
      simp
      omega
    · rw [compare_cons_ne h]

theorem strcmp_orders {left right : List UInt8} (hl : 0 ∈ left) (hr : 0 ∈ right) :
    Orders (strcmp left right) (compare (text left) (text right)) := by
  induction left generalizing right with
  | nil => simp at hl
  | cons a left ih =>
    cases right with
    | nil => simp at hr
    | cons b right =>
      unfold strcmp
      split_ifs with h
      · obtain ⟨ha, rfl⟩ := h
        rw [text_cons ha, text_cons ha, compare_cons_same]
        exact ih (mem_tail hl ha) (mem_tail hr ha)
      · refine ⟨_, rfl, ?_⟩
        rw [compare_byte]
        by_cases hab : a = b
        · have ha : a = 0 := by
            by_contra ha
            exact h ⟨ha, hab⟩
          subst hab ha
          simp [text_cons_zero]
        · exact compare_begins hab (begins_text a left) (begins_text b right)

/-- At most `n` bytes of a string count, and one of the arrays need not go on after them. -/
theorem strncmp_orders {left right : List UInt8} {n : Nat} (hl : 0 ∈ left ∨ n ≤ left.length)
    (hr : 0 ∈ right ∨ n ≤ right.length) :
    Orders (strncmp left right n) (compare ((text left).take n) ((text right).take n)) := by
  induction n generalizing left right with
  | zero => exact ⟨0, by unfold strncmp; rfl, by simp⟩
  | succ n ih =>
    have hne {b : List UInt8} (h : 0 ∈ b ∨ n + 1 ≤ b.length) : ∃ c rest, b = c :: rest := by
      cases b with
      | nil => simp at h
      | cons c rest => exact ⟨c, rest, rfl⟩
    obtain ⟨a, left, rfl⟩ := hne hl
    obtain ⟨b, right, rfl⟩ := hne hr
    have htail {c : UInt8} {rest : List UInt8} (hc : c ≠ 0) (h : 0 ∈ c :: rest ∨ n + 1 ≤ (c :: rest).length) :
        0 ∈ rest ∨ n ≤ rest.length := by
      rcases h with h | h
      · exact .inl (mem_tail h hc)
      · exact .inr (by simpa using h)
    unfold strncmp
    split_ifs with h
    · refine ⟨_, rfl, ?_⟩
      rw [compare_byte]
      by_cases hab : a = b
      · have ha : a = 0 := h.resolve_left (not_not.2 hab)
        subst hab ha
        simp [text_cons_zero]
      · exact compare_begins hab ((begins_text a left).take n) ((begins_text b right).take n)
    · obtain ⟨hab, ha⟩ := not_or.1 h
      have hab := not_not.1 hab
      subst hab
      rw [text_cons ha, text_cons ha, List.take_succ_cons, List.take_succ_cons, compare_cons_same]
      exact ih (htail ha hl) (htail ha hr)

theorem memcmp_orders {s1 s2 : List UInt8} {n : Nat} (h1 : n ≤ s1.length) (h2 : n ≤ s2.length) :
    Orders (memcmp s1 s2 n) (compare (s1.take n) (s2.take n)) := by
  induction n generalizing s1 s2 with
  | zero => exact ⟨0, by unfold memcmp; rfl, by simp⟩
  | succ n ih =>
    cases s1 with
    | nil => simp at h1
    | cons a s1 =>
      cases s2 with
      | nil => simp at h2
      | cons b s2 =>
        rw [List.take_succ_cons, List.take_succ_cons]
        unfold memcmp
        split_ifs with hab
        · refine ⟨_, rfl, ?_⟩
          rw [compare_byte, compare_cons_ne hab]
        · have hab := not_not.1 hab
          subst hab
          rw [compare_cons_same]
          exact ih (by simpa using h1) (by simpa using h2)

/-- All three compare lexicographically, as unsigned bytes and a prefix first: `strcmp`
the strings, `strncmp` at most their first `n` bytes, `memcmp` the `n` bytes whatever they
are. None reads behind a terminator that it needs or behind its `n` bytes. -/
theorem comparisons {left right : List UInt8} {n : Nat} :
    (0 ∈ left → 0 ∈ right → Orders (strcmp left right) (compare (text left) (text right))) ∧
    ((0 ∈ left ∨ n ≤ left.length) → (0 ∈ right ∨ n ≤ right.length) →
      Orders (strncmp left right n) (compare ((text left).take n) ((text right).take n))) ∧
    (n ≤ left.length → n ≤ right.length →
      Orders (memcmp left right n) (compare (left.take n) (right.take n))) :=
  ⟨strcmp_orders, strncmp_orders, memcmp_orders⟩

theorem comparisons_demo :
    Orders (strcmp [97, 0, 1] [97, 0, 2]) .eq ∧ Orders (strncmp [97, 98] [97, 99] 2) .lt ∧
      Orders (memcmp [97, 0, 200] [97, 0, 2] 3) .gt :=
  ⟨comparisons (n := 0).1 (by simp) (by simp), comparisons.2.1 (.inr (by simp)) (.inr (by simp)),
    comparisons.2.2 (by simp) (by simp)⟩

/-! ## Tables of records -/

section Records

open Stdlib

variable {size : Nat}

/-- The comparator means an order. -/
def Means (compar : Element size → Element size → Int) (cmp : Element size → Element size → Ordering) : Prop :=
  ∀ a b, compare (compar a b) 0 = cmp a b

section

variable {compar : Element size → Element size → Int} {cmp : Element size → Element size → Ordering}

theorem Means.le (h : Means compar cmp) {a b : Element size} : compar a b ≤ 0 ↔ (cmp a b).isLE := by
  rw [← h a b, Ordering.isLE_iff_ne_gt, compare_gt_iff_gt, not_lt]

theorem Means.lt (h : Means compar cmp) {a b : Element size} : compar a b < 0 ↔ cmp a b = .lt := by
  rw [← h a b, compare_lt_iff_lt]

theorem Means.gt (h : Means compar cmp) {a b : Element size} : 0 < compar a b ↔ cmp a b = .gt := by
  rw [← h a b, compare_gt_iff_gt]

theorem Means.eq (h : Means compar cmp) {a b : Element size} : compar a b = 0 ↔ cmp a b = .eq := by
  rw [← h a b, compare_eq_iff_eq]

theorem Means.total [Std.TransCmp cmp] (h : Means compar cmp) : TotalPreorder compar where
  total a b := by
    have hge : (cmp a b).isGE ↔ (cmp b a).isLE := Std.OrientedCmp.isGE_iff_isLE
    rw [h.le, h.le, ← hge]
    cases cmp a b <;> decide
  trans a b c := by
    rw [h.le, h.le, h.le]
    exact Std.TransCmp.isLE_trans

/-- A sorted array is ordered for every key. -/
theorem Means.ordered [Std.TransCmp cmp] (h : Means compar cmp) {es : List (Element size)}
    (hs : es.Pairwise fun a b => compar a b ≤ 0) (key : Element size) : OrderedFor (compar key) es := by
  refine hs.imp fun {a b} hab => ?_
  rw [h.le] at hab
  rw [h.lt, h.lt, h.gt, h.gt]
  refine ⟨fun hka => ?_, fun hkb => ?_⟩
  · exact Std.TransCmp.lt_of_lt_of_isLE hka hab
  · exact Std.TransCmp.gt_of_gt_of_isGE hkb (Std.OrientedCmp.isGE_of_isLE hab)

/-- `bsearch` in what `qsort` leaves. -/
theorem sort_then_search [Std.TransCmp cmp] (h : Means compar cmp) {es : List (Element size)} (hs : 0 < size)
    (hn : es.length * size < 2 ^ 64) :
    ∃ es', qsort compar (stored es) es.length = some (stored es') ∧ SortedFrom compar es es' ∧
      ∀ key fuel, es.length < fuel →
        ∃ r, bsearch (compar key) (stored es') es.length fuel = some r ∧ Located (compar key) es' r ∧
          (r ≠ none ↔ ∃ e ∈ es, cmp key e = .eq) := by
  have hsorted := sorted_insertionSort h.total es
  refine ⟨_, qsort_spec compar es hn, hsorted, fun key fuel hfuel => ?_⟩
  obtain ⟨es', hes'⟩ : ∃ es', es' = (es.reverse.insertionSort (atLeast compar)).reverse := ⟨_, rfl⟩
  rw [← hes'] at hsorted ⊢
  have hlen : es'.length = es.length := hsorted.perm.length_eq
  rw [← hlen] at hfuel hn ⊢
  have hstart : Bracketed (compar key) es' 0 es'.length := by
    refine ⟨Nat.zero_le _, Nat.le_refl _, fun i e _ hi => by omega, fun i e he hi => ?_⟩
    rw [List.getElem?_eq_none hi] at he
    cases he
  obtain ⟨r, hr, hloc, hnone⟩ := bsearchLoop_spec (h.ordered hsorted.sorted key) hs hn hstart (by omega)
  refine ⟨r, hr, hloc, ?_⟩
  cases r with
  | none =>
    refine ⟨fun hno => absurd rfl hno, ?_⟩
    rintro ⟨e, he, hkey⟩
    exact absurd (h.eq.2 hkey) (hnone rfl e (hsorted.perm.mem_iff.2 he))
  | some p =>
    obtain ⟨i, e, he, -, h0⟩ := hloc p rfl
    exact ⟨fun _ => ⟨e, hsorted.perm.mem_iff.1 (List.mem_of_getElem? he), h.eq.1 h0⟩, fun _ => by simp⟩

end

/-- `memcmp` as a comparator of whole records. -/
def byBytes (size : Nat) (a b : Element size) : Int := (memcmp a.val b.val size).getD 0

def lexicographic (size : Nat) (a b : Element size) : Ordering := compare a.val b.val

instance : Std.TransCmp (lexicographic size) where
  eq_swap {a b} := @Std.OrientedCmp.eq_swap (List UInt8) compare _ a.val b.val
  isLE_trans {a b c} := @Std.TransCmp.isLE_trans (List UInt8) compare _ a.val b.val c.val

theorem byBytes_means : Means (byBytes size) (lexicographic size) := by
  intro a b
  obtain ⟨d, hd, hc⟩ := memcmp_orders a.property.ge b.property.ge
  rw [List.take_of_length_le a.property.le, List.take_of_length_le b.property.le] at hc
  unfold byBytes lexicographic
  rw [hd]
  exact hc

/-- A table of records of one size, sorted by `qsort` with `memcmp`: it has the same records
in lexicographic order, and `bsearch` in it finds a key if and only if it is one of them, at
a record that is equal to it byte by byte. -/
theorem record_table (bytes : List UInt8) (nmemb size : Nat) (hs : 0 < size) (hlen : bytes.length = nmemb * size)
    (hn : bytes.length < 2 ^ 64) :
    ∃ es es' : List (Element size), bytes = stored es ∧ qsort (byBytes size) bytes nmemb = some (stored es') ∧
      es'.Perm es ∧ es'.Pairwise (fun a b => (compare a.val b.val).isLE) ∧
      ∀ key fuel, nmemb < fuel → ∃ r, bsearch (byBytes size key) (stored es') nmemb fuel = some r ∧
        (∀ p, r = some p → ∃ i, es'[i]? = some key ∧ p = i * size) ∧ (r ≠ none ↔ key ∈ es) := by
  obtain ⟨es, rfl, rfl⟩ := exists_stored hlen
  rw [stored_length] at hn
  have hequal {a b : Element size} : lexicographic size a b = .eq ↔ a = b := by
    refine ⟨fun h => Subtype.ext (Std.LawfulEqCmp.eq_of_compare h), ?_⟩
    rintro rfl
    exact Std.ReflCmp.compare_self
  obtain ⟨es', hq, hsorted, hsearch⟩ := sort_then_search byBytes_means hs hn
  refine ⟨es, es', rfl, hq, hsorted.perm, hsorted.sorted.imp fun h => byBytes_means.le.1 h, fun key fuel hfuel => ?_⟩
  obtain ⟨r, hr, hloc, hfound⟩ := hsearch key fuel hfuel
  refine ⟨r, hr, fun p hp => ?_, ?_⟩
  · obtain ⟨i, e, he, hi, h0⟩ := hloc p hp
    have hkey : key = e := hequal.1 (byBytes_means.eq.1 h0)
    subst hkey
    exact ⟨i, he, hi⟩
  · rw [hfound]
    constructor
    · rintro ⟨e, he, hkey⟩
      rwa [hequal.1 hkey]
    · intro hkey
      exact ⟨key, hkey, hequal.2 rfl⟩

theorem record_table_demo :
    ∃ es es' : List (Element 2), [2, 1, 1, 200, 1, 3] = stored es ∧
      qsort (byBytes 2) [2, 1, 1, 200, 1, 3] 3 = some (stored es') ∧
      es'.Perm es ∧ es'.Pairwise (fun a b => (compare a.val b.val).isLE) ∧
      ∀ key fuel, 3 < fuel → ∃ r, bsearch (byBytes 2 key) (stored es') 3 fuel = some r ∧
        (∀ p, r = some p → ∃ i, es'[i]? = some key ∧ p = i * 2) ∧ (r ≠ none ↔ key ∈ es) :=
  record_table [2, 1, 1, 200, 1, 3] 3 2 (by decide) rfl (by decide)

end Records

end MiniLibc.Str
