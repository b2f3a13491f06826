import Mathlib
import MiniLibc.Str.Compare
/-!
# Searching in strings

`strlen`, `strchr`, `strrchr`, `strstr`, `strspn`, `strcspn`, `strpbrk` and `memchr` of
`src/string`. Arguments are arrays as in `Compare.lean`, results are offsets. Each call
finds the first, or the last, position of a kind.
-/

namespace MiniLibc.Str

/-! ## First and last -/

/-- The result of a search from `base` on for a position with `Q`, counted from `base`. -/
def First (Q : Nat → Prop) (base : Nat) : Option Nat → Prop
  | none => ∀ i, ¬Q i
  | some p => ∃ i, p = base + i ∧ Q i ∧ ∀ j, j < i → ¬Q j

/-- The same for the last one, after `last` was found before `base`. -/
def Last (Q : Nat → Prop) (base : Nat) (last r : Option Nat) : Prop :=
  ((∀ i, ¬Q i) ∧ r = last) ∨ ∃ i, r = some (base + i) ∧ Q i ∧ ∀ j, i < j → ¬Q j

section

variable {Q Q' : Nat → Prop} {base : Nat}

theorem First.here (h : Q 0) : First Q base (some base) := ⟨0, rfl, h, fun _ hj => absurd hj (Nat.not_lt_zero _)⟩

theorem First.next {r : Option Nat} (h0 : ¬Q 0) (hs : ∀ i, Q (i + 1) ↔ Q' i) (h : First Q' (base + 1) r) :
    First Q base r := by
  cases r with
  | none =>
    intro i
    cases i with
    | zero => exact h0
    | succ i => exact fun hi => h i ((hs i).1 hi)
  | some p =>
    obtain ⟨i, rfl, hi, hbefore⟩ := h
    refine ⟨i + 1, by omega, (hs i).2 hi, fun j hj => ?_⟩
    cases j with
    | zero => exact h0
    | succ j => exact fun hq => hbefore j (by omega) ((hs j).1 hq)

theorem First.never {r : Option Nat} (h0 : ¬Q 0) (hs : ∀ i, ¬Q (i + 1)) (hr : r = none) : First Q base r := by
  subst hr
  intro i
  cases i with
  | zero => exact h0
  | succ i => exact hs i

theorem Last.next {last r : Option Nat} (hs : ∀ i, Q (i + 1) ↔ Q' i)
    (h : (Q 0 ∧ Last Q' (base + 1) (some base) r) ∨ (¬Q 0 ∧ Last Q' (base + 1) last r)) : Last Q base last r := by
  have hlater {i : Nat} (hi : Q' i) (hafter : ∀ j, i < j → ¬Q' j) :
      some (base + 1 + i) = some (base + (i + 1)) ∧ Q (i + 1) ∧ ∀ j, i + 1 < j → ¬Q j := by
    refine ⟨by rw [Nat.add_right_comm, Nat.add_assoc], (hs i).2 hi, fun j hj => ?_⟩
    obtain ⟨j, rfl⟩ : ∃ k, j = k + 1 := ⟨j - 1, by omega⟩
    exact fun hq => hafter j (by omega) ((hs j).1 hq)
  rcases h with ⟨h0, ⟨hno, rfl⟩ | ⟨i, rfl, hi, hafter⟩⟩ | ⟨h0, ⟨hno, rfl⟩ | ⟨i, rfl, hi, hafter⟩⟩
  · refine .inr ⟨0, rfl, h0, fun j hj => ?_⟩
    obtain ⟨j, rfl⟩ : ∃ k, j = k + 1 := ⟨j - 1, by omega⟩
    exact fun hq => hno j ((hs j).1 hq)
  · exact .inr ⟨i + 1, hlater hi hafter⟩
  · refine .inl ⟨fun i => ?_, rfl⟩
    cases i with
    | zero => exact h0
    | succ i => exact fun hq => hno i ((hs i).1 hq)
  · exact .inr ⟨i + 1, hlater hi hafter⟩

end

/-! ## The calls -/

/-- The conversion of an argument to `unsigned char`. -/
def target (c : Int) : UInt8 := .ofNat (c % 256).toNat

def strlen (s : List UInt8) : Option Nat := loop s 0
where
  loop : List UInt8 → Nat → Option Nat
    | [], _ => none
    | c :: rest, n => if c ≠ 0 then loop rest (n + 1) else some n

def strchr (s : List UInt8) (c : Int) : Option (Option Nat) := loop (target c) s 0
where
  loop (target : UInt8) : List UInt8 → Nat → Option (Option Nat)
    | [], _ => none
    | c :: rest, s => if c = target then some (some s) else if c = 0 then some none else loop target rest (s + 1)

def strrchr (s : List UInt8) (c : Int) : Option (Option Nat) := loop (target c) s 0 none
where
  loop (target : UInt8) : List UInt8 → Nat → Option Nat → Option (Option Nat)
    | [], _, _ => none
    | c :: rest, s, last =>
      let last := if c = target then some s else last
      if c = 0 then some last else loop target rest (s + 1) last

def memchr (s : List UInt8) (c : Int) (n : Nat) : Option (Option Nat) := loop (target c) s 0 n
where
  loop (target : UInt8) : List UInt8 → Nat → Nat → Option (Option Nat)
    | _, _, 0 => some none
    | [], _, _ + 1 => none
    | c :: rest, i, n + 1 => if c = target then some (some i) else loop target rest (i + 1) n

/-- The inner loop of `strstr`: whether it ends at the end of the pattern. -/
def strstrMatch : List UInt8 → List UInt8 → Option Bool
  | _, [] => none
  | [], n :: _ => if n = 0 then some true else none
  | h :: first, n :: pattern =>
    if n = 0 then some true else if h ≠ 0 ∧ h = n then strstrMatch first pattern else some false

def strstrLoop (pattern : List UInt8) : List UInt8 → Nat → Option (Option Nat)
  | [], _ => none
  | c :: rest, first =>
    if c = 0 then some none
    else do
      let found ← strstrMatch (c :: rest) pattern
      if found then some (some first) else strstrLoop pattern rest (first + 1)

def strstr (haystack needle : List UInt8) : Option (Option Nat) := do
  let first ← needle[0]?
  if first = 0 then some (some 0) else strstrLoop needle haystack 0

def strspn (s accept : List UInt8) : Option Nat := spanLoop accept true s 0

def strcspn (s reject : List UInt8) : Option Nat := spanLoop reject false s 0

def strpbrk (s accept : List UInt8) : Option (Option Nat) := loop accept s 0
where
  loop (accept : List UInt8) : List UInt8 → Nat → Option (Option Nat)
    | [], _ => none
    | c :: rest, s =>
      if c = 0 then some none
      else do
        let found ← byteInSet accept c
        if found then some (some s) else loop accept rest (s + 1)

/-! ## What they find -/

/-- The byte `i` of the string satisfies `P`; the terminator is the last one. -/
def Shows (P : UInt8 → Prop) (b : List UInt8) (i : Nat) : Prop :=
  ∃ c, P c ∧ b[i]? = some c ∧ ∀ j, j < i → b[j]? ≠ some 0

/-- The needle is in the haystack at `i`. -/
def Occurs (needle haystack : List UInt8) (i : Nat) : Prop :=
  i ≤ (text haystack).length ∧ text needle <+: (text haystack).drop i

section

variable {P : UInt8 → Prop} {a : UInt8} {b : List UInt8}

theorem shows_zero : Shows P (a :: b) 0 ↔ P a := by
  simp [Shows]

theorem shows_byte {t : UInt8} : Shows (· = t) (a :: b) 0 ↔ a = t := @shows_zero (· = t) a b

theorem shows_succ (h : a ≠ 0) (i : Nat) : Shows P (a :: b) (i + 1) ↔ Shows P b i := by
  unfold Shows
  refine exists_congr fun c => and_congr_right fun _ => ?_
  rw [List.getElem?_cons_succ]
  refine and_congr_right fun _ => ⟨fun hall j hj => ?_, fun hall j hj => ?_⟩
  · have hj := hall (j + 1) (by omega)
    rwa [List.getElem?_cons_succ] at hj
  · cases j with
    | zero => simpa using h
    | succ j =>
      rw [List.getElem?_cons_succ]
      exact hall j (by omega)

theorem shows_end (i : Nat) : ¬Shows P (0 :: b) (i + 1) := by
  rintro ⟨c, -, -, hall⟩
  exact hall 0 (Nat.succ_pos i) rfl

theorem occurs_succ {needle : List UInt8} (h : a ≠ 0) (i : Nat) :
    Occurs needle (a :: b) (i + 1) ↔ Occurs needle b i := by
  unfold Occurs
  rw [text_cons h, List.length_cons, List.drop_succ_cons, Nat.add_le_add_iff_right]

theorem occurs_end {needle : List UInt8} (h : text needle ≠ []) (i : Nat) : ¬Occurs needle (0 :: b) i := by
  rintro ⟨-, hpre⟩
  rw [text_cons_zero, List.drop_nil, List.prefix_nil] at hpre
  exact h hpre

end

theorem zero_not_member (set : List UInt8) : 0 ∉ members set := by
  intro h
  have hne := List.mem_takeWhile_imp h
  simp at hne

/-! ## The loops -/

variable {s : List UInt8}

theorem strlen_loop (h : 0 ∈ s) (base : Nat) :
    ∃ n, strlen.loop s base = some n ∧ First (Shows (· = 0) s) base (some n) := by
  induction s generalizing base with
  | nil => simp at h
  | cons c rest ih =>
    unfold strlen.loop
    split_ifs with hc
    · obtain ⟨n, hn, hfirst⟩ := ih (mem_tail h hc) (base + 1)
      exact ⟨n, hn, hfirst.next (fun hz => hc (shows_byte.1 hz)) (shows_succ hc)⟩
    · exact ⟨base, rfl, .here (shows_byte.2 (not_not.1 hc))⟩

theorem strchr_loop (t : UInt8) (h : 0 ∈ s) (base : Nat) :
    ∃ r, strchr.loop t s base = some r ∧ First (Shows (· = t) s) base r := by
  induction s generalizing base with
  | nil => simp at h
  | cons c rest ih =>
    unfold strchr.loop
    split_ifs with ht hc
    · exact ⟨_, rfl, .here (shows_byte.2 ht)⟩
    · subst hc
      exact ⟨_, rfl, .never (fun hz => ht (shows_byte.1 hz)) shows_end rfl⟩
    · obtain ⟨r, hr, hfirst⟩ := ih (mem_tail h hc) (base + 1)
      exact ⟨r, hr, hfirst.next (fun hz => ht (shows_byte.1 hz)) (shows_succ hc)⟩

theorem strrchr_loop (t : UInt8) (h : 0 ∈ s) (base : Nat) (last : Option Nat) :
    ∃ r, strrchr.loop t s base last = some r ∧ Last (Shows (· = t) s) base last r := by
  induction s generalizing base last with
  | nil => simp at h
  | cons c rest ih =>
    unfold strrchr.loop
    by_cases hc : c = 0
    · subst hc
      refine ⟨_, if_pos rfl, ?_⟩
      split_ifs with ht
      · refine .inr ⟨0, rfl, shows_byte.2 ht, fun j hj => ?_⟩
        obtain ⟨j, rfl⟩ : ∃ k, j = k + 1 := ⟨j - 1, by omega⟩
        exact shows_end j
      · refine .inl ⟨fun i => ?_, rfl⟩
        cases i with
        | zero => exact fun hz => ht (shows_byte.1 hz)
        | succ i => exact shows_end i
    · dsimp only
      rw [if_neg hc]
      by_cases ht : c = t
      · rw [if_pos ht]
        obtain ⟨r, hr, hlast⟩ := ih (mem_tail h hc) (base + 1) (some base)
        exact ⟨r, hr, .next (shows_succ hc) (.inl ⟨shows_byte.2 ht, hlast⟩)⟩
      · rw [if_neg ht]
        obtain ⟨r, hr, hlast⟩ := ih (mem_tail h hc) (base + 1) last
        exact ⟨r, hr, .next (shows_succ hc) (.inr ⟨fun hz => ht (shows_byte.1 hz), hlast⟩)⟩

theorem memchr_loop (t : UInt8) {n : Nat} (h : n ≤ s.length) (base : Nat) :
    ∃ r, memchr.loop t s base n = some r ∧ First (fun i => i < n ∧ s[i]? = some t) base r := by
  induction n generalizing s base with
  | zero => exact ⟨none, by unfold memchr.loop; rfl, fun i hi => absurd hi.1 (Nat.not_lt_zero i)⟩
  | succ n ih =>
    cases s with
    | nil => simp at h
    | cons c rest =>
      unfold memchr.loop
      split_ifs with ht
      · exact ⟨_, rfl, .here ⟨Nat.succ_pos n, by rw [ht]; rfl⟩⟩
      · obtain ⟨r, hr, hfirst⟩ := ih (by simpa using h) (base + 1)
        exact ⟨r, hr, hfirst.next (by simpa using ht) (by simp)⟩

/-- `strspn` and `strcspn`. -/
theorem span_loop {set : List UInt8} (hset : 0 ∈ set) (inside : Bool) (h : 0 ∈ s) (base : Nat) :
    ∃ n, spanLoop set inside s base = some n ∧
      First (Shows (fun c => c = 0 ∨ decide (c ∈ members set) ≠ inside) s) base (some n) := by
  induction s generalizing base with
  | nil => simp at h
  | cons c rest ih =>
    unfold spanLoop
    split_ifs with hc
    · exact ⟨base, rfl, .here (shows_zero.2 (.inl hc))⟩
    · rw [byteInSet_eq hset]
      dsimp only [Option.bind_eq_bind, Option.bind_some]
      split_ifs with hin
      · obtain ⟨n, hn, hfirst⟩ := ih (mem_tail h hc) (base + 1)
        refine ⟨n, hn, hfirst.next (fun hz => ?_) (shows_succ hc)⟩
        rcases shows_zero.1 hz with hz | hz
        · exact hc hz
        · exact hz hin
      · exact ⟨base, rfl, .here (shows_zero.2 (.inr hin))⟩

theorem strpbrk_loop {accept : List UInt8} (hset : 0 ∈ accept) (h : 0 ∈ s) (base : Nat) :
    ∃ r, strpbrk.loop accept s base = some r ∧ First (Shows (· ∈ members accept) s) base r := by
  induction s generalizing base with
  | nil => simp at h
  | cons c rest ih =>
    unfold strpbrk.loop
    split_ifs with hc
    · subst hc
      exact ⟨_, rfl, .never (fun hz => zero_not_member accept (shows_zero.1 hz)) shows_end rfl⟩
    · rw [byteInSet_eq hset]
      dsimp only [Option.bind_eq_bind, Option.bind_some]
      split_ifs with hin
      · exact ⟨_, rfl, .here (shows_zero.2 (of_decide_eq_true hin))⟩
      · obtain ⟨r, hr, hfirst⟩ := ih (mem_tail h hc) (base + 1)
        exact ⟨r, hr, hfirst.next (fun hz => hin (decide_eq_true (shows_zero.1 hz))) (shows_succ hc)⟩

theorem strstrMatch_eq {first pattern : List UInt8} (hf : 0 ∈ first) (hp : 0 ∈ pattern) :
    strstrMatch first pattern = some (decide (text pattern <+: text first)) := by
  induction pattern generalizing first with
  | nil => simp at hp
  | cons n pattern ih =>
    cases first with
    | nil => simp at hf
    | cons h first =>
      unfold strstrMatch
      split_ifs with hn hsame
      · subst hn
        simp [text_cons_zero]
      · obtain ⟨hh, rfl⟩ := hsame
        rw [ih (mem_tail hf hh) (mem_tail hp hh), text_cons hh, text_cons hh]
        simp
      · rw [text_cons hn]
        by_cases hh : h = 0
        · subst hh
          simp [text_cons_zero]
        · rw [text_cons hh]
          have hne : n ≠ h := fun he => hsame ⟨hh, he.symm⟩
          simp [List.cons_prefix_cons, hne]

theorem strstr_loop {needle : List UInt8} (hn : 0 ∈ needle) (hne : text needle ≠ []) (h : 0 ∈ s) (base : Nat) :
    ∃ r, strstrLoop needle s base = some r ∧ First (Occurs needle s) base r := by
  induction s generalizing base with
  | nil => simp at h
  | cons c rest ih =>
    unfold strstrLoop
    split_ifs with hc
    · subst hc
      exact ⟨_, rfl, .never (occurs_end hne 0) (fun i => occurs_end hne (i + 1)) rfl⟩
    · rw [strstrMatch_eq h hn]
      dsimp only [Option.bind_eq_bind, Option.bind_some]
      have hzero : Occurs needle (c :: rest) 0 ↔ text needle <+: text (c :: rest) := by
        simp [Occurs]
      split_ifs with hfound
      · exact ⟨_, rfl, .here (hzero.2 (of_decide_eq_true hfound))⟩
      · obtain ⟨r, hr, hfirst⟩ := ih (mem_tail h hc) (base + 1)
        exact ⟨r, hr, hfirst.next (fun hz => hfound (decide_eq_true (hzero.1 hz))) (occurs_succ hc)⟩

/-- `strstr` finds the first place where the needle occurs, and null if there is none. It
reads neither string behind its terminator. -/
theorem strstr_first {haystack needle : List UInt8} (hh : 0 ∈ haystack) (hn : 0 ∈ needle) :
    ∃ r, strstr haystack needle = some r ∧ First (Occurs needle haystack) 0 r := by
  cases needle with
  | nil => simp at hn
  | cons n needle =>
    unfold strstr
    dsimp only [List.getElem?_cons_zero, Option.bind_eq_bind, Option.bind_some]
    split_ifs with h0
    · subst h0
      exact ⟨_, rfl, .here ⟨Nat.zero_le _, List.nil_prefix⟩⟩
    · exact strstr_loop hn (by rw [text_cons h0]; simp) hh 0

theorem strstr_first_demo :
    strstr [97, 97, 98, 0, 98] [97, 98, 0] = some (some 1) ∧
      ∃ r, strstr [97, 97, 98, 0, 98] [97, 98, 0] = some r ∧ First (Occurs [97, 98, 0] [97, 97, 98, 0, 98]) 0 r :=
  ⟨rfl, strstr_first (by simp) (by simp)⟩

/-- The calls that look for bytes: `strlen` finds the terminator, `strchr` and `strrchr` the
first and the last byte that is their argument (which may be the terminator), `memchr` the
first among `n`, `strspn` and `strcspn` the first byte out of the set and in it, or the
terminator, and `strpbrk` the first in it. None reads behind the terminators or the `n`
bytes. -/
theorem searches {s set : List UInt8} (h : 0 ∈ s) (hset : 0 ∈ set) (c : Int) :
    (∃ n, strlen s = some n ∧ First (Shows (· = 0) s) 0 (some n)) ∧
    (∃ r, strchr s c = some r ∧ First (Shows (· = target c) s) 0 r) ∧
    (∃ r, strrchr s c = some r ∧ Last (Shows (· = target c) s) 0 none r) ∧
    (∀ n, n ≤ s.length → ∃ r, memchr s c n = some r ∧ First (fun i => i < n ∧ s[i]? = some (target c)) 0 r) ∧
    (∃ n, strspn s set = some n ∧ First (Shows (fun c => c = 0 ∨ c ∉ members set) s) 0 (some n)) ∧
    (∃ n, strcspn s set = some n ∧ First (Shows (fun c => c = 0 ∨ c ∈ members set) s) 0 (some n)) ∧
    (∃ r, strpbrk s set = some r ∧ First (Shows (· ∈ members set) s) 0 r) := by
  refine ⟨strlen_loop h 0, strchr_loop _ h 0, strrchr_loop _ h 0 none, fun n hn => memchr_loop _ hn 0, ?_, ?_,
    strpbrk_loop hset h 0⟩
  · unfold strspn
    have hspan := span_loop hset true h 0
    simpa using hspan
  · unfold strcspn
    have hspan := span_loop hset false h 0
    simpa using hspan

theorem searches_demo :
    (∃ n, strlen [97, 98, 97, 0, 97] = some n ∧ First (Shows (· = 0) [97, 98, 97, 0, 97]) 0 (some n)) ∧
    ∃ r, strrchr [97, 98, 97, 0, 97] 97 = some r ∧ Last (Shows (· = target 97) [97, 98, 97, 0, 97]) 0 none r := by
  have h := @searches [97, 98, 97, 0, 97] [98, 0] (by simp) (by simp) 97
  exact ⟨h.1, h.2.2.1⟩

end MiniLibc.Str
