import Mathlib
import MiniLibc.Lib.Memory
/-!
# Building strings

`strcpy`, `strncpy`, `strcat` and `strncat` of `src/string/string.c`, which write into a
buffer that its caller made large enough. The loops that stop at a terminator only have
fuel.
-/

namespace MiniLibc.Str

open Memory

/-! ## The calls -/

def strcpyLoop (m : Mem) (dest src : Nat) : (fuel i : Nat) → Option Mem
  | 0, _ => none
  | fuel + 1, i =>
    let m := poke m (dest + i) (m (src + i))
    if m (src + i) ≠ 0 then strcpyLoop m dest src fuel (i + 1) else some m

def strcpy (m : Mem) (dest src fuel : Nat) : Option Mem := strcpyLoop m dest src fuel 0

/-- The loop of `strncpy` and `strncat` that copies, from `i` on with `left` bytes to go. -/
def copyLoop (m : Mem) (dest src : Nat) : (left i : Nat) → Mem × Nat
  | 0, i => (m, i)
  | left + 1, i =>
    if m (src + i) ≠ 0 then copyLoop (poke m (dest + i) (m (src + i))) dest src left (i + 1) else (m, i)

/-- The loop of `strncpy` that pads. -/
def padLoop (m : Mem) (dest : Nat) : (left i : Nat) → Mem
  | 0, _ => m
  | left + 1, i => padLoop (poke m (dest + i) 0) dest left (i + 1)

def strncpy (m : Mem) (dest src n : Nat) : Mem :=
  let (m, i) := copyLoop m dest src n 0
  padLoop m dest (n - i) i

/-- Where the string at `dest` ends. -/
def endLoop (m : Mem) : (fuel dest : Nat) → Option Nat
  | 0, _ => none
  | fuel + 1, dest => if m dest ≠ 0 then endLoop m fuel (dest + 1) else some dest

def strcatLoop (m : Mem) : (fuel dest src : Nat) → Option Mem
  | 0, _, _ => none
  | fuel + 1, dest, src =>
    let m := poke m dest (m src)
    if m src ≠ 0 then strcatLoop m fuel (dest + 1) (src + 1) else some m

def strcat (m : Mem) (dest src fuel : Nat) : Option Mem := do
  let dest ← endLoop m fuel dest
  strcatLoop m fuel dest src

def strncat (m : Mem) (dest src n fuel : Nat) : Option Mem := do
  let dest ← endLoop m fuel dest
  let (m, i) := copyLoop m dest src n 0
  some (poke m (dest + i) 0)

/-! ## Strings in memory -/

/-- The string at `a`. -/
def IsString (m : Mem) (a : Nat) : List UInt8 → Prop
  | [] => m a = 0
  | c :: l => c ≠ 0 ∧ m a = c ∧ IsString m (a + 1) l

theorem IsString.congr {m m' : Mem} {a : Nat} {l : List UInt8} (h : IsString m a l)
    (hm : AgreeOn m m' a (a + l.length + 1)) : IsString m' a l := by
  induction l generalizing a with
  | nil => exact (hm a (Nat.le_refl a) (by simp)).trans h
  | cons c l ih =>
    obtain ⟨hc, ha, htail⟩ := h
    rw [List.length_cons] at hm
    exact ⟨hc, (hm a (Nat.le_refl a) (by omega)).trans ha, ih htail (hm.mono (by omega) (by omega))⟩

theorem IsString.ne_zero {m : Mem} {a : Nat} {l : List UInt8} (h : IsString m a l) : ∀ c ∈ l, c ≠ 0 := by
  induction l generalizing a with
  | nil => simp
  | cons d l ih =>
    intro c hc
    rcases List.mem_cons.1 hc with rfl | hc
    · exact h.1
    · exact ih h.2.2 c hc

/-- A string written in full. -/
theorem isString_fill (m : Mem) (a : Nat) {l : List UInt8} (h : ∀ c ∈ l, c ≠ 0) (rest : List UInt8) :
    IsString (fill m a (l ++ 0 :: rest)) a l := by
  induction l generalizing m a with
  | nil =>
    rw [List.nil_append, fill]
    unfold IsString
    rw [fill_out (.inl (Nat.lt_succ_self a)), poke_same]
  | cons c l ih =>
    refine ⟨h c List.mem_cons_self, ?_, ih _ _ fun d hd => h d (List.mem_cons_of_mem _ hd)⟩
    rw [List.cons_append, fill, fill_out (.inl (Nat.lt_succ_self a)), poke_same]

/-- A string written at the end of another. -/
theorem IsString.append {m : Mem} {a : Nat} {l s : List UInt8} (h : IsString m a l) (hs : ∀ c ∈ s, c ≠ 0) :
    IsString (fill m (a + l.length) (s ++ [0])) a (l ++ s) := by
  induction l generalizing a with
  | nil => exact isString_fill m a hs []
  | cons c l ih =>
    obtain ⟨hc, ha, htail⟩ := h
    rw [List.length_cons, show a + (l.length + 1) = a + 1 + l.length by omega]
    refine ⟨hc, ?_, ih htail⟩
    rw [fill_out (.inl (by omega))]
    exact ha

/-! ## The loops -/

/-- The string of length `k` at `src` and the `n` bytes at `dest` are apart. -/
def Apart (dest n src k : Nat) : Prop := src + k < dest ∨ dest + n ≤ src

theorem IsString.poke {m : Mem} {a x : Nat} {l : List UInt8} (h : IsString m a l) (b : UInt8)
    (hx : x < a ∨ a + l.length < x) : IsString (poke m x b) a l :=
  h.congr fun y h1 h2 => poke_other b (by omega)

theorem Apart.mono {dest n n' src k : Nat} (h : Apart dest n src k) (hn : n' ≤ n) : Apart dest n' src k := by
  unfold Apart at h ⊢
  omega

theorem strcpyLoop_eq {m : Mem} {dest src fuel i : Nat} {l : List UInt8} (h : IsString m (src + i) l)
    (hapart : Apart (dest + i) (l.length + 1) (src + i) l.length) (hfuel : l.length < fuel) :
    strcpyLoop m dest src fuel i = some (fill m (dest + i) (l ++ [0])) := by
  induction l generalizing m fuel i with
  | nil =>
    obtain ⟨fuel, rfl⟩ : ∃ f, fuel = f + 1 := ⟨fuel - 1, by omega⟩
    have h0 : m (src + i) = 0 := h
    unfold Apart at hapart
    simp only [List.length_nil] at hapart
    unfold strcpyLoop
    dsimp only
    rw [h0, poke_other _ (by omega), h0, if_neg (not_not.2 rfl)]
    rfl
  | cons c l ih =>
    obtain ⟨fuel, rfl⟩ : ∃ f, fuel = f + 1 := ⟨fuel - 1, by omega⟩
    obtain ⟨hc, ha, htail⟩ := h
    unfold Apart at hapart
    rw [List.length_cons] at hapart hfuel
    unfold strcpyLoop
    dsimp only
    rw [ha, poke_other _ (by omega), ha, if_pos hc, ih (htail.poke c (by omega)) (by unfold Apart; omega) (by omega)]
    rfl

theorem copyLoop_eq {m : Mem} {dest src left i : Nat} {l : List UInt8} (h : IsString m (src + i) l)
    (hapart : Apart (dest + i) (min left l.length) (src + i) l.length) :
    copyLoop m dest src left i = (fill m (dest + i) (l.take left), i + min left l.length) := by
  induction left generalizing m i l with
  | zero => simp [copyLoop, fill]
  | succ left ih =>
    unfold copyLoop
    cases l with
    | nil =>
      have h0 : m (src + i) = 0 := h
      rw [h0, if_neg (not_not.2 rfl)]
      simp [fill]
    | cons c l =>
      obtain ⟨hc, ha, htail⟩ := h
      unfold Apart at hapart
      rw [List.length_cons] at hapart
      rw [ha, if_pos hc, ih (htail.poke c (by omega)) (by unfold Apart; omega), List.take_succ_cons, List.length_cons,
        fill, Nat.succ_min_succ]
      congr 1
      omega

theorem padLoop_eq (m : Mem) (dest left i : Nat) :
    padLoop m dest left i = fill m (dest + i) (List.replicate left 0) := by
  induction left generalizing m i with
  | zero => rfl
  | succ left ih =>
    rw [padLoop, ih, List.replicate_succ, fill]
    rfl

theorem endLoop_eq {m : Mem} {fuel dest : Nat} {l : List UInt8} (h : IsString m dest l) (hfuel : l.length < fuel) :
    endLoop m fuel dest = some (dest + l.length) := by
  induction l generalizing fuel dest with
  | nil =>
    obtain ⟨fuel, rfl⟩ : ∃ f, fuel = f + 1 := ⟨fuel - 1, by omega⟩
    have h0 : m dest = 0 := h
    rw [endLoop, h0, if_neg (not_not.2 rfl)]
    rfl
  | cons c l ih =>
    rw [List.length_cons] at hfuel
    obtain ⟨fuel, rfl⟩ : ∃ f, fuel = f + 1 := ⟨fuel - 1, by omega⟩
    obtain ⟨hc, ha, htail⟩ := h
    rw [endLoop, ha, if_pos hc, ih htail (by omega), List.length_cons]
    congr 1
    omega

/-- `strcat` goes on as `strcpy` would there. -/
theorem strcatLoop_eq (m : Mem) (fuel dest src i : Nat) :
    strcatLoop m fuel (dest + i) (src + i) = strcpyLoop m dest src fuel i := by
  induction fuel generalizing m i with
  | zero => rfl
  | succ fuel ih =>
    unfold strcatLoop strcpyLoop
    dsimp only
    rw [Nat.add_assoc, Nat.add_assoc, ih]

/-! ## Edits of a buffer -/

/-- A string to copy from, and what it says. -/
structure Source where
  addr : Nat
  chars : List UInt8

inductive Edit where
  | strcpy (src : Source)
  | strncpy (src : Source) (n : Nat)
  | strcat (src : Source)
  | strncat (src : Source) (n : Nat)

namespace Edit

def source : Edit → Source
  | .strcpy src => src
  | .strncpy src _ => src
  | .strcat src => src
  | .strncat src _ => src

def run (dest fuel : Nat) (m : Mem) : Edit → Option Mem
  | .strcpy src => Str.strcpy m dest src.addr fuel
  | .strncpy src n => some (Str.strncpy m dest src.addr n)
  | .strcat src => Str.strcat m dest src.addr fuel
  | .strncat src n => Str.strncat m dest src.addr n fuel

/-- The string in the buffer of `cap` bytes after a call, if there is one and it fits. What
`strncpy` leaves is a string only if it has room for the terminator, and it fills its `n`
bytes. -/
def result (cap : Nat) (l : List UInt8) : Edit → Option (List UInt8)
  | .strcpy src => if src.chars.length < cap then some src.chars else none
  | .strncpy src n => if src.chars.length < n ∧ n ≤ cap then some src.chars else none
  | .strcat src => if (l ++ src.chars).length < cap then some (l ++ src.chars) else none
  | .strncat src n => if (l ++ src.chars.take n).length < cap then some (l ++ src.chars.take n) else none

end Edit

/-- The bytes outside the buffer are those of before. -/
def OutsideSame (m m' : Mem) (dest cap : Nat) : Prop := ∀ x, x < dest ∨ dest + cap ≤ x → m' x = m x

theorem outsideSame_fill (m : Mem) {dest cap a : Nat} {bytes : List UInt8} (ha : dest ≤ a)
    (hfits : a + bytes.length ≤ dest + cap) : OutsideSame m (fill m a bytes) dest cap :=
  fun x hx => fill_out (by omega)

theorem OutsideSame.trans {m m' m'' : Mem} {dest cap : Nat} (h : OutsideSame m m' dest cap)
    (h' : OutsideSame m' m'' dest cap) : OutsideSame m m'' dest cap :=
  fun x hx => (h' x hx).trans (h x hx)

/-- A source is a string apart from the buffer. -/
def Source.Ready (src : Source) (m : Mem) (dest cap : Nat) : Prop :=
  IsString m src.addr src.chars ∧ Apart dest cap src.addr src.chars.length

theorem Source.Ready.kept {src : Source} {m m' : Mem} {dest cap : Nat} (h : src.Ready m dest cap)
    (hm : OutsideSame m m' dest cap) : src.Ready m' dest cap := by
  obtain ⟨hs, hapart⟩ := h
  refine ⟨hs.congr fun x h1 h2 => hm x ?_, hapart⟩
  unfold Apart at hapart
  omega

section Calls

variable {m : Mem} {dest src n fuel : Nat} {l s : List UInt8}

theorem strcpy_eq (hs : IsString m src s) (hapart : Apart dest (s.length + 1) src s.length) (hfuel : s.length < fuel) :
    strcpy m dest src fuel = some (fill m dest (s ++ [0])) :=
  strcpyLoop_eq (i := 0) hs hapart hfuel

theorem strncpy_eq (hs : IsString m src s) (hapart : Apart dest n src s.length) :
    strncpy m dest src n = fill m dest (s.take n ++ List.replicate (n - s.length) 0) := by
  unfold strncpy
  rw [copyLoop_eq (i := 0) hs (hapart.mono (Nat.min_le_left _ _))]
  dsimp only
  rw [padLoop_eq, fill_append, List.length_take, Nat.zero_add, Nat.add_zero,
    show n - min n s.length = n - s.length by omega]

theorem strcat_eq (h : IsString m dest l) (hs : IsString m src s)
    (hapart : Apart (dest + l.length) (s.length + 1) src s.length) (hl : l.length < fuel) (hsl : s.length < fuel) :
    strcat m dest src fuel = some (fill m (dest + l.length) (s ++ [0])) := by
  unfold strcat
  rw [endLoop_eq h hl]
  exact (strcatLoop_eq m fuel (dest + l.length) src 0).trans (strcpy_eq hs hapart hsl)

theorem strncat_eq (h : IsString m dest l) (hs : IsString m src s)
    (hapart : Apart (dest + l.length) (min n s.length) src s.length) (hl : l.length < fuel) :
    strncat m dest src n fuel = some (fill m (dest + l.length) (s.take n ++ [0])) := by
  have hcopy : copyLoop m (dest + l.length) src n 0 = (fill m (dest + l.length) (s.take n), 0 + min n s.length) :=
    copyLoop_eq (i := 0) hs hapart
  unfold strncat
  rw [endLoop_eq h hl]
  simp only [Option.bind_eq_bind, Option.bind_some]
  rw [hcopy, fill_append, List.length_take, Nat.zero_add]
  rfl

end Calls

/-- One call. -/
theorem Edit.run_spec {m : Mem} {dest cap fuel : Nat} {l l' : List UInt8} {e : Edit} (h : IsString m dest l)
    (hl : l.length < cap) (hsrc : e.source.Ready m dest cap) (hfuel : cap + e.source.chars.length ≤ fuel)
    (hr : e.result cap l = some l') :
    ∃ m', e.run dest fuel m = some m' ∧ IsString m' dest l' ∧ l'.length < cap ∧ OutsideSame m m' dest cap := by
  obtain ⟨hs, hapart⟩ := hsrc
  cases e with
  | strcpy src =>
    obtain ⟨hfits, hl'⟩ := Option.ite_none_right_eq_some.1 hr
    cases hl'
    dsimp only [source] at hs hapart hfuel
    refine ⟨_, strcpy_eq hs (hapart.mono (by omega)) (by omega), isString_fill m _ hs.ne_zero [], hfits, ?_⟩
    exact outsideSame_fill m (Nat.le_refl _) (by simp; omega)
  | strncpy src n =>
    obtain ⟨⟨hroom, hfits⟩, hl'⟩ := Option.ite_none_right_eq_some.1 hr
    cases hl'
    dsimp only [source] at hs hapart hfuel
    have hcopy := strncpy_eq hs (hapart.mono hfits)
    -- there is room for the terminator, which is the first byte of the padding
    obtain ⟨k, hk⟩ : ∃ k, n - src.chars.length = k + 1 := ⟨n - src.chars.length - 1, by omega⟩
    rw [List.take_of_length_le (by omega), hk, List.replicate_succ] at hcopy
    refine ⟨_, rfl, ?_, by omega, ?_⟩
    · rw [hcopy]
      exact isString_fill m _ hs.ne_zero _
    · rw [hcopy]
      exact outsideSame_fill m (Nat.le_refl _) (by simp; omega)
  | strcat src =>
    obtain ⟨hfits, hl'⟩ := Option.ite_none_right_eq_some.1 hr
    cases hl'
    dsimp only [source] at hs hapart hfuel
    rw [List.length_append] at hfits
    have hroom : Apart (dest + l.length) (src.chars.length + 1) src.addr src.chars.length := by
      unfold Apart at hapart ⊢
      omega
    refine ⟨_, strcat_eq h hs hroom (by omega) (by omega), h.append hs.ne_zero, ?_, ?_⟩
    · rw [List.length_append]
      exact hfits
    · exact outsideSame_fill m (by omega) (by simp; omega)
  | strncat src n =>
    obtain ⟨hfits, hl'⟩ := Option.ite_none_right_eq_some.1 hr
    cases hl'
    dsimp only [source] at hs hapart hfuel
    rw [List.length_append, List.length_take] at hfits
    have hroom : Apart (dest + l.length) (min n src.chars.length) src.addr src.chars.length := by
      unfold Apart at hapart ⊢
      omega
    refine ⟨_, strncat_eq h hs hroom (by omega), h.append fun c hc => hs.ne_zero c (List.mem_of_mem_take hc), ?_, ?_⟩
    · rw [List.length_append, List.length_take]
      exact hfits
    · exact outsideSame_fill m (by omega) (by simp; omega)

/-- A buffer of `cap` bytes that holds a string, and any calls on it whose results fit,
from sources that are strings apart from the buffer: each call returns, the buffer holds in
the end the string that the calls say, and no byte outside it has changed. -/
theorem strings_built {m : Mem} {dest cap fuel : Nat} {l l' : List UInt8} {es : List Edit} (h : IsString m dest l)
    (hl : l.length < cap) (hsrc : ∀ e ∈ es, e.source.Ready m dest cap ∧ cap + e.source.chars.length ≤ fuel)
    (hr : es.foldlM (Edit.result cap) l = some l') :
    ∃ m', es.foldlM (Edit.run dest fuel) m = some m' ∧ IsString m' dest l' ∧ OutsideSame m m' dest cap := by
  induction es generalizing m l with
  | nil =>
    cases hr
    exact ⟨m, rfl, h, fun _ _ => rfl⟩
  | cons e es ih =>
    rw [List.foldlM_cons] at hr
    obtain ⟨l₁, hl₁, hr⟩ := Option.bind_eq_some_iff.1 hr
    obtain ⟨hready, hfuel⟩ := hsrc e List.mem_cons_self
    obtain ⟨m₁, hm₁, hs₁, hfits, hout⟩ := Edit.run_spec h hl hready hfuel hl₁
    have hsrc' : ∀ e ∈ es, e.source.Ready m₁ dest cap ∧ cap + e.source.chars.length ≤ fuel := by
      intro e he
      obtain ⟨hready, hfuel⟩ := hsrc e (List.mem_cons_of_mem _ he)
      exact ⟨hready.kept hout, hfuel⟩
    obtain ⟨m', hm', hs', hout'⟩ := ih hs₁ hfits hsrc' hr
    refine ⟨m', ?_, hs', hout.trans hout'⟩
    rw [List.foldlM_cons, hm₁]
    exact hm'

/-- The memory of the demonstration: "ab" at 40, "" at 100. -/
def demoText : Mem := fill (fun _ => 0) 40 [97, 98, 0]

theorem strings_built_demo :
    ∃ m', [Edit.strcpy ⟨40, [97, 98]⟩, .strncat ⟨40, [97, 98]⟩ 1, .strcat ⟨40, [97, 98]⟩].foldlM
      (Edit.run 100 16) demoText = some m' ∧ IsString m' 100 [97, 98, 97, 97, 98] ∧ OutsideSame demoText m' 100 8 := by
  have hsrc : Source.Ready ⟨40, [97, 98]⟩ demoText 100 8 :=
    ⟨@isString_fill (fun _ => 0) 40 [97, 98] (by simp) [], .inl (by simp)⟩
  refine strings_built (l := []) (by simp [IsString, demoText, fill, poke]) (by simp) ?_ rfl
  intro e he
  simp only [List.mem_cons, List.not_mem_nil, or_false] at he
  rcases he with rfl | rfl | rfl <;> exact ⟨hsrc, by simp [Edit.source]⟩

end MiniLibc.Str
