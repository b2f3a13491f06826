import MiniLibc.Stdio.FormatEntry
/-!
# The entries with a `va_list`

`vfprintf`, `vprintf` and `vsnprintf` of `src/stdio/format_entry.S`. In assembly they do to a
`va_list` what `normalize_public_va_list` does in C: the registers of each class are counted
and copied to the record of the frame.
-/
open MiniLibc.Args MiniLibc.Memory MiniLibc.X86
open MiniLibc.Stdio (FormatArgs SameArguments VaList loadPublicWord deliver_normalize sameArguments_view)

namespace MiniLibc.Entry

/-! ## The routines -/

/-- The registers of a class that are left in the list at `%r10`: its offset is at `offset` of
the list and ends at `total`. Their number goes to `countAt` of the frame, and `word` copies
one of them. -/
def copyLines (offset total shift cap countAt : Nat) (no countReady copy exit : EntryLabel) (word : List Instr) :
    Code EntryLabel := ([
  .op (.movl (.mem (.base offset .r10)) (.reg .rax)),
  .op (.cmpl (.imm total) .rax),
  .jcc .ae no,
  .op (.movl (.imm total) (.reg .rcx)),
  .op (.subl (.reg .rax) .rcx),
  .op (.shrl shift .rcx),
  .op (.cmpl (.imm cap) .rcx),
  .jcc .be countReady,
  .op (.movl (.imm cap) (.reg .rcx)),
  .label countReady,
  .op (.movl (.reg .rcx) (.mem (.base countAt .rsp))),
  .op (.movq (.mem (.base 16 .r10)) (.reg .r8)),
  .op (.addq (.reg .rax) .r8),
  .op (.xorl .rdx .rdx),
  .label copy,
  .op (.cmpl (.reg .rcx) .rdx),
  .jcc .ae exit] : Code EntryLabel) ++ word.map .op ++ ([
  .op (.incl .rdx),
  .jmp copy,
  .label no,
  .op (.movl (.imm 0) (.mem (.base countAt .rsp))),
  .label exit] : Code EntryLabel)

def gpWord : List Instr := [
  .movq (.mem (.index 0 .r8 .rdx 8)) (.reg .r9),
  .movq (.reg .r9) (.mem (.index 0 .rsp .rdx 8))]

def fpWord : List Instr := [
  .movq (.mem (.base 0 .r8)) (.reg .r9),
  .movq (.reg .r9) (.mem (.index 40 .rsp .rdx 8)),
  .addq (.imm 16) .r8]

/-- The general registers. -/
def copyGpLines (countAt : Nat) : Code EntryLabel :=
  copyLines 0 48 3 5 countAt .noGp .gpCountReady .copyGp .gpReady gpWord

/-- The floating registers. -/
def copyFpLines : Code EntryLabel := copyLines 4 176 4 8 124 .noFp .fpCountReady .copyFp .ready fpWord

def vfprintf : Code EntryLabel := ([
  .op (.subq (.imm 136) .rsp),
  .op (.movq (.reg .rdx) (.reg .r10)),
  .op (.movq (.mem (.base 8 .r10)) (.reg .rax)),
  .op (.movq (.reg .rax) (.mem (.base 104 .rsp))),
  .op (.movl (.imm 0) (.mem (.base 112 .rsp))),
  .op (.movl (.imm 0) (.mem (.base 120 .rsp)))] : Code EntryLabel) ++
  copyGpLines 116 ++ copyFpLines ++ ([
  .op (.movq (.reg .rsp) (.reg .rdx)),
  .call "__mini_format_dispatch",
  .op (.addq (.imm 136) .rsp),
  .ret] : Code EntryLabel)

/-- `vprintf` and `vscanf`: the entry `f` on the stream that is stored at `stream`. -/
def tailEntry (stream : Word) (f : String) : Code EntryLabel := [
  .op (.movq (.reg .rsi) (.reg .rdx)),
  .op (.movq (.reg .rdi) (.reg .rsi)),
  .op (.movq (.mem (.symbol stream)) (.reg .rdi)),
  .jmpTo f]

/-- `stdout` is the address of `__mini_stdout`. -/
def vprintf (stdout : Word) : Code EntryLabel := tailEntry stdout "vfprintf"

def vsnprintf : Code EntryLabel := ([
  .op (.subq (.imm 136) .rsp),
  .op (.movq (.reg .rdx) (.reg .r11)),
  .op (.movq (.reg .rcx) (.reg .r10)),
  .op (.movq (.mem (.base 8 .r10)) (.reg .rax)),
  .op (.movq (.reg .rax) (.mem (.base 104 .rsp))),
  .op (.movl (.imm 0) (.mem (.base 112 .rsp))),
  .op (.movl (.imm 0) (.mem (.base 120 .rsp)))] : Code EntryLabel) ++
  copyGpLines 116 ++ copyFpLines ++ ([
  .op (.movq (.reg .r11) (.reg .rdx)),
  .op (.movq (.reg .rsp) (.reg .rcx)),
  .call "__mini_snprintf_dispatch",
  .op (.addq (.imm 136) .rsp),
  .ret] : Code EntryLabel)

/-! ## Copying registers -/

/-- Words copied from `src`, `stride` bytes apart, to `dst`. -/
def Copied (m m' : Mem) (src stride dst n : Nat) : Prop :=
  (∀ i, i < n → load m' (dst + 8 * i) 8 = load m (src + stride * i) 8) ∧
    ∀ x, x < dst ∨ dst + 8 * n ≤ x → m' x = m x

theorem Copied.zero (m : Mem) (src stride dst : Nat) : Copied m m src stride dst 0 :=
  ⟨fun i hi => absurd hi (Nat.not_lt_zero i), fun _ _ => rfl⟩

/-- One word more. -/
theorem Copied.succ {m m' : Mem} {src stride dst n : Nat} (h : Copied m m' src stride dst n)
    (hapart : src + stride * n + 8 ≤ dst ∨ dst + 8 * n ≤ src + stride * n) :
    Copied m (store m' (dst + 8 * n) 8 (load m' (src + stride * n) 8)) src stride dst (n + 1) := by
  obtain ⟨hin, hout⟩ := h
  refine ⟨fun i hi => ?_, fun x hx => ?_⟩
  · rcases Nat.lt_succ_iff_lt_or_eq.1 hi with hi | rfl
    · rw [load_store_disjoint (by omega), hin i hi]
    · rw [load_store _ _ (load_lt m' _ 8)]
      exact load_congr fun x h1 h2 => hout x (by omega)
  · rw [store_out (by omega), hout x (by omega)]

/-- The registers of a loop that copies `n` words to the frame at `dst`, before the word `i`;
its source moves by `step`. -/
structure CopyAt (n src step dst i : Nat) (s : Machine) : Prop where
  count : s.reg .rcx = .ofNat 64 n
  index : s.reg .rdx = .ofNat 64 i
  source : (s.reg .r8).toNat = src + step * i
  frame : (s.reg .rsp).toNat = dst

theorem CopyAt.congr {n src step dst i : Nat} {s u : Machine} (h : CopyAt n src step dst i s) (hregs : u.reg = s.reg) :
    CopyAt n src step dst i u := by
  refine ⟨?_, ?_, ?_, ?_⟩ <;> rw [hregs]
  · exact h.count
  · exact h.index
  · exact h.source
  · exact h.frame

section Class

variable {prog rest : Code EntryLabel} {offset total shift cap countAt : Nat}
  {no countReady copy exit : EntryLabel} {word : List Instr} {s : Machine} {list off save dst n : Nat}

/-- The test of a loop, after which it goes into its body or out. -/
theorem copy_test {body : Code EntryLabel} {src step i : Nat}
    (hcode : after copy prog = .op (.cmpl (.reg .rcx) .rdx) :: .jcc .ae exit :: body) (hn : n ≤ 8) (hi : i ≤ n)
    (hat : CopyAt n src step dst i s) :
    ∃ u, Reaches prog (after copy prog) s (if i < n then body else after exit prog) u ∧ u.reg = s.reg ∧
      u.mem = s.mem := by
  refine ⟨(Instr.cmpl (.reg .rcx) .rdx).apply s, ?_, rfl, rfl⟩
  have hcmp : Reaches prog (after copy prog) s (.jcc .ae exit :: body) ((Instr.cmpl (.reg .rcx) .rdx).apply s) := by
    rw [hcode]
    exact ⟨1, fun k => rfl⟩
  have hae : Cond.holds ((Instr.cmpl (.reg .rcx) .rdx).apply s) .ae = decide (n ≤ i) := by
    simp only [Instr.apply, Machine.flags, Machine.read32, Cond.holds, hat.count, hat.index]
    rw [Machine.low_small (by omega), Machine.low_small (by omega)]
    rw [← decide_not]
    exact decide_eq_decide.2 Nat.not_lt
  split_ifs with hlt
  · exact hcmp.trans (.passed (by simpa using hae.trans (by simpa using hlt)))
  · exact hcmp.trans (.taken (by simpa using hae.trans (by simpa using hlt)))

/-- A loop that copies words, from the word `i` on. -/
theorem copy_loop {body : Code EntryLabel} {src step stride dest : Nat}
    (hcode : after copy prog = .op (.cmpl (.reg .rcx) .rdx) :: .jcc .ae exit :: body)
    (hround : ∀ i s, i < n → CopyAt n src step dst i s → ∃ t, Reaches prog body s (after copy prog) t ∧
      Keeps [.r8, .r9, .rdx] s t ∧ CopyAt n src step dst (i + 1) t ∧
      t.mem = store s.mem (dest + 8 * i) 8 (load s.mem (src + stride * i) 8))
    (hn : n ≤ 8) (hapart : ∀ i, i < n → src + stride * i + 8 ≤ dest ∨ dest + 8 * i ≤ src + stride * i) {m : Mem}
    {i : Nat} (left : Nat) (hleft : i + left = n) (hat : CopyAt n src step dst i s)
    (hcopied : Copied m s.mem src stride dest i) :
    ∃ t, Reaches prog (after copy prog) s (after exit prog) t ∧ Keeps [.r8, .r9, .rdx] s t ∧
      Copied m t.mem src stride dest n := by
  induction left generalizing i s with
  | zero =>
    obtain rfl : i = n := hleft
    obtain ⟨u, htest, hregs, hmem⟩ := copy_test hcode hn (Nat.le_refl i) hat
    rw [if_neg (Nat.lt_irrefl i)] at htest
    refine ⟨u, htest, fun r _ => by rw [hregs], ?_⟩
    rw [hmem]
    exact hcopied
  | succ left ih =>
    have hlt : i < n := by omega
    obtain ⟨u, htest, hregs, hmem⟩ := copy_test hcode hn (Nat.le_of_lt hlt) hat
    rw [if_pos hlt] at htest
    obtain ⟨t, hbody, hkept, hnext, hstore⟩ := hround i u hlt (hat.congr hregs)
    obtain ⟨t', hrest, hkept', hall⟩ := ih (by omega) hnext (by
      rw [hstore, hmem]
      exact hcopied.succ (hapart i hlt))
    have hkeeps : Keeps [.r8, .r9, .rdx] s u := fun r _ => by rw [hregs]
    exact ⟨t', (htest.trans hbody).trans hrest, (hkeeps.trans hkept).trans hkept', hall⟩

/-! ## Counting registers -/

/-- How many registers of a class are copied. -/
def classCount (total shift cap off : Nat) : Nat := if off < total then min ((total - off) / 2 ^ shift) cap else 0

/-- The offset is compared with the end of its class. -/
theorem count_test (htotal : total < 2 ^ 31) (hlist : (s.reg .r10).toNat = list) (hoffset : list + offset < 2 ^ 64)
    (hoff : load s.mem (list + offset) 4 = off) :
    ∃ t, Reaches prog (copyLines offset total shift cap countAt no countReady copy exit word ++ rest) s
        (if off < total then
          (copyLines offset total shift cap countAt no countReady copy exit word).drop 3 ++ rest
        else after no prog) t ∧
      t.reg .rax = .ofNat 64 off ∧ Keeps [.rax] s t ∧ t.mem = s.mem := by
  have hsmall : off < 2 ^ 32 := hoff ▸ load_lt s.mem (list + offset) 4
  have hload : Machine.read32 s (.mem (.base offset .r10)) = .ofNat 64 off := by
    simp only [Machine.read32, Machine.address]
    rw [address_base (by omega), hlist, hoff]
  obtain ⟨t, ht⟩ : ∃ t : Machine,
      t = (Instr.cmpl (.imm total) .rax).apply ((Instr.movl (.mem (.base offset .r10)) (.reg .rax)).apply s) := ⟨_, rfl⟩
  have hbegin : Reaches prog (copyLines offset total shift cap countAt no countReady copy exit word ++ rest) s
      ((copyLines offset total shift cap countAt no countReady copy exit word).drop 2 ++ rest) t := by
    subst ht
    exact ⟨2, fun k => rfl⟩
  have hrax : t.reg .rax = .ofNat 64 off := by
    subst ht
    simp [Instr.apply, Machine.flags, Machine.write32, Machine.set, hload]
  have hae : Cond.holds t .ae = decide (total ≤ off) := by
    subst ht
    simp only [Instr.apply, Machine.flags, Machine.write32, Machine.set, hload, Cond.holds, Function.update_self]
    rw [Machine.read32, Machine.low_small hsmall, Machine.low_small (by omega), ← decide_not]
    exact decide_eq_decide.2 Nat.not_lt
  have hkeeps : Keeps [.rax] s t := by
    subst ht
    intro r hr
    rw [List.mem_singleton] at hr
    simp [Instr.apply, Machine.flags, Machine.write32, Machine.set, hr]
  have hmem : t.mem = s.mem := by
    subst ht
    rfl
  refine ⟨t, ?_, hrax, hkeeps, hmem⟩
  split_ifs with hlt
  · exact hbegin.trans (.passed (by simpa using hae.trans (by simpa using hlt)))
  · exact hbegin.trans (.taken (by simpa using hae.trans (by simpa using hlt)))

/-- The registers are counted, and at most `cap` of them. -/
theorem count_ready (hready : after countReady prog =
      (copyLines offset total shift cap countAt no countReady copy exit word).drop 10 ++ rest)
    (htotal : total < 2 ^ 31) (hcap : cap < 2 ^ 31) (hlt : off < total) (hrax : s.reg .rax = .ofNat 64 off) :
    ∃ t, Reaches prog ((copyLines offset total shift cap countAt no countReady copy exit word).drop 3 ++ rest) s
        (after countReady prog) t ∧
      t.reg .rcx = .ofNat 64 (min ((total - off) / 2 ^ shift) cap) ∧ Keeps [.rcx] s t ∧ t.mem = s.mem := by
  obtain ⟨q, hq⟩ : ∃ q, q = (total - off) / 2 ^ shift := ⟨_, rfl⟩
  have hle : q ≤ total - off := hq ▸ Nat.div_le_self _ _
  obtain ⟨t, ht⟩ : ∃ t : Machine, t = (Instr.cmpl (.imm cap) .rcx).apply ((Instr.shrl shift .rcx).apply
      ((Instr.subl (.reg .rax) .rcx).apply ((Instr.movl (.imm total) (.reg .rcx)).apply s))) := ⟨_, rfl⟩
  have hbegin : Reaches prog ((copyLines offset total shift cap countAt no countReady copy exit word).drop 3 ++ rest) s
      ((copyLines offset total shift cap countAt no countReady copy exit word).drop 7 ++ rest) t := by
    subst ht
    exact ⟨4, fun k => rfl⟩
  have hrcx : t.reg .rcx = .ofNat 64 q := by
    subst ht
    simp only [Instr.apply, Machine.flags, Machine.write32, Machine.set, Machine.read32, Function.update_self, ne_eq,
      reduceCtorEq, not_false_eq_true, Function.update_of_ne, hrax]
    rw [low_ofNat (by omega), low_ofNat (by omega), low_ofNat (by omega), low_sub (by omega) (by omega),
      low_ofNat (by omega), ofNat_shift (by omega), hq]
  have hbe : Cond.holds t .be = true ↔ q ≤ cap := by
    have hcmp : Cond.holds t .be = (decide ((Machine.low (t.reg .rcx)).toNat < (Machine.low (.ofNat 64 cap)).toNat) ||
        decide (Machine.low (t.reg .rcx) = Machine.low (.ofNat 64 cap))) := by
      subst ht
      rfl
    rw [hcmp, Bool.or_eq_true, decide_eq_true_iff, decide_eq_true_iff, ← BitVec.toNat_inj, hrcx,
      Machine.low_small (by omega), Machine.low_small (by omega)]
    omega
  have hkeeps : Keeps [.rcx] s t := by
    subst ht
    intro r hr
    rw [List.mem_singleton] at hr
    simp [Instr.apply, Machine.flags, Machine.write32, Machine.set, hr]
  have hmem : t.mem = s.mem := by
    subst ht
    rfl
  rw [← hq]
  by_cases hfits : q ≤ cap
  · refine ⟨t, hbegin.trans (.taken (hbe.2 hfits)), ?_, hkeeps, hmem⟩
    rw [hrcx, Nat.min_eq_left hfits]
  · refine ⟨(Instr.movl (.imm cap) (.reg .rcx)).apply t, ?_, ?_, fun r hr => ?_, hmem⟩
    · have hpassed := hbegin.trans (.passed (Bool.eq_false_iff.2 fun h => hfits (hbe.1 h)))
      rw [hready]
      exact hpassed.trans ⟨2, fun k => rfl⟩
    · rw [Nat.min_eq_right (by omega)]
      simp only [Instr.apply, Machine.write32, Machine.set, Machine.read32, Function.update_self]
      rw [low_ofNat (by omega)]
    · have hne : r ≠ .rcx := fun h => hr (h ▸ List.mem_cons_self)
      have hother : ((Instr.movl (.imm cap) (.reg .rcx)).apply t).reg r = t.reg r := Function.update_of_ne hne _ _
      rw [hother, hkeeps r hr]

/-- The count is stored, and the loop set up. -/
theorem count_stored (hready : after countReady prog =
      (copyLines offset total shift cap countAt no countReady copy exit word).drop 10 ++ rest)
    (hcopy : after copy prog = (copyLines offset total shift cap countAt no countReady copy exit word).drop 15 ++ rest)
    (hrcx : s.reg .rcx = .ofNat 64 n) (hn : n ≤ 8) (hrax : s.reg .rax = .ofNat 64 off)
    (hlist : (s.reg .r10).toNat = list) (hlistEnd : list + 24 ≤ 2 ^ 64) (hsave : load s.mem (list + 16) 8 = save)
    (hend : save + off < 2 ^ 64) (hdst : (s.reg .rsp).toNat = dst) (hroom : dst + countAt + 4 ≤ 2 ^ 64)
    (hapart : list + 24 ≤ dst + countAt ∨ dst + countAt + 4 ≤ list) :
    ∃ t, Reaches prog (after countReady prog) s (after copy prog) t ∧
      (∀ step, CopyAt n (save + off) step dst 0 t) ∧ Keeps [.r8, .rdx] s t ∧
      t.mem = store s.mem (dst + countAt) 4 n := by
  obtain ⟨u, hu⟩ : ∃ u : Machine, u = (Instr.movl (.reg .rcx) (.mem (.base countAt .rsp))).apply s := ⟨_, rfl⟩
  have humem : u.mem = store s.mem (dst + countAt) 4 n := by
    subst hu
    simp only [Instr.apply, Machine.write32, Machine.storeAt, Machine.read32, Machine.address, hrcx]
    rw [address_base (by omega), hdst, Machine.low_small (by omega)]
  have huregs : u.reg = s.reg := by
    subst hu
    rfl
  have hload : Machine.read64 u (.mem (.base 16 .r10)) = .ofNat 64 save := by
    simp only [Machine.read64, Machine.address]
    rw [huregs, humem, address_base (by omega), hlist, load_store_disjoint (by omega), hsave]
  obtain ⟨t, ht⟩ : ∃ t : Machine, t = (Instr.xorl .rdx .rdx).apply ((Instr.addq (.reg .rax) .r8).apply
      ((Instr.movq (.mem (.base 16 .r10)) (.reg .r8)).apply u)) := ⟨_, rfl⟩
  have hreach : Reaches prog (after countReady prog) s (after copy prog) t := by
    rw [hready, hcopy, ht, hu]
    exact ⟨5, fun k => rfl⟩
  have hkeeps : Keeps [.r8, .rdx] s t := by
    subst ht
    intro r hr
    simp only [List.mem_cons, List.not_mem_nil, or_false, not_or] at hr
    simp [Instr.apply, Machine.flags, Machine.write64, Machine.set, hr.1, hr.2, huregs]
  have hr8 : (t.reg .r8).toNat = save + off := by
    subst ht
    simp only [Instr.apply, Machine.flags, Machine.write64, Machine.set, Function.update_self, ne_eq, reduceCtorEq,
      not_false_eq_true, Function.update_of_ne, hload]
    simp only [Machine.read64, Function.update_of_ne, ne_eq, reduceCtorEq, not_false_eq_true, huregs, hrax]
    rw [address_base] <;> rw [BitVec.toNat_ofNat] <;> omega
  refine ⟨t, hreach, fun step => ⟨?_, ?_, ?_, ?_⟩, hkeeps, ?_⟩
  · rw [hkeeps .rcx (by decide), hrcx]
  · subst ht
    simp [Instr.apply, Machine.flags, Machine.set, Machine.low]
  · rw [hr8, Nat.mul_zero, Nat.add_zero]
  · rw [hkeeps .rsp (by decide), hdst]
  · rw [← humem, ht]
    rfl

/-! ## A class of registers -/

variable (prog rest offset total shift cap countAt no countReady copy exit word) in
/-- The routine copies a class, and goes on with `rest`. -/
structure ClassAt : Prop where
  ready : after countReady prog = (copyLines offset total shift cap countAt no countReady copy exit word).drop 10 ++ rest
  copy : after copy prog = (copyLines offset total shift cap countAt no countReady copy exit word).drop 15 ++ rest
  no : after no prog = .op (.movl (.imm 0) (.mem (.base countAt .rsp))) :: .label exit :: rest
  exit : after exit prog = rest

theorem classCount_le (total shift cap off : Nat) : classCount total shift cap off ≤ cap := by
  unfold classCount
  split
  · exact Nat.min_le_right _ _
  · exact Nat.zero_le cap

/-- The registers that are counted end in their class. -/
theorem classCount_end {i : Nat} (hi : i < classCount total shift cap off) :
    off < total ∧ off + 2 ^ shift * i + 2 ^ shift ≤ total := by
  unfold classCount at hi
  split_ifs at hi with hlt
  · have hdiv : i + 1 ≤ (total - off) / 2 ^ shift := by omega
    have hmul := (Nat.mul_le_mul_left (2 ^ shift) hdiv).trans (Nat.mul_div_le (total - off) (2 ^ shift))
    rw [Nat.mul_succ] at hmul
    exact ⟨hlt, by omega⟩
  · cases hi

/-- The class is counted and copied to `dest`, in a frame of `size` bytes. -/
theorem class_copied {size step dest : Nat}
    (hclass : ClassAt prog rest offset total shift cap countAt no countReady copy exit word)
    (htotal : total < 2 ^ 31) (hcap : cap ≤ 8) (hshift : 8 ≤ 2 ^ shift) (hlist : (s.reg .r10).toNat = list)
    (hlistEnd : list + 24 ≤ 2 ^ 64) (hoffset : offset ≤ 4) (hoff : load s.mem (list + offset) 4 = off)
    (hsave : load s.mem (list + 16) 8 = save) (hsaveEnd : save + total ≤ 2 ^ 64) (hdst : (s.reg .rsp).toNat = dst)
    (hroom : dst + size ≤ 2 ^ 64) (hcountAt : countAt + 4 ≤ size) (hdest : dst ≤ dest ∧ dest + 8 * cap ≤ dst + countAt)
    (hlistApart : list + 24 ≤ dst ∨ dst + size ≤ list) (hsaveApart : save + total ≤ dst ∨ dst + size ≤ save)
    (hround : ∀ i s, off + 2 ^ shift * i + 2 ^ shift ≤ total → i < cap →
      CopyAt (classCount total shift cap off) (save + off) step dst i s →
      ∃ t, Reaches prog ((copyLines offset total shift cap countAt no countReady copy exit word).drop 17 ++ rest) s
          (after copy prog) t ∧
        Keeps [.r8, .r9, .rdx] s t ∧ CopyAt (classCount total shift cap off) (save + off) step dst (i + 1) t ∧
        t.mem = store s.mem (dest + 8 * i) 8 (load s.mem (save + off + 2 ^ shift * i) 8)) :
    ∃ t, Reaches prog (copyLines offset total shift cap countAt no countReady copy exit word ++ rest) s rest t ∧
      Keeps [.rax, .rcx, .rdx, .r8, .r9] s t ∧ load t.mem (dst + countAt) 4 = classCount total shift cap off ∧
      (∀ i, i < classCount total shift cap off →
        load t.mem (dest + 8 * i) 8 = load s.mem (save + off + 2 ^ shift * i) 8) ∧
      ∀ x, x < dest ∨ dest + 8 * cap ≤ x → x < dst + countAt ∨ dst + countAt + 4 ≤ x → t.mem x = s.mem x := by
  have hle := classCount_le total shift cap off
  obtain ⟨u, htest, hrax, hkeeps, hmem⟩ := @count_test prog rest offset total shift cap countAt no countReady copy exit
    word s list off htotal hlist (by omega) hoff
  have hu10 : (u.reg .r10).toNat = list := by rw [hkeeps .r10 (by decide), hlist]
  have husp : (u.reg .rsp).toNat = dst := by rw [hkeeps .rsp (by decide), hdst]
  by_cases hlt : off < total
  · rw [if_pos hlt] at htest
    have hcount : min ((total - off) / 2 ^ shift) cap = classCount total shift cap off := (if_pos hlt).symm
    obtain ⟨v, hcounted, hrcx, hkeepsV, hmemV⟩ := count_ready hclass.ready htotal (by omega) hlt hrax
    rw [hcount] at hrcx
    obtain ⟨w, hstored, hat, hkeepsW, hmemW⟩ := count_stored hclass.ready hclass.copy hrcx (hle.trans hcap)
      (by rw [hkeepsV .rax (by decide), hrax]) (by rw [hkeepsV .r10 (by decide), hu10]) hlistEnd
      (by rw [hmemV, hmem, hsave]) (by omega) (by rw [hkeepsV .rsp (by decide), husp]) (by omega) (by omega)
    rw [hmemV, hmem] at hmemW
    have hapart : ∀ i, i < classCount total shift cap off →
        save + off + 2 ^ shift * i + 8 ≤ dst ∨ dst + size ≤ save + off + 2 ^ shift * i := by
      intro i hi
      have hend := (classCount_end hi).2
      omega
    have hcode : after copy prog = .op (.cmpl (.reg .rcx) .rdx) :: .jcc .ae exit ::
        ((copyLines offset total shift cap countAt no countReady copy exit word).drop 17 ++ rest) := hclass.copy
    obtain ⟨t, hloop, hkeepsT, hin, hout⟩ := copy_loop hcode
      (fun i s hi hat => hround i s (classCount_end hi).2 (by omega) hat)
      (hle.trans hcap) (fun i hi => by have hends := hapart i hi; omega) _ (Nat.zero_add _) (hat step) (Copied.zero w.mem ..)
    rw [hclass.exit] at hloop
    refine ⟨t, ((htest.trans hcounted).trans hstored).trans hloop, ?_, ?_, fun i hi => ?_, fun y hy hcountOut => ?_⟩
    · exact (((hkeeps.mono (by simp)).trans (hkeepsV.mono (by simp))).trans (hkeepsW.mono (by simp))).trans
        (hkeepsT.mono (by simp))
    · have hsame : load t.mem (dst + countAt) 4 = load w.mem (dst + countAt) 4 :=
        load_congr fun y h1 h2 => hout y (by omega)
      rw [hsame, hmemW, load_store _ _ (by omega)]
    · have hends := hapart i hi
      rw [hin i hi, hmemW, load_store_disjoint (by omega)]
    · rw [hout y (by omega), hmemW, store_out (by omega)]
  · rw [if_neg hlt] at htest
    have hcount : classCount total shift cap off = 0 := if_neg hlt
    obtain ⟨t, ht⟩ : ∃ t : Machine, t = (Instr.movl (.imm 0) (.mem (.base countAt .rsp))).apply u := ⟨_, rfl⟩
    have htmem : t.mem = store s.mem (dst + countAt) 4 0 := by
      subst ht
      simp only [Instr.apply, Machine.write32, Machine.storeAt, Machine.read32, Machine.address]
      rw [address_base (by omega), husp, Machine.low_small (by decide), hmem]
    have hregs : t.reg = u.reg := by
      subst ht
      rfl
    refine ⟨t, ?_, fun r hr => ?_, ?_, fun i hi => ?_, fun y hy hcountOut => ?_⟩
    · rw [hclass.no] at htest
      rw [ht]
      exact htest.trans ⟨2, fun k => rfl⟩
    · rw [hregs]
      exact hkeeps.mono (by simp) r hr
    · rw [htmem, hcount, load_store _ _ (by decide)]
    · rw [hcount] at hi
      cases hi
    · rw [htmem, store_out (by omega)]

end Class

/-! ## The two classes -/

/-- The routine copies the general registers, and the floating ones. -/
def GpAt (prog rest : Code EntryLabel) (countAt : Nat) : Prop :=
  ClassAt prog rest 0 48 3 5 countAt .noGp .gpCountReady .copyGp .gpReady gpWord

def FpAt (prog rest : Code EntryLabel) : Prop :=
  ClassAt prog rest 4 176 4 8 124 .noFp .fpCountReady .copyFp .ready fpWord

section Rounds

variable {prog rest : Code EntryLabel} {countAt n src dst i : Nat} {s : Machine}

/-- One general register. -/
theorem gp_round (hat : CopyAt n src 0 dst i s) (hi : i < 5) (hsrc : src + 8 * i + 8 ≤ 2 ^ 64)
    (hdst : dst + 8 * i + 8 ≤ 2 ^ 64) :
    ∃ t, Reaches prog ((copyGpLines countAt).drop 17 ++ rest) s (after .copyGp prog) t ∧ Keeps [.r8, .r9, .rdx] s t ∧
      CopyAt n src 0 dst (i + 1) t ∧ t.mem = store s.mem (dst + 8 * i) 8 (load s.mem (src + 8 * i) 8) := by
  obtain ⟨t, ht⟩ : ∃ t : Machine, t = (Instr.incl .rdx).apply ((Instr.movq (.reg .r9) (.mem (.index 0 .rsp .rdx 8))).apply
      ((Instr.movq (.mem (.index 0 .r8 .rdx 8)) (.reg .r9)).apply s)) := ⟨_, rfl⟩
  have hload : Machine.read64 s (.mem (.index 0 .r8 .rdx 8)) = .ofNat 64 (load s.mem (src + 8 * i) 8) := by
    have hr8 := hat.source
    rw [Nat.zero_mul] at hr8
    simp only [Machine.read64, Machine.address, hat.index]
    rw [address_index (by omega), hr8]
    rfl
  have hkeeps : Keeps [.r8, .r9, .rdx] s t := by
    subst ht
    intro r hr
    simp only [List.mem_cons, List.not_mem_nil, or_false, not_or] at hr
    simp [Instr.apply, Machine.flags, Machine.write64, Machine.set, Machine.storeAt, hr.2.1, hr.2.2]
  refine ⟨t, ?_, hkeeps, ⟨?_, ?_, ?_, ?_⟩, ?_⟩
  · rw [ht]
    exact ⟨4, fun k => rfl⟩
  · rw [hkeeps .rcx (by decide), hat.count]
  · subst ht
    simp only [Instr.apply, Machine.flags, Machine.write64, Machine.set, Machine.storeAt, Function.update_self, ne_eq,
      reduceCtorEq, not_false_eq_true, Function.update_of_ne, hat.index]
    exact low_succ (by omega)
  · subst ht
    simpa [Instr.apply, Machine.flags, Machine.write64, Machine.set, Machine.storeAt] using hat.source
  · rw [hkeeps .rsp (by decide), hat.frame]
  · subst ht
    simp only [Instr.apply, Machine.flags, Machine.write64, Machine.set, Machine.storeAt, Machine.address, hload]
    simp only [Machine.read64, Function.update_self, ne_eq, reduceCtorEq, not_false_eq_true, Function.update_of_ne,
      hat.index]
    rw [address_index (by rw [hat.frame]; omega), hat.frame, load_toNat (le_refl 8)]
    rfl

/-- One floating register. -/
theorem fp_round (hat : CopyAt n src 16 dst i s) (hi : i < 8) (hsrc : src + 16 * i + 16 < 2 ^ 64)
    (hdst : dst + 40 + 8 * i + 8 ≤ 2 ^ 64) :
    ∃ t, Reaches prog (copyFpLines.drop 17 ++ rest) s (after .copyFp prog) t ∧ Keeps [.r8, .r9, .rdx] s t ∧
      CopyAt n src 16 dst (i + 1) t ∧ t.mem = store s.mem (dst + 40 + 8 * i) 8 (load s.mem (src + 16 * i) 8) := by
  obtain ⟨t, ht⟩ : ∃ t : Machine, t = (Instr.incl .rdx).apply ((Instr.addq (.imm 16) .r8).apply
      ((Instr.movq (.reg .r9) (.mem (.index 40 .rsp .rdx 8))).apply
        ((Instr.movq (.mem (.base 0 .r8)) (.reg .r9)).apply s))) := ⟨_, rfl⟩
  have hload : Machine.read64 s (.mem (.base 0 .r8)) = .ofNat 64 (load s.mem (src + 16 * i) 8) := by
    simp only [Machine.read64, Machine.address]
    rw [address_base (by rw [hat.source]; omega), hat.source]
    rfl
  have hkeeps : Keeps [.r8, .r9, .rdx] s t := by
    subst ht
    intro r hr
    simp only [List.mem_cons, List.not_mem_nil, or_false, not_or] at hr
    simp [Instr.apply, Machine.flags, Machine.write64, Machine.set, Machine.storeAt, hr.1, hr.2.1, hr.2.2]
  refine ⟨t, ?_, hkeeps, ⟨?_, ?_, ?_, ?_⟩, ?_⟩
  · rw [ht]
    exact ⟨5, fun k => rfl⟩
  · rw [hkeeps .rcx (by decide), hat.count]
  · subst ht
    simp only [Instr.apply, Machine.flags, Machine.write64, Machine.set, Machine.storeAt, Function.update_self, ne_eq,
      reduceCtorEq, not_false_eq_true, Function.update_of_ne, hat.index]
    exact low_succ (by omega)
  · subst ht
    simp only [Instr.apply, Machine.flags, Machine.write64, Machine.set, Machine.storeAt, Machine.read64,
      Function.update_self, ne_eq, reduceCtorEq, not_false_eq_true, Function.update_of_ne]
    rw [address_base (by rw [hat.source]; omega), hat.source, Nat.mul_succ, Nat.add_assoc]
  · rw [hkeeps .rsp (by decide), hat.frame]
  · subst ht
    simp only [Instr.apply, Machine.flags, Machine.write64, Machine.set, Machine.storeAt, Machine.address, hload]
    simp only [Machine.read64, Function.update_self, ne_eq, reduceCtorEq, not_false_eq_true, Function.update_of_ne,
      hat.index]
    rw [address_index (by rw [hat.frame]; omega), hat.frame, load_toNat (le_refl 8)]
    congr 1
    omega

end Rounds

/-! ## The lists -/

/-- A `va_list` in memory. -/
structure ListAt (m : Mem) (list : Nat) (ap : VaList) : Prop where
  gpOffset : load m list 4 = ap.gpOffset
  fpOffset : load m (list + 4) 4 = ap.fpOffset
  overflow : load m (list + 8) 8 = ap.overflowArgArea
  save : load m (list + 16) 8 = ap.regSaveArea

/-- A list at `list`, with so many bytes of its save area, is apart from the frame of `size`
bytes at `dst`, below the caller's arguments. -/
structure ListApart (list : Nat) (ap : VaList) (area dst size : Nat) : Prop where
  end_le : list + 24 ≤ 2 ^ 64
  save_end : ap.regSaveArea + area < 2 ^ 64
  frame_end : dst + size ≤ 2 ^ 64
  list : list + 24 ≤ dst ∨ dst + size ≤ list
  save : ap.regSaveArea + area ≤ dst ∨ dst + size ≤ ap.regSaveArea
  overflow : dst + size ≤ ap.overflowArgArea

theorem ListAt.congr {m m' : Mem} {list : Nat} {ap : VaList} (h : ListAt m list ap)
    (hsame : ∀ x, list ≤ x → x < list + 24 → m' x = m x) : ListAt m' list ap where
  gpOffset := (load_congr fun x h1 h2 => hsame x (by omega) (by omega)).trans h.gpOffset
  fpOffset := (load_congr fun x h1 h2 => hsame x (by omega) (by omega)).trans h.fpOffset
  overflow := (load_congr fun x h1 h2 => hsame x (by omega) (by omega)).trans h.overflow
  save := (load_congr fun x h1 h2 => hsame x (by omega) (by omega)).trans h.save

theorem gpCount_eq (ap : VaList) : ap.gpCount = classCount 48 3 5 ap.gpOffset := rfl

theorem fpCount_eq (ap : VaList) : ap.fpCount = classCount 176 4 8 ap.fpOffset := rfl

section Record

variable {prog rest : Code EntryLabel} {countAt size area list dst : Nat} {ap : VaList} {s : Machine}

/-- The general registers are copied. -/
theorem gp_copied (hclass : GpAt prog rest countAt)
    (hlist : ListAt s.mem list ap) (hr10 : (s.reg .r10).toNat = list) (hdst : (s.reg .rsp).toNat = dst)
    (hapart : ListApart list ap area dst size) (harea : 48 ≤ area) (hcountAt : 40 ≤ countAt ∧ countAt + 4 ≤ size) :
    ∃ t, Reaches prog (copyGpLines countAt ++ rest) s rest t ∧ Keeps [.rax, .rcx, .rdx, .r8, .r9] s t ∧
      load t.mem (dst + countAt) 4 = ap.gpCount ∧
      (∀ i, i < ap.gpCount → load t.mem (dst + 8 * i) 8 = load s.mem (ap.regSaveArea + ap.gpOffset + i * 8) 8) ∧
      ∀ x, x < dst ∨ dst + 40 ≤ x → x < dst + countAt ∨ dst + countAt + 4 ≤ x → t.mem x = s.mem x := by
  obtain ⟨hlistEnd, hsaveEnd, hroom, hlistApart, hsaveApart, -⟩ := hapart
  have hgp := ap.gp_valid
  obtain ⟨t, hreach, hkeeps, hcount, hin, hout⟩ := @class_copied prog rest 0 48 3 5 countAt .noGp .gpCountReady .copyGp
    .gpReady _ s list ap.gpOffset ap.regSaveArea dst size 0 dst hclass (by decide) (by decide) (by decide) hr10 hlistEnd
    (by decide) hlist.gpOffset hlist.save (by omega) hdst hroom hcountAt.2 (by omega) hlistApart (by omega)
    fun i s hend hi hat => gp_round hat hi (by omega) (by omega)
  exact ⟨t, hreach, hkeeps, hcount, fun i hi => (hin i hi).trans (by rw [Nat.mul_comm i]; rfl), hout⟩

/-- The floating registers are copied. -/
theorem fp_copied (hclass : FpAt prog rest)
    (hlist : ListAt s.mem list ap) (hr10 : (s.reg .r10).toNat = list) (hdst : (s.reg .rsp).toNat = dst)
    (hapart : ListApart list ap 176 dst 136) :
    ∃ t, Reaches prog (copyFpLines ++ rest) s rest t ∧ Keeps [.rax, .rcx, .rdx, .r8, .r9] s t ∧
      load t.mem (dst + 124) 4 = ap.fpCount ∧
      (∀ i, i < ap.fpCount → load t.mem (dst + 40 + 8 * i) 8 = load s.mem (ap.regSaveArea + ap.fpOffset + i * 16) 8) ∧
      ∀ x, x < dst + 40 ∨ dst + 104 ≤ x → x < dst + 124 ∨ dst + 128 ≤ x → t.mem x = s.mem x := by
  obtain ⟨hlistEnd, hsaveEnd, hroom, hlistApart, hsaveApart, -⟩ := hapart
  have hfp := ap.fp_valid
  obtain ⟨t, hreach, hkeeps, hcount, hin, hout⟩ := @class_copied prog rest 4 176 4 8 124 .noFp .fpCountReady .copyFp
    .ready _ s list ap.fpOffset ap.regSaveArea dst 136 16 (dst + 40) hclass (by decide) (by decide) (by decide) hr10
    hlistEnd (by decide) hlist.fpOffset hlist.save (by omega) hdst hroom (by decide) (by omega) hlistApart hsaveApart
    fun i s hend hi hat => fp_round hat hi (by omega) (by omega)
  exact ⟨t, hreach, hkeeps, hcount, fun i hi => (hin i hi).trans (by rw [Nat.mul_comm i]; rfl), hout⟩

end Record

/-- The four lines that both kinds of record begin with are followed by the classes. -/
theorem va_record {prog rest : Code EntryLabel} {list dst : Nat} {ap : VaList} {s : Machine}
    (hgp : GpAt prog (copyFpLines ++ rest) 116) (hfp : FpAt prog rest)
    (hlist : ListAt s.mem list ap) (hr10 : (s.reg .r10).toNat = list) (hdst : (s.reg .rsp).toNat = dst)
    (hapart : ListApart list ap 176 dst 136) :
    ∃ t, Reaches prog (.op (.movq (.mem (.base 8 .r10)) (.reg .rax)) ::
        .op (.movq (.reg .rax) (.mem (.base 104 .rsp))) :: .op (.movl (.imm 0) (.mem (.base 112 .rsp))) ::
        .op (.movl (.imm 0) (.mem (.base 120 .rsp))) :: (copyGpLines 116 ++ (copyFpLines ++ rest))) s rest t ∧
      Keeps [.rax, .rcx, .rdx, .r8, .r9] s t ∧ ArgsAt t.mem dst (ap.normalizePublicVaList s.mem) ∧
      ∀ x, x < dst ∨ dst + 136 ≤ x → t.mem x = s.mem x := by
  obtain ⟨hlistEnd, hsaveEnd, hroom, hlistApart, hsaveApart, -⟩ := id hapart
  obtain ⟨u, hu⟩ : ∃ u : Machine, u = (Instr.movl (.imm 0) (.mem (.base 120 .rsp))).apply
      ((Instr.movl (.imm 0) (.mem (.base 112 .rsp))).apply ((Instr.movq (.reg .rax) (.mem (.base 104 .rsp))).apply
        ((Instr.movq (.mem (.base 8 .r10)) (.reg .rax)).apply s))) := ⟨_, rfl⟩
  have hbegin : Reaches prog (.op (.movq (.mem (.base 8 .r10)) (.reg .rax)) ::
      .op (.movq (.reg .rax) (.mem (.base 104 .rsp))) :: .op (.movl (.imm 0) (.mem (.base 112 .rsp))) ::
      .op (.movl (.imm 0) (.mem (.base 120 .rsp))) :: (copyGpLines 116 ++ (copyFpLines ++ rest))) s
      (copyGpLines 116 ++ (copyFpLines ++ rest)) u := by
    rw [hu]
    exact ⟨4, fun k => rfl⟩
  have hload : Machine.read64 s (.mem (.base 8 .r10)) = .ofNat 64 (load s.mem (list + 8) 8) := by
    simp only [Machine.read64, Machine.address]
    rw [address_base (by omega), hr10]
  have humem : u.mem = store (store (store s.mem (dst + 104) 8 ap.overflowArgArea) (dst + 112) 4 0) (dst + 120) 4 0 := by
    subst hu
    simp only [Instr.apply, Machine.write64, Machine.write32, Machine.set, Machine.storeAt, Machine.address, hload]
    simp only [Machine.read64, Machine.read32, Function.update_self, ne_eq, reduceCtorEq, not_false_eq_true,
      Function.update_of_ne]
    rw [address_base (by omega), address_base (by omega), address_base (by omega), hdst, load_toNat (le_refl 8),
      hlist.overflow, Machine.low_small (by decide)]
  have hukeeps : Keeps [.rax, .rcx, .rdx, .r8, .r9] s u := by
    subst hu
    intro r hr
    simp only [List.mem_cons, List.not_mem_nil, or_false, not_or] at hr
    simp [Instr.apply, Machine.write64, Machine.write32, Machine.set, Machine.storeAt, hr.1]
  have huout : ∀ x, x < dst ∨ dst + 136 ≤ x → u.mem x = s.mem x := by
    intro x hx
    rw [humem, store_out (by omega), store_out (by omega), store_out (by omega)]
  -- the general registers, and the floating ones after them
  obtain ⟨v, hgpReach, hvkeeps, hgpCount, hgpIn, hvout⟩ := gp_copied hgp (hlist.congr fun x h1 h2 => huout x (by omega))
    (by rw [hukeeps .r10 (by decide), hr10]) (by rw [hukeeps .rsp (by decide), hdst]) hapart (by decide) (by decide)
  have hvsame : ∀ x, x < dst ∨ dst + 136 ≤ x → v.mem x = s.mem x :=
    fun x hx => (hvout x (by omega) (by omega)).trans (huout x hx)
  obtain ⟨t, hfpReach, htkeeps, hfpCount, hfpIn, htout⟩ := fp_copied hfp (hlist.congr fun x h1 h2 => hvsame x (by omega))
    (by rw [hvkeeps .r10 (by decide), hukeeps .r10 (by decide), hr10])
    (by rw [hvkeeps .rsp (by decide), hukeeps .rsp (by decide), hdst]) hapart
  have htsame : ∀ x, x < dst ∨ dst + 136 ≤ x → t.mem x = s.mem x :=
    fun x hx => (htout x (by omega) (by omega)).trans (hvsame x hx)
  refine ⟨t, (hbegin.trans hgpReach).trans hfpReach, (hukeeps.trans hvkeeps).trans htkeeps, ?_, htsame⟩
  have hle := ap.gpCount_le
  have hle' := ap.fpCount_le
  -- a word of the record that no copy touches
  have hkept : ∀ a k, (a = 104 ∧ k = 8) ∨ (a = 112 ∧ k = 4) ∨ (a = 120 ∧ k = 4) →
      load t.mem (dst + a) k = load u.mem (dst + a) k := by
    intro a k ha
    apply load_congr
    intro x h1 h2
    rw [htout x (by omega) (by omega), hvout x (by omega) (by omega)]
  constructor
  · intro i w hw
    obtain ⟨hi, hw⟩ := List.getElem?_eq_some_iff.1 hw
    have hi : i < ap.gpCount := by simpa [VaList.normalizePublicVaList] using hi
    have hw : loadPublicWord s.mem (ap.regSaveArea + ap.gpOffset + i * 8) = w := by
      simpa [VaList.normalizePublicVaList] using hw
    have hend := (classCount_end (gpCount_eq ap ▸ hi)).2
    have hsame : load t.mem (dst + 8 * i) 8 = load v.mem (dst + 8 * i) 8 :=
      load_congr fun x h1 h2 => htout x (by omega) (by omega)
    rw [hsame, hgpIn i hi, ← hw]
    exact load_congr fun x h1 h2 => huout x (by omega)
  · intro i w hw
    obtain ⟨hi, hw⟩ := List.getElem?_eq_some_iff.1 hw
    have hi : i < ap.fpCount := by simpa [VaList.normalizePublicVaList] using hi
    have hw : loadPublicWord s.mem (ap.regSaveArea + ap.fpOffset + i * 16) = w := by
      simpa [VaList.normalizePublicVaList] using hw
    have hend := (classCount_end (fpCount_eq ap ▸ hi)).2
    rw [hfpIn i hi, ← hw]
    exact load_congr fun x h1 h2 => hvsame x (by omega)
  · rw [hkept 104 8 (by decide), humem, load_store_disjoint (by omega), load_store_disjoint (by omega), load_store]
    · rfl
    · exact hlist.overflow ▸ load_lt s.mem (list + 8) 8
  · rw [hkept 112 4 (by decide), humem, load_store_disjoint (by omega), load_store _ _ (by decide)]
    rfl
  · have hsame : load t.mem (dst + 116) 4 = load v.mem (dst + 116) 4 :=
      load_congr fun x h1 h2 => htout x (by omega) (by omega)
    rw [hsame, hgpCount]
    simp [VaList.normalizePublicVaList]
  · rw [hkept 120 4 (by decide), humem, load_store _ _ (by decide)]
    rfl
  · rw [hfpCount]
    simp [VaList.normalizePublicVaList]

/-! ## The calls -/

/-- The record at `r` is what `normalize_public_va_list` makes of the list. It stands for the
arguments of the list, unless the list has not used a general register and all six are needed. -/
def DeliversList (s t : Machine) (r : Reg) (ap : VaList) : Prop :=
  ArgsAt t.mem (t.reg r).toNat (ap.normalizePublicVaList s.mem) ∧
    SameArguments (FormatArgs.next t.mem) (ap.normalizePublicVaList s.mem) (FormatArgs.next s.mem)
      (ap.normalizePublicVaList s.mem) ∧
    (0 < ap.gpOffset →
      SameArguments (FormatArgs.next t.mem) (ap.normalizePublicVaList s.mem) (VaList.vaArg s.mem) ap) ∧
    ∀ fs, fs.count .word ≤ 5 →
      deliver (FormatArgs.next t.mem) (ap.normalizePublicVaList s.mem) fs = deliver (VaList.vaArg s.mem) ap fs

/-- A cursor stands for the same arguments in memories that agree on the overflow area. -/
theorem sameArguments_memory {m m' : Mem} {args : FormatArgs} (h : ∀ x, args.overflow ≤ x → m' x = m x) :
    SameArguments (FormatArgs.next m') args (FormatArgs.next m) args := by
  have hlanes : args.lanes m' = args.lanes m := by
    apply congrArg (Lanes.mk _ _)
    funext n
    exact load_congr fun x h1 h2 => h x (by omega)
  have hview := sameArguments_view (FormatArgs.next_lanes m') args
  rw [hlanes] at hview
  exact hview.trans (sameArguments_view (FormatArgs.next_lanes m) args).symm

/-- The normalised cursor stands for the arguments of a list that has used a general register. -/
theorem sameArguments_normalize (m : Mem) {ap : VaList} (h : 0 < ap.gpOffset) :
    SameArguments (FormatArgs.next m) (ap.normalizePublicVaList m) (VaList.vaArg m) ap := by
  have hview := sameArguments_view (FormatArgs.next_lanes m) (ap.normalizePublicVaList m)
  rw [VaList.normalize_lanes, VaList.lanes_cap m h] at hview
  exact hview.trans (sameArguments_view (VaList.vaArg_lanes m) ap).symm

section VaCalls

variable {s : Machine} {ap : VaList} (hroom : 136 ≤ (s.reg .rsp).toNat)
include hroom

/-- The frame of an entry with a list is below the stack pointer. -/
theorem frame_toNat : (s.reg .rsp - .ofNat 64 136).toNat = (s.reg .rsp).toNat - 136 := by
  have haddress := @address_frame (s.reg .rsp) 136 0 hroom (by omega)
  simpa using haddress

/-- The record of a list, once its address is moved to `r`. -/
theorem list_delivers {list : Nat} {t u : Machine} {r : Reg}
    (hapart : ListApart list ap 176 ((s.reg .rsp).toNat - 136) 136)
    (hat : ArgsAt t.mem ((s.reg .rsp).toNat - 136) (ap.normalizePublicVaList s.mem))
    (hsame : ∀ x, x < (s.reg .rsp).toNat - 136 ∨ (s.reg .rsp).toNat - 136 + 136 ≤ x → t.mem x = s.mem x)
    (hmem : u.mem = t.mem) (hr : u.reg r = s.reg .rsp - .ofNat 64 136) : DeliversList s u r ap := by
  have hstack : ∀ x, (ap.normalizePublicVaList s.mem).overflow ≤ x → u.mem x = s.mem x := by
    intro x hx
    have hx : ap.overflowArgArea ≤ x := hx
    have hover := hapart.overflow
    rw [hmem]
    exact hsame x (by omega)
  have hsameArgs := sameArguments_memory hstack
  refine ⟨?_, hsameArgs, fun h => hsameArgs.trans (sameArguments_normalize s.mem h), fun fs h => ?_⟩
  · rw [hr, frame_toNat hroom, hmem]
    exact hat
  · rw [hsameArgs.1, deliver_normalize s.mem ap (.inr h)]

theorem vfprintf_calls (hlist : ListAt s.mem (s.reg .rdx).toNat ap)
    (hapart : ListApart (s.reg .rdx).toNat ap 176 ((s.reg .rsp).toNat - 136) 136) :
    ∃ rest t, Leaves vfprintf vfprintf s (.calls "__mini_format_dispatch" rest t) ∧
      t.reg .rdi = s.reg .rdi ∧ t.reg .rsi = s.reg .rsi ∧ DeliversList s t .rdx ap ∧ Framed vfprintf rest 136 s t := by
  obtain ⟨u, hu⟩ : ∃ u : Machine, u = (Instr.movq (.reg .rdx) (.reg .r10)).apply
      ((Instr.subq (.imm 136) .rsp).apply s) := ⟨_, rfl⟩
  have hbegin : Reaches vfprintf vfprintf s (vfprintf.drop 2) u := by
    rw [hu]
    exact ⟨2, fun k => rfl⟩
  have humem : u.mem = s.mem := by
    subst hu
    rfl
  have husp : u.reg .rsp = s.reg .rsp - .ofNat 64 136 := by
    subst hu
    simp [Instr.apply, Machine.set, Machine.flags, Machine.write64, Machine.read64]
  have hdst : (u.reg .rsp).toNat = (s.reg .rsp).toNat - 136 := by
    rw [husp]
    exact frame_toNat hroom
  have hu10 : u.reg .r10 = s.reg .rdx := by
    subst hu
    simp [Instr.apply, Machine.set, Machine.flags, Machine.write64, Machine.read64]
  have hukeeps : Keeps [.r10, .rsp] s u := by
    subst hu
    intro r hr
    simp only [List.mem_cons, List.not_mem_nil, or_false, not_or] at hr
    simp [Instr.apply, Machine.set, Machine.flags, Machine.write64, hr.1, hr.2]
  obtain ⟨t, hreach, hkeeps, hat, hsame⟩ := @va_record vfprintf [.op (.movq (.reg .rsp) (.reg .rdx)),
    .call "__mini_format_dispatch", .op (.addq (.imm 136) .rsp), .ret] _ _ ap u ⟨rfl, rfl, rfl, rfl⟩ ⟨rfl, rfl, rfl, rfl⟩
    (humem ▸ hlist) (congrArg BitVec.toNat hu10) hdst hapart
  rw [humem] at hat hsame
  have hsp : t.reg .rsp = s.reg .rsp - .ofNat 64 136 := (hkeeps .rsp (by decide)).trans husp
  have hend : Leaves vfprintf [.op (.movq (.reg .rsp) (.reg .rdx)), .call "__mini_format_dispatch",
      .op (.addq (.imm 136) .rsp), .ret] t (.calls "__mini_format_dispatch" [.op (.addq (.imm 136) .rsp), .ret]
        ((Instr.movq (.reg .rsp) (.reg .rdx)).apply t)) := ⟨2, rfl⟩
  refine ⟨_, _, (hbegin.trans hreach).leaves hend, ?_, ?_, ?_, fun x hx => hsame x (by omega), fun r hr => ?_,
    fun t' ht' hret => framed_returns vfprintf (ht'.trans hsp) hret⟩
  · exact (hkeeps .rdi (by decide)).trans (hukeeps .rdi (by decide))
  · exact (hkeeps .rsi (by decide)).trans (hukeeps .rsi (by decide))
  · apply list_delivers hroom hapart hat hsame rfl
    simpa [Instr.apply, Machine.write64, Machine.set, Machine.read64] using hsp
  · obtain ⟨h1, h2, h3, -, -, h4, h5, h6, h7, -⟩ := calleeSaved_ne r hr
    have hmoved : ((Instr.movq (.reg .rsp) (.reg .rdx)).apply t).reg r = t.reg r := Function.update_of_ne h3 _ _
    rw [hmoved, hkeeps r (by simp [h1, h2, h3, h5, h6]), hukeeps r (by simp [h4, h7])]

theorem vsnprintf_calls (hlist : ListAt s.mem (s.reg .rcx).toNat ap)
    (hapart : ListApart (s.reg .rcx).toNat ap 176 ((s.reg .rsp).toNat - 136) 136) :
    ∃ rest t, Leaves vsnprintf vsnprintf s (.calls "__mini_snprintf_dispatch" rest t) ∧
      t.reg .rdi = s.reg .rdi ∧ t.reg .rsi = s.reg .rsi ∧ t.reg .rdx = s.reg .rdx ∧ DeliversList s t .rcx ap ∧
      Framed vsnprintf rest 136 s t := by
  obtain ⟨u, hu⟩ : ∃ u : Machine, u = (Instr.movq (.reg .rcx) (.reg .r10)).apply
      ((Instr.movq (.reg .rdx) (.reg .r11)).apply ((Instr.subq (.imm 136) .rsp).apply s)) := ⟨_, rfl⟩
  have hbegin : Reaches vsnprintf vsnprintf s (vsnprintf.drop 3) u := by
    rw [hu]
    exact ⟨3, fun k => rfl⟩
  have humem : u.mem = s.mem := by
    subst hu
    rfl
  have husp : u.reg .rsp = s.reg .rsp - .ofNat 64 136 := by
    subst hu
    simp [Instr.apply, Machine.set, Machine.flags, Machine.write64, Machine.read64]
  have hdst : (u.reg .rsp).toNat = (s.reg .rsp).toNat - 136 := by
    rw [husp]
    exact frame_toNat hroom
  have hu10 : u.reg .r10 = s.reg .rcx := by
    subst hu
    simp [Instr.apply, Machine.set, Machine.flags, Machine.write64, Machine.read64]
  -- the second argument waits in `%r11` while the record is made
  have hu11 : u.reg .r11 = s.reg .rdx := by
    subst hu
    simp [Instr.apply, Machine.set, Machine.flags, Machine.write64, Machine.read64]
  have hukeeps : Keeps [.r10, .r11, .rsp] s u := by
    subst hu
    intro r hr
    simp only [List.mem_cons, List.not_mem_nil, or_false, not_or] at hr
    simp [Instr.apply, Machine.set, Machine.flags, Machine.write64, hr.1, hr.2.1, hr.2.2]
  obtain ⟨t, hreach, hkeeps, hat, hsame⟩ := @va_record vsnprintf [.op (.movq (.reg .r11) (.reg .rdx)),
    .op (.movq (.reg .rsp) (.reg .rcx)), .call "__mini_snprintf_dispatch", .op (.addq (.imm 136) .rsp), .ret] _ _ ap u
    ⟨rfl, rfl, rfl, rfl⟩ ⟨rfl, rfl, rfl, rfl⟩ (humem ▸ hlist) (congrArg BitVec.toNat hu10) hdst hapart
  rw [humem] at hat hsame
  have hsp : t.reg .rsp = s.reg .rsp - .ofNat 64 136 := (hkeeps .rsp (by decide)).trans husp
  have hend : Leaves vsnprintf [.op (.movq (.reg .r11) (.reg .rdx)), .op (.movq (.reg .rsp) (.reg .rcx)),
      .call "__mini_snprintf_dispatch", .op (.addq (.imm 136) .rsp), .ret] t
      (.calls "__mini_snprintf_dispatch" [.op (.addq (.imm 136) .rsp), .ret]
        ((Instr.movq (.reg .rsp) (.reg .rcx)).apply ((Instr.movq (.reg .r11) (.reg .rdx)).apply t))) := ⟨3, rfl⟩
  refine ⟨_, _, (hbegin.trans hreach).leaves hend, ?_, ?_, ?_, ?_, fun x hx => hsame x (by omega), fun r hr => ?_,
    fun t' ht' hret => framed_returns vsnprintf (ht'.trans ?_) hret⟩
  · exact (hkeeps .rdi (by decide)).trans (hukeeps .rdi (by decide))
  · exact (hkeeps .rsi (by decide)).trans (hukeeps .rsi (by decide))
  · simpa [Instr.apply, Machine.write64, Machine.set, Machine.read64] using (hkeeps .r11 (by decide)).trans hu11
  · apply list_delivers hroom hapart hat hsame rfl
    simpa [Instr.apply, Machine.write64, Machine.set, Machine.read64] using hsp
  · obtain ⟨h1, h2, h3, -, -, h4, h5, h6, h7, h8⟩ := calleeSaved_ne r hr
    have hmoved : ((Instr.movq (.reg .rsp) (.reg .rcx)).apply ((Instr.movq (.reg .r11) (.reg .rdx)).apply t)).reg r =
        t.reg r := by
      simp [Instr.apply, Machine.write64, Machine.set, h2, h3]
    rw [hmoved, hkeeps r (by simp [h1, h2, h3, h5, h6]), hukeeps r (by simp [h4, h7, h8])]
  · simpa [Instr.apply, Machine.write64, Machine.set, Machine.read64] using hsp

end VaCalls

/-- The entry `f` finds the stream, the format and the list where it expects them. -/
theorem tailEntry_tails (stream : Word) (f : String) (s : Machine) :
    ∃ t, Leaves (tailEntry stream f) (tailEntry stream f) s (.tails f t) ∧
      t.reg .rdi = .ofNat 64 (load s.mem stream.toNat 8) ∧ t.reg .rsi = s.reg .rdi ∧ t.reg .rdx = s.reg .rsi ∧
      t.mem = s.mem ∧ Keeps [.rdi, .rsi, .rdx] s t := by
  refine ⟨_, ⟨4, rfl⟩, ?_, ?_, ?_, rfl, fun r hr => ?_⟩
  · simp [Instr.apply, Machine.write64, Machine.set, Machine.read64, Machine.address]
  · simp [Instr.apply, Machine.write64, Machine.set, Machine.read64]
  · simp [Instr.apply, Machine.write64, Machine.set, Machine.read64]
  · simp only [List.mem_cons, List.not_mem_nil, or_false, not_or] at hr
    simp [Instr.apply, Machine.write64, Machine.set, hr.1, hr.2.1, hr.2.2]

/-- A frame is also that of a caller that only moved arguments before. -/
theorem Framed.of_moved {prog rest : Code EntryLabel} {size : Nat} {s s' t : Machine} (h : Framed prog rest size s' t)
    (hmem : s'.mem = s.mem) (hkeeps : Keeps [.rdi, .rsi, .rdx] s s') : Framed prog rest size s t := by
  have hsp : s'.reg .rsp = s.reg .rsp := hkeeps .rsp (by decide)
  obtain ⟨hout, hkept, hreturns⟩ := h
  rw [hsp, hmem] at hout hreturns
  refine ⟨hout, fun r hr => ?_, hreturns⟩
  obtain ⟨-, -, hrdx, hrsi, hrdi, -⟩ := calleeSaved_ne r hr
  rw [hkept r hr, hkeeps r (by simp [hrdx, hrsi, hrdi])]

/-- From any state of the machine that leaves room for their frame, apart from the list and
its save area, `vfprintf` and `vsnprintf` call the formatter with the record that
`normalize_public_va_list` makes, and `vprintf` does so through `vfprintf`. It stands for the
arguments of the list, unless the list has not used a general register and all six are
needed. They write to their frame only, and return with the formatter's result. -/
theorem list_calls (s : Machine) (ap : VaList) (stdout : Word) (hroom : 136 ≤ (s.reg .rsp).toNat) :
    (ListAt s.mem (s.reg .rdx).toNat ap → ListApart (s.reg .rdx).toNat ap 176 ((s.reg .rsp).toNat - 136) 136 →
      ∃ rest t, Leaves vfprintf vfprintf s (.calls "__mini_format_dispatch" rest t) ∧
        t.reg .rdi = s.reg .rdi ∧ t.reg .rsi = s.reg .rsi ∧ DeliversList s t .rdx ap ∧ Framed vfprintf rest 136 s t) ∧
    (ListAt s.mem (s.reg .rcx).toNat ap → ListApart (s.reg .rcx).toNat ap 176 ((s.reg .rsp).toNat - 136) 136 →
      ∃ rest t, Leaves vsnprintf vsnprintf s (.calls "__mini_snprintf_dispatch" rest t) ∧
        t.reg .rdi = s.reg .rdi ∧ t.reg .rsi = s.reg .rsi ∧ t.reg .rdx = s.reg .rdx ∧ DeliversList s t .rcx ap ∧
        Framed vsnprintf rest 136 s t) ∧
    (ListAt s.mem (s.reg .rsi).toNat ap → ListApart (s.reg .rsi).toNat ap 176 ((s.reg .rsp).toNat - 136) 136 →
      ∃ s', Leaves (vprintf stdout) (vprintf stdout) s (.tails "vfprintf" s') ∧
        ∃ rest t, Leaves vfprintf vfprintf s' (.calls "__mini_format_dispatch" rest t) ∧
          t.reg .rdi = .ofNat 64 (load s.mem stdout.toNat 8) ∧ t.reg .rsi = s.reg .rdi ∧ DeliversList s t .rdx ap ∧
          Framed vfprintf rest 136 s t) := by
  refine ⟨vfprintf_calls hroom, vsnprintf_calls hroom, fun hlist hapart => ?_⟩
  obtain ⟨s', htails, hrdi, hrsi, hrdx, hmem, hkeeps⟩ := tailEntry_tails stdout "vfprintf" s
  have hsp : s'.reg .rsp = s.reg .rsp := hkeeps .rsp (by decide)
  rw [← hrdx] at hlist hapart
  rw [← hmem] at hlist
  rw [← hsp] at hroom hapart
  obtain ⟨rest, t, hleaves, htrdi, htrsi, hdelivers, hframed⟩ := vfprintf_calls hroom hlist hapart
  refine ⟨s', htails, rest, t, hleaves, htrdi.trans hrdi, htrsi.trans hrsi, ?_, hframed.of_moved hmem hkeeps⟩
  unfold DeliversList at hdelivers ⊢
  rwa [hmem] at hdelivers

/-- A list at 3000 that has used one general register, with 11 in the next and 12 in the
first floating one. -/
def listCaller : Machine where
  reg
    | .rdx => 3000
    | .rsp => 1000
    | _ => 0
  xmm _ := 0
  mem := store (store (store (store (store (store (fun _ => 0) 3000 4 8) 3004 4 48) 3008 8 5000) 3016 8 4000) 4008 8 11)
    4048 8 12
  fs := 0
  zero := false
  carry := false

theorem list_calls_two : ∃ rest t, Leaves vfprintf vfprintf listCaller (.calls "__mini_format_dispatch" rest t) ∧
    ∃ args, ArgsAt t.mem (t.reg .rdx).toNat args ∧ args.gp.length = 5 ∧
      deliver (FormatArgs.next t.mem) args [.word, .double] = [11, 12] := by
  obtain ⟨ap, hap⟩ : ∃ ap : VaList, ap = ⟨8, 48, 5000, 4000, by decide, by decide⟩ := ⟨_, rfl⟩
  have hlist : ListAt listCaller.mem (listCaller.reg .rdx).toNat ap := by
    subst hap
    exact ⟨rfl, rfl, rfl, rfl⟩
  have hapart : ListApart (listCaller.reg .rdx).toNat ap 176 ((listCaller.reg .rsp).toNat - 136) 136 := by
    subst hap
    exact ⟨by decide, by decide, by decide, .inr (by decide), .inr (by decide), by decide⟩
  obtain ⟨rest, t, hleaves, -, -, ⟨hat, -, hsame, -⟩, -⟩ := (list_calls listCaller ap 2000 (by decide)).1 hlist hapart
  refine ⟨rest, t, hleaves, _, hat, ?_, ((hsame ?_).1 _).trans ?_⟩
  · subst hap
    rfl
  · subst hap
    decide
  · subst hap
    decide

end MiniLibc.Entry
