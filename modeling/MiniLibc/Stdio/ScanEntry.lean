import MiniLibc.Stdio.VaEntry
import MiniLibc.Stdio.Scan
/-!
# The entries of the scanner

`src/stdio/scan_entry.S`: `scanf`, `fscanf` and `sscanf` collect the words of their caller
into a `mini_scan_args` on the stack, and the entries with a `va_list`, which the wide
scanners use too, those of the list.
-/
open MiniLibc.Memory MiniLibc.X86
open MiniLibc.Stdio (VaList ScanArgs loadPublicWord)

namespace MiniLibc.Entry

/-! ## The routines -/

/-- The body of `scanf`, `fscanf` and `sscanf`, with the slots `a` to `e` of which `count` are
arguments; `pass` moves the arguments of `f`. -/
def scanEntry (a b c d e : Option Reg) (count : Nat) (pass : Code EntryLabel) (f : String) : Code EntryLabel := ([
  .op (.subq (.imm 72) .rsp),
  .op (.movq (slot a) (.mem (.base 0 .rsp))),
  .op (.movq (slot b) (.mem (.base 8 .rsp))),
  .op (.movq (slot c) (.mem (.base 16 .rsp))),
  .op (.movq (slot d) (.mem (.base 24 .rsp))),
  .op (.movq (slot e) (.mem (.base 32 .rsp))),
  .op (.leaq (.base 80 .rsp) .rax),
  .op (.movq (.reg .rax) (.mem (.base 40 .rsp))),
  .op (.movl (.imm 0) (.mem (.base 48 .rsp))),
  .op (.movl (.imm count) (.mem (.base 52 .rsp)))] : Code EntryLabel) ++
  pass ++ ([
  .call f,
  .op (.addq (.imm 72) .rsp),
  .ret] : Code EntryLabel)

/-- `stdin` is the address of `__mini_stdin`. -/
def scanf (stdin : Word) : Code EntryLabel :=
  scanEntry (some .rsi) (some .rdx) (some .rcx) (some .r8) (some .r9) 5 [
    .op (.movq (.reg .rdi) (.reg .rsi)),
    .op (.movq (.mem (.symbol stdin)) (.reg .rdi)),
    .op (.movq (.reg .rsp) (.reg .rdx))] "__mini_scan_dispatch"

def fscanf : Code EntryLabel :=
  scanEntry (some .rdx) (some .rcx) (some .r8) (some .r9) none 4 [
    .op (.movq (.reg .rsp) (.reg .rdx))] "__mini_scan_dispatch"

def sscanf : Code EntryLabel :=
  scanEntry (some .rdx) (some .rcx) (some .r8) (some .r9) none 4 [
    .op (.movq (.reg .rsp) (.reg .rdx))] "__mini_sscan_dispatch"

/-- The body of the entries with a list, which call `f`. -/
def vscanEntry (f : String) : Code EntryLabel := ([
  .op (.subq (.imm 72) .rsp),
  .op (.movq (.reg .rdx) (.reg .r10)),
  .op (.movq (.mem (.base 8 .r10)) (.reg .rax)),
  .op (.movq (.reg .rax) (.mem (.base 40 .rsp))),
  .op (.movl (.imm 0) (.mem (.base 48 .rsp)))] : Code EntryLabel) ++
  copyGpLines 52 ++ ([
  .op (.movq (.reg .rsp) (.reg .rdx)),
  .call f,
  .op (.addq (.imm 72) .rsp),
  .ret] : Code EntryLabel)

def vfscanf : Code EntryLabel := vscanEntry "__mini_scan_dispatch"

def vscanf (stdin : Word) : Code EntryLabel := tailEntry stdin "vfscanf"

def vsscanf : Code EntryLabel := vscanEntry "__mini_sscan_dispatch"

/-- `__mini_vwscan_dispatch`. -/
def vwscanDispatch : Code EntryLabel := vscanEntry "__mini_wscan_dispatch_unlocked"

/-- `__mini_vwsscan_dispatch`. -/
def vwsscanDispatch : Code EntryLabel := vscanEntry "__mini_wsscan_dispatch"

/-! ## The record in memory -/

/-- `mini_scan_args` at `p`. -/
structure ScanArgsAt (m : Mem) (p : Nat) (args : ScanArgs) : Prop where
  gp : ∀ i w, args.gp[i]? = some w → load m (p + 8 * i) 8 = w
  overflow : load m (p + 40) 8 = args.overflow
  gpIndex : load m (p + 48) 4 = args.gpIndex
  gpCount : load m (p + 52) 4 = args.gp.length

/-- The words that a caller passes behind the named ones, and its stack. -/
def callerScanArgs (s : Machine) (slots : List (Option Reg)) (count : Nat) (hcount : count ≤ 5) : ScanArgs where
  gp := ((slots.map (slotValue s)).map BitVec.toNat).take count
  overflow := (s.reg .rsp).toNat + 8
  gp_length := by
    rw [List.length_take]
    omega

/-- The scanner takes its words from a list as the formatter does. -/
def scanArgs (m : Mem) (ap : VaList) : ScanArgs where
  gp := (ap.normalizePublicVaList m).gp
  overflow := (ap.normalizePublicVaList m).overflow
  gp_length := (ap.normalizePublicVaList m).gp_length

/-- The frame of an entry at `p`. -/
def scanFrame (m : Mem) (p : Nat) (a b c d e : Word) (count : Nat) : Mem :=
  let m := store m p 8 a.toNat
  let m := store m (p + 8) 8 b.toNat
  let m := store m (p + 16) 8 c.toNat
  let m := store m (p + 24) 8 d.toNat
  let m := store m (p + 32) 8 e.toNat
  let m := store m (p + 40) 8 (p + 80)
  let m := store m (p + 48) 4 0
  store m (p + 52) 4 count

theorem scanFrame_outside (m : Mem) {p x : Nat} (a b c d e : Word) (count : Nat) (h : x < p ∨ p + 72 ≤ x) :
    scanFrame m p a b c d e count x = m x := by
  unfold scanFrame
  simp (disch := omega) only [store_out]

theorem scanArgsAt_frame (m : Mem) {p : Nat} (a b c d e : Word) {count : Nat} (hcount : count ≤ 5)
    (hp : p + 80 < 2 ^ 64) {args : ScanArgs} (hgp : args.gp = ([a, b, c, d, e].map BitVec.toNat).take count)
    (hoverflow : args.overflow = p + 80) (hindex : args.gpIndex = 0) :
    ScanArgsAt (scanFrame m p a b c d e count) p args := by
  constructor
  · intro i w hw
    rw [hgp, List.getElem?_take] at hw
    split_ifs at hw with hi
    have hi : i < 5 := by omega
    unfold scanFrame
    interval_cases i <;> cases hw <;>
      simp (disch := omega) only [load_store_disjoint, load_store_word, Nat.mul_zero, Nat.add_zero]
  · rw [hoverflow]
    unfold scanFrame
    simp (disch := omega) only [load_store_disjoint]
    exact load_store _ _ (by omega)
  · rw [hindex]
    unfold scanFrame
    simp (disch := omega) only [load_store_disjoint]
    exact load_store _ _ (by decide)
  · rw [hgp]
    simp only [List.length_take, List.length_map, List.length_cons, List.length_nil]
    unfold scanFrame
    rw [load_store _ _ (by omega)]
    omega

section ScanCalls

variable {a b c d e : Option Reg} {count : Nat} {s : Machine}

theorem scanFrame_toNat (hroom : 72 ≤ (s.reg .rsp).toNat) : (s.reg .rsp - .ofNat 64 72).toNat = (s.reg .rsp).toNat - 72 := by
  have haddress := @address_frame (s.reg .rsp) 72 0 hroom (by omega)
  simpa using haddress

/-- An entry is about to pass its record on. -/
theorem scanEntry_ready (hroom : 72 ≤ (s.reg .rsp).toNat) (hend : (s.reg .rsp).toNat + 8 < 2 ^ 64) (pass : Code EntryLabel)
    (f : String) (hslots : ∀ o ∈ [a, b, c, d, e], o ≠ some .rsp) (hcount : count ≤ 5) :
    ∃ t, Reaches (scanEntry a b c d e count pass f) (scanEntry a b c d e count pass f) s
        (pass ++ [.call f, .op (.addq (.imm 72) .rsp), .ret]) t ∧
      t.reg .rsp = s.reg .rsp - .ofNat 64 72 ∧ Keeps [.rax, .rsp] s t ∧
      t.mem = scanFrame s.mem ((s.reg .rsp).toNat - 72) (slotValue s a) (slotValue s b) (slotValue s c) (slotValue s d)
        (slotValue s e) count := by
  have hread (o : Option Reg) (ho : o ∈ [a, b, c, d, e]) (w : Word) (xmm : Nat → Word) (mem : Mem) (fs : Word)
      (zero carry : Bool) : Machine.read64 ⟨Function.update s.reg .rsp w, xmm, mem, fs, zero, carry⟩ (slot o) =
        slotValue s o := by
    have hsp := hslots o ho
    cases o with
    | none => rfl
    | some r =>
      have hr : r ≠ .rsp := fun h => hsp (congrArg some h)
      simp [Machine.read64, slot, slotValue, hr]
  have ha := hread a (by simp)
  have hb := hread b (by simp)
  have hc := hread c (by simp)
  have hd := hread d (by simp)
  have he := hread e (by simp)
  refine ⟨_, ⟨10, fun k => rfl⟩, ?_, fun r hr => ?_, ?_⟩
  · simp [Instr.apply, Machine.set, Machine.flags, Machine.write64, Machine.write32, Machine.storeAt, Machine.read64]
  · simp only [List.mem_cons, List.not_mem_nil, or_false, not_or] at hr
    simp [Instr.apply, Machine.set, Machine.flags, Machine.write64, Machine.write32, Machine.storeAt, hr.1, hr.2]
  · simp only [Instr.apply, Machine.set, Machine.flags, Machine.write64, Machine.write32, Machine.storeAt, Machine.address,
      Function.update_self, ne_eq, reduceCtorEq, not_false_eq_true, Function.update_of_ne, ha, hb, hc, hd, he]
    simp (disch := omega) only [Machine.read64, Machine.read32, scanFrame, address_frame, Machine.low_small, Nat.add_zero,
      Function.update_self]

/-- The record of an entry, and its frame, once the arguments are moved. -/
theorem scan_framed {prog : Code EntryLabel} {t u : Machine} (hroom : 72 ≤ (s.reg .rsp).toNat)
    (hend : (s.reg .rsp).toNat + 8 < 2 ^ 64) (hcount : count ≤ 5)
    (hsp : t.reg .rsp = s.reg .rsp - .ofNat 64 72)
    (hmem : t.mem = scanFrame s.mem ((s.reg .rsp).toNat - 72) (slotValue s a) (slotValue s b) (slotValue s c)
      (slotValue s d) (slotValue s e) count)
    (humem : u.mem = t.mem) (husp : u.reg .rsp = t.reg .rsp) (hrdx : u.reg .rdx = t.reg .rsp)
    (hkept : ∀ r ∈ calleeSaved, u.reg r = s.reg r) :
    ScanArgsAt u.mem (u.reg .rdx).toNat (callerScanArgs s [a, b, c, d, e] count hcount) ∧
      Framed prog [.op (.addq (.imm 72) .rsp), .ret] 72 s u := by
  refine ⟨?_, fun x hx => ?_, hkept, fun t' ht' hret => framed_returns prog ((ht'.trans husp).trans hsp) hret⟩
  · rw [hrdx, hsp, scanFrame_toNat hroom, humem, hmem]
    refine scanArgsAt_frame s.mem _ _ _ _ _ hcount (by omega) rfl ?_ rfl
    show (s.reg .rsp).toNat + 8 = _
    omega
  · rw [humem, hmem]
    exact scanFrame_outside s.mem _ _ _ _ _ count (by omega)

theorem scanf_calls {stdin : Word} (hroom : 72 ≤ (s.reg .rsp).toNat) (hend : (s.reg .rsp).toNat + 8 < 2 ^ 64)
    (hstdin : stdin.toNat + 8 ≤ (s.reg .rsp).toNat - 72 ∨ (s.reg .rsp).toNat ≤ stdin.toNat) :
    ∃ rest t, Leaves (scanf stdin) (scanf stdin) s (.calls "__mini_scan_dispatch" rest t) ∧
      t.reg .rdi = .ofNat 64 (load s.mem stdin.toNat 8) ∧ t.reg .rsi = s.reg .rdi ∧
      ScanArgsAt t.mem (t.reg .rdx).toNat
        (callerScanArgs s [some .rsi, some .rdx, some .rcx, some .r8, some .r9] 5 (le_refl 5)) ∧
      Framed (scanf stdin) rest 72 s t := by
  obtain ⟨t, hreach, hsp, hkeeps, hmem⟩ := @scanEntry_ready (some .rsi) (some .rdx) (some .rcx) (some .r8) (some .r9) 5 s
    hroom hend [.op (.movq (.reg .rdi) (.reg .rsi)), .op (.movq (.mem (.symbol stdin)) (.reg .rdi)),
      .op (.movq (.reg .rsp) (.reg .rdx))] "__mini_scan_dispatch" (by simp) (le_refl 5)
  refine ⟨_, _, hreach.leaves ⟨4, rfl⟩, ?_, ?_, ?_⟩
  · simp only [Instr.apply, Machine.write64, Machine.set, Machine.read64, Machine.address, Function.update_self, ne_eq,
      reduceCtorEq, not_false_eq_true, Function.update_of_ne]
    rw [hmem]
    refine congrArg _ (load_congr fun x h1 h2 => ?_)
    exact scanFrame_outside s.mem _ _ _ _ _ 5 (by omega)
  · simpa [Instr.apply, Machine.write64, Machine.set, Machine.read64] using hkeeps .rdi (by decide)
  · refine scan_framed hroom hend (le_refl 5) hsp hmem rfl ?_ ?_ fun r hr => ?_
    · simp [Instr.apply, Machine.write64, Machine.set, Machine.read64]
    · simp [Instr.apply, Machine.write64, Machine.set, Machine.read64]
    · obtain ⟨hrax, -, hrdx, hrsi, hrdi, hrsp, -, -, -, -⟩ := calleeSaved_ne r hr
      simpa [Instr.apply, Machine.write64, Machine.set, Machine.read64, hrdx, hrsi, hrdi] using
        hkeeps r (by simp [hrax, hrsp])

/-- `fscanf` and `sscanf`. -/
theorem scan_calls (hroom : 72 ≤ (s.reg .rsp).toNat) (hend : (s.reg .rsp).toNat + 8 < 2 ^ 64) (f : String) :
    ∃ rest t, Leaves (scanEntry (some .rdx) (some .rcx) (some .r8) (some .r9) none 4 [.op (.movq (.reg .rsp) (.reg .rdx))] f)
        (scanEntry (some .rdx) (some .rcx) (some .r8) (some .r9) none 4 [.op (.movq (.reg .rsp) (.reg .rdx))] f) s
        (.calls f rest t) ∧
      t.reg .rdi = s.reg .rdi ∧ t.reg .rsi = s.reg .rsi ∧
      ScanArgsAt t.mem (t.reg .rdx).toNat
        (callerScanArgs s [some .rdx, some .rcx, some .r8, some .r9, none] 4 (by decide)) ∧
      Framed (scanEntry (some .rdx) (some .rcx) (some .r8) (some .r9) none 4 [.op (.movq (.reg .rsp) (.reg .rdx))] f)
        rest 72 s t := by
  obtain ⟨t, hreach, hsp, hkeeps, hmem⟩ := @scanEntry_ready (some .rdx) (some .rcx) (some .r8) (some .r9) none 4 s hroom
    hend [.op (.movq (.reg .rsp) (.reg .rdx))] f (by simp) (by decide)
  refine ⟨_, _, hreach.leaves ⟨2, rfl⟩, ?_, ?_, ?_⟩
  · simpa [Instr.apply, Machine.write64, Machine.set, Machine.read64] using hkeeps .rdi (by decide)
  · simpa [Instr.apply, Machine.write64, Machine.set, Machine.read64] using hkeeps .rsi (by decide)
  · refine scan_framed hroom hend (by decide) hsp hmem rfl ?_ ?_ fun r hr => ?_
    · simp [Instr.apply, Machine.write64, Machine.set, Machine.read64]
    · simp [Instr.apply, Machine.write64, Machine.set, Machine.read64]
    · obtain ⟨hrax, -, hrdx, hrsi, hrdi, hrsp, -, -, -, -⟩ := calleeSaved_ne r hr
      simpa [Instr.apply, Machine.write64, Machine.set, Machine.read64, hrdx] using hkeeps r (by simp [hrax, hrsp])

/-- `vfscanf`, `vsscanf` and the wide dispatchers. -/
theorem vscan_calls {ap : VaList} (hroom : 72 ≤ (s.reg .rsp).toNat) (hlist : ListAt s.mem (s.reg .rdx).toNat ap)
    (hapart : ListApart (s.reg .rdx).toNat ap 48 ((s.reg .rsp).toNat - 72) 72) (f : String) :
    ∃ rest t, Leaves (vscanEntry f) (vscanEntry f) s (.calls f rest t) ∧
      t.reg .rdi = s.reg .rdi ∧ t.reg .rsi = s.reg .rsi ∧ ScanArgsAt t.mem (t.reg .rdx).toNat (scanArgs s.mem ap) ∧
      Framed (vscanEntry f) rest 72 s t := by
  obtain ⟨dst, hp⟩ : ∃ dst, dst = (s.reg .rsp).toNat - 72 := ⟨_, rfl⟩
  rw [← hp] at hapart
  obtain ⟨hlistEnd, hsaveEnd, hframe, hlistApart, hsaveApart, -⟩ := id hapart
  obtain ⟨u, hu⟩ : ∃ u : Machine, u = (Instr.movl (.imm 0) (.mem (.base 48 .rsp))).apply
      ((Instr.movq (.reg .rax) (.mem (.base 40 .rsp))).apply ((Instr.movq (.mem (.base 8 .r10)) (.reg .rax)).apply
        ((Instr.movq (.reg .rdx) (.reg .r10)).apply ((Instr.subq (.imm 72) .rsp).apply s)))) := ⟨_, rfl⟩
  have hbegin : Reaches (vscanEntry f) (vscanEntry f) s ((vscanEntry f).drop 5) u := by
    rw [hu]
    exact ⟨5, fun k => rfl⟩
  have husp : u.reg .rsp = s.reg .rsp - .ofNat 64 72 := by
    subst hu
    simp [Instr.apply, Machine.set, Machine.flags, Machine.write64, Machine.write32, Machine.storeAt, Machine.read64]
  have hdst : (u.reg .rsp).toNat = dst := by
    rw [husp, scanFrame_toNat hroom, hp]
  have hu10 : u.reg .r10 = s.reg .rdx := by
    subst hu
    simp [Instr.apply, Machine.set, Machine.flags, Machine.write64, Machine.write32, Machine.storeAt, Machine.read64]
  have hukeeps : Keeps [.rax, .r10, .rsp] s u := by
    subst hu
    intro r hr
    simp only [List.mem_cons, List.not_mem_nil, or_false, not_or] at hr
    simp [Instr.apply, Machine.set, Machine.flags, Machine.write64, Machine.write32, Machine.storeAt, hr.1, hr.2.1, hr.2.2]
  have humem : u.mem = store (store s.mem (dst + 40) 8 ap.overflowArgArea) (dst + 48) 4 0 := by
    subst hu
    simp only [Instr.apply, Machine.set, Machine.flags, Machine.write64, Machine.write32, Machine.storeAt, Machine.address,
      Machine.read64, Machine.read32, Function.update_self, ne_eq, reduceCtorEq, not_false_eq_true, Function.update_of_ne]
    rw [address_frame hroom (by omega), address_frame hroom (by omega), address_base (by omega), load_toNat (le_refl 8),
      hlist.overflow, Machine.low_small (by decide), hp]
  have huout : ∀ x, x < dst ∨ dst + 72 ≤ x → u.mem x = s.mem x := by
    intro x hx
    rw [humem, store_out (by omega), store_out (by omega)]
  have hclass : GpAt (vscanEntry f) [.op (.movq (.reg .rsp) (.reg .rdx)), .call f, .op (.addq (.imm 72) .rsp), .ret] 52 :=
    ⟨rfl, rfl, rfl, rfl⟩
  obtain ⟨t, hreach, hkeeps, hcount, hin, hout⟩ := gp_copied hclass (hlist.congr fun x h1 h2 => huout x (by omega))
    (congrArg BitVec.toNat hu10) hdst hapart (le_refl 48) (by decide)
  have hsame : ∀ x, x < dst ∨ dst + 72 ≤ x → t.mem x = s.mem x :=
    fun x hx => (hout x (by omega) (by omega)).trans (huout x hx)
  have hsp : t.reg .rsp = s.reg .rsp - .ofNat 64 72 := (hkeeps .rsp (by decide)).trans husp
  have hend : Leaves (vscanEntry f) [.op (.movq (.reg .rsp) (.reg .rdx)), .call f, .op (.addq (.imm 72) .rsp), .ret] t
      (.calls f [.op (.addq (.imm 72) .rsp), .ret] ((Instr.movq (.reg .rsp) (.reg .rdx)).apply t)) := ⟨2, rfl⟩
  have hrdx : ((Instr.movq (.reg .rsp) (.reg .rdx)).apply t).reg .rdx = s.reg .rsp - .ofNat 64 72 := by
    simpa [Instr.apply, Machine.write64, Machine.set, Machine.read64] using hsp
  refine ⟨_, _, (hbegin.trans hreach).leaves hend, ?_, ?_, ?_, fun x hx => hsame x (by omega), fun r hr => ?_,
    fun t' ht' hret => framed_returns (vscanEntry f) (ht'.trans hsp) hret⟩
  · exact (hkeeps .rdi (by decide)).trans (hukeeps .rdi (by decide))
  · exact (hkeeps .rsi (by decide)).trans (hukeeps .rsi (by decide))
  · rw [hrdx, scanFrame_toNat hroom, ← hp]
    show ScanArgsAt t.mem dst (scanArgs s.mem ap)
    have hle := ap.gpCount_le
    constructor
    · intro i w hw
      obtain ⟨hi, hw⟩ := List.getElem?_eq_some_iff.1 hw
      have hi : i < ap.gpCount := by simpa [scanArgs, VaList.normalizePublicVaList] using hi
      have hw : loadPublicWord s.mem (ap.regSaveArea + ap.gpOffset + i * 8) = w := by
        simpa [scanArgs, VaList.normalizePublicVaList] using hw
      have hends := (classCount_end (gpCount_eq ap ▸ hi)).2
      rw [hin i hi, ← hw]
      exact load_congr fun x h1 h2 => huout x (by omega)
    · have hkept : load t.mem (dst + 40) 8 = load u.mem (dst + 40) 8 :=
        load_congr fun x h1 h2 => hout x (by omega) (by omega)
      rw [hkept, humem, load_store_disjoint (by omega), load_store]
      · rfl
      · exact hlist.overflow ▸ load_lt s.mem _ 8
    · have hkept : load t.mem (dst + 48) 4 = load u.mem (dst + 48) 4 :=
        load_congr fun x h1 h2 => hout x (by omega) (by omega)
      rw [hkept, humem, load_store _ _ (by decide)]
      rfl
    · rw [hcount]
      simp [scanArgs, VaList.normalizePublicVaList]
  · obtain ⟨h1, h2, h3, -, -, h4, h5, h6, h7, -⟩ := calleeSaved_ne r hr
    have hmoved : ((Instr.movq (.reg .rsp) (.reg .rdx)).apply t).reg r = t.reg r := Function.update_of_ne h3 _ _
    rw [hmoved, hkeeps r (by simp [h1, h2, h3, h5, h6]), hukeeps r (by simp [h1, h4, h7])]

end ScanCalls

/-- From any state of the machine that leaves room for their frame, `scanf`, `fscanf` and
`sscanf` call the scanner with a record of the caller's words, in its registers and on its
stack. The entries with a list, which is apart from the frame, call it with the words of the
list, as `normalize_public_va_list` takes them for the formatter. All write to their frame
only, and return with the scanner's result. -/
theorem scan_entries (s : Machine) (stdin : Word) (ap : VaList) (hroom : 72 ≤ (s.reg .rsp).toNat)
    (hend : (s.reg .rsp).toNat + 8 < 2 ^ 64)
    (hstdin : stdin.toNat + 8 ≤ (s.reg .rsp).toNat - 72 ∨ (s.reg .rsp).toNat ≤ stdin.toNat) :
    (∃ rest t, Leaves (scanf stdin) (scanf stdin) s (.calls "__mini_scan_dispatch" rest t) ∧
      t.reg .rdi = .ofNat 64 (load s.mem stdin.toNat 8) ∧ t.reg .rsi = s.reg .rdi ∧
      ScanArgsAt t.mem (t.reg .rdx).toNat
        (callerScanArgs s [some .rsi, some .rdx, some .rcx, some .r8, some .r9] 5 (le_refl 5)) ∧
      Framed (scanf stdin) rest 72 s t) ∧
    (∀ prog f, prog = fscanf ∧ f = "__mini_scan_dispatch" ∨ prog = sscanf ∧ f = "__mini_sscan_dispatch" →
      ∃ rest t, Leaves prog prog s (.calls f rest t) ∧ t.reg .rdi = s.reg .rdi ∧ t.reg .rsi = s.reg .rsi ∧
        ScanArgsAt t.mem (t.reg .rdx).toNat
          (callerScanArgs s [some .rdx, some .rcx, some .r8, some .r9, none] 4 (by decide)) ∧
        Framed prog rest 72 s t) ∧
    (ListAt s.mem (s.reg .rdx).toNat ap → ListApart (s.reg .rdx).toNat ap 48 ((s.reg .rsp).toNat - 72) 72 →
      ∀ prog f, prog = vfscanf ∧ f = "__mini_scan_dispatch" ∨ prog = vsscanf ∧ f = "__mini_sscan_dispatch" ∨
          prog = vwscanDispatch ∧ f = "__mini_wscan_dispatch_unlocked" ∨
          prog = vwsscanDispatch ∧ f = "__mini_wsscan_dispatch" →
        ∃ rest t, Leaves prog prog s (.calls f rest t) ∧ t.reg .rdi = s.reg .rdi ∧
          t.reg .rsi = s.reg .rsi ∧ ScanArgsAt t.mem (t.reg .rdx).toNat (scanArgs s.mem ap) ∧
          Framed prog rest 72 s t) ∧
    (ListAt s.mem (s.reg .rsi).toNat ap → ListApart (s.reg .rsi).toNat ap 48 ((s.reg .rsp).toNat - 72) 72 →
      ∃ s', Leaves (vscanf stdin) (vscanf stdin) s (.tails "vfscanf" s') ∧
        ∃ rest t, Leaves vfscanf vfscanf s' (.calls "__mini_scan_dispatch" rest t) ∧
          t.reg .rdi = .ofNat 64 (load s.mem stdin.toNat 8) ∧ t.reg .rsi = s.reg .rdi ∧
          ScanArgsAt t.mem (t.reg .rdx).toNat (scanArgs s.mem ap) ∧ Framed vfscanf rest 72 s t) := by
  refine ⟨scanf_calls hroom hend hstdin, ?_, fun hlist hapart => ?_, fun hlist hapart => ?_⟩
  · rintro prog f (⟨rfl, rfl⟩ | ⟨rfl, rfl⟩)
    · exact scan_calls hroom hend "__mini_scan_dispatch"
    · exact scan_calls hroom hend "__mini_sscan_dispatch"
  · rintro prog f (⟨rfl, rfl⟩ | ⟨rfl, rfl⟩ | ⟨rfl, rfl⟩ | ⟨rfl, rfl⟩) <;>
      exact vscan_calls hroom hlist hapart _
  · obtain ⟨s', htails, hrdi, hrsi, hrdx, hmem, hkeeps⟩ := tailEntry_tails stdin "vfscanf" s
    have hsp : s'.reg .rsp = s.reg .rsp := hkeeps .rsp (by decide)
    rw [← hrdx] at hlist hapart
    rw [← hmem] at hlist
    rw [← hsp] at hroom hapart
    obtain ⟨rest, t, hleaves, htrdi, htrsi, hat, hframed⟩ := vscan_calls hroom hlist hapart "__mini_scan_dispatch"
    rw [hmem] at hat
    exact ⟨s', htails, rest, t, hleaves, htrdi.trans hrdi, htrsi.trans hrsi, hat, hframed.of_moved hmem hkeeps⟩

theorem scan_entries_five : (∃ rest t, Leaves (scanf 2000) (scanf 2000) caller (.calls "__mini_scan_dispatch" rest t) ∧
      ∃ args, ScanArgsAt t.mem (t.reg .rdx).toNat args ∧ args.gp = [1, 2, 3, 4, 5] ∧ args.overflow = 1008) ∧
    ∃ rest t, Leaves vsscanf vsscanf listCaller (.calls "__mini_sscan_dispatch" rest t) ∧
      ∃ args, ScanArgsAt t.mem (t.reg .rdx).toNat args ∧ args.gp = [11, 0, 0, 0, 0] ∧ args.overflow = 5000 := by
  obtain ⟨ap, hap⟩ : ∃ ap : VaList, ap = ⟨8, 48, 5000, 4000, by decide, by decide⟩ := ⟨_, rfl⟩
  have hlist : ListAt listCaller.mem (listCaller.reg .rdx).toNat ap := by
    subst hap
    exact ⟨rfl, rfl, rfl, rfl⟩
  have hapart : ListApart (listCaller.reg .rdx).toNat ap 48 ((listCaller.reg .rsp).toNat - 72) 72 := by
    subst hap
    exact ⟨by decide, by decide, by decide, .inr (by decide), .inr (by decide), by decide⟩
  constructor
  · obtain ⟨rest, t, hleaves, -, -, hat, -⟩ :=
      (scan_entries caller 2000 ap (by decide) (by decide) (.inr (by decide))).1
    exact ⟨rest, t, hleaves, _, hat, by decide, rfl⟩
  · obtain ⟨rest, t, hleaves, -, -, hat, -⟩ :=
      (scan_entries listCaller 2000 ap (by decide) (by decide) (.inr (by decide))).2.2.1 hlist hapart
        _ _ (.inr (.inl ⟨rfl, rfl⟩))
    subst hap
    exact ⟨rest, t, hleaves, _, hat, by decide, rfl⟩

end MiniLibc.Entry
