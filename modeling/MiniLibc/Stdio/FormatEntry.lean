import MiniLibc.Lib.X86
import MiniLibc.Stdio.Arguments
/-!
# The entries of the formatter

`src/stdio/format_entry.S`: `printf`, `fprintf` and `snprintf` collect the arguments of their
caller from its registers, and `vfprintf` and `vsnprintf` from a `va_list`, into a
`mini_format_args` on the stack, with which they call the formatter.
-/
open MiniLibc.Args MiniLibc.Memory MiniLibc.X86
open MiniLibc.Stdio (FormatArgs SameArguments loadPublicWord sameArguments_view)

namespace MiniLibc.Entry

inductive EntryLabel where
  | gpCountReady | copyGp | noGp | gpReady
  | fpCountReady | copyFp | noFp | ready
deriving DecidableEq

/-! ## The routines -/

/-- What an entry stores in a general slot: a register of the caller, or `$0`. -/
def slot : Option Reg → Operand
  | some r => .reg r
  | none => .imm 0

/-- The body of `printf`, `fprintf` and `snprintf`, with the slots `a` to `e` of which `count`
are arguments; `pass` moves the arguments of `f`. -/
def formatEntry (a b c d e : Option Reg) (count : Nat) (pass : Code EntryLabel) (f : String) : Code EntryLabel := ([
  .op (.movzbl .rax .r11),
  .op (.subq (.imm 136) .rsp),
  .op (.movq (slot a) (.mem (.base 0 .rsp))),
  .op (.movq (slot b) (.mem (.base 8 .rsp))),
  .op (.movq (slot c) (.mem (.base 16 .rsp))),
  .op (.movq (slot d) (.mem (.base 24 .rsp))),
  .op (.movq (slot e) (.mem (.base 32 .rsp))),
  .op (.movsd 0 (.base 40 .rsp)),
  .op (.movsd 1 (.base 48 .rsp)),
  .op (.movsd 2 (.base 56 .rsp)),
  .op (.movsd 3 (.base 64 .rsp)),
  .op (.movsd 4 (.base 72 .rsp)),
  .op (.movsd 5 (.base 80 .rsp)),
  .op (.movsd 6 (.base 88 .rsp)),
  .op (.movsd 7 (.base 96 .rsp)),
  .op (.leaq (.base 144 .rsp) .rax),
  .op (.movq (.reg .rax) (.mem (.base 104 .rsp))),
  .op (.movl (.imm 0) (.mem (.base 112 .rsp))),
  .op (.movl (.imm count) (.mem (.base 116 .rsp))),
  .op (.movl (.imm 0) (.mem (.base 120 .rsp))),
  .op (.cmpl (.imm 8) .r11),
  .jcc .be .fpCountReady,
  .op (.movl (.imm 8) (.reg .r11)),
  .label .fpCountReady,
  .op (.movl (.reg .r11) (.mem (.base 124 .rsp)))] : Code EntryLabel) ++
  pass ++ ([
  .call f,
  .op (.addq (.imm 136) .rsp),
  .ret] : Code EntryLabel)

/-- `stdout` is the address of `__mini_stdout`. -/
def printf (stdout : Word) : Code EntryLabel :=
  formatEntry (some .rsi) (some .rdx) (some .rcx) (some .r8) (some .r9) 5 [
    .op (.movq (.reg .rdi) (.reg .rsi)),
    .op (.movq (.mem (.symbol stdout)) (.reg .rdi)),
    .op (.movq (.reg .rsp) (.reg .rdx))] "__mini_format_dispatch"

def fprintf : Code EntryLabel :=
  formatEntry (some .rdx) (some .rcx) (some .r8) (some .r9) none 4 [
    .op (.movq (.reg .rsp) (.reg .rdx))] "__mini_format_dispatch"

def snprintf : Code EntryLabel :=
  formatEntry (some .rcx) (some .r8) (some .r9) none none 3 [
    .op (.movq (.reg .rsp) (.reg .rcx))] "__mini_snprintf_dispatch"

/-! ## The record in memory -/

/-- `mini_format_args` at `p`. -/
structure ArgsAt (m : Mem) (p : Nat) (args : FormatArgs) : Prop where
  gp : ∀ i w, args.gp[i]? = some w → load m (p + 8 * i) 8 = w
  fp : ∀ i w, args.fp[i]? = some w → load m (p + 40 + 8 * i) 8 = w
  overflow : load m (p + 104) 8 = args.overflow
  gpIndex : load m (p + 112) 4 = args.gpIndex
  gpCount : load m (p + 116) 4 = args.gp.length
  fpIndex : load m (p + 120) 4 = args.fpIndex
  fpCount : load m (p + 124) 4 = args.fp.length

/-! ## The arguments of a call -/

/-- The value of a slot. -/
def slotValue (s : Machine) : Option Reg → Word
  | some r => s.reg r
  | none => 0

/-- The number of floating registers that the caller used, by `%al`. -/
def vectorCount (s : Machine) : Nat := min ((s.reg .rax).toNat % 2 ^ 8) 8

/-- What the caller passes for the `...`: general registers, floating registers, and its
stack behind the return address. -/
def callerLanes (s : Machine) (words : List Reg) : Lanes Nat where
  words := words.map fun r => (s.reg r).toNat
  doubles := (List.range (vectorCount s)).map fun i => (s.xmm i).toNat
  stack n := loadPublicWord s.mem ((s.reg .rsp).toNat + 8 + 8 * n)

/-- The frame of an entry, before the floating count. -/
def entryFrame (s : Machine) (p : Nat) (a b c d e : Word) (count : Nat) : Mem :=
  let m := store s.mem p 8 a.toNat
  let m := store m (p + 8) 8 b.toNat
  let m := store m (p + 16) 8 c.toNat
  let m := store m (p + 24) 8 d.toNat
  let m := store m (p + 32) 8 e.toNat
  let m := store m (p + 40) 8 (s.xmm 0).toNat
  let m := store m (p + 48) 8 (s.xmm 1).toNat
  let m := store m (p + 56) 8 (s.xmm 2).toNat
  let m := store m (p + 64) 8 (s.xmm 3).toNat
  let m := store m (p + 72) 8 (s.xmm 4).toNat
  let m := store m (p + 80) 8 (s.xmm 5).toNat
  let m := store m (p + 88) 8 (s.xmm 6).toNat
  let m := store m (p + 96) 8 (s.xmm 7).toNat
  let m := store m (p + 104) 8 (p + 144)
  let m := store m (p + 112) 4 0
  let m := store m (p + 116) 4 count
  store m (p + 120) 4 0

section Entry

variable {a b c d e : Option Reg} {count : Nat} {s : Machine} (pass : Code EntryLabel) (f : String)

/-- The straight part of an entry. -/
theorem formatEntry_frame (hslots : ∀ o ∈ [a, b, c, d, e], o ≠ some .r11 ∧ o ≠ some .rsp) (hcount : count ≤ 5)
    (hroom : 136 ≤ (s.reg .rsp).toNat) (hend : (s.reg .rsp).toNat + 8 < 2 ^ 64) :
    ∃ t, Reaches (formatEntry a b c d e count pass f) (formatEntry a b c d e count pass f) s
        ((formatEntry a b c d e count pass f).drop 21) t ∧
      t.reg .rsp = s.reg .rsp - .ofNat 64 136 ∧ t.reg .r11 = .ofNat 64 ((s.reg .rax).toNat % 2 ^ 8) ∧
      (∀ r, r ≠ .rax → r ≠ .r11 → r ≠ .rsp → t.reg r = s.reg r) ∧
      t.mem = entryFrame s ((s.reg .rsp).toNat - 136) (slotValue s a) (slotValue s b) (slotValue s c) (slotValue s d)
        (slotValue s e) count ∧
      (Cond.holds t .be = true ↔ (s.reg .rax).toNat % 2 ^ 8 ≤ 8) := by
  have hread (o : Option Reg) (ho : o ∈ [a, b, c, d, e]) (v w : Word) (xmm : Nat → Word) (mem : Mem) (fs : Word)
      (zero carry : Bool) : Machine.read64 ⟨Function.update (Function.update s.reg .r11 v) .rsp w, xmm, mem, fs, zero, carry⟩
        (slot o) = slotValue s o := by
    obtain ⟨h11, hsp⟩ := hslots o ho
    cases o with
    | none => rfl
    | some r =>
      have hr11 : r ≠ .r11 := fun h => h11 (congrArg some h)
      have hrsp : r ≠ .rsp := fun h => hsp (congrArg some h)
      simp [Machine.read64, slot, slotValue, hr11, hrsp]
  have ha := hread a (by simp)
  have hb := hread b (by simp)
  have hc := hread c (by simp)
  have hd := hread d (by simp)
  have he := hread e (by simp)
  refine ⟨_, ⟨21, fun k => rfl⟩, ?_, ?_, ?_, ?_, ?_⟩
  · simp [Instr.apply, Machine.set, Machine.flags, Machine.write64, Machine.write32, Machine.storeAt, Machine.read64]
  · simp [Instr.apply, Machine.set, Machine.flags, Machine.write64, Machine.write32, Machine.storeAt]
  · intro r h1 h2 h3
    simp [Instr.apply, Machine.set, Machine.flags, Machine.write64, Machine.write32, Machine.storeAt, h1, h2, h3]
  · simp only [Instr.apply, Machine.set, Machine.flags, Machine.write64, Machine.write32, Machine.storeAt, Machine.address,
      Function.update_self, ne_eq, reduceCtorEq, not_false_eq_true, Function.update_of_ne, ha, hb, hc, hd, he]
    simp (disch := omega) only [Machine.read64, Machine.read32, entryFrame, address_frame, Machine.low_small, Nat.add_zero,
      Function.update_self]
  · have hal : (s.reg .rax).toNat % 2 ^ 8 < 2 ^ 32 := by omega
    simp only [Instr.apply, Machine.set, Machine.flags, Machine.write64, Machine.write32, Machine.storeAt, Machine.read32,
      Function.update_self, ne_eq, reduceCtorEq, not_false_eq_true, Function.update_of_ne, Cond.holds]
    rw [Bool.or_eq_true, decide_eq_true_iff, decide_eq_true_iff, ← BitVec.toNat_inj, Machine.low_small hal,
      Machine.low_small (by decide)]
    omega

/-- An entry is about to pass its record on: the frame is complete. -/
theorem formatEntry_ready (hslots : ∀ o ∈ [a, b, c, d, e], o ≠ some .r11 ∧ o ≠ some .rsp) (hcount : count ≤ 5)
    (hroom : 136 ≤ (s.reg .rsp).toNat) (hend : (s.reg .rsp).toNat + 8 < 2 ^ 64) :
    ∃ t, Reaches (formatEntry a b c d e count pass f) (formatEntry a b c d e count pass f) s
        (pass ++ [.call f, .op (.addq (.imm 136) .rsp), .ret]) t ∧
      t.reg .rsp = s.reg .rsp - .ofNat 64 136 ∧
      (∀ r, r ≠ .rax → r ≠ .r11 → r ≠ .rsp → t.reg r = s.reg r) ∧
      t.mem = store (entryFrame s ((s.reg .rsp).toNat - 136) (slotValue s a) (slotValue s b) (slotValue s c)
        (slotValue s d) (slotValue s e) count) ((s.reg .rsp).toNat - 136 + 124) 4 (vectorCount s) := by
  obtain ⟨t, hreach, hsp, h11, hregs, hmem, hbe⟩ := formatEntry_frame pass f hslots hcount hroom hend
  have hstore (u : Machine) (husp : u.reg .rsp = s.reg .rsp - .ofNat 64 136) (hu11 : u.reg .r11 = .ofNat 64 (vectorCount s))
      (humem : u.mem = t.mem) : ((Instr.movl (.reg .r11) (.mem (.base 124 .rsp))).apply u).mem =
        store t.mem ((s.reg .rsp).toNat - 136 + 124) 4 (vectorCount s) := by
    have hsmall : vectorCount s < 2 ^ 32 := by
      unfold vectorCount
      omega
    simp only [Instr.apply, Machine.write32, Machine.storeAt, Machine.read32, Machine.address, husp, hu11, humem]
    rw [address_frame hroom (by omega), Machine.low_small hsmall]
  by_cases hal : (s.reg .rax).toNat % 2 ^ 8 ≤ 8
  · have hcode : Reaches (formatEntry a b c d e count pass f) ((formatEntry a b c d e count pass f).drop 21) t
        ((formatEntry a b c d e count pass f).drop 24) t := .taken (hbe.2 hal)
    refine ⟨_, (hreach.trans hcode).trans ⟨1, fun k => rfl⟩, hsp, hregs, ?_⟩
    rw [hstore t hsp (by rw [h11, vectorCount, Nat.min_eq_left hal]) rfl, hmem]
  · have hpassed : Cond.holds t .be = false := by
      rw [← Bool.not_eq_true, hbe]
      exact hal
    have hcode : Reaches (formatEntry a b c d e count pass f) ((formatEntry a b c d e count pass f).drop 21) t
        ((formatEntry a b c d e count pass f).drop 22) t := .passed hpassed
    refine ⟨_, (hreach.trans hcode).trans ⟨3, fun k => rfl⟩, ?_, fun r h1 h2 h3 => ?_, ?_⟩
    · simpa [Instr.apply, Machine.set, Machine.write32, Machine.storeAt] using hsp
    · simpa [Instr.apply, Machine.set, Machine.write32, Machine.storeAt, h2] using hregs r h1 h2 h3
    · rw [hstore ((Instr.movl (.imm 8) (.reg .r11)).apply t)
        (by simpa [Instr.apply, Machine.set, Machine.write32] using hsp) ?_ rfl, hmem]
      rw [vectorCount, Nat.min_eq_right (by omega)]
      simp [Instr.apply, Machine.set, Machine.write32, Machine.read32, Machine.low]

end Entry

/-- The record that an entry makes. -/
def entryArgs (s : Machine) (p : Nat) (slots : List Word) (count : Nat) (hcount : count ≤ 5) : FormatArgs where
  gp := (slots.map BitVec.toNat).take count
  fp := (List.range (vectorCount s)).map fun i => (s.xmm i).toNat
  overflow := p + 144
  gpIndex := 0
  fpIndex := 0
  gp_length := by
    rw [List.length_take]
    omega
  fp_length := by
    rw [List.length_map, List.length_range]
    exact Nat.min_le_right _ _

theorem argsAt_entry (s : Machine) {p : Nat} (a b c d e : Word) {count : Nat} (hcount : count ≤ 5) (hp : p + 144 < 2 ^ 64) :
    ArgsAt (store (entryFrame s p a b c d e count) (p + 124) 4 (vectorCount s)) p
      (entryArgs s p [a, b, c, d, e] count hcount) := by
  have hsmall : vectorCount s ≤ 8 := Nat.min_le_right _ _
  constructor
  · intro i w hw
    have hw : (([a, b, c, d, e].map BitVec.toNat).take count)[i]? = some w := hw
    rw [List.getElem?_take] at hw
    split_ifs at hw with hi
    have hi : i < 5 := by omega
    unfold entryFrame
    interval_cases i <;> cases hw <;>
      simp (disch := omega) only [load_store_disjoint, load_store_word, Nat.mul_zero, Nat.add_zero]
  · intro i w hw
    obtain ⟨hi, hw⟩ := List.getElem?_eq_some_iff.1 hw
    have hi : i < 8 := by
      have hi : i < vectorCount s := by simpa [entryArgs] using hi
      omega
    have hw : (s.xmm i).toNat = w := by simpa [entryArgs] using hw
    unfold entryFrame
    interval_cases i <;> cases hw <;> simp (disch := omega) only [load_store_disjoint, load_store_word]
  all_goals
    simp only [entryArgs, List.length_take, List.length_map, List.length_range, List.length_cons, List.length_nil]
    unfold entryFrame
  · simp (disch := omega) only [load_store_disjoint]
    exact load_store _ _ (by omega)
  · simp (disch := omega) only [load_store_disjoint]
    exact load_store _ _ (by decide)
  · simp (disch := omega) only [load_store_disjoint]
    rw [load_store _ _ (by omega)]
    omega
  · simp (disch := omega) only [load_store_disjoint]
    exact load_store _ _ (by decide)
  · exact load_store _ _ (by omega)

/-- The frame is below the caller's stack pointer. -/
theorem entryFrame_outside (s : Machine) {p x : Nat} (a b c d e : Word) (count : Nat) (h : x < p ∨ p + 136 ≤ x) :
    store (entryFrame s p a b c d e count) (p + 124) 4 (vectorCount s) x = s.mem x := by
  unfold entryFrame
  simp (disch := omega) only [store_out]

/-! ## The calls of the formatter -/

/-- The record at `r` stands for these arguments. -/
def Delivers (t : Machine) (r : Reg) (lanes : Lanes Nat) : Prop :=
  ∃ args, ArgsAt t.mem (t.reg r).toNat args ∧ SameArguments (FormatArgs.next t.mem) args Lanes.take lanes

theorem delivers_of_lanes {t : Machine} {r : Reg} {args : FormatArgs} {lanes : Lanes Nat}
    (hat : ArgsAt t.mem (t.reg r).toNat args) (hlanes : args.lanes t.mem = lanes) : Delivers t r lanes :=
  ⟨args, hat, hlanes ▸ sameArguments_view (FormatArgs.next_lanes t.mem) args⟩

/-- The registers that a callee keeps. -/
def calleeSaved : List Reg := [.rbx, .rbp, .r12, .r13, .r14, .r15]

theorem calleeSaved_ne : ∀ r ∈ calleeSaved, r ≠ .rax ∧ r ≠ .rcx ∧ r ≠ .rdx ∧ r ≠ .rsi ∧ r ≠ .rdi ∧ r ≠ .rsp ∧
    r ≠ .r8 ∧ r ≠ .r9 ∧ r ≠ .r10 ∧ r ≠ .r11 := by decide

/-- What a routine with a frame of `size` bytes owes its caller in state `s`, from its call in
state `t` on: it has written to its frame only, and once the callee has returned it returns,
with the callee's result. -/
structure Framed (prog rest : Code EntryLabel) (size : Nat) (s t : Machine) : Prop where
  outside : ∀ x, x < (s.reg .rsp).toNat - size ∨ (s.reg .rsp).toNat ≤ x → t.mem x = s.mem x
  kept : ∀ r ∈ calleeSaved, t.reg r = s.reg r
  returns : ∀ t' : Machine, t'.reg .rsp = t.reg .rsp →
    load t'.mem (s.reg .rsp).toNat 8 = load s.mem (s.reg .rsp).toNat 8 →
    ∃ s', Leaves prog rest t' (.returns (.ofNat 64 (load s.mem (s.reg .rsp).toNat 8)) s') ∧
      s'.reg .rsp = s.reg .rsp + 8 ∧ ∀ r, r ≠ .rsp → s'.reg r = t'.reg r

/-- The end of every entry. -/
theorem framed_returns (prog : Code EntryLabel) {size : Nat} {s t' : Machine} (hsp : t'.reg .rsp = s.reg .rsp - .ofNat 64 size)
    (hret : load t'.mem (s.reg .rsp).toNat 8 = load s.mem (s.reg .rsp).toNat 8) :
    ∃ s', Leaves prog [.op (.addq (.imm size) .rsp), .ret] t'
        (.returns (.ofNat 64 (load s.mem (s.reg .rsp).toNat 8)) s') ∧
      s'.reg .rsp = s.reg .rsp + 8 ∧ ∀ r, r ≠ .rsp → s'.reg r = t'.reg r := by
  obtain ⟨u, hu⟩ : ∃ u : Machine, u = (Instr.addq (.imm size) .rsp).apply t' := ⟨_, rfl⟩
  have husp : u.reg .rsp = s.reg .rsp := by
    subst hu
    simp [Instr.apply, Machine.set, Machine.flags, Machine.read64, hsp]
  have humem : u.mem = t'.mem := by
    subst hu
    rfl
  refine ⟨u.popped, ⟨2, ?_⟩, ?_, fun r hr => ?_⟩
  · rw [← hret, ← humem, ← husp, hu]
    rfl
  · simp [Machine.popped, Machine.set, husp]
  · subst hu
    simp [Machine.popped, Instr.apply, Machine.set, Machine.flags, hr]

section Calls

variable {s : Machine} (hroom : 136 ≤ (s.reg .rsp).toNat) (hend : (s.reg .rsp).toNat + 8 < 2 ^ 64)
include hroom hend

/-- The record of an entry delivers what the caller passed. -/
theorem entry_delivers {a b c d e : Option Reg} {count : Nat} {t : Machine} {r : Reg} (hcount : count ≤ 5)
    (hr : t.reg r = s.reg .rsp - .ofNat 64 136)
    (hmem : t.mem = store (entryFrame s ((s.reg .rsp).toNat - 136) (slotValue s a) (slotValue s b) (slotValue s c)
      (slotValue s d) (slotValue s e) count) ((s.reg .rsp).toNat - 136 + 124) 4 (vectorCount s))
    {words : List Reg} (hwords : (([a, b, c, d, e].map (slotValue s)).map BitVec.toNat).take count =
      words.map fun r => (s.reg r).toNat) : Delivers t r (callerLanes s words) := by
  have hp : (t.reg r).toNat = (s.reg .rsp).toNat - 136 := by
    have haddress := @address_frame (s.reg .rsp) 136 0 hroom (by omega)
    rw [hr]
    simpa using haddress
  have hat := argsAt_entry s (slotValue s a) (slotValue s b) (slotValue s c) (slotValue s d) (slotValue s e) hcount
    (p := (s.reg .rsp).toNat - 136) (by omega)
  rw [← hmem, ← hp] at hat
  apply delivers_of_lanes hat
  have hstack : ∀ n, loadPublicWord t.mem ((t.reg r).toNat + 144 + 8 * n) =
      loadPublicWord s.mem ((s.reg .rsp).toNat + 8 + 8 * n) := by
    intro n
    have haddress : (t.reg r).toNat + 144 = (s.reg .rsp).toNat + 8 := by omega
    unfold loadPublicWord
    rw [haddress]
    refine load_congr fun x h1 h2 => ?_
    rw [hmem]
    exact entryFrame_outside s _ _ _ _ _ count (by omega)
  unfold FormatArgs.lanes callerLanes entryArgs
  dsimp only
  rw [List.drop_zero, List.drop_zero, ← hwords]
  exact congrArg (Lanes.mk _ _) (funext hstack)

/-- The frame of an entry, once its arguments are moved. -/
theorem entry_framed {a b c d e : Option Reg} {count : Nat} {prog : Code EntryLabel} {t : Machine}
    (hsp : t.reg .rsp = s.reg .rsp - .ofNat 64 136) (hkept : ∀ r ∈ calleeSaved, t.reg r = s.reg r)
    (hmem : t.mem = store (entryFrame s ((s.reg .rsp).toNat - 136) (slotValue s a) (slotValue s b) (slotValue s c)
      (slotValue s d) (slotValue s e) count) ((s.reg .rsp).toNat - 136 + 124) 4 (vectorCount s)) :
    Framed prog [.op (.addq (.imm 136) .rsp), .ret] 136 s t where
  outside x hx := by
    rw [hmem]
    exact entryFrame_outside s _ _ _ _ _ count (by omega)
  kept := hkept
  returns t' ht' hret := framed_returns prog (ht'.trans hsp) hret

theorem printf_calls {stdout : Word}
    (hstdout : stdout.toNat + 8 ≤ (s.reg .rsp).toNat - 136 ∨ (s.reg .rsp).toNat ≤ stdout.toNat) :
    ∃ rest t, Leaves (printf stdout) (printf stdout) s (.calls "__mini_format_dispatch" rest t) ∧
      t.reg .rdi = .ofNat 64 (load s.mem stdout.toNat 8) ∧ t.reg .rsi = s.reg .rdi ∧
      Delivers t .rdx (callerLanes s [.rsi, .rdx, .rcx, .r8, .r9]) ∧ Framed (printf stdout) rest 136 s t := by
  obtain ⟨t, hreach, hsp, hregs, hmem⟩ := formatEntry_ready [
    .op (.movq (.reg .rdi) (.reg .rsi)),
    .op (.movq (.mem (.symbol stdout)) (.reg .rdi)),
    .op (.movq (.reg .rsp) (.reg .rdx))] "__mini_format_dispatch"
    (a := some .rsi) (b := some .rdx) (c := some .rcx) (d := some .r8) (e := some .r9) (by simp) (le_refl 5) hroom hend
  refine ⟨_, _, hreach.leaves ⟨4, rfl⟩, ?_, ?_, ?_, ?_⟩
  · simp only [Instr.apply, Machine.write64, Machine.set, Machine.read64, Machine.address, Function.update_self, ne_eq,
      reduceCtorEq, not_false_eq_true, Function.update_of_ne]
    rw [hmem]
    refine congrArg _ (load_congr fun x h1 h2 => ?_)
    exact entryFrame_outside s _ _ _ _ _ 5 (by omega)
  · simpa [Instr.apply, Machine.write64, Machine.set, Machine.read64] using
      hregs .rdi (by decide) (by decide) (by decide)
  · refine entry_delivers hroom hend (a := some .rsi) (b := some .rdx) (c := some .rcx) (d := some .r8)
      (e := some .r9) (le_refl 5) ?_ hmem rfl
    simpa [Instr.apply, Machine.write64, Machine.set, Machine.read64] using hsp
  · refine entry_framed hroom hend ?_ (fun r hr => ?_) hmem
    · simpa [Instr.apply, Machine.write64, Machine.set, Machine.read64] using hsp
    · obtain ⟨hrax, -, hrdx, hrsi, hrdi, hrsp, -, -, -, hr11⟩ := calleeSaved_ne r hr
      simpa [Instr.apply, Machine.write64, Machine.set, Machine.read64, hrdx, hrsi, hrdi] using hregs r hrax hr11 hrsp

theorem fprintf_calls :
    ∃ rest t, Leaves fprintf fprintf s (.calls "__mini_format_dispatch" rest t) ∧
      t.reg .rdi = s.reg .rdi ∧ t.reg .rsi = s.reg .rsi ∧ Delivers t .rdx (callerLanes s [.rdx, .rcx, .r8, .r9]) ∧
      Framed fprintf rest 136 s t := by
  obtain ⟨t, hreach, hsp, hregs, hmem⟩ := formatEntry_ready [
    .op (.movq (.reg .rsp) (.reg .rdx))] "__mini_format_dispatch"
    (a := some .rdx) (b := some .rcx) (c := some .r8) (d := some .r9) (e := none) (by simp) (by decide : 4 ≤ 5) hroom hend
  refine ⟨_, _, hreach.leaves ⟨2, rfl⟩, ?_, ?_, ?_, ?_⟩
  · simpa [Instr.apply, Machine.write64, Machine.set, Machine.read64] using hregs .rdi (by decide) (by decide) (by decide)
  · simpa [Instr.apply, Machine.write64, Machine.set, Machine.read64] using hregs .rsi (by decide) (by decide) (by decide)
  · refine entry_delivers hroom hend (a := some .rdx) (b := some .rcx) (c := some .r8) (d := some .r9)
      (e := none) (by decide : 4 ≤ 5) ?_ hmem rfl
    simpa [Instr.apply, Machine.write64, Machine.set, Machine.read64] using hsp
  · refine entry_framed hroom hend ?_ (fun r hr => ?_) hmem
    · simpa [Instr.apply, Machine.write64, Machine.set, Machine.read64] using hsp
    · obtain ⟨hrax, -, hrdx, -, -, hrsp, -, -, -, hr11⟩ := calleeSaved_ne r hr
      simpa [Instr.apply, Machine.write64, Machine.set, Machine.read64, hrdx] using hregs r hrax hr11 hrsp

theorem snprintf_calls :
    ∃ rest t, Leaves snprintf snprintf s (.calls "__mini_snprintf_dispatch" rest t) ∧
      t.reg .rdi = s.reg .rdi ∧ t.reg .rsi = s.reg .rsi ∧ t.reg .rdx = s.reg .rdx ∧
      Delivers t .rcx (callerLanes s [.rcx, .r8, .r9]) ∧ Framed snprintf rest 136 s t := by
  obtain ⟨t, hreach, hsp, hregs, hmem⟩ := formatEntry_ready [
    .op (.movq (.reg .rsp) (.reg .rcx))] "__mini_snprintf_dispatch"
    (a := some .rcx) (b := some .r8) (c := some .r9) (d := none) (e := none) (by simp) (by decide : 3 ≤ 5) hroom hend
  refine ⟨_, _, hreach.leaves ⟨2, rfl⟩, ?_, ?_, ?_, ?_, ?_⟩
  · simpa [Instr.apply, Machine.write64, Machine.set, Machine.read64] using hregs .rdi (by decide) (by decide) (by decide)
  · simpa [Instr.apply, Machine.write64, Machine.set, Machine.read64] using hregs .rsi (by decide) (by decide) (by decide)
  · simpa [Instr.apply, Machine.write64, Machine.set, Machine.read64] using hregs .rdx (by decide) (by decide) (by decide)
  · refine entry_delivers hroom hend (a := some .rcx) (b := some .r8) (c := some .r9) (d := none)
      (e := none) (by decide : 3 ≤ 5) ?_ hmem rfl
    simpa [Instr.apply, Machine.write64, Machine.set, Machine.read64] using hsp
  · refine entry_framed hroom hend ?_ (fun r hr => ?_) hmem
    · simpa [Instr.apply, Machine.write64, Machine.set, Machine.read64] using hsp
    · obtain ⟨hrax, hrcx, -, -, -, hrsp, -, -, -, hr11⟩ := calleeSaved_ne r hr
      simpa [Instr.apply, Machine.write64, Machine.set, Machine.read64, hrcx] using hregs r hrax hr11 hrsp

end Calls

/-- From any state of the machine that leaves room for their frame, `printf`, `fprintf` and
`snprintf` call the formatter with a record that stands for the caller's variable arguments,
in its registers and on its stack. They write to their frame only, and once the formatter
has returned they return to the caller with its result. -/
theorem format_calls (s : Machine) (stdout : Word) (hroom : 136 ≤ (s.reg .rsp).toNat)
    (hend : (s.reg .rsp).toNat + 8 < 2 ^ 64)
    (hstdout : stdout.toNat + 8 ≤ (s.reg .rsp).toNat - 136 ∨ (s.reg .rsp).toNat ≤ stdout.toNat) :
    (∃ rest t, Leaves (printf stdout) (printf stdout) s (.calls "__mini_format_dispatch" rest t) ∧
      t.reg .rdi = .ofNat 64 (load s.mem stdout.toNat 8) ∧ t.reg .rsi = s.reg .rdi ∧
      Delivers t .rdx (callerLanes s [.rsi, .rdx, .rcx, .r8, .r9]) ∧ Framed (printf stdout) rest 136 s t) ∧
    (∃ rest t, Leaves fprintf fprintf s (.calls "__mini_format_dispatch" rest t) ∧
      t.reg .rdi = s.reg .rdi ∧ t.reg .rsi = s.reg .rsi ∧ Delivers t .rdx (callerLanes s [.rdx, .rcx, .r8, .r9]) ∧
      Framed fprintf rest 136 s t) ∧
    ∃ rest t, Leaves snprintf snprintf s (.calls "__mini_snprintf_dispatch" rest t) ∧
      t.reg .rdi = s.reg .rdi ∧ t.reg .rsi = s.reg .rsi ∧ t.reg .rdx = s.reg .rdx ∧
      Delivers t .rcx (callerLanes s [.rcx, .r8, .r9]) ∧ Framed snprintf rest 136 s t :=
  ⟨printf_calls hroom hend hstdout, fprintf_calls hroom hend, snprintf_calls hroom hend⟩

/-- A caller that passes the words 1 to 5 in registers, 6 on the stack, and 7 in `%xmm0`. -/
def caller : Machine where
  reg
    | .rsi => 1
    | .rdx => 2
    | .rcx => 3
    | .r8 => 4
    | .r9 => 5
    | .rax => 1
    | .rsp => 1000
    | _ => 0
  xmm n := if n = 0 then 7 else 0
  mem := poke (fun _ => 0) 1008 6
  fs := 0
  zero := false
  carry := false

theorem format_calls_seven : ∃ rest t, Leaves (printf 2000) (printf 2000) caller (.calls "__mini_format_dispatch" rest t) ∧
    ∃ args, ArgsAt t.mem (t.reg .rdx).toNat args ∧
      deliver (FormatArgs.next t.mem) args [.word, .word, .word, .word, .double, .word, .word] = [1, 2, 3, 4, 7, 5, 6] := by
  obtain ⟨⟨rest, t, hleaves, -, -, ⟨args, hat, hsame, -⟩, -⟩, -⟩ :=
    format_calls caller 2000 (by decide) (by decide) (.inr (by decide))
  refine ⟨rest, t, hleaves, args, hat, (hsame _).trans ?_⟩
  decide

end MiniLibc.Entry
