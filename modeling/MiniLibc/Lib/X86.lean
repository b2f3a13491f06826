import Mathlib
import MiniLibc.Lib.Memory
/-!
# A little of x86-64

Routines of the System V ABI that move words between registers and memory, count and
branch. An instruction is a function on the machine's state; a routine is its text, with
labels, and a place in it is the text from there on. `exec` follows a routine until it
leaves it: by a return, a jump, a call or into the kernel. An access does not go round the
end of the address space.
-/

namespace MiniLibc.X86

open Memory

abbrev Word := BitVec 64

inductive Reg where
  | rax | rbx | rcx | rdx | rsi | rdi | rbp | rsp | r8 | r9 | r10 | r11 | r12 | r13 | r14 | r15
deriving DecidableEq, Repr

/-- The registers, the low halves of the `xmm` registers, the memory, the base of `%fs`, and
the two flags that branches look at. -/
structure Machine where
  reg : Reg → Word
  xmm : Nat → Word
  mem : Mem
  fs : Word
  zero : Bool
  carry : Bool

/-- `disp(base)`, `disp(base,index,scale)`, the address of a symbol, and `%fs:disp`. -/
inductive Addr where
  | base (disp : Nat) (base : Reg)
  | index (disp : Nat) (base index : Reg) (scale : Nat)
  | symbol (address : Word)
  | thread (disp : Nat)

/-- What an instruction reads. -/
inductive Operand where
  | reg (r : Reg)
  | imm (n : Nat)
  | mem (a : Addr)

/-- Where it writes. -/
inductive Dest where
  | reg (r : Reg)
  | mem (a : Addr)

/-- Instructions, with their operands in the order of the assembler. -/
inductive Instr where
  | movq (src : Operand) (dst : Dest)
  | movl (src : Operand) (dst : Dest)
  | movzbl (src dst : Reg)
  | movsd (src : Nat) (dst : Addr)
  | leaq (src : Addr) (dst : Reg)
  | addq (src : Operand) (dst : Reg)
  | subq (src : Operand) (dst : Reg)
  | subl (src : Operand) (dst : Reg)
  | xorl (src dst : Reg)
  | shrl (count : Nat) (dst : Reg)
  | incl (dst : Reg)
  | cmpl (src : Operand) (dst : Reg)
  | testl (src dst : Reg)
  | testq (src dst : Reg)

namespace Machine

def set (s : Machine) (r : Reg) (v : Word) : Machine := { s with reg := Function.update s.reg r v }

def flags (s : Machine) (zero carry : Bool) : Machine := { s with zero, carry }

def address (s : Machine) : Addr → Word
  | .base disp base => s.reg base + .ofNat 64 disp
  | .index disp base index scale => s.reg base + s.reg index * .ofNat 64 scale + .ofNat 64 disp
  | .symbol address => address
  | .thread disp => s.fs + .ofNat 64 disp

/-- The low half of a word. -/
def low (w : Word) : Word := .ofNat 64 (w.toNat % 2 ^ 32)

def read64 (s : Machine) : Operand → Word
  | .reg r => s.reg r
  | .imm n => .ofNat 64 n
  | .mem a => .ofNat 64 (load s.mem (s.address a).toNat 8)

def read32 (s : Machine) : Operand → Word
  | .reg r => low (s.reg r)
  | .imm n => low (.ofNat 64 n)
  | .mem a => .ofNat 64 (load s.mem (s.address a).toNat 4)

def storeAt (s : Machine) (a : Addr) (size : Nat) (v : Word) : Machine :=
  { s with mem := store s.mem (s.address a).toNat size v.toNat }

/-- A 64-bit result. -/
def write64 (s : Machine) (v : Word) : Dest → Machine
  | .reg r => s.set r v
  | .mem a => s.storeAt a 8 v

/-- A 32-bit result, which clears the high half of a register. -/
def write32 (s : Machine) (v : Word) : Dest → Machine
  | .reg r => s.set r v
  | .mem a => s.storeAt a 4 v

theorem low_toNat (w : Word) : (low w).toNat = w.toNat % 2 ^ 32 := by
  rw [low, BitVec.toNat_ofNat]
  omega

/-- A small number is its own low half. -/
theorem low_small {n : Nat} (h : n < 2 ^ 32) : (low (.ofNat 64 n)).toNat = n := by
  rw [low_toNat, BitVec.toNat_ofNat]
  omega

@[simp] theorem low_low (w : Word) : low (low w) = low w := by simp [low]

end Machine

open Machine in
def Instr.apply (s : Machine) : Instr → Machine
  | .movq src dst => s.write64 (s.read64 src) dst
  | .movl src dst => s.write32 (s.read32 src) dst
  | .movzbl src dst => s.set dst (.ofNat 64 ((s.reg src).toNat % 2 ^ 8))
  | .movsd src dst => s.storeAt dst 8 (s.xmm src)
  | .leaq src dst => s.set dst (s.address src)
  | .addq src dst =>
    let v := s.reg dst + s.read64 src
    (s.set dst v).flags (v = 0) (decide (v.toNat < (s.reg dst).toNat))
  | .subq src dst =>
    let v := s.reg dst - s.read64 src
    (s.set dst v).flags (v = 0) (decide ((s.reg dst).toNat < (s.read64 src).toNat))
  | .subl src dst =>
    let v := low (low (s.reg dst) - s.read32 src)
    (s.set dst v).flags (v = 0) (decide ((low (s.reg dst)).toNat < (s.read32 src).toNat))
  | .xorl src dst =>
    let v := low (s.reg dst ^^^ s.reg src)
    (s.set dst v).flags (v = 0) false
  | .shrl count dst =>
    let v := low (s.reg dst) >>> count
    (s.set dst v).flags (v = 0) ((s.reg dst).getLsbD (count - 1))
  | .incl dst =>
    let v := low (s.reg dst + 1)
    (s.set dst v).flags (v = 0) s.carry
  | .cmpl src dst =>
    s.flags (decide (low (s.reg dst) = s.read32 src)) (decide ((low (s.reg dst)).toNat < (s.read32 src).toNat))
  | .testl src dst => s.flags (decide (low (s.reg src &&& s.reg dst) = 0)) false
  | .testq src dst => s.flags (decide (s.reg src &&& s.reg dst = 0)) false

/-! ## Words in memory -/

theorem load_store_word (m : Mem) (a : Nat) (w : Word) : load (store m a 8 w.toNat) a 8 = w.toNat :=
  load_store m a w.isLt

theorem load_lt (m : Mem) (a n : Nat) : load m a n < 256 ^ n := by
  induction n generalizing a with
  | zero => exact Nat.one_pos
  | succ n ih =>
    have hbyte := (m a).toNat_lt
    have htail := ih (a + 1)
    rw [load, Nat.pow_succ]
    omega

/-- What a load leaves in a register. -/
theorem load_toNat {m : Mem} {a n : Nat} (hn : n ≤ 8) : (BitVec.ofNat 64 (load m a n)).toNat = load m a n := by
  rw [BitVec.toNat_ofNat]
  refine Nat.mod_eq_of_lt (Nat.lt_of_lt_of_le (load_lt m a n) ?_)
  exact Nat.pow_le_pow_right (by decide) hn

/-- An access near a base that does not go round. -/
theorem address_base {w : Word} {d : Nat} (h : w.toNat + d < 2 ^ 64) : (w + .ofNat 64 d).toNat = w.toNat + d := by
  rw [BitVec.toNat_add, BitVec.toNat_ofNat]
  omega

/-- The same in a frame of `size` bytes below a stack pointer. -/
theorem address_frame {w : Word} {size d : Nat} (hsize : size ≤ w.toNat) (hd : w.toNat - size + d < 2 ^ 64) :
    (w - .ofNat 64 size + .ofNat 64 d).toNat = w.toNat - size + d := by
  have hw := w.isLt
  rw [BitVec.toNat_add, BitVec.toNat_sub, BitVec.toNat_ofNat, BitVec.toNat_ofNat]
  omega

/-- An access to the word `i` of an array. -/
theorem address_index {w : Word} {i d : Nat} (h : w.toNat + 8 * i + d < 2 ^ 64) :
    (w + .ofNat 64 i * .ofNat 64 8 + .ofNat 64 d).toNat = w.toNat + 8 * i + d := by
  have hmul : (BitVec.ofNat 64 i * BitVec.ofNat 64 8).toNat = 8 * i := by
    rw [← BitVec.ofNat_mul, BitVec.toNat_ofNat]
    omega
  rw [BitVec.toNat_add, BitVec.toNat_add, BitVec.toNat_ofNat, hmul]
  omega

theorem low_ofNat {n : Nat} (h : n < 2 ^ 32) : Machine.low (.ofNat 64 n) = .ofNat 64 n := by
  apply BitVec.eq_of_toNat_eq
  rw [Machine.low_small h, BitVec.toNat_ofNat]
  omega

theorem low_sub {a b : Nat} (hb : b ≤ a) (ha : a < 2 ^ 32) :
    Machine.low (BitVec.ofNat 64 a - .ofNat 64 b) = .ofNat 64 (a - b) := by
  apply BitVec.eq_of_toNat_eq
  rw [Machine.low_toNat, BitVec.toNat_sub, BitVec.toNat_ofNat, BitVec.toNat_ofNat, BitVec.toNat_ofNat]
  omega

theorem ofNat_shift {n k : Nat} (h : n < 2 ^ 64) : BitVec.ofNat 64 n >>> k = .ofNat 64 (n / 2 ^ k) := by
  apply BitVec.eq_of_toNat_eq
  have hle : n / 2 ^ k ≤ n := Nat.div_le_self n (2 ^ k)
  rw [BitVec.toNat_ushiftRight, BitVec.toNat_ofNat, BitVec.toNat_ofNat, Nat.shiftRight_eq_div_pow,
    Nat.mod_eq_of_lt h, Nat.mod_eq_of_lt (by omega)]

/-- Counting up in the low half. -/
theorem low_succ {i : Nat} (h : i + 1 < 2 ^ 32) : Machine.low (.ofNat 64 i + 1) = .ofNat 64 (i + 1) := by
  have hadd : BitVec.ofNat 64 i + 1 = BitVec.ofNat 64 (i + 1) := (BitVec.ofNat_add i 1).symm
  rw [hadd]
  apply BitVec.eq_of_toNat_eq
  rw [Machine.low_small h, BitVec.toNat_ofNat]
  omega

/-- Only the registers in the list have changed. -/
def Keeps (changed : List Reg) (s s' : Machine) : Prop := ∀ r, r ∉ changed → s'.reg r = s.reg r

theorem Keeps.trans {changed : List Reg} {s s' s'' : Machine} (h : Keeps changed s s') (h' : Keeps changed s' s'') :
    Keeps changed s s'' :=
  fun r hr => (h' r hr).trans (h r hr)

theorem Keeps.mono {changed changed' : List Reg} {s s' : Machine} (h : Keeps changed s s')
    (hsub : ∀ r ∈ changed, r ∈ changed') : Keeps changed' s s' :=
  fun r hr => h r fun hmem => hr (hsub r hmem)

/-! ## Routines -/

inductive Cond where
  | ne | ae | be

def Cond.holds (s : Machine) : Cond → Bool
  | .ne => !s.zero
  | .ae => !s.carry
  | .be => s.carry || s.zero

/-- A line of a routine with labels of `L`. -/
inductive Line (L : Type) where
  | label (l : L)
  | op (i : Instr)
  | jcc (c : Cond) (l : L)
  | jmp (l : L)
  | jmpReg (r : Reg)
  | jmpTo (f : String)
  | call (f : String)
  | syscall
  | ret
  | ud2

abbrev Code (L : Type) := List (Line L)

/-- How a routine is left: `calls` and `kernel` come back to the rest of it. -/
inductive Stop (L : Type) where
  | returns (address : Word) (s : Machine)
  | jumps (address : Word) (s : Machine)
  | tails (f : String) (s : Machine)
  | calls (f : String) (rest : Code L) (s : Machine)
  | kernel (rest : Code L) (s : Machine)
  | traps (s : Machine)

variable {L : Type} [DecidableEq L]

/-- The text behind a label. -/
def after (l : L) : Code L → Code L
  | [] => []
  | .label l' :: rest => if l' = l then rest else after l rest
  | _ :: rest => after l rest

/-- The effect of `ret` on the stack. -/
def Machine.popped (s : Machine) : Machine := s.set .rsp (s.reg .rsp + .ofNat 64 8)

def exec (prog : Code L) : (fuel : Nat) → Code L → Machine → Option (Stop L)
  | 0, _, _ => none
  | _ + 1, [], _ => none
  | fuel + 1, line :: rest, s =>
    match line with
    | .label _ => exec prog fuel rest s
    | .op i => exec prog fuel rest (i.apply s)
    | .jcc c l => if c.holds s then exec prog fuel (after l prog) s else exec prog fuel rest s
    | .jmp l => exec prog fuel (after l prog) s
    | .jmpReg r => some (.jumps (s.reg r) s)
    | .jmpTo f => some (.tails f s)
    | .call f => some (.calls f rest s)
    | .syscall => some (.kernel rest s)
    | .ret => some (.returns (.ofNat 64 (load s.mem (s.reg .rsp).toNat 8)) s.popped)
    | .ud2 => some (.traps s)

/-- A routine leaves as `stop` from a place in it. -/
def Leaves (prog : Code L) (code : Code L) (s : Machine) (stop : Stop L) : Prop := ∃ n, exec prog n code s = some stop

/-- More fuel changes nothing. -/
theorem exec_more {prog code : Code L} {s : Machine} {stop : Stop L} {n : Nat} (h : exec prog n code s = some stop)
    (k : Nat) : exec prog (n + k) code s = some stop := by
  induction n generalizing code s with
  | zero => cases h
  | succ n ih =>
    rw [Nat.succ_add]
    cases code with
    | nil => cases h
    | cons line rest =>
      cases line with
      | jcc c l =>
        unfold exec at h ⊢
        dsimp only at h ⊢
        split_ifs at h ⊢ <;> exact ih h
      | label l => exact ih h
      | op i => exact ih h
      | jmp l => exact ih h
      | _ => exact h

/-- A routine is left in one way. -/
theorem Leaves.unique {prog code : Code L} {s : Machine} {stop stop' : Stop L} (h : Leaves prog code s stop)
    (h' : Leaves prog code s stop') : stop = stop' := by
  obtain ⟨n, hn⟩ := h
  obtain ⟨k, hk⟩ := h'
  have hboth := exec_more hn k
  rw [Nat.add_comm, exec_more hk n] at hboth
  exact (Option.some.inj hboth).symm

/-- From one place and state to another without leaving the routine. -/
def Reaches (prog : Code L) (code : Code L) (s : Machine) (code' : Code L) (s' : Machine) : Prop :=
  ∃ n, ∀ k, exec prog (k + n) code s = exec prog k code' s'

namespace Reaches

variable {prog code code' code'' rest : Code L} {s s' s'' : Machine}

theorem trans (h : Reaches prog code s code' s') (h' : Reaches prog code' s' code'' s'') :
    Reaches prog code s code'' s'' := by
  obtain ⟨n, hn⟩ := h
  obtain ⟨m, hm⟩ := h'
  refine ⟨m + n, fun k => ?_⟩
  rw [← Nat.add_assoc, hn, hm]

theorem leaves {stop : Stop L} (h : Reaches prog code s code' s') (h' : Leaves prog code' s' stop) :
    Leaves prog code s stop := by
  obtain ⟨n, hn⟩ := h
  obtain ⟨m, hm⟩ := h'
  exact ⟨m + n, (hn m).trans hm⟩

theorem taken {c : Cond} {l : L} (hc : c.holds s = true) : Reaches prog (.jcc c l :: rest) s (after l prog) s :=
  ⟨1, fun _ => if_pos hc⟩

theorem passed {c : Cond} {l : L} (hc : c.holds s = false) : Reaches prog (.jcc c l :: rest) s rest s :=
  ⟨1, fun _ => if_neg (by rw [hc]; decide)⟩

end Reaches

end MiniLibc.X86
