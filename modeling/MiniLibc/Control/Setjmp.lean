import Mathlib
import MiniLibc.Lib.Runs
import MiniLibc.Lib.X86
/-!
# Non-local jumps

`setjmp` and `longjmp` of `src/control/setjmp.S`. A program saves environments in buffers
that it otherwise leaves alone, and `longjmp` takes it back to the return of the `setjmp`
that filled one.
-/

namespace MiniLibc.Control

open Memory X86 Runs

inductive Label where
  | longjmpValueReady
deriving DecidableEq

def setjmp : Code Label := [
  .op (.movq (.reg .rbx) (.mem (.base 0 .rdi))),
  .op (.movq (.reg .rbp) (.mem (.base 8 .rdi))),
  .op (.movq (.reg .r12) (.mem (.base 16 .rdi))),
  .op (.movq (.reg .r13) (.mem (.base 24 .rdi))),
  .op (.movq (.reg .r14) (.mem (.base 32 .rdi))),
  .op (.movq (.reg .r15) (.mem (.base 40 .rdi))),
  .op (.leaq (.base 8 .rsp) .rax),
  .op (.movq (.reg .rax) (.mem (.base 48 .rdi))),
  .op (.movq (.mem (.base 0 .rsp)) (.reg .rax)),
  .op (.movq (.reg .rax) (.mem (.base 56 .rdi))),
  .op (.xorl .rax .rax),
  .ret]

def longjmp : Code Label := [
  .op (.movl (.reg .rsi) (.reg .rax)),
  .op (.testl .rax .rax),
  .jcc .ne .longjmpValueReady,
  .op (.movl (.imm 1) (.reg .rax)),
  .label .longjmpValueReady,
  .op (.movq (.mem (.base 56 .rdi)) (.reg .rdx)),
  .op (.movq (.mem (.base 0 .rdi)) (.reg .rbx)),
  .op (.movq (.mem (.base 8 .rdi)) (.reg .rbp)),
  .op (.movq (.mem (.base 16 .rdi)) (.reg .r12)),
  .op (.movq (.mem (.base 24 .rdi)) (.reg .r13)),
  .op (.movq (.mem (.base 32 .rdi)) (.reg .r14)),
  .op (.movq (.mem (.base 40 .rdi)) (.reg .r15)),
  .op (.movq (.mem (.base 48 .rdi)) (.reg .rsp)),
  .jmpReg .rdx]

/-! ## Environments -/

/-- What a caller of `setjmp` may count on after it returned: where it goes on, its stack and
the registers that a callee keeps. -/
structure Context where
  rip : Word
  rsp : Word
  rbx : Word
  rbp : Word
  r12 : Word
  r13 : Word
  r14 : Word
  r15 : Word

/-- The context of a machine that goes on at `rip`. -/
def context (rip : Word) (s : Machine) : Context :=
  ⟨rip, s.reg .rsp, s.reg .rbx, s.reg .rbp, s.reg .r12, s.reg .r13, s.reg .r14, s.reg .r15⟩

/-- `jmp_buf` in memory. -/
structure Saved (m : Mem) (env : Nat) (c : Context) : Prop where
  rbx : load m env 8 = c.rbx.toNat
  rbp : load m (env + 8) 8 = c.rbp.toNat
  r12 : load m (env + 16) 8 = c.r12.toNat
  r13 : load m (env + 24) 8 = c.r13.toNat
  r14 : load m (env + 32) 8 = c.r14.toNat
  r15 : load m (env + 40) 8 = c.r15.toNat
  rsp : load m (env + 48) 8 = c.rsp.toNat
  rip : load m (env + 56) 8 = c.rip.toNat

theorem Saved.congr {m m' : Mem} {env : Nat} {c : Context} (h : Saved m env c)
    (hm : AgreeOn m m' env (env + 64)) : Saved m' env c where
  rbx := (load_congr (hm.mono (by omega) (by omega))).trans h.rbx
  rbp := (load_congr (hm.mono (by omega) (by omega))).trans h.rbp
  r12 := (load_congr (hm.mono (by omega) (by omega))).trans h.r12
  r13 := (load_congr (hm.mono (by omega) (by omega))).trans h.r13
  r14 := (load_congr (hm.mono (by omega) (by omega))).trans h.r14
  r15 := (load_congr (hm.mono (by omega) (by omega))).trans h.r15
  rsp := (load_congr (hm.mono (by omega) (by omega))).trans h.rsp
  rip := (load_congr (hm.mono (by omega) (by omega))).trans h.rip

/-- The bytes that `setjmp` writes, in order. -/
def saves (m : Mem) (env : Nat) (c : Context) : Mem :=
  let m := store m env 8 c.rbx.toNat
  let m := store m (env + 8) 8 c.rbp.toNat
  let m := store m (env + 16) 8 c.r12.toNat
  let m := store m (env + 24) 8 c.r13.toNat
  let m := store m (env + 32) 8 c.r14.toNat
  let m := store m (env + 40) 8 c.r15.toNat
  let m := store m (env + 48) 8 c.rsp.toNat
  store m (env + 56) 8 c.rip.toNat

theorem saved_saves (m : Mem) (env : Nat) (c : Context) : Saved (saves m env c) env c := by
  unfold saves
  constructor <;> simp (disch := omega) only [load_store_disjoint, load_store_word]

theorem saves_outside (m : Mem) {env x : Nat} (c : Context) (h : x < env ∨ env + 64 ≤ x) : saves m env c x = m x := by
  unfold saves
  simp (disch := omega) only [store_out]

/-- The buffer is in the address space, and apart from the return address on the stack. -/
def BufferOk (env rsp : Nat) : Prop := env + 64 ≤ 2 ^ 64 ∧ rsp + 8 ≤ 2 ^ 64 ∧ (env + 64 ≤ rsp ∨ rsp + 8 ≤ env)

/-- What a caller in state `s` expects of any call: it goes on at its return address, which is
off the stack, with its registers. -/
def returnContext (s : Machine) : Context :=
  { context (.ofNat 64 (load s.mem (s.reg .rsp).toNat 8)) s with rsp := s.reg .rsp + .ofNat 64 8 }

/-- `setjmp` returns 0 and leaves in its buffer what its caller goes on with. -/
theorem setjmp_returns {s : Machine} (h : BufferOk (s.reg .rdi).toNat (s.reg .rsp).toNat) :
    ∃ s', Leaves setjmp setjmp s (.returns (returnContext s).rip s') ∧
      context (returnContext s).rip s' = returnContext s ∧ s'.reg .rax = 0 ∧
      s'.mem = saves s.mem (s.reg .rdi).toNat (returnContext s) := by
  obtain ⟨henv, hrsp, hapart⟩ := h
  obtain ⟨a, s', hleaves, rfl, hrest⟩ : ∃ a s', Leaves setjmp setjmp s (.returns a s') ∧ a = (returnContext s).rip ∧
      context (returnContext s).rip s' = returnContext s ∧ s'.reg .rax = 0 ∧
      s'.mem = saves s.mem (s.reg .rdi).toNat (returnContext s) := by
    refine ⟨_, _, ⟨12, rfl⟩, ?_, ?_, ?_, ?_⟩
    · simp only [Instr.apply, Machine.set, Machine.flags, Machine.write64, Machine.storeAt, Machine.read64, Machine.address,
        Function.update_self, ne_eq, reduceCtorEq, not_false_eq_true, Function.update_of_ne, returnContext, context]
      simp (disch := omega) only [address_base, load_store_disjoint]
    · simp [Machine.popped, Instr.apply, Machine.set, Machine.flags, Machine.write64, Machine.storeAt, returnContext, context]
    · simp [Machine.popped, Instr.apply, Machine.set, Machine.flags, Machine.low]
    · simp only [Machine.popped, Instr.apply, Machine.set, Machine.flags, Machine.write64, Machine.storeAt, Machine.read64,
        Machine.address, Function.update_self, ne_eq, reduceCtorEq, not_false_eq_true, Function.update_of_ne,
        returnContext, context]
      simp (disch := omega) only [saves, address_base, load_store_disjoint, Nat.add_zero]
  exact ⟨s', hleaves, hrest⟩

/-- The value with which `setjmp` returns again. -/
def longjmpValue (value : Word) : Word := if Machine.low value = 0 then 1 else Machine.low value

/-- The part of `longjmp` behind its label. -/
theorem longjmp_ready {s : Machine} {c : Context} (henv : (s.reg .rdi).toNat + 64 ≤ 2 ^ 64)
    (h : Saved s.mem (s.reg .rdi).toNat c) :
    ∃ s', Leaves longjmp (after .longjmpValueReady longjmp) s (.jumps c.rip s') ∧ context c.rip s' = c ∧
      s'.reg .rax = s.reg .rax ∧ s'.mem = s.mem := by
  have hword {d : Nat} {w : Word} (hd : d + 8 ≤ 64) (hw : load s.mem ((s.reg .rdi).toNat + d) 8 = w.toNat) :
      BitVec.ofNat 64 (load s.mem (s.reg .rdi + .ofNat 64 d).toNat 8) = w := by
    rw [address_base (by omega), hw, BitVec.ofNat_toNat, BitVec.setWidth_eq]
  have hrbx := hword (d := 0) (by omega) h.rbx
  have hrbp := hword (d := 8) (by omega) h.rbp
  have hr12 := hword (d := 16) (by omega) h.r12
  have hr13 := hword (d := 24) (by omega) h.r13
  have hr14 := hword (d := 32) (by omega) h.r14
  have hr15 := hword (d := 40) (by omega) h.r15
  have hrsp := hword (d := 48) (by omega) h.rsp
  have hrip := hword (d := 56) (by omega) h.rip
  obtain ⟨a, s', hleaves, rfl, hcontext, hrest⟩ : ∃ a s',
      Leaves longjmp (after .longjmpValueReady longjmp) s (.jumps a s') ∧ a = c.rip ∧ context c.rip s' = c ∧
        s'.reg .rax = s.reg .rax ∧ s'.mem = s.mem := by
    refine ⟨_, _, ⟨10, rfl⟩, ?_, ?_, ?_, ?_⟩
    all_goals
      simp only [Instr.apply, Machine.set, Machine.write64, Machine.read64, Machine.address, Function.update_self, ne_eq,
        reduceCtorEq, not_false_eq_true, Function.update_of_ne, context, hrbx, hrbp, hr12, hr13, hr14, hr15, hrsp, hrip]
  exact ⟨s', hleaves, hcontext, hrest⟩

theorem longjmp_jumps {s : Machine} {c : Context} (henv : (s.reg .rdi).toNat + 64 ≤ 2 ^ 64)
    (h : Saved s.mem (s.reg .rdi).toNat c) :
    ∃ s', Leaves longjmp longjmp s (.jumps c.rip s') ∧ context c.rip s' = c ∧
      s'.reg .rax = longjmpValue (s.reg .rsi) ∧ s'.mem = s.mem := by
  obtain ⟨t, ht⟩ : ∃ t : Machine, t = (Instr.testl .rax .rax).apply ((Instr.movl (.reg .rsi) (.reg .rax)).apply s) :=
    ⟨_, rfl⟩
  have hdi : t.reg .rdi = s.reg .rdi := by
    subst ht
    simp [Instr.apply, Machine.set, Machine.flags, Machine.write32]
  have hmem : t.mem = s.mem := by
    subst ht
    rfl
  have hrax : t.reg .rax = Machine.low (s.reg .rsi) := by
    subst ht
    simp [Instr.apply, Machine.set, Machine.flags, Machine.write32, Machine.read32]
  have hzero : Cond.holds t .ne = true ↔ Machine.low (s.reg .rsi) ≠ 0 := by
    subst ht
    simp [Instr.apply, Machine.set, Machine.flags, Machine.write32, Machine.read32, Cond.holds]
  have hbegin : Reaches longjmp longjmp s (longjmp.drop 2) t := by
    subst ht
    exact ⟨2, fun _ => rfl⟩
  by_cases hv : Machine.low (s.reg .rsi) = 0
  · obtain ⟨u, hu⟩ : ∃ u : Machine, u = (Instr.movl (.imm 1) (.reg .rax)).apply t := ⟨_, rfl⟩
    have hudi : u.reg .rdi = s.reg .rdi := by
      subst hu
      simp [Instr.apply, Machine.set, Machine.write32, hdi]
    have humem : u.mem = s.mem := by
      subst hu
      exact hmem
    have hurax : u.reg .rax = 1 := by
      subst hu
      simp [Instr.apply, Machine.set, Machine.write32, Machine.read32, Machine.low]
    rw [← hudi] at henv h
    rw [← humem] at h
    obtain ⟨s', hleaves, hcontext, hvalue, hsame⟩ := longjmp_ready henv h
    have hpassed : Cond.holds t .ne = false := by
      rw [← Bool.not_eq_true, hzero]
      exact not_not.2 hv
    have hone : Reaches longjmp (longjmp.drop 3) t (after .longjmpValueReady longjmp) u := by
      subst hu
      exact ⟨2, fun _ => rfl⟩
    refine ⟨s', ((hbegin.trans (.passed hpassed)).trans hone).leaves hleaves, hcontext, ?_, hsame.trans humem⟩
    · rw [hvalue, hurax, longjmpValue, if_pos hv]
  · rw [← hdi] at henv h
    rw [← hmem] at h
    obtain ⟨s', hleaves, hcontext, hvalue, hsame⟩ := longjmp_ready henv h
    refine ⟨s', (hbegin.trans (.taken (hzero.2 hv))).leaves hleaves, hcontext, ?_, hsame.trans hmem⟩
    rw [hvalue, hrax, longjmpValue, if_neg hv]

/-! ## Programs -/

/-- A machine, and the environments that its program keeps. -/
structure Program where
  s : Machine
  envs : Nat → Option Context

/-- No two environments overlap. -/
def Separate (envs : Nat → Option Context) (env : Nat) : Prop :=
  ∀ other c, envs other = some c → other ≠ env → other + 64 ≤ env ∨ env + 64 ≤ other

inductive Step : Program → Program → Prop where
  /-- The program computes, and leaves the buffers alone that it keeps. -/
  | compute {p p' : Program} : (∀ env c, p'.envs env = some c → p.envs env = some c) →
      (∀ env c, p'.envs env = some c → AgreeOn p.s.mem p'.s.mem env (env + 64)) → Step p p'
  /-- It calls `setjmp`, and keeps a buffer that overlaps no other. -/
  | setjmp {p : Program} {a : Word} {s' : Machine} : BufferOk (p.s.reg .rdi).toNat (p.s.reg .rsp).toNat →
      Separate p.envs (p.s.reg .rdi).toNat → Leaves setjmp setjmp p.s (.returns a s') →
      Step p ⟨s', Function.update p.envs (p.s.reg .rdi).toNat (some (returnContext p.s))⟩
  | longjmp {p : Program} {c : Context} {a : Word} {s' : Machine} : p.envs (p.s.reg .rdi).toNat = some c →
      Leaves longjmp longjmp p.s (.jumps a s') → Step p ⟨s', p.envs⟩

def Init (p : Program) : Prop := p.envs = fun _ => none

/-- Every environment is still in its buffer. -/
def Kept (p : Program) : Prop := ∀ env c, p.envs env = some c → env + 64 ≤ 2 ^ 64 ∧ Saved p.s.mem env c

theorem kept_step {p p' : Program} (h : Kept p) (hstep : Step p p') : Kept p' := by
  cases hstep with
  | compute hold hagree =>
    intro env c hc
    obtain ⟨hend, hsaved⟩ := h env c (hold env c hc)
    exact ⟨hend, hsaved.congr (hagree env c hc)⟩
  | @setjmp a s' hok hseparate hleaves =>
    obtain ⟨s'', hleaves', -, -, hmem⟩ := setjmp_returns hok
    obtain ⟨-, rfl⟩ := Stop.returns.inj (hleaves.unique hleaves')
    intro env c hc
    dsimp only at hc ⊢
    rw [hmem]
    by_cases henv : env = (p.s.reg .rdi).toNat
    · subst henv
      rw [Function.update_self] at hc
      obtain rfl := Option.some.inj hc
      exact ⟨hok.1, saved_saves _ _ _⟩
    · rw [Function.update_of_ne henv] at hc
      obtain ⟨hend, hsaved⟩ := h env c hc
      refine ⟨hend, hsaved.congr fun x h1 h2 => saves_outside _ _ ?_⟩
      have happart := hseparate env c hc henv
      omega
  | @longjmp c a s' hc hleaves =>
    obtain ⟨hend, hsaved⟩ := h _ c hc
    obtain ⟨s'', hleaves', -, -, hmem⟩ := longjmp_jumps hend hsaved
    obtain ⟨-, rfl⟩ := Stop.jumps.inj (hleaves.unique hleaves')
    intro env c hc
    dsimp only at hc ⊢
    rw [hmem]
    exact h env c hc

/-- In every run of a program that computes, saves environments and jumps back to them, and
keeps the buffers of those that it still needs: `setjmp` returns 0 to its caller with the
caller's registers, and `longjmp` goes from wherever the program is to the return of the last
`setjmp` on that buffer, with the stack and the registers of its caller then, the memory as it
is now, and its value, or 1 for 0. -/
theorem setjmp_longjmp {p : Program} (h : Reachable Init Step p) :
    (BufferOk (p.s.reg .rdi).toNat (p.s.reg .rsp).toNat → ∃ s',
      Leaves setjmp setjmp p.s (.returns (returnContext p.s).rip s') ∧
        context (returnContext p.s).rip s' = returnContext p.s ∧ s'.reg .rax = 0) ∧
    ∀ c, p.envs (p.s.reg .rdi).toNat = some c → ∃ s', Leaves longjmp longjmp p.s (.jumps c.rip s') ∧
      context c.rip s' = c ∧ s'.reg .rax = longjmpValue (p.s.reg .rsi) ∧ s'.mem = p.s.mem := by
  have hkept : Kept p := by
    refine h.invariant (fun q hq env c hc => ?_) fun _ _ hi hs => kept_step hi hs
    have hq : q.envs = fun _ => none := hq
    rw [hq] at hc
    cases hc
  refine ⟨fun hok => ?_, fun c hc => ?_⟩
  · obtain ⟨s', hleaves, hcontext, hzero, -⟩ := setjmp_returns hok
    exact ⟨s', hleaves, hcontext, hzero⟩
  · obtain ⟨hend, hsaved⟩ := hkept _ c hc
    exact longjmp_jumps hend hsaved

/-- A machine with its buffer at 4096 and its stack at 8192. -/
def demoState : Machine where
  reg r := if r = .rdi then 4096 else if r = .rsp then 8192 else if r = .rbx then 7 else 0
  xmm _ := 0
  mem := fun _ => 0
  fs := 0
  zero := false
  carry := false

theorem setjmp_longjmp_demo : ∃ p : Program, p.envs 4096 = some (returnContext demoState) ∧
    ∃ s', Leaves longjmp longjmp p.s (.jumps 0 s') ∧ s'.reg .rbx = 7 ∧ s'.reg .rsp = 8200 ∧ s'.reg .rax = 1 := by
  have hok : BufferOk (demoState.reg .rdi).toNat (demoState.reg .rsp).toNat := by
    simp [BufferOk, demoState]
  have hstart : Reachable Init Step ⟨demoState, fun _ => none⟩ := .start rfl
  obtain ⟨s₁, hleaves, -, -⟩ := (setjmp_longjmp hstart).1 hok
  have hsaved := hstart.next (.setjmp hok (fun _ _ hc => by cases hc) hleaves)
  obtain ⟨s₂, hs₂⟩ : ∃ s₂ : Machine, s₂ = { s₁ with reg := fun r => if r = .rdi then 4096 else 0 } := ⟨_, rfl⟩
  have hdi : (s₂.reg .rdi).toNat = 4096 := by
    subst hs₂
    rfl
  obtain ⟨envs, henvs⟩ : ∃ envs : Nat → Option Context,
      envs = Function.update (fun _ => none) (demoState.reg .rdi).toNat (some (returnContext demoState)) := ⟨_, rfl⟩
  have hlater : Reachable Init Step ⟨s₂, envs⟩ := by
    subst henvs hs₂
    exact hsaved.next (.compute (fun _ _ hc => hc) fun env _ _ => AgreeOn.refl _ env (env + 64))
  have hc : envs 4096 = some (returnContext demoState) := by
    subst henvs
    exact Function.update_self ..
  obtain ⟨s', hjumps, hcontext, hvalue, -⟩ := (setjmp_longjmp hlater).2 (returnContext demoState) (by
    dsimp only
    rw [hdi]
    exact hc)
  refine ⟨⟨s₂, envs⟩, hc, s', hjumps, ?_, ?_, ?_⟩
  · exact congrArg Context.rbx hcontext
  · exact congrArg Context.rsp hcontext
  · rw [hvalue]
    subst hs₂
    rfl

end MiniLibc.Control
