import Mathlib
import MiniLibc.Math.Rint
/-!
# The floating environment

`src/fenv/fenv.c` over the two registers of `fenv_asm.S`. An `int` and an `unsigned int`
of the source are both a `BitVec 32`. What `__mini_fenv_read` stores is all that the
functions look at, so each of them is known from the environment that it writes back.
-/

namespace MiniLibc.Fenv

open Math

/-! ## The source -/

/-- The control and the status word of the x87, and MXCSR. -/
structure Hardware where
  control : BitVec 16
  status : BitVec 16
  mxcsr : BitVec 32

structure FenvT where
  x87Control : BitVec 16
  x87Exceptions : BitVec 16
  mxcsr : BitVec 32
deriving DecidableEq

def x87ExceptionMask : BitVec 16 := 0x003f#16

def mxcsrExceptionMask : BitVec 32 := 0x0000003f#32

def mxcsrMaskBits : BitVec 32 := 0x00001f80#32

def x87RoundMask : BitVec 32 := 0x0c00#32

def mxcsrRoundMask : BitVec 32 := 0x00006000#32

/-- `FE_ALL_EXCEPT`: all but the denormal operand. -/
def feAllExcept : BitVec 32 := 0x3d#32

def feInvalid : BitVec 32 := 0x01#32

def feInexact : BitVec 32 := 0x20#32

def feToNearest : BitVec 32 := 0x0000#32

def feDownward : BitVec 32 := 0x0400#32

def feUpward : BitVec 32 := 0x0800#32

def feTowardZero : BitVec 32 := 0x0c00#32

/-- The bits of MXCSR that `fxrstor` faults on. -/
def mxcsrReserved : BitVec 32 := 0xffff0000#32

def fenvRead (hw : Hardware) : FenvT :=
  ⟨hw.control, hw.status &&& x87ExceptionMask, hw.mxcsr⟩

/-- `none` is the fault. -/
def fenvWrite (env : FenvT) (hw : Hardware) : Option Hardware :=
  if env.mxcsr &&& mxcsrReserved ≠ 0 then none
  else some ⟨env.x87Control, (hw.status &&& 0xffc0#16) ||| (env.x87Exceptions &&& x87ExceptionMask), env.mxcsr⟩

/-- `__mini_fe_dfl_env` -/
def feDflEnv : FenvT := ⟨0x037f#16, 0#16, 0x00001f80#32⟩

def publicMask (excepts : BitVec 32) : BitVec 32 := excepts &&& feAllExcept

/-- The result, and what the call stores at a pointer that is not null. -/
def fegetenv (envp : Bool) (hw : Hardware) : BitVec 32 × Option FenvT :=
  if envp then (0, some (fenvRead hw)) else (-1, none)

def fesetenv (envp : Option FenvT) (hw : Hardware) : Option (BitVec 32 × Hardware) :=
  match envp with
  | none => some (-1, hw)
  | some env => (fenvWrite env hw).map fun hw => (0, hw)

def fetestexcept (excepts : BitVec 32) (hw : Hardware) : BitVec 32 :=
  let env := fenvRead hw
  let mask := publicMask excepts
  (env.x87Exceptions.setWidth 32 ||| env.mxcsr) &&& mask

def feclearexcept (excepts : BitVec 32) (hw : Hardware) : Option (BitVec 32 × Hardware) :=
  let env := fenvRead hw
  let mask := publicMask excepts
  let env := { env with
    x87Exceptions := env.x87Exceptions &&& (~~~mask).setWidth 16
    mxcsr := env.mxcsr &&& ~~~mask }
  (fenvWrite env hw).map fun hw => (0, hw)

def feraiseexcept (excepts : BitVec 32) (hw : Hardware) : Option (BitVec 32 × Hardware) :=
  let env := fenvRead hw
  let mask := publicMask excepts
  let env := { env with
    x87Exceptions := env.x87Exceptions ||| mask.setWidth 16
    mxcsr := env.mxcsr ||| mask }
  (fenvWrite env hw).map fun hw => (0, hw)

def fegetexceptflag (flagp : Bool) (excepts : BitVec 32) (hw : Hardware) : BitVec 32 × Option (BitVec 32) :=
  if flagp then (0, some (fetestexcept excepts hw)) else (-1, none)

def fesetexceptflag (flagp : Option (BitVec 32)) (excepts : BitVec 32) (hw : Hardware) :
    Option (BitVec 32 × Hardware) :=
  match flagp with
  | none => some (-1, hw)
  | some flags =>
    let mask := publicMask excepts
    let requested := flags &&& mask
    let env := fenvRead hw
    let env := { env with
      x87Exceptions := ((env.x87Exceptions.setWidth 32 &&& ~~~mask) ||| requested).setWidth 16
      mxcsr := (env.mxcsr &&& ~~~mask) ||| requested }
    (fenvWrite env hw).map fun hw => (0, hw)

def fegetround (hw : Hardware) : BitVec 32 :=
  let env := fenvRead hw
  let x87 := env.x87Control.setWidth 32 &&& x87RoundMask
  let sse := (env.mxcsr &&& mxcsrRoundMask) >>> 3
  if x87 = sse then x87 else -1

def fesetround (round : BitVec 32) (hw : Hardware) : Option (BitVec 32 × Hardware) :=
  let mode := round
  if mode ≠ feToNearest ∧ mode ≠ feDownward ∧ mode ≠ feUpward ∧ mode ≠ feTowardZero then some (-1, hw)
  else
    let env := fenvRead hw
    let env := { env with
      x87Control := ((env.x87Control.setWidth 32 &&& ~~~x87RoundMask) ||| mode).setWidth 16
      mxcsr := (env.mxcsr &&& ~~~mxcsrRoundMask) ||| (mode <<< 3) }
    (fenvWrite env hw).map fun hw => (0, hw)

/-- The result, what the call stores, and the registers. -/
def feholdexcept (envp : Bool) (hw : Hardware) : Option (BitVec 32 × Option FenvT × Hardware) :=
  if envp then
    let env := fenvRead hw
    let held : FenvT :=
      { x87Control := env.x87Control ||| x87ExceptionMask
        x87Exceptions := 0
        mxcsr := (env.mxcsr ||| mxcsrMaskBits) &&& ~~~mxcsrExceptionMask }
    (fenvWrite held hw).map fun hw => (0, some env, hw)
  else some (-1, none, hw)

def feupdateenv (envp : Option FenvT) (hw : Hardware) : Option (BitVec 32 × Hardware) :=
  match envp with
  | none => some (-1, hw)
  | some env => do
    let raised := fetestexcept feAllExcept hw
    let (failed, hw) ← fesetenv (some env) hw
    if failed ≠ 0 then return (-1, hw)
    feraiseexcept raised hw

/-! ## Bits -/

inductive FeException where
  | invalid
  | divByZero
  | overflow
  | underflow
  | inexact
deriving DecidableEq

def FeException.bit : FeException → Nat
  | .invalid => 0
  | .divByZero => 2
  | .overflow => 3
  | .underflow => 4
  | .inexact => 5

theorem FeException.bit_lt (e : FeException) : e.bit < 6 := by
  cases e <;> decide

/-- The exceptions of a mask. -/
def flagsOf {w : Nat} (mask : BitVec w) : Set FeException := {e | mask.getLsbD e.bit = true}

@[simp] theorem mem_flagsOf {w : Nat} {mask : BitVec w} {e : FeException} :
    e ∈ flagsOf mask ↔ mask.getLsbD e.bit = true := Iff.rfl

theorem getLsbD_high {w n k i : Nat} (hn : n < 2 ^ k) (hi : k ≤ i) : (BitVec.ofNat w n).getLsbD i = false := by
  rw [BitVec.getLsbD_ofNat, Nat.testBit_lt_two_pow (hn.trans_le (Nat.pow_le_pow_right (by decide) hi)), Bool.and_false]

theorem publicMask_bit (excepts : BitVec 32) (e : FeException) :
    (publicMask excepts).getLsbD e.bit = excepts.getLsbD e.bit := by
  unfold publicMask
  rw [BitVec.getLsbD_and]
  cases e <;> simp [feAllExcept, FeException.bit]

theorem publicMask_high (excepts : BitVec 32) {i : Nat} (hi : 6 ≤ i) : (publicMask excepts).getLsbD i = false := by
  unfold publicMask feAllExcept
  rw [BitVec.getLsbD_and, getLsbD_high (show 0x3d < 2 ^ 6 by decide) hi, Bool.and_false]

theorem flagsOf_feAllExcept : flagsOf feAllExcept = Set.univ := by
  apply Set.eq_univ_of_forall
  intro e
  cases e <;> rfl

theorem reserved_iff (mxcsr : BitVec 32) : mxcsr &&& mxcsrReserved = 0 ↔ ∀ i, 16 ≤ i → mxcsr.getLsbD i = false := by
  have hbit (i : Nat) : mxcsrReserved.getLsbD i = (decide (16 ≤ i) && decide (i < 32)) := by
    by_cases hi : i < 32
    · interval_cases i <;> rfl
    · rw [BitVec.getLsbD_of_ge _ _ (by omega), decide_eq_false hi, Bool.and_false]
  constructor
  · intro h i hi
    by_cases hlt : i < 32
    · have hzero : (mxcsr &&& mxcsrReserved).getLsbD i = (0 : BitVec 32).getLsbD i := by rw [h]
      rwa [BitVec.getLsbD_and, hbit, decide_eq_true hi, decide_eq_true hlt, Bool.and_self, Bool.and_true,
        BitVec.ofNat_eq_ofNat, BitVec.getLsbD_zero] at hzero
    · exact BitVec.getLsbD_of_ge _ _ (by omega)
  · intro h
    apply BitVec.eq_of_getLsbD_eq
    intro i hi
    rw [BitVec.getLsbD_and, hbit]
    by_cases hle : 16 ≤ i
    · simp [h i hle]
    · simp [hle]

/-! ## What an environment says -/

/-- The purpose of the registers: a rounding mode, the exceptions raised so far, and
for either side which of its six exceptions are masked. -/
@[ext] structure Environment where
  rounding : RoundingMode
  raised : Set FeException
  x87Masked : Set (Fin 6)
  sseMasked : Set (Fin 6)

/-- The program runs on whatever is raised. -/
def Environment.Nonstop (e : Environment) : Prop := e.x87Masked = Set.univ ∧ e.sseMasked = Set.univ

/-- The environment of `FE_DFL_ENV`. -/
def Environment.default : Environment := ⟨.toNearest, ∅, Set.univ, Set.univ⟩

/-- Nothing is raised, and everything is masked. -/
def Environment.held (e : Environment) : Environment := ⟨e.rounding, ∅, Set.univ, Set.univ⟩

theorem Environment.held_nonstop (e : Environment) : e.held.Nonstop := ⟨rfl, rfl⟩

def roundingOf : (downward upward : Bool) → RoundingMode
  | false, false => .toNearest
  | true, false => .downward
  | false, true => .upward
  | true, true => .towardZero

/-- The macro of a mode. -/
def modeCode : RoundingMode → BitVec 32
  | .toNearest => feToNearest
  | .downward => feDownward
  | .upward => feUpward
  | .towardZero => feTowardZero

theorem x87RoundMask_bit (i : Nat) (hi : i < 32) : x87RoundMask.getLsbD i = decide (i = 10 ∨ i = 11) := by
  interval_cases i <;> rfl

theorem mxcsrRoundMask_bit (i : Nat) (hi : i < 32) : mxcsrRoundMask.getLsbD i = decide (i = 13 ∨ i = 14) := by
  interval_cases i <;> rfl

theorem modeCode_bit (m : RoundingMode) (i : Nat) (hi : i < 32) :
    (modeCode m).getLsbD i =
      (decide (i = 10) && decide (m = .downward ∨ m = .towardZero) ||
        decide (i = 11) && decide (m = .upward ∨ m = .towardZero)) := by
  cases m <;> interval_cases i <;> rfl

theorem roundingOf_modeCode (m : RoundingMode) :
    roundingOf ((modeCode m).getLsbD 10) ((modeCode m).getLsbD 11) = m := by
  cases m <;> rfl

namespace FenvT

def view (env : FenvT) : Environment where
  rounding := roundingOf (env.x87Control.getLsbD 10) (env.x87Control.getLsbD 11)
  raised := flagsOf env.x87Exceptions ∪ flagsOf env.mxcsr
  x87Masked := {i | env.x87Control.getLsbD i = true}
  sseMasked := {i | env.mxcsr.getLsbD (7 + i) = true}

/-- Both sides round alike, and nothing that is reserved is set. -/
structure Proper (env : FenvT) : Prop where
  downward : env.mxcsr.getLsbD 13 = env.x87Control.getLsbD 10
  upward : env.mxcsr.getLsbD 14 = env.x87Control.getLsbD 11
  reserved : ∀ i, 16 ≤ i → env.mxcsr.getLsbD i = false

structure Stands (env : FenvT) (e : Environment) : Prop where
  proper : env.Proper
  view : env.view = e

end FenvT

theorem feDflEnv_stands : feDflEnv.Stands .default where
  proper := ⟨rfl, rfl, fun _ hi => getLsbD_high (show 0x1f80 < 2 ^ 16 by decide) hi⟩
  view := by
    have hraised : feDflEnv.view.raised = ∅ := by
      ext e
      cases e <;> simp [FenvT.view, feDflEnv, flagsOf, FeException.bit]
    have hx87 : feDflEnv.view.x87Masked = Set.univ := by
      apply Set.eq_univ_of_forall
      intro i
      fin_cases i <;> rfl
    have hsse : feDflEnv.view.sseMasked = Set.univ := by
      apply Set.eq_univ_of_forall
      intro i
      fin_cases i <;> rfl
    exact Environment.ext rfl hraised hx87 hsse

/-! ## What the functions do to it -/

namespace FenvT.Stands

variable {env : FenvT} {e : Environment}

theorem raised_eq (h : env.Stands e) : e.raised = flagsOf env.x87Exceptions ∪ flagsOf env.mxcsr := by
  rw [← h.view]
  rfl

/-- A change of the flags, for the bits of either side. -/
theorem update (h : env.Stands e) {x87 : BitVec 16} {mxcsr : BitVec 32} {raised : Set FeException}
    (hother : ∀ i, 6 ≤ i → mxcsr.getLsbD i = env.mxcsr.getLsbD i) (hraised : flagsOf x87 ∪ flagsOf mxcsr = raised) :
    (FenvT.mk env.x87Control x87 mxcsr).Stands { e with raised } where
  proper := by
    obtain ⟨hdownward, hupward, hreserved⟩ := h.proper
    refine ⟨?_, ?_, fun i hi => ?_⟩
    · rw [← hdownward]
      exact hother 13 (by decide)
    · rw [← hupward]
      exact hother 14 (by decide)
    · rw [← hreserved i hi]
      exact hother i (by omega)
  view := by
    rw [← h.view, ← hraised]
    have hsse : (FenvT.mk env.x87Control x87 mxcsr).view.sseMasked = env.view.sseMasked := by
      ext i
      exact iff_of_eq (congrArg (· = true) (hother (7 + i) (by omega)))
    unfold FenvT.view at hsse ⊢
    dsimp only at hsse ⊢
    rw [hsse]

/-- What a write leaves to read. -/
theorem write (h : env.Stands e) (hw : Hardware) :
    ∃ hw', fenvWrite env hw = some hw' ∧ (fenvRead hw').Stands e := by
  have hreserved : ¬env.mxcsr &&& mxcsrReserved ≠ 0 := by
    rw [not_not, reserved_iff]
    exact h.proper.reserved
  have hlow (f : FeException) : x87ExceptionMask.getLsbD f.bit = true ∧ (0xffc0#16).getLsbD f.bit = false := by
    cases f <;> decide
  have hflags : flagsOf (((hw.status &&& 0xffc0#16) ||| (env.x87Exceptions &&& x87ExceptionMask)) &&& x87ExceptionMask) =
      flagsOf env.x87Exceptions := by
    ext f
    simp only [mem_flagsOf, BitVec.getLsbD_and, BitVec.getLsbD_or, hlow, Bool.and_false, Bool.and_true, Bool.false_or]
  have hread : (FenvT.mk env.x87Control _ env.mxcsr).Stands { e with raised := e.raised } :=
    h.update (fun _ _ => rfl) (hflags ▸ h.raised_eq.symm)
  exact ⟨⟨env.x87Control, _, env.mxcsr⟩, if_neg hreserved, hread⟩

theorem clear (h : env.Stands e) (excepts : BitVec 32) :
    FenvT.Stands { env with
      x87Exceptions := env.x87Exceptions &&& (~~~publicMask excepts).setWidth 16
      mxcsr := env.mxcsr &&& ~~~publicMask excepts } { e with raised := e.raised \ flagsOf excepts } := by
  refine h.update (fun i hi => ?_) ?_
  · by_cases hlt : i < 32
    · rw [BitVec.getLsbD_and, BitVec.getLsbD_not, publicMask_high excepts hi, decide_eq_true hlt, Bool.not_false,
        Bool.and_self, Bool.and_true]
    · rw [BitVec.getLsbD_of_ge _ _ (by omega), BitVec.getLsbD_of_ge _ _ (by omega)]
  · rw [h.raised_eq]
    ext f
    have := f.bit_lt
    simp only [mem_flagsOf, Set.mem_union, Set.mem_sdiff, BitVec.getLsbD_and, BitVec.getLsbD_setWidth,
      BitVec.getLsbD_not, publicMask_bit, decide_eq_true (show f.bit < 16 by omega),
      decide_eq_true (show f.bit < 32 by omega)]
    grind

theorem raise (h : env.Stands e) (excepts : BitVec 32) :
    FenvT.Stands { env with
      x87Exceptions := env.x87Exceptions ||| (publicMask excepts).setWidth 16
      mxcsr := env.mxcsr ||| publicMask excepts } { e with raised := e.raised ∪ flagsOf excepts } := by
  refine h.update (fun i hi => ?_) ?_
  · rw [BitVec.getLsbD_or, publicMask_high excepts hi, Bool.or_false]
  · rw [h.raised_eq]
    ext f
    have := f.bit_lt
    simp only [mem_flagsOf, Set.mem_union, BitVec.getLsbD_or, BitVec.getLsbD_setWidth, publicMask_bit,
      decide_eq_true (show f.bit < 16 by omega)]
    grind

theorem setFlags (h : env.Stands e) (flags excepts : BitVec 32) :
    FenvT.Stands { env with
      x87Exceptions := ((env.x87Exceptions.setWidth 32 &&& ~~~publicMask excepts) |||
        (flags &&& publicMask excepts)).setWidth 16
      mxcsr := (env.mxcsr &&& ~~~publicMask excepts) ||| (flags &&& publicMask excepts) }
      { e with raised := (e.raised \ flagsOf excepts) ∪ (flagsOf flags ∩ flagsOf excepts) } := by
  refine h.update (fun i hi => ?_) ?_
  · by_cases hlt : i < 32
    · rw [BitVec.getLsbD_or, BitVec.getLsbD_and, BitVec.getLsbD_and, BitVec.getLsbD_not, publicMask_high excepts hi,
        decide_eq_true hlt, Bool.not_false, Bool.and_self, Bool.and_true, Bool.and_false, Bool.or_false]
    · rw [BitVec.getLsbD_of_ge _ _ (by omega), BitVec.getLsbD_of_ge _ _ (by omega)]
  · rw [h.raised_eq]
    ext f
    have := f.bit_lt
    simp only [mem_flagsOf, Set.mem_union, Set.mem_sdiff, Set.mem_inter_iff, BitVec.getLsbD_and,
      BitVec.getLsbD_or, BitVec.getLsbD_setWidth, BitVec.getLsbD_not, publicMask_bit,
      decide_eq_true (show f.bit < 16 by omega), decide_eq_true (show f.bit < 32 by omega)]
    grind

/-- Everything that is not a flag may change. -/
theorem replace {control : BitVec 16} {x87 : BitVec 16} {mxcsr : BitVec 32} {e : Environment}
    (hproper : (FenvT.mk control x87 mxcsr).Proper)
    (hrounding : roundingOf (control.getLsbD 10) (control.getLsbD 11) = e.rounding)
    (hraised : flagsOf x87 ∪ flagsOf mxcsr = e.raised)
    (hx87 : ∀ i : Fin 6, control.getLsbD i = true ↔ i ∈ e.x87Masked)
    (hsse : ∀ i : Fin 6, mxcsr.getLsbD (7 + i) = true ↔ i ∈ e.sseMasked) :
    (FenvT.mk control x87 mxcsr).Stands e where
  proper := hproper
  view := Environment.ext hrounding hraised (Set.ext hx87) (Set.ext hsse)

theorem hold (h : env.Stands e) :
    (FenvT.mk (env.x87Control ||| x87ExceptionMask) 0
      ((env.mxcsr ||| mxcsrMaskBits) &&& ~~~mxcsrExceptionMask)).Stands e.held := by
  obtain ⟨hdownward, hupward, hreserved⟩ := h.proper
  have hcontrol (i : Nat) (hi : 6 ≤ i) : (env.x87Control ||| x87ExceptionMask).getLsbD i = env.x87Control.getLsbD i := by
    rw [BitVec.getLsbD_or, x87ExceptionMask, getLsbD_high (show 0x3f < 2 ^ 6 by decide) hi, Bool.or_false]
  have hmxcsr (i : Nat) (hi : 13 ≤ i) :
      ((env.mxcsr ||| mxcsrMaskBits) &&& ~~~mxcsrExceptionMask).getLsbD i = env.mxcsr.getLsbD i := by
    by_cases hlt : i < 32
    · rw [BitVec.getLsbD_and, BitVec.getLsbD_or, BitVec.getLsbD_not, mxcsrMaskBits, mxcsrExceptionMask,
        getLsbD_high (show 0x1f80 < 2 ^ 13 by decide) hi, getLsbD_high (show 0x3f < 2 ^ 13 by decide) hi,
        decide_eq_true hlt, Bool.or_false, Bool.not_false, Bool.and_self, Bool.and_true]
    · rw [BitVec.getLsbD_of_ge _ _ (by omega), BitVec.getLsbD_of_ge _ _ (by omega)]
  refine replace ⟨?_, ?_, fun i hi => ?_⟩ ?_ ?_ (fun i => iff_of_true ?_ trivial) fun i => iff_of_true ?_ trivial
  · rw [hmxcsr 13 (by decide), hcontrol 10 (by decide), hdownward]
  · rw [hmxcsr 14 (by decide), hcontrol 11 (by decide), hupward]
  · rw [hmxcsr i (by omega), hreserved i hi]
  · rw [hcontrol 10 (by decide), hcontrol 11 (by decide), ← h.view]
    rfl
  · ext f
    have hlow : mxcsrExceptionMask.getLsbD f.bit = true := by
      cases f <;> decide
    simp [hlow, Environment.held]
  · rw [BitVec.getLsbD_or]
    fin_cases i <;> exact Bool.or_true _
  · rw [BitVec.getLsbD_and, BitVec.getLsbD_or]
    fin_cases i <;> simp [mxcsrMaskBits, mxcsrExceptionMask]

theorem setRound (h : env.Stands e) (m : RoundingMode) :
    FenvT.Stands { env with
      x87Control := ((env.x87Control.setWidth 32 &&& ~~~x87RoundMask) ||| modeCode m).setWidth 16
      mxcsr := (env.mxcsr &&& ~~~mxcsrRoundMask) ||| (modeCode m <<< 3) } { e with rounding := m } := by
  obtain ⟨-, -, hreserved⟩ := h.proper
  have hcontrol (i : Nat) (hi : i < 16) :
      (((env.x87Control.setWidth 32 &&& ~~~x87RoundMask) ||| modeCode m).setWidth 16).getLsbD i =
        if i = 10 ∨ i = 11 then (modeCode m).getLsbD i else env.x87Control.getLsbD i := by
    have hlt : i < 32 := by omega
    rw [BitVec.getLsbD_setWidth, BitVec.getLsbD_or, BitVec.getLsbD_and, BitVec.getLsbD_not, BitVec.getLsbD_setWidth,
      x87RoundMask_bit i hlt, modeCode_bit m i hlt, decide_eq_true hi, decide_eq_true hlt]
    grind
  have hmxcsr (i : Nat) (hi : i < 32) : ((env.mxcsr &&& ~~~mxcsrRoundMask) ||| (modeCode m <<< 3)).getLsbD i =
      if i = 13 ∨ i = 14 then (modeCode m).getLsbD (i - 3) else env.mxcsr.getLsbD i := by
    rw [BitVec.getLsbD_or, BitVec.getLsbD_and, BitVec.getLsbD_not, BitVec.getLsbD_shiftLeft, mxcsrRoundMask_bit i hi,
      modeCode_bit m (i - 3) (by omega), decide_eq_true hi]
    grind
  refine replace ⟨?_, ?_, fun i hi => ?_⟩ ?_ ?_ (fun i => ?_) fun i => ?_
  · rw [hmxcsr 13 (by decide), hcontrol 10 (by decide)]
    rfl
  · rw [hmxcsr 14 (by decide), hcontrol 11 (by decide)]
    rfl
  · by_cases hlt : i < 32
    · rw [hmxcsr i hlt, if_neg (by omega), hreserved i hi]
    · exact BitVec.getLsbD_of_ge _ _ (by omega)
  · rw [hcontrol 10 (by decide), hcontrol 11 (by decide)]
    exact roundingOf_modeCode m
  · rw [h.raised_eq]
    congr 1
    ext f
    have := f.bit_lt
    rw [mem_flagsOf, mem_flagsOf, hmxcsr f.bit (by omega), if_neg (by omega)]
  · rw [hcontrol i (by omega), if_neg (by omega), ← h.view]
    rfl
  · rw [hmxcsr (7 + i) (by omega), if_neg (by omega), ← h.view]
    rfl

end FenvT.Stands

/-! ## The functions -/

section Functions

variable {hw : Hardware} {e : Environment}

theorem fetestexcept_spec (h : (fenvRead hw).Stands e) (excepts : BitVec 32) :
    flagsOf (fetestexcept excepts hw) = e.raised ∩ flagsOf excepts ∧
      publicMask (fetestexcept excepts hw) = fetestexcept excepts hw := by
  constructor
  · rw [h.raised_eq]
    ext f
    have := f.bit_lt
    unfold fetestexcept
    simp only [mem_flagsOf, Set.mem_inter_iff, Set.mem_union, BitVec.getLsbD_and, BitVec.getLsbD_or,
      BitVec.getLsbD_setWidth, publicMask_bit, decide_eq_true (show f.bit < 32 by omega)]
    grind
  · unfold fetestexcept publicMask
    rw [BitVec.and_assoc, BitVec.and_assoc, BitVec.and_self]

theorem feclearexcept_spec (h : (fenvRead hw).Stands e) (excepts : BitVec 32) :
    ∃ hw', feclearexcept excepts hw = some (0, hw') ∧
      (fenvRead hw').Stands { e with raised := e.raised \ flagsOf excepts } := by
  obtain ⟨hw', hwrite, hstands⟩ := (h.clear excepts).write hw
  refine ⟨hw', ?_, hstands⟩
  unfold feclearexcept
  dsimp only
  rw [hwrite]
  rfl

theorem feraiseexcept_spec (h : (fenvRead hw).Stands e) (excepts : BitVec 32) :
    ∃ hw', feraiseexcept excepts hw = some (0, hw') ∧
      (fenvRead hw').Stands { e with raised := e.raised ∪ flagsOf excepts } := by
  obtain ⟨hw', hwrite, hstands⟩ := (h.raise excepts).write hw
  refine ⟨hw', ?_, hstands⟩
  unfold feraiseexcept
  dsimp only
  rw [hwrite]
  rfl

theorem fesetexceptflag_spec (h : (fenvRead hw).Stands e) (flags excepts : BitVec 32) :
    ∃ hw', fesetexceptflag (some flags) excepts hw = some (0, hw') ∧
      (fenvRead hw').Stands { e with raised := (e.raised \ flagsOf excepts) ∪ (flagsOf flags ∩ flagsOf excepts) } := by
  obtain ⟨hw', hwrite, hstands⟩ := (h.setFlags flags excepts).write hw
  refine ⟨hw', ?_, hstands⟩
  unfold fesetexceptflag
  dsimp only
  rw [hwrite]
  rfl

theorem fegetround_spec (h : (fenvRead hw).Stands e) : fegetround hw = modeCode e.rounding := by
  obtain ⟨hdownward, hupward, -⟩ := h.proper
  have hrounding : e.rounding = roundingOf (hw.control.getLsbD 10) (hw.control.getLsbD 11) := by
    rw [← h.view]
    rfl
  have hcode : (modeCode e.rounding).getLsbD 10 = hw.control.getLsbD 10 ∧
      (modeCode e.rounding).getLsbD 11 = hw.control.getLsbD 11 := by
    rw [hrounding]
    cases hw.control.getLsbD 10 <;> cases hw.control.getLsbD 11 <;> exact ⟨rfl, rfl⟩
  have hleft : hw.control.setWidth 32 &&& x87RoundMask = modeCode e.rounding := by
    apply BitVec.eq_of_getLsbD_eq
    intro i hi
    rw [BitVec.getLsbD_and, BitVec.getLsbD_setWidth, x87RoundMask_bit i hi, decide_eq_true hi, Bool.true_and]
    by_cases hfield : i = 10 ∨ i = 11
    · rw [decide_eq_true hfield, Bool.and_true]
      rcases hfield with rfl | rfl
      · exact hcode.1.symm
      · exact hcode.2.symm
    · rw [modeCode_bit _ i hi, decide_eq_false hfield, decide_eq_false (show ¬i = 10 by omega),
        decide_eq_false (show ¬i = 11 by omega)]
      simp
  have hright : (hw.mxcsr &&& mxcsrRoundMask) >>> 3 = modeCode e.rounding := by
    apply BitVec.eq_of_getLsbD_eq
    intro i hi
    rw [BitVec.getLsbD_ushiftRight, BitVec.getLsbD_and]
    by_cases hfield : i = 10 ∨ i = 11
    · rw [mxcsrRoundMask_bit _ (by omega), decide_eq_true (by omega), Bool.and_true]
      rcases hfield with rfl | rfl
      · exact hdownward.trans hcode.1.symm
      · exact hupward.trans hcode.2.symm
    · rw [modeCode_bit _ i hi, decide_eq_false (show ¬i = 10 by omega), decide_eq_false (show ¬i = 11 by omega)]
      by_cases hlt : 3 + i < 32
      · rw [mxcsrRoundMask_bit _ hlt, decide_eq_false (by omega)]
        simp
      · rw [BitVec.getLsbD_of_ge _ _ (by omega)]
        simp
  unfold fegetround
  dsimp only [fenvRead]
  rw [hleft, hright, if_pos rfl]

theorem fesetround_spec (h : (fenvRead hw).Stands e) (m : RoundingMode) :
    ∃ hw', fesetround (modeCode m) hw = some (0, hw') ∧ (fenvRead hw').Stands { e with rounding := m } := by
  obtain ⟨hw', hwrite, hstands⟩ := (h.setRound m).write hw
  refine ⟨hw', ?_, hstands⟩
  have hvalid : ¬(modeCode m ≠ feToNearest ∧ modeCode m ≠ feDownward ∧ modeCode m ≠ feUpward ∧
      modeCode m ≠ feTowardZero) := by
    cases m <;> decide
  unfold fesetround
  dsimp only
  rw [if_neg hvalid, hwrite]
  rfl

/-- A value that is no mode. -/
theorem fesetround_refused {round : BitVec 32} (h : ∀ m, round ≠ modeCode m) (hw : Hardware) :
    fesetround round hw = some (-1, hw) :=
  if_pos ⟨h .toNearest, h .downward, h .upward, h .towardZero⟩

theorem fesetenv_spec {env : FenvT} (h : env.Stands e) (hw : Hardware) :
    ∃ hw', fesetenv (some env) hw = some (0, hw') ∧ (fenvRead hw').Stands e := by
  obtain ⟨hw', hwrite, hstands⟩ := h.write hw
  refine ⟨hw', ?_, hstands⟩
  unfold fesetenv
  dsimp only
  rw [hwrite]
  rfl

theorem feholdexcept_spec (h : (fenvRead hw).Stands e) :
    ∃ hw', feholdexcept true hw = some (0, some (fenvRead hw), hw') ∧ (fenvRead hw').Stands e.held := by
  obtain ⟨hw', hwrite, hstands⟩ := h.hold.write hw
  refine ⟨hw', ?_, hstands⟩
  unfold feholdexcept
  dsimp only
  rw [if_pos rfl, hwrite]
  rfl

theorem feupdateenv_spec (h : (fenvRead hw).Stands e) {env : FenvT} {saved : Environment} (hs : env.Stands saved) :
    ∃ hw', feupdateenv (some env) hw = some (0, hw') ∧
      (fenvRead hw').Stands { saved with raised := saved.raised ∪ e.raised } := by
  obtain ⟨hw₁, hset, hstands⟩ := fesetenv_spec hs hw
  obtain ⟨hw', hraise, hstands'⟩ := feraiseexcept_spec hstands (fetestexcept feAllExcept hw)
  have hall : flagsOf (fetestexcept feAllExcept hw) = e.raised := by
    rw [(fetestexcept_spec h feAllExcept).1, flagsOf_feAllExcept, Set.inter_univ]
  rw [hall] at hstands'
  refine ⟨hw', ?_, hstands'⟩
  unfold feupdateenv
  simp [hset, hraise]

end Functions

end MiniLibc.Fenv
